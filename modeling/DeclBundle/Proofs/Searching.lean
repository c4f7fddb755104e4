import DeclBundle.Proofs.Positions
import DeclBundle.Script.Reader

/-!
# Searching texts

What a text starts with and ends with, and where in it a mark occurs first (`Script.find?_cases`). A
mark that stands at two places in a text, each time as the first one, stands at one place
(`Text.eq_of_first`).
-/

set_option autoImplicit false

namespace DeclBundle

namespace Text

/-! ## Leads and endings -/

theorem after?_eq_some_iff {lead cs r : List Char} : after? lead cs = some r ↔ cs = lead ++ r := by
  induction lead generalizing cs with
  | nil => exact Option.some_inj
  | cons a lead ih =>
    cases cs with
    | nil => simp [after?]
    | cons c cs =>
      rw [after?]
      split
      · next heq => rw [ih, heq, List.cons_append, List.cons.injEq, eq_self, true_and]
      · next hne => simp [Ne.symm hne]

theorem before?_eq_some_iff {tail cs r : List Char} : before? tail cs = some r ↔
    cs = r ++ tail := by
  rw [before?, Option.map_eq_some_iff]
  constructor
  · rintro ⟨r', h, rfl⟩
    rw [← List.reverse_reverse cs, after?_eq_some_iff.1 h, List.reverse_append,
      List.reverse_reverse]
  · rintro rfl
    exact ⟨r.reverse, after?_eq_some_iff.2 List.reverse_append, List.reverse_reverse r⟩

theorem startsWith_iff {lead cs : List Char} : startsWith lead cs = true ↔ ∃ r, cs = lead ++ r := by
  rw [startsWith, Option.isSome_iff_exists]
  exact exists_congr fun r => after?_eq_some_iff

theorem startsWith_append {lead cs : List Char} (r : List Char) (h : startsWith lead cs = true) :
    startsWith lead (cs ++ r) = true := by
  obtain ⟨front, rfl⟩ := startsWith_iff.1 h
  exact startsWith_iff.2 ⟨front ++ r, List.append_assoc _ _ _⟩

theorem endsWith_iff {tail cs : List Char} : endsWith tail cs = true ↔ ∃ r, cs = r ++ tail := by
  rw [endsWith, Option.isSome_iff_exists]
  exact exists_congr fun r => before?_eq_some_iff

namespace Cursor

theorem seek_append (us r : List Char) (o : Nat) :
    seek ⟨us ++ r, o⟩ (o + byteLength us) = ⟨r, o + byteLength us⟩ := by
  have hgo (us : List Char) (o : Nat) : seek.go (o + byteLength us) (us ++ r) o =
      ⟨r, o + byteLength us⟩ := by
    induction us generalizing o with
    | nil => cases r <;> simp [seek.go]
    | cons x us ih =>
      have hpos := x.utf8Size_pos
      rw [byteLength_cons, List.cons_append, seek.go, if_pos (by omega), ← Nat.add_assoc, ih]
  exact hgo us o

end Cursor

/-! ## First occurrences -/

/-- No occurrence of a mark stands before its first one. -/
theorem prefix_of_first {mark us us' r r' : List Char} (h : ¬mark <:+: us ++ mark.dropLast)
    (heq : us ++ (mark ++ r) = us' ++ (mark ++ r')) : us <+: us' := by
  rcases List.append_eq_append_iff.1 heq with ⟨ms, hms, -⟩ | ⟨ms, hms, hrest⟩
  · exact ⟨ms, hms.symm⟩
  cases ms with
  | nil => exact ⟨[], by rw [hms, List.append_nil, List.append_nil]⟩
  | cons x ms =>
    -- The mark behind the shorter text would stand inside of the longer one.
    refine absurd ?_ h
    have hlong : mark.length ≤ (x :: ms ++ mark.dropLast).length := by simp; omega
    have hstart : mark <+: x :: ms ++ mark.dropLast := by
      refine List.prefix_of_prefix_length_le ⟨r', hrest⟩ ?_ hlong
      exact (List.prefix_append_right_inj _).2
        ((List.dropLast_prefix mark).trans (List.prefix_append _ _))
    rw [hms, List.append_assoc]
    exact hstart.isInfix.trans (List.suffix_append _ _).isInfix

/-- Two ways to cut a text before an occurrence of a mark are the same when nothing before it holds
another one. -/
theorem eq_of_first {mark us us' r r' : List Char} (h : ¬mark <:+: us ++ mark.dropLast)
    (h' : ¬mark <:+: us' ++ mark.dropLast)
    (heq : us ++ (mark ++ r) = us' ++ (mark ++ r')) : us = us' :=
  (prefix_of_first h heq).eq_of_length_le (prefix_of_first h' heq.symm).length_le

end Text

namespace Script

open Text

/-- A search finds the first occurrence of a mark, if there is one. -/
theorem find?_cases {mark : List Char} (hmark : mark ≠ []) (cs : List Char) (o : Nat) :
    ¬mark <:+: cs ∧ find? mark ⟨cs, o⟩ = none ∨
      ∃ us r, cs = us ++ (mark ++ r) ∧ ¬mark <:+: us ++ mark.dropLast ∧
        find? mark ⟨cs, o⟩ = some ⟨mark ++ r, o + byteLength us⟩ := by
  have hpos : 0 < mark.length := List.length_pos_of_ne_nil hmark
  have hshort : ¬mark <:+: mark.dropLast := fun h => by
    have hle := h.length_le
    rw [List.length_dropLast] at hle
    omega
  have hgo (o : Nat) : find? mark ⟨cs, o⟩ = find?.go mark cs o := rfl
  simp only [hgo]
  induction cs generalizing o with
  | nil => exact .inl ⟨fun h => hmark (List.infix_nil.1 h), by simp [find?.go, hmark]⟩
  | cons x cs ih =>
    rw [find?.go]
    by_cases hstart : startsWith mark (x :: cs) = true
    · obtain ⟨r, hr⟩ := startsWith_iff.1 hstart
      exact .inr ⟨[], r, hr, hshort, by rw [if_pos hstart, hr]; rfl⟩
    · have hno : ¬mark <+: x :: cs := fun ⟨r, hr⟩ => hstart (startsWith_iff.2 ⟨r, hr.symm⟩)
      rw [if_neg hstart]
      rcases ih (o + x.utf8Size) (fun _ => rfl) with ⟨hnone, hfind⟩ | ⟨us, r, rfl, hfirst, hfind⟩
      · exact .inl ⟨fun h => (List.infix_cons_iff.1 h).elim hno hnone, hfind⟩
      · refine .inr ⟨x :: us, r, rfl, fun h => ?_, by rw [hfind, byteLength_cons, Nat.add_assoc]⟩
        refine (List.infix_cons_iff.1 h).elim (fun hlead => hno (hlead.trans ?_)) hfirst
        refine List.cons_prefix_cons.2 ⟨rfl, (List.prefix_append_right_inj _).2 ?_⟩
        exact (List.dropLast_prefix mark).trans (List.prefix_append _ _)

/-- A mark is found where it stands first. -/
theorem find?_of_first {mark us : List Char} (hmark : mark ≠ [])
    (h : ¬mark <:+: us ++ mark.dropLast) (r : List Char) (o : Nat) :
    find? mark ⟨us ++ (mark ++ r), o⟩ = some ⟨mark ++ r, o + byteLength us⟩ := by
  rcases find?_cases hmark (us ++ (mark ++ r)) o with ⟨hno, -⟩ | ⟨us', r', heq, hfirst, hfind⟩
  · exact absurd ⟨us, r, by simp⟩ hno
  · obtain rfl := eq_of_first h hfirst heq
    obtain rfl := List.append_cancel_left (List.append_cancel_left heq)
    exact hfind

end Script

end DeclBundle
