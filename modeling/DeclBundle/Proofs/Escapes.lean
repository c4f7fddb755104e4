import DeclBundle.Token.Literal
import DeclBundle.Proofs.Positions

/-!
# How far strings and their escapes reach

An escape takes some characters after its letter, and none of them is a backslash
(`takesNoBackslash_escape`). So backslashes pair up from left to right, and a string ends in the
text, unless the text ends in a backslash that escapes nothing (`readQuoted_stop`): this backslash
counts for a character beyond the end.
-/

set_option autoImplicit false

namespace DeclBundle.Literal

open Text
open Cursor (Reaches ReadsTo readsTo_cons)

/-! ## The numbers of escapes -/

/-- The number so far with one digit more. -/
def addDigit (n : Option Nat) (c : Char) : Option Nat :=
  match n, hexValue? c with
  | some n, some d => some (n * 16 + d)
  | _, _ => none

/-- The digits of a number, without a plus sign. -/
def unsigned (cs : List Char) : List Char :=
  match cs with
  | '+' :: r => r
  | _ => cs

theorem hexNumber?_eq_some {cs : List Char} {n : Nat} :
    hexNumber? cs = some n ↔
      unsigned cs ≠ [] ∧ (unsigned cs).foldl addDigit (some 0) = some n ∧ n < 0x100000000 := by
  have hdef : hexNumber? cs = if (unsigned cs).isEmpty then none
      else match (unsigned cs).foldl addDigit (some 0) with
        | some n => if n < 0x100000000 then some n else none
        | none => none := rfl
  rw [hdef]
  generalize (unsigned cs).foldl addDigit (some 0) = found
  cases found with
  | none => simp
  | some m =>
    simp only [List.isEmpty_iff, Option.some.injEq]
    split_ifs with hempty hlt
    · simp [hempty]
    · simp only [Option.some.injEq, hempty, not_false_eq_true, true_and, ne_eq]
      exact ⟨fun h => ⟨h, h ▸ hlt⟩, fun h => h.1⟩
    · simp only [hempty, not_false_eq_true, true_and, ne_eq, false_iff, not_and]
      rintro rfl
      exact hlt

theorem isHexDigit_of_foldl {cs : List Char} {a : Option Nat} {n : Nat}
    (h : cs.foldl addDigit a = some n) :
    ∀ y ∈ cs, isHexDigit y = true := by
  have hnone (cs : List Char) : cs.foldl addDigit none = none := by
    induction cs with
    | nil => rfl
    | cons c cs ih => exact ih
  induction cs generalizing a with
  | nil => simp
  | cons c cs ih =>
    rw [List.foldl_cons] at h
    rw [List.forall_mem_cons]
    refine ⟨?_, ih h⟩
    by_contra hhex
    have hdigit : addDigit a c = none := by
      cases hvalue : hexValue? c with
      | none => simp [addDigit, hvalue]
      | some d => exact absurd (by simp [isHexDigit, hvalue]) hhex
    rw [hdigit, hnone] at h
    cases h

theorem utf8Size_of_isHexDigit {c : Char} (h : isHexDigit c = true) : c.utf8Size = 1 := by
  rw [Char.utf8Size_eq_one_iff, UInt32.le_iff_toNat_le]
  unfold isHexDigit hexValue? at h
  split_ifs at h with hdigit hlower hupper
  · simp only [Char.isDigit, Bool.and_eq_true, decide_eq_true_eq, UInt32.le_iff_toNat_le] at hdigit
    exact Nat.le_trans hdigit.2 (by decide)
  · simp only [Char.le_def, UInt32.le_iff_toNat_le] at hlower
    exact Nat.le_trans hlower.2 (by decide)
  · simp only [Char.le_def, UInt32.le_iff_toNat_le] at hupper
    exact Nat.le_trans hupper.2 (by decide)
  · cases h

theorem ne_backslash_of_isHexDigit {c : Char} (h : isHexDigit c = true) : c ≠ '\\' := by
  rintro rfl
  cases h

/-- A number is written with characters of one byte that are no backslashes. -/
theorem ne_backslash_of_hexNumber? {cs : List Char} {n : Nat} (h : hexNumber? cs = some n) :
    ∀ y ∈ cs, y ≠ '\\' ∧ y.utf8Size = 1 := by
  have hdigits : ∀ y ∈ unsigned cs, y ≠ '\\' ∧ y.utf8Size = 1 := fun y hy =>
    have hhex := isHexDigit_of_foldl (hexNumber?_eq_some.1 h).2.1 y hy
    ⟨ne_backslash_of_isHexDigit hhex, utf8Size_of_isHexDigit hhex⟩
  unfold unsigned at hdigits
  split at hdigits
  · rw [List.forall_mem_cons]
    exact ⟨⟨by decide, rfl⟩, hdigits⟩
  · exact hdigits

theorem take_of_takeBytes? {n : Nat} {cs us : List Char} (h : takeBytes? n cs = some us)
    (hone : ∀ y ∈ us, y.utf8Size = 1) : cs.take n = us := by
  obtain ⟨r, rfl, hn⟩ := Cursor.slice?_eq_some h
  have hlength : byteLength us = us.length := by
    clear h hn
    induction us with
    | nil => rfl
    | cons y us ih =>
      rw [List.forall_mem_cons] at hone
      rw [byteLength_cons, hone.1, ih hone.2, List.length_cons, Nat.add_comm]
  rw [show n = us.length by simpa [Cursor.atStart, hlength] using hn, List.take_left]

/-- The digits of an escape with a fixed number of them. -/
theorem ne_backslash_of_takeBytes? {n : Nat} {cs : List Char} {ch : Char}
    (h : ((takeBytes? n cs).bind hexNumber?).bind scalar? = some ch) :
    ∀ y ∈ cs.take n, y ≠ '\\' := by
  obtain ⟨m, hm, -⟩ := Option.bind_eq_some_iff.1 h
  obtain ⟨us, hus, hnumber⟩ := Option.bind_eq_some_iff.1 hm
  have hdigits := ne_backslash_of_hexNumber? hnumber
  rw [take_of_takeBytes? hus fun y hy => (hdigits y hy).2]
  exact fun y hy => (hdigits y hy).1

/-- The characters that an escape takes after its letter are no backslashes. -/
def Escape.TakesNoBackslash (r : List Char) (e : Escape) : Prop := ∀ y ∈ r.take e.taken, y ≠ '\\'

theorem takesNoBackslash_zero (r value : List Char) : Escape.TakesNoBackslash r ⟨value, 0⟩ := by
  simp [Escape.TakesNoBackslash]

theorem takesNoBackslash_ite {b : Prop} [Decidable b] {r : List Char} {e e' : Escape}
    (h : e.TakesNoBackslash r) (h' : e'.TakesNoBackslash r) :
    (if b then e else e').TakesNoBackslash r := by
  split
  · exact h
  · exact h'

theorem takesNoBackslash_shortEscape (r : List Char) : (shortEscape r).TakesNoBackslash r := by
  unfold shortEscape
  split
  · next h => exact ne_backslash_of_takeBytes? h
  · exact takesNoBackslash_zero r _

/-- The digits up to the closing brace, and the brace when it is there. -/
theorem ne_backslash_of_braced {r : List Char} {n : Nat}
    (h : hexNumber? (r.takeWhile (· != '\x7d')) = some n) :
    ∀ y ∈ r.take ((r.takeWhile (· != '\x7d')).length + 1), y ≠ '\\' := by
  have hdigits := ne_backslash_of_hexNumber? h
  have hbrace := List.head?_dropWhile_not (· != '\x7d') r
  have htake : r.take ((r.takeWhile (· != '\x7d')).length + 1) =
      r.takeWhile (· != '\x7d') ++ (r.dropWhile (· != '\x7d')).take 1 := by
    rw [← List.take_length_add_append, List.takeWhile_append_dropWhile]
  intro y hy
  rw [htake, List.mem_append] at hy
  rcases hy with hy | hy
  · exact (hdigits y hy).1
  · cases hrest : r.dropWhile (· != '\x7d') with
    | nil => simp [hrest] at hy
    | cons z rest =>
      obtain rfl : y = z := by simpa [hrest] using hy
      obtain rfl : y = '\x7d' := by simpa [hrest] using hbrace
      decide

theorem takesNoBackslash_longEscape (r : List Char) : (longEscape r).TakesNoBackslash r := by
  unfold longEscape
  split
  · next r' =>
    dsimp only
    split
    · next h =>
      obtain ⟨n, hnumber, -⟩ := Option.bind_eq_some_iff.1 h
      intro y hy
      rcases List.mem_cons.1 (List.take_succ_cons ▸ hy) with rfl | hy
      · decide
      · exact ne_backslash_of_braced hnumber y hy
    · exact takesNoBackslash_zero _ _
  · split
    · next h => exact ne_backslash_of_takeBytes? h
    · exact takesNoBackslash_zero _ _

theorem takesNoBackslash_escape (c : Char) (r : List Char) : (escape c r).TakesNoBackslash r := by
  have hnone (value : List Char) := takesNoBackslash_zero r value
  -- A carriage return takes the line feed that follows.
  have hreturn : Escape.TakesNoBackslash r ⟨[], if r.head? == some '\n' then 1 else 0⟩ := by
    cases r with
    | nil => simp [Escape.TakesNoBackslash]
    | cons x r =>
      by_cases hx : x = '\n' <;> simp [Escape.TakesNoBackslash, hx]
  unfold escape
  iterate 7 refine takesNoBackslash_ite (hnone _) ?_
  refine takesNoBackslash_ite (takesNoBackslash_shortEscape r) ?_
  refine takesNoBackslash_ite (takesNoBackslash_longEscape r) ?_
  exact takesNoBackslash_ite hreturn (takesNoBackslash_ite (hnone _) (hnone _))

/-! ## Where a string ends -/

/-- The characters end in a backslash that escapes nothing; `escaped` says whether the first of them
is escaped. -/
def endsEscaping (escaped : Bool) : List Char → Bool
  | [] => escaped
  | c :: r => endsEscaping (!escaped && c == '\\') r

theorem endsEscaping_cons_of_ne {c : Char} (h : c ≠ '\\') (escaped : Bool) (r : List Char) :
    endsEscaping escaped (c :: r) = endsEscaping false r := by
  rw [endsEscaping, beq_false_of_ne h, Bool.and_false]

theorem endsEscaping_append_cons {c : Char} (h : c ≠ '\\') (escaped : Bool) (us r : List Char) :
    endsEscaping escaped (us ++ c :: r) = endsEscaping false r := by
  induction us generalizing escaped with
  | nil => exact endsEscaping_cons_of_ne h escaped r
  | cons x us ih => exact ih _

theorem endsEscaping_concat (escaped : Bool) (us : List Char) (c : Char) :
    endsEscaping escaped (us ++ [c]) = (!endsEscaping escaped us && c == '\\') := by
  induction us generalizing escaped with
  | nil => rfl
  | cons x us ih => exact ih _

/-- Of an odd number of backslashes the last escapes nothing. -/
theorem endsEscaping_iff (cs : List Char) :
    endsEscaping false cs = true ↔ Odd (cs.rtakeWhile (· == '\\')).length := by
  induction cs using List.reverseRecOn with
  | nil => simp [endsEscaping]
  | append_singleton us c ih =>
    rw [endsEscaping_concat, List.rtakeWhile_concat]
    by_cases hc : c = '\\'
    · rw [if_pos (beq_iff_eq.2 hc), List.length_append, List.length_singleton,
        Nat.odd_add_one, ← ih]
      simp [hc]
    · simp [hc]

/-- After a backslash. -/
def QuotePlace.isEscape : QuotePlace → Bool
  | .escape => true
  | _ => false

/-- What is left of an escape has no backslash. -/
def QuotePlace.IsSound (cs : List Char) : QuotePlace → Prop
  | .rest left => 0 < left ∧ ∀ y ∈ cs.take left, y ≠ '\\'
  | _ => True

/-- A string ends in the text, or one byte beyond it when a backslash at the end of the text escapes
nothing. -/
theorem readQuoted_stop {quote : Char} (hquote : quote ≠ '\\') (place : QuotePlace)
    (value cs : List Char) (o : Nat) (hplace : place.IsSound cs) :
    let stop := (readQuoted quote place value cs o).stop
    ReadsTo ⟨cs, o⟩ stop ∧ (stop.rest = [] → endsEscaping place.isEscape cs = false) ∨
      stop = ⟨[], o + byteLength cs + 1⟩ ∧ endsEscaping place.isEscape cs = true := by
  induction cs generalizing place value o with
  | nil =>
    cases place with
    | escape => exact .inr ⟨rfl, rfl⟩
    | plain => exact .inl ⟨.refl _, fun _ => rfl⟩
    | rest left => exact .inl ⟨.refl _, fun _ => rfl⟩
  | cons x r ih =>
    -- The reader goes on after `x`, and backslashes pair up as before.
    have hnext (place' : QuotePlace) (value' : List Char) (hplace' : place'.IsSound r)
        (hends : endsEscaping place'.isEscape r = endsEscaping place.isEscape (x :: r))
        (hread : readQuoted quote place value (x :: r) o =
          readQuoted quote place' value' r (o + x.utf8Size)) :
        ReadsTo ⟨x :: r, o⟩ (readQuoted quote place value (x :: r) o).stop ∧
            ((readQuoted quote place value (x :: r) o).stop.rest = [] →
              endsEscaping place.isEscape (x :: r) = false) ∨
          (readQuoted quote place value (x :: r) o).stop = ⟨[], o + byteLength (x :: r) + 1⟩ ∧
            endsEscaping place.isEscape (x :: r) = true := by
      rw [hread, ← hends, byteLength_cons, ← Nat.add_assoc]
      exact (ih place' value' _ hplace').imp_left fun h => ⟨h.1.cons, h.2⟩
    cases place with
    | plain =>
      by_cases hclose : x = quote
      · subst hclose
        refine .inl ⟨by simpa [readQuoted] using readsTo_cons x r o, fun hnil => ?_⟩
        obtain rfl : r = [] := by simpa [readQuoted] using hnil
        exact endsEscaping_cons_of_ne hquote _ _
      by_cases hline : isLineEnd x = true
      · exact .inl (by simp [readQuoted, hclose, hline, ReadsTo.refl])
      by_cases hslash : x = '\\'
      · subst hslash
        exact hnext .escape value trivial rfl (by simp [readQuoted, hclose, hline])
      · exact hnext .plain (x :: value) trivial (endsEscaping_cons_of_ne hslash _ _).symm
          (by simp [readQuoted, hclose, hline, hslash])
    | escape =>
      have hread : readQuoted quote .escape value (x :: r) o =
          readQuoted quote (if (escape x r).taken = 0 then .plain else .rest (escape x r).taken)
            ((escape x r).value.reverse ++ value) r (o + x.utf8Size) := rfl
      split_ifs at hread with hzero
      · exact hnext .plain _ trivial rfl hread
      · exact hnext (.rest _) _ ⟨Nat.pos_of_ne_zero hzero, takesNoBackslash_escape x r⟩ rfl hread
    | rest left =>
      obtain ⟨hpos, htake⟩ := hplace
      have hread : readQuoted quote (.rest left) value (x :: r) o =
          readQuoted quote (if left ≤ 1 then .plain else .rest (left - 1)) value r
            (o + x.utf8Size) := rfl
      obtain ⟨left, rfl⟩ := Nat.exists_eq_add_of_le' hpos
      rw [List.take_succ_cons, List.forall_mem_cons] at htake
      have hends : endsEscaping false r = endsEscaping false (x :: r) :=
        (endsEscaping_cons_of_ne htake.1 _ _).symm
      split_ifs at hread with hone
      · exact hnext .plain value trivial hends hread
      · exact hnext (.rest left) value ⟨by omega, htake.2⟩ hends hread

/-- A string goes forward. -/
theorem reaches_readQuoted {quote : Char} (hquote : quote ≠ '\\') (value cs : List Char) (o : Nat) :
    Reaches ⟨cs, o⟩ (readQuoted quote .plain value cs o).stop := by
  rcases readQuoted_stop hquote .plain value cs o trivial with ⟨h, -⟩ | ⟨h, -⟩
  · exact h.reaches
  · rw [h]
    have := length_le_byteLength cs
    constructor <;> simp only [List.length_nil] <;> omega

end DeclBundle.Literal
