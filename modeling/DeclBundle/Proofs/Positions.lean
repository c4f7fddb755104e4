import DeclBundle.Text.Cursor
import Mathlib

/-!
# Going forward in a text

A reader takes characters and counts their bytes (`Text.Cursor.ReadsTo`). So what it leaves is no
longer than what it was given, and its offset grows by a byte at least for each character
(`Text.Cursor.Reaches`).
-/

set_option autoImplicit false

namespace DeclBundle

namespace Text

@[simp] theorem byteLength_append (us cs : List Char) :
    byteLength (us ++ cs) = byteLength us + byteLength cs := by
  induction us with
  | nil => rw [List.nil_append, byteLength_nil, Nat.zero_add]
  | cons x us ih => rw [List.cons_append, byteLength_cons, byteLength_cons, ih, Nat.add_assoc]

theorem length_le_byteLength (cs : List Char) : cs.length ≤ byteLength cs := by
  induction cs with
  | nil => exact Nat.le_refl 0
  | cons x cs ih =>
    have := x.utf8Size_pos
    rw [byteLength_cons, List.length_cons]
    omega

namespace Cursor

/-- A position lies behind another one, or is the same: what remains has not grown, and each
character that was passed counts for one byte at least. -/
def Reaches (c d : Cursor) : Prop :=
  d.rest.length ≤ c.rest.length ∧ c.offset + c.rest.length ≤ d.offset + d.rest.length

theorem Reaches.refl (c : Cursor) : c.Reaches c := ⟨Nat.le_refl _, Nat.le_refl _⟩

theorem Reaches.trans {c d e : Cursor} (h : c.Reaches d) (h' : d.Reaches e) : c.Reaches e :=
  ⟨h'.1.trans h.1, h.2.trans h'.2⟩

/-- With less to read the offset is larger. -/
theorem Reaches.offset_lt {c d : Cursor} (h : c.Reaches d) (hrest : d.rest.length < c.rest.length) :
    c.offset < d.offset := by
  have := h.2
  omega

/-- After one character less is left than before. -/
theorem Reaches.lt_cons {x : Char} {r : List Char} {o : Nat} {d : Cursor} (h : Reaches ⟨r, o⟩ d) :
    d.rest.length < (x :: r).length :=
  Nat.lt_succ_of_le h.1

/-- The characters between two positions have been read, and their bytes counted. -/
def ReadsTo (c d : Cursor) : Prop :=
  ∃ us, c.rest = us ++ d.rest ∧ d.offset = c.offset + byteLength us

theorem ReadsTo.reaches {c d : Cursor} (h : c.ReadsTo d) : c.Reaches d := by
  obtain ⟨us, hrest, hoffset⟩ := h
  have := length_le_byteLength us
  constructor <;> rw [hrest, List.length_append] <;> omega

theorem ReadsTo.refl (c : Cursor) : c.ReadsTo c := ⟨[], rfl, rfl⟩

theorem ReadsTo.trans {c d e : Cursor} (h : c.ReadsTo d) (h' : d.ReadsTo e) : c.ReadsTo e := by
  obtain ⟨us, hrest, hoffset⟩ := h
  obtain ⟨vs, hrest', hoffset'⟩ := h'
  refine ⟨us ++ vs, by rw [hrest, hrest', List.append_assoc], ?_⟩
  rw [hoffset', hoffset, byteLength_append, Nat.add_assoc]

/-- Reading one character. -/
theorem readsTo_cons (x : Char) (r : List Char) (o : Nat) :
    ReadsTo ⟨x :: r, o⟩ ⟨r, o + x.utf8Size⟩ :=
  ⟨[x], rfl, by simp⟩

/-- A reader that goes on after a character has read what it reads from there, and the character. -/
theorem ReadsTo.cons {x : Char} {r : List Char} {o : Nat} {d : Cursor}
    (h : ReadsTo ⟨r, o + x.utf8Size⟩ d) :
    ReadsTo ⟨x :: r, o⟩ d :=
  (readsTo_cons x r o).trans h

theorem readsTo_next (c : Cursor) : c.ReadsTo c.next := by
  obtain ⟨_ | ⟨x, r⟩, o⟩ := c
  · exact .refl _
  · exact readsTo_cons x r o

theorem reaches_next (c : Cursor) : c.Reaches c.next := c.readsTo_next.reaches

theorem readsTo_skip (n : Nat) (c : Cursor) : c.ReadsTo (c.skip n) := by
  induction n generalizing c with
  | zero => exact .refl c
  | succ n ih => exact c.readsTo_next.trans (ih c.next)

theorem readsTo_skipWhile (p : Char → Bool) (c : Cursor) : c.ReadsTo (c.skipWhile p) := by
  obtain ⟨cs, o⟩ := c
  unfold skipWhile
  induction cs generalizing o with
  | nil => exact .refl _
  | cons x r ih =>
    rw [skipWhile.go]
    split
    · exact (ih _).cons
    · exact .refl _

/-- What is cut out of a text stands at its start, and the bytes are counted. -/
theorem slice?_eq_some {c : Cursor} {stop : Nat} {us : List Char} (h : c.slice? stop = some us) :
    ∃ r, c.rest = us ++ r ∧ stop = c.offset + byteLength us := by
  have hgo (cs : List Char) (o : Nat) (acc : List Char) (h : slice?.go stop cs o acc = some us) :
      ∃ vs r, cs = vs ++ r ∧ us = acc.reverse ++ vs ∧ stop = o + byteLength vs := by
    induction cs generalizing o acc with
    | nil =>
      simp only [slice?.go] at h
      split_ifs at h with hstop
      exact ⟨[], [], rfl, by simpa using h.symm, hstop.symm⟩
    | cons x cs ih =>
      simp only [slice?.go] at h
      split_ifs at h with hlt heq
      · obtain ⟨vs, r, rfl, rfl, rfl⟩ := ih _ _ h
        exact ⟨x :: vs, r, rfl, by simp, by simp [Nat.add_assoc]⟩
      · exact ⟨[], _, rfl, by simpa using h.symm, heq.symm⟩
  obtain ⟨vs, r, hrest, rfl, hstop⟩ := hgo _ _ _ h
  exact ⟨r, hrest, hstop⟩

/-- What stands at the start of a text can be cut out of it. -/
theorem slice?_append (us r : List Char) (o : Nat) :
    slice? ⟨us ++ r, o⟩ (o + byteLength us) = some us := by
  have hgo (us : List Char) (o : Nat) (acc : List Char) :
      slice?.go (o + byteLength us) (us ++ r) o acc = some (acc.reverse ++ us) := by
    induction us generalizing o acc with
    | nil => cases r <;> simp [slice?.go]
    | cons x us ih =>
      have hpos := x.utf8Size_pos
      rw [byteLength_cons, List.cons_append, slice?.go, if_pos (by omega), ← Nat.add_assoc, ih]
      simp
  exact hgo us o []

end Cursor

end Text

end DeclBundle
