import DeclBundle.Text.Cursor

/-!
# Edits of a text

An edit replaces a range of bytes by a text; an insertion replaces an empty range. Several edits are
applied from left to right, and one that starts inside an earlier one is left out.
-/

set_option autoImplicit false

namespace DeclBundle.Text

/-- The replacement of a byte range by a text. -/
structure Edit where
  start : Nat
  stop : Nat
  text : String
  deriving DecidableEq, Repr

namespace Edit

/-- The insertion of a text. -/
def insert (position : Nat) (text : String) : Edit := ⟨position, position, text⟩

/-- The order in which edits are applied: by their starts, then by their ends. -/
def before (a b : Edit) : Bool := a.start < b.start || (a.start == b.start && a.stop ≤ b.stop)

/-- Applies edits that are in order to the rest of a text. -/
def splice (c : Cursor) : List Edit → List Char
  | [] => c.rest
  | e :: edits =>
    if e.start < c.offset then splice c edits
    else (c.slice? e.start).getD [] ++ e.text.toList ++ splice (c.seek e.stop) edits

/-- Applies edits to a text. Edits of the same range are applied in the order in which they are
listed. -/
def applyAll (source : List Char) (edits : List Edit) : List Char :=
  splice (.atStart source) (edits.mergeSort before)

theorem applyAll_nil (source : List Char) : applyAll source [] = source := by
  simp [applyAll, splice, Cursor.atStart]

end Edit

end DeclBundle.Text
