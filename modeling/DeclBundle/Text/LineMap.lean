import DeclBundle.Text.Cursor

/-!
# Lines and columns

A line ends at a line feed, a carriage return, or a carriage return followed by a line feed.
`LineMap.starts` holds the byte offset at which each line starts; a position counts characters from
the start of its line.
-/

set_option autoImplicit false

namespace DeclBundle.Text

/-- A line and a column, both counted from zero. -/
structure Position where
  line : Nat
  character : Nat
  deriving DecidableEq, Repr, Inhabited

/-- The line starts of a text, in increasing order. The first one is zero. -/
structure LineMap where
  starts : List Nat
  deriving Repr

namespace LineMap

/-- The offsets after each line end of the rest of a text. -/
def startsAfter : List Char → Nat → List Nat → List Nat
  | [], _, found => found.reverse
  | '\r' :: '\n' :: r, o, found => startsAfter r (o + 2) ((o + 2) :: found)
  | c :: r, o, found =>
    let o' := o + c.utf8Size
    startsAfter r o' (if c == '\r' || c == '\n' then o' :: found else found)

/-- The line map of a text. -/
def ofText (cs : List Char) : LineMap :=
  ⟨0 :: startsAfter cs 0 []⟩

/-- The number of lines. -/
def lineCount (m : LineMap) : Nat := m.starts.length

/-- The last line that starts at or before `offset`, with its start. -/
def lineAt (m : LineMap) (offset : Nat) : Nat × Nat :=
  go m.starts 0 (0, 0)
where
  go : List Nat → Nat → Nat × Nat → Nat × Nat
    | [], _, best => best
    | s :: rest, i, best => if s ≤ offset then go rest (i + 1) (i, s) else best

/-- The position of a byte offset. An offset beyond the text counts up to its end; one inside a
character counts the bytes from the line start. -/
def position (m : LineMap) (source : List Char) (offset : Nat) : Position :=
  let (line, start) := m.lineAt offset
  let stop := min offset (byteLength source)
  let column :=
    match ((Cursor.atStart source).seek start).slice? stop with
    | some cs => cs.length
    | none => offset - start
  ⟨line, column⟩

end LineMap

end DeclBundle.Text
