import DeclBundle.Text.Character

/-!
# Positions in a text

A `Cursor` is the text that remains together with the number of bytes that came before it. All
offsets of the project are byte offsets of the UTF-8 encoding, so moving over a character adds its
encoded size. A cursor may stand beyond the end of the text: the rest is then empty and the offset
larger than the text.
-/

set_option autoImplicit false

namespace DeclBundle.Text

/-- A half-open range of byte offsets. -/
structure Span where
  start : Nat
  stop : Nat
  deriving DecidableEq, Repr, Inhabited

namespace Span

/-- The span of nodes that come from no source text. -/
def none : Span := ⟨0, 0⟩

/-- The number of bytes covered; a reversed span covers none. -/
def length (s : Span) : Nat := s.stop - s.start

/-- The span covers no byte. -/
def isEmpty (s : Span) : Bool := s.stop ≤ s.start

/-- The smallest span around both. -/
def cover (s t : Span) : Span := ⟨min s.start t.start, max s.stop t.stop⟩

end Span

/-- The number of bytes that a list of characters takes in UTF-8. -/
def byteLength (cs : List Char) : Nat :=
  cs.foldl (fun n c => n + c.utf8Size) 0

@[simp] theorem byteLength_nil : byteLength [] = 0 := rfl

@[simp] theorem byteLength_cons (x : Char) (cs : List Char) :
    byteLength (x :: cs) = x.utf8Size + byteLength cs := by
  have hfold (n : Nat) : cs.foldl (fun n c => n + c.utf8Size) n = n + byteLength cs := by
    unfold byteLength
    induction cs generalizing n with
    | nil => rfl
    | cons y cs ih =>
      rw [List.foldl_cons, List.foldl_cons, ih, ih (0 + _), Nat.zero_add, Nat.add_assoc]
  rw [byteLength, List.foldl_cons, hfold, Nat.zero_add]

theorem utf8ByteSize_ofList (cs : List Char) :
    (String.ofList cs).utf8ByteSize = byteLength cs := by
  induction cs with
  | nil => rfl
  | cons x cs ih =>
    rw [String.ofList_cons, String.utf8ByteSize_append, String.utf8ByteSize_singleton, ih,
      byteLength_cons]

theorem byteLength_toList (text : String) : byteLength text.toList = text.utf8ByteSize := by
  rw [← utf8ByteSize_ofList, String.ofList_toList]

/-- A position in a text: what remains to be read, and the byte offset at which it starts. -/
structure Cursor where
  rest : List Char
  offset : Nat
  deriving Repr, Inhabited

namespace Cursor

/-- The position before the first character of `cs`. -/
def atStart (cs : List Char) : Cursor := ⟨cs, 0⟩

/-- The next character. -/
def head? (c : Cursor) : Option Char := c.rest.head?

/-- The position after one more character; at the end of the text it stays. -/
def next (c : Cursor) : Cursor :=
  match c.rest with
  | [] => c
  | x :: r => ⟨r, c.offset + x.utf8Size⟩

/-- The position after `n` more characters. -/
def skip (c : Cursor) : Nat → Cursor
  | 0 => c
  | n + 1 => c.next.skip n

/-- The position after the longest run of characters that satisfy `p`. -/
def skipWhile (p : Char → Bool) (c : Cursor) : Cursor :=
  go c.rest c.offset
where
  go : List Char → Nat → Cursor
    | [], o => ⟨[], o⟩
    | x :: r, o => if p x then go r (o + x.utf8Size) else ⟨x :: r, o⟩

/-- The characters from `c` up to the byte offset `stop`. There are none when `stop` lies before
`c`, beyond the end of the text or inside a character. -/
def slice? (c : Cursor) (stop : Nat) : Option (List Char) :=
  go c.rest c.offset []
where
  go : List Char → Nat → List Char → Option (List Char)
    | [], o, acc => if o = stop then some acc.reverse else none
    | x :: r, o, acc =>
      if o < stop then go r (o + x.utf8Size) (x :: acc)
      else if o = stop then some acc.reverse else none

/-- The text from `c` up to the byte offset `stop`, empty when that is no slice. -/
def text (c : Cursor) (stop : Nat) : String :=
  match c.slice? stop with
  | some cs => String.ofList cs
  | none => ""

/-- The position at the end of the text. -/
def atEnd (c : Cursor) : Cursor :=
  ⟨[], c.offset + byteLength c.rest⟩

/-- A cursor at byte `offset` of the text, counted from `c`; the end of the text when it lies
beyond. -/
def seek (c : Cursor) (offset : Nat) : Cursor :=
  go c.rest c.offset
where
  go : List Char → Nat → Cursor
    | [], o => ⟨[], o⟩
    | x :: r, o => if o < offset then go r (o + x.utf8Size) else ⟨x :: r, o⟩

end Cursor

/-- A piece of text: where it starts and the byte offset at which it stops. -/
structure Excerpt where
  start : Cursor
  stop : Nat
  deriving Repr, Inhabited

namespace Excerpt

/-- The byte range of the excerpt. -/
def span (e : Excerpt) : Span := ⟨e.start.offset, e.stop⟩

/-- The characters of the excerpt. -/
def text (e : Excerpt) : String := e.start.text e.stop

end Excerpt

/-- The part of `source` that a span covers, empty when the span is no slice of it. -/
def Span.text (s : Span) (source : List Char) : String :=
  let from_ := (Cursor.atStart source).seek s.start
  if from_.offset = s.start then from_.text s.stop else ""

end DeclBundle.Text
