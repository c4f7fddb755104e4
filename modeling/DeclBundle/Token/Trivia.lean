import DeclBundle.Text.Cursor

/-!
# What stands between tokens

Spaces, line ends and comments. Skipping them reports what the grammar needs to know about the gap:
whether a line ended in it, and the last documentation comment in it.
-/

set_option autoImplicit false

namespace DeclBundle

open Text

/-- What was found in the gap before a token. -/
structure Gap where
  /-- A line ended in the gap. -/
  lineBreak : Bool := false
  /-- The last documentation comment. -/
  doc : Option Excerpt := none
  /-- The start of a comment that is never closed, which then reaches the end of the text. -/
  openComment : Option Nat := none
  deriving Inhabited

namespace Gap

/-- Where in the gap the reader stands. -/
inductive Place where
  | between
  | lineComment
  /-- In a block comment that started at `start`; the next character is the asterisk that opens
  it. -/
  | opening (start : Cursor) (isDoc : Bool)
  | blockComment (start : Cursor) (isDoc : Bool) (sawLineFeed : Bool)
  /-- At the slash that closes a block comment. -/
  | closing (start : Cursor) (isDoc : Bool) (sawLineFeed : Bool)

/-- The characters that separate tokens without ending a line. -/
def isSeparator (c : Char) : Bool :=
  c == ' ' || c == '\t' || c == '\x0b' || c == '\x0c' || c == '\u00a0'

/-- The text after `/*` starts a documentation comment: a second asterisk that does not close the
comment. -/
def opensDoc : List Char → Bool
  | '/' :: '*' :: '*' :: '/' :: _ => false
  | '/' :: '*' :: '*' :: _ => true
  | _ => false

/-- Reads the gap from `place` on, and returns it with the position of the token after it. -/
def read (place : Place) (gap : Gap) : (rest : List Char) → (offset : Nat) → Gap × Cursor
  | [], o =>
    match place with
    | .opening start _ | .blockComment start _ _ | .closing start _ _ =>
      ({ gap with openComment := some start.offset }, ⟨[], o⟩)
    | _ => (gap, ⟨[], o⟩)
  | c :: r, o =>
    let o' := o + c.utf8Size
    match place with
    | .between =>
      if isLineEnd c then read .between { gap with lineBreak := true } r o'
      else if isSeparator c then read .between gap r o'
      else if c == '/' && r.head? == some '/' then read .lineComment gap r o'
      else if c == '/' && r.head? == some '*' then
        read (.opening ⟨c :: r, o⟩ (opensDoc (c :: r))) gap r o'
      else if c == '#' && o == 0 && r.head? == some '!' then read .lineComment gap r o'
      else (gap, ⟨c :: r, o⟩)
    | .lineComment =>
      if isLineEnd c then read .between { gap with lineBreak := true } r o'
      else read .lineComment gap r o'
    | .opening start isDoc => read (.blockComment start isDoc false) gap r o'
    | .blockComment start isDoc sawLineFeed =>
      if c == '*' && r.head? == some '/' then read (.closing start isDoc sawLineFeed) gap r o'
      else read (.blockComment start isDoc (sawLineFeed || c == '\n')) gap r o'
    | .closing start isDoc sawLineFeed =>
      let gap := if sawLineFeed then { gap with lineBreak := true } else gap
      let gap := if isDoc then { gap with doc := some ⟨start, o'⟩ } else gap
      read .between gap r o'

/-- Skips spaces and comments. -/
def skip (c : Cursor) : Gap × Cursor :=
  read .between {} c.rest c.offset

end Gap

end DeclBundle
