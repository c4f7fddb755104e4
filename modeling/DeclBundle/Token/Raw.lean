import DeclBundle.Text.Cursor
import DeclBundle.Text.Words

/-!
# Skipping source text without reading tokens

Function bodies, initializers and the substitutions of templates are passed over at the level of
characters. The reader keeps a stack of what is open (braces and templates) and a mode that says
what it is inside of, and looks at one character and its successor at a time. A slash starts a
regular expression only after a character or a word that cannot end an operand.
-/

set_option autoImplicit false

namespace DeclBundle.Raw

open Text

/-! ## Regular expressions -/

/-- Where in a regular expression literal the reader stands, after its opening slash. -/
inductive RegexPlace where
  | body (inClass : Bool)
  | escaped (inClass : Bool)
  | flags
  deriving DecidableEq, Repr

/-- The place after one more character, or nothing when the character is no longer part of the
literal. -/
def RegexPlace.step (c : Char) : RegexPlace → Option RegexPlace
  | body inClass =>
    if c == '\\' then some (escaped inClass)
    else if c == '[' then some (body true)
    else if c == ']' then some (body false)
    else if c == '/' && !inClass then some flags
    else if isLineEnd c then none
    else some (body inClass)
  | escaped inClass => some (body inClass)
  | flags => if isIdentifierPart c then some flags else none

/-- The position after a regular expression literal that is being read at `place`. -/
def regexEnd (place : RegexPlace) : (rest : List Char) → (offset : Nat) → Cursor
  | [], o => ⟨[], o⟩
  | c :: r, o =>
    match place.step c with
    | some next => regexEnd next r (o + c.utf8Size)
    | none => ⟨c :: r, o⟩

/-! ## Braces and templates -/

/-- What is open around the reader. -/
inductive Frame where
  | braces
  | template
  deriving DecidableEq, Repr

/-- What a slash in braces follows. -/
inductive Before where
  /-- A word that starts at `start`; spaces and comments may stand between it and the slash. -/
  | word (start : Cursor)
  | char (c : Char)

/-- What the reader is inside of. -/
inductive Mode where
  | plain
  | inWord
  | string (quote : Char)
  | stringEscape (quote : Char)
  | lineComment
  | openingComment
  | blockComment
  | closingComment
  | regex (place : RegexPlace)
  /-- In a template after a backslash. -/
  | templateEscape
  /-- At the brace that opens a substitution. -/
  | openingSubstitution

/-- The words after which a slash starts a regular expression. -/
def wordsBeforeRegex : List String :=
  ["return", "typeof", "case", "do", "else", "in", "of", "new", "delete", "void", "throw",
    "yield", "await"]

/-- The characters after which a slash starts a regular expression. -/
def charsBeforeRegex : List Char :=
  ['(', ',', '=', ':', '[', '!', '&', '|', '?', '{', '}', ';', '+', '-', '*', '%', '<',
    '>', '~', '^']

/-- A slash at byte `offset` starts a regular expression. -/
def Before.allowsRegex (offset : Nat) : Before → Bool
  | word start =>
    match start.slice? offset with
    | some cs => wordsBeforeRegex.contains (String.ofList (trimEnd cs))
    | none => false
  | char c => charsBeforeRegex.contains c

/-- The state of the reader. -/
structure State where
  frames : List Frame
  mode : Mode := .plain
  before : Before := .char '{'

namespace State

/-- Back in braces, after the character `c`. -/
def after (s : State) (c : Char) : State :=
  { s with mode := .plain, before := .char c }

/-- One character in braces, outside of strings, comments and expressions. -/
def stepBraces (s : State) (here : Cursor) (c : Char) (next : Option Char) : State :=
  if c == '{' then { s.after c with frames := .braces :: s.frames }
  else if c == '}' then { s.after c with frames := s.frames.tail }
  else if c == '\x22' || c == '\x27' then { s with mode := .string c }
  else if c == '\x60' then { s with mode := .plain, frames := .template :: s.frames }
  else if c == '/' && next == some '/' then { s with mode := .lineComment }
  else if c == '/' && next == some '*' then { s with mode := .openingComment }
  else if c == '/' && s.before.allowsRegex here.offset then { s with mode := .regex (.body false) }
  else if isPlainSpace c then { s with mode := .plain }
  else if isIdentifierPart c then { s with mode := .inWord, before := .word here }
  else s.after c

/-- One character of the text of a template. -/
def stepTemplate (s : State) (c : Char) (next : Option Char) : State :=
  if c == '\\' then { s with mode := .templateEscape }
  else if c == '\x60' then { s.after c with frames := s.frames.tail }
  else if c == '$' && next == some '{' then { s with mode := .openingSubstitution }
  else { s with mode := .plain }

/-- One character, with its successor. -/
def step (s : State) (here : Cursor) (c : Char) (next : Option Char) : State :=
  match s.mode with
  | .plain =>
    match s.frames with
    | .template :: _ => s.stepTemplate c next
    | _ => s.stepBraces here c next
  | .inWord => if isIdentifierPart c then s else s.stepBraces here c next
  | .string quote =>
    if c == '\\' then { s with mode := .stringEscape quote }
    else if c == quote || c == '\n' then s.after quote
    else s
  | .stringEscape quote => { s with mode := .string quote }
  | .lineComment => if c == '\n' then { s with mode := .plain } else s
  | .openingComment => { s with mode := .blockComment }
  | .blockComment => if c == '*' && next == some '/' then { s with mode := .closingComment } else s
  | .closingComment => { s with mode := .plain }
  | .regex place =>
    match place.step c with
    | some place' => { s with mode := .regex place' }
    | none => (s.after '/').stepBraces here c next
  | .templateEscape => { s with mode := .plain }
  | .openingSubstitution =>
    { s with mode := .plain, frames := .braces :: s.frames, before := .char '{' }

end State

/-- Reads until nothing is open any more. Returns the position after that, and whether it was
reached before the end of the text. -/
def run (s : State) : (rest : List Char) → (offset : Nat) → Cursor × Bool
  | rest, o =>
    if s.frames.isEmpty then (⟨rest, o⟩, true)
    else
      match rest with
      | [] => (⟨[], o⟩, false)
      | c :: r => run (s.step ⟨c :: r, o⟩ c r.head?) r (o + c.utf8Size)

/-- The position after the brace that closes an open one, and whether there is one. -/
def skipBraces (c : Cursor) : Cursor × Bool :=
  run { frames := [.braces] } c.rest c.offset

/-- The position after a template, from inside its first substitution on. -/
def skipSubstitutions (c : Cursor) : Cursor :=
  (run { frames := [.braces, .template] } c.rest c.offset).1

/-- The position after a regular expression literal whose opening slash stands before `c`. -/
def skipRegex (c : Cursor) : Cursor :=
  regexEnd (.body false) c.rest c.offset

end DeclBundle.Raw
