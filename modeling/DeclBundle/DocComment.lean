import DeclBundle.Text.Words

/-!
# Documentation comments

The text of a documentation comment, taken apart: a description, followed by block tags. A tag
starts with `@` at the start of a line or after a blank outside of braces, and its text reaches to
the next tag. Examples keep their layout.
-/

set_option autoImplicit false

namespace DeclBundle

open Text

/-- A block tag of a documentation comment. -/
structure DocTag where
  /-- The name without the `@`. -/
  name : String
  /-- The type in braces after the name, without the braces. -/
  type : Option String := none
  /-- The name that the tag describes, for tags that describe one. -/
  subject : Option String := none
  /-- The subject was written in brackets. -/
  isBracketed : Bool := false
  /-- The rest of the text. -/
  comment : Option String := none
  deriving Repr, DecidableEq

/-- A documentation comment. -/
structure DocComment where
  description : Option String
  tags : List DocTag
  deriving Repr, DecidableEq

namespace DocComment

/-! ## From raw text to lines -/

/-- The text between the delimiters of a comment. -/
def body (raw : List Char) : List Char :=
  let trimmed := trim raw
  let opened :=
    match after? ['/', '*', '*'] trimmed with
    | some rest => rest
    | none => (after? ['/', '*'] trimmed).getD trimmed
  match cutAtLast? ['*', '/'] opened with
  | some (front, _) => front
  | none => opened

/-- A line without the asterisk that decorates it. -/
def undecorate (line : List Char) : List Char :=
  match trimStart line with
  | '*' :: ' ' :: rest => rest
  | '*' :: rest => rest
  | rest => rest

/-- Cuts a line before each `@` that follows a blank outside of braces. A cut after blanks alone
leaves no piece. -/
def pieces (line : List Char) : List (List Char) :=
  go line [] 0 ' ' []
where
  go : List Char → (piece : List Char) → (depth : Nat) → (previous : Char) → List (List Char) →
    List (List Char)
    | [], piece, _, _, done => (piece.reverse :: done).reverse
    | c :: r, piece, depth, previous, done =>
      if c == '{' then go r (c :: piece) (depth + 1) c done
      else if c == '}' then go r (c :: piece) (depth - 1) c done
      else if c == '@' && depth == 0 && isBlank previous && !piece.isEmpty then
        go r [c] depth c (if piece.all isBlank then done else piece.reverse :: done)
      else go r (c :: piece) depth c done

/-! ## From lines to tags -/

/-- A comment while it is read: the lines of its description and its tags with their lines, the
latest first. -/
structure Draft where
  description : List (List Char) := []
  tags : List (List Char × List (List Char)) := []

/-- Adds a piece of a line. -/
def Draft.addPiece (d : Draft) (piece : List Char) : Draft :=
  match trimStart piece with
  | '@' :: rest =>
    let name := rest.takeWhile fun c => !isBlank c
    { d with tags := (name, [trim (rest.drop name.length)]) :: d.tags }
  | _ =>
    match d.tags with
    | (name, lines) :: earlier => { d with tags := (name, piece :: lines) :: earlier }
    | [] => { d with description := piece :: d.description }

/-- Adds a line. A line of an example is cut only when it starts a tag. -/
def Draft.addLine (d : Draft) (line : List Char) : Draft :=
  let inExample := match d.tags with
    | (name, _) :: _ => name == "example".toList
    | [] => false
  if inExample && !(startsWith ['@'] (trimStart line)) then d.addPiece line
  else (pieces line).foldl Draft.addPiece d

/-! ## From the lines of a tag to its parts -/

/-- A text, or nothing when it is empty. -/
def nonempty? (cs : List Char) : Option String :=
  if cs.isEmpty then none else some (String.ofList cs)

/-- The text in the braces at the start of `cs` and the text after them. -/
def braced? (cs : List Char) : Option (List Char × List Char) :=
  match cs with
  | '{' :: r => go r 1 []
  | _ => none
where
  go : List Char → (depth : Nat) → List Char → Option (List Char × List Char)
    | [], _, _ => none
    | c :: r, depth, seen =>
      if c == '{' then go r (depth + 1) (c :: seen)
      else if c == '}' then if depth ≤ 1 then some (seen.reverse, r)
        else go r (depth - 1) (c :: seen)
      else go r depth (c :: seen)

/-- The tags that describe a name. -/
def subjectTags : List String :=
  ["param", "arg", "argument", "property", "prop", "typedef", "template"]

/-- A name without brackets and without a default. -/
def bareSubject (raw : List Char) : List Char :=
  let opened := raw.dropWhile (· == '[')
  let closed := (opened.reverse.dropWhile (· == ']')).reverse
  closed.takeWhile (· != '=')

/-- The tag of an example, which keeps its layout. -/
def exampleTag (name : String) (text : List Char) : DocTag :=
  if (trim text).isEmpty then { name }
  else
    let opened := text.dropWhile (· == '\n')
    { name, comment := some (String.ofList (trimEnd opened)) }

/-- The tag with the given name and lines. -/
def tagOf (name : List Char) (lines : List (List Char)) : DocTag :=
  let name := String.ofList name
  let text := joinWith ['\n'] lines
  if name == "example" then exampleTag name text
  else
    let text := trim text
    let (type, text) := match braced? text with
      | some (inner, rest) => (some (String.ofList (trim inner)), trimStart rest)
      | none => (none, text)
    if subjectTags.contains name then
      let raw := text.takeWhile fun c => !isBlank c
      let rest := trimStart (text.drop raw.length)
      let comment := match rest with
        | '-' :: r => trimStart r
        | _ => rest
      { name, type, subject := nonempty? (bareSubject raw), isBracketed := startsWith ['['] raw,
        comment := nonempty? comment }
    else { name, type, comment := nonempty? text }

/-- Takes a documentation comment apart. -/
def ofText (raw : String) : DocComment :=
  let draft := ((lines (body raw.toList)).map undecorate).foldl Draft.addLine {}
  { description := nonempty? (trim (joinWith ['\n'] draft.description.reverse)),
    tags := draft.tags.reverse.map fun (name, lines) => tagOf name lines.reverse }

/-! ## Asking a comment -/

/-- The comments of all tags with the given name. -/
def commentsOf (d : DocComment) (name : String) : List String :=
  d.tags.filterMap fun t => if t.name == name then t.comment else none

/-- What the comment says about a parameter: the text of the first tag for it. -/
def parameterText? (d : DocComment) (parameter : String) : Option String :=
  (d.tags.find? fun t => ["param", "arg", "argument"].contains t.name &&
    t.subject == some parameter).bind
    DocTag.comment

/-- What the comment says about the result: the text of the first tag for it. -/
def resultText? (d : DocComment) : Option String :=
  (d.tags.find? fun t => ["returns", "return"].contains t.name).bind DocTag.comment

/-- The examples. -/
def examples (d : DocComment) : List String := d.commentsOf "example"

/-- The references to other things. -/
def references (d : DocComment) : List String := d.commentsOf "see"

end DocComment

end DeclBundle
