import DeclBundle.Text.Alphanumeric
import DeclBundle.Text.Cursor
import DeclBundle.Text.Words

/-!
# Reading scripts by eye

Scripts are annotated before they are parsed, so their texts are read here only as far as the shape
of a declaration needs it: words, marks, brackets that belong together and the items between commas.
Blanks and comments are passed over before each word and each mark.
-/

set_option autoImplicit false

namespace DeclBundle.Script

open Text

/-! ## Searching -/

/-- The position of the first occurrence of `mark`. -/
def find? (mark : List Char) (c : Cursor) : Option Cursor :=
  go c.rest c.offset
where
  go : List Char → Nat → Option Cursor
    | [], o => if mark.isEmpty then some ⟨[], o⟩ else none
    | x :: r, o => if startsWith mark (x :: r) then some ⟨x :: r, o⟩ else go r (o + x.utf8Size)

/-- A documentation comment, with the position after it. -/
structure Comment where
  text : String
  after : Cursor

/-- The documentation comments of the rest of a text, at most `limit` of them. What looks like a
comment inside a string counts. -/
def comments : (limit : Nat) → Cursor → List Comment
  | 0, _ => []
  | limit + 1, c =>
    match find? "/**".toList c with
    | none => []
    | some start =>
      match find? "*/".toList (start.skip 3) with
      | none => []
      | some last =>
        let after := last.skip 2
        ⟨start.text after.offset, after⟩ :: comments limit after

/-- The documentation comments of a text. -/
def commentsOf (source : List Char) : List Comment := comments source.length (.atStart source)

/-! ## Words and marks -/

/-- Passes blanks and comments, at most `limit` of them. -/
def skipGaps : (limit : Nat) → Cursor → Cursor
  | 0, c => c
  | limit + 1, c =>
    let c := c.skipWhile isBlank
    match c.rest with
    | '/' :: '/' :: _ => skipGaps limit (c.skipWhile (· != '\n'))
    | '/' :: '*' :: _ =>
      match find? "*/".toList (c.skip 2) with
      | some last => skipGaps limit (last.skip 2)
      | none => c.atEnd
    | _ => c

/-- The position of the next word or mark. -/
def token (c : Cursor) : Cursor := skipGaps (c.rest.length + 1) c

/-- The first character of the next word or mark. -/
def peek? (c : Cursor) : Option Char := (token c).head?

/-- The position after a mark, if it is next. -/
def mark? (mark : String) (c : Cursor) : Option Cursor :=
  let c := token c
  if startsWith mark.toList c.rest then some (c.skip mark.length) else none

/-- The position after a mark, or the same position when it is not next. -/
def passMark (mark : String) (c : Cursor) : Cursor := (mark? mark c).getD c

/-- The next word and the position after it. -/
def word? (c : Cursor) : Option (List Char × Cursor) :=
  let c := token c
  match c.rest.takeWhile isWordPart with
  | [] => none
  | first :: word => if first.isDigit then none else some (first :: word, c.skip (word.length + 1))

/-- The position after the next word, or the same position when there is none. -/
def passWord (c : Cursor) : Cursor := (word? c).elim c Prod.snd

/-- The position after a keyword, if it is next. -/
def keyword? (keyword : String) (c : Cursor) : Option Cursor :=
  (word? c).bind fun (word, after) => if word == keyword.toList then some after else none

/-- The position after a keyword, or the same position when it is not next. -/
def passKeyword (keyword : String) (c : Cursor) : Cursor := (keyword? keyword c).getD c

/-- The keyword that declares variables, and the position after it. -/
def variableKeyword? (c : Cursor) : Option (String × Cursor) :=
  ["const", "let", "var"].findSome? fun keyword => (keyword? keyword c).map (keyword, ·)

/-- The text is a word that can be a name. -/
def isName (cs : List Char) : Bool :=
  match cs with
  | [] => false
  | c :: _ => !c.isDigit && cs.all isWordPart

/-! ## Brackets and items -/

/-- Where a scan through a script is. -/
inductive ScanState where
  | code
  | quoted (quote : Char)
  /-- After a backslash in a string. -/
  | escaped (quote : Char)
  | lineComment
  /-- Between the slash and the asterisk that start a comment. -/
  | commentStart
  | blockComment
  /-- Between the asterisk and the slash that end a comment. -/
  | commentEnd
  deriving DecidableEq, Repr

/-- A quote of a string or of a template. -/
def isQuote (c : Char) : Bool := c == '\x22' || c == '\x27' || c == '\x60'

/-- A bracket that opens. -/
def isOpening (c : Char) : Bool := c == '(' || c == '[' || c == '\x7b'

/-- A bracket that closes. -/
def isClosing (c : Char) : Bool := c == ')' || c == ']' || c == '\x7d'

/-- Where a scan is after one more character, when the one that follows it is known. -/
def ScanState.step (state : ScanState) (c : Char) (next : Option Char) : ScanState :=
  match state with
  | code =>
    if isQuote c then quoted c
    else if c == '/' && next == some '/' then lineComment
    else if c == '/' && next == some '*' then commentStart
    else code
  | quoted quote => if c == quote then code else if c == '\\' then escaped quote else quoted quote
  | escaped quote => quoted quote
  | lineComment => if c == '\n' then code else lineComment
  | commentStart => blockComment
  | blockComment => if c == '*' && next == some '/' then commentEnd else blockComment
  | commentEnd => code

/-- The position of the bracket that closes the one at `c`. Brackets of all kinds count alike; those
in strings and in comments do not count. -/
def closing? (c : Cursor) : Option Cursor :=
  go c.rest c.offset .code 0
where
  go : List Char → Nat → ScanState → (depth : Nat) → Option Cursor
    | [], _, _, _ => none
    | x :: r, o, state, depth =>
      if state = .code && isClosing x && depth ≤ 1 then some ⟨x :: r, o⟩
      else
        let depth :=
          if state = .code && isOpening x then depth + 1
          else if state = .code && isClosing x then depth - 1
          else depth
        go r (o + x.utf8Size) (state.step x r.head?) depth

/-- The position after the string that starts with the quote at `c`; the end of the text when it is
not closed. -/
def afterQuoted (c : Cursor) : Cursor :=
  match c.rest with
  | [] => c
  | quote :: r => go r (c.offset + quote.utf8Size) (.quoted quote)
where
  go : List Char → Nat → ScanState → Cursor
    | [], o, _ => ⟨[], o⟩
    | x :: r, o, state =>
      match state.step x r.head? with
      | .code => ⟨r, o + x.utf8Size⟩
      | state => go r (o + x.utf8Size) state

/-- An excerpt without the blanks at its ends; nothing when no more is left. -/
def trimmed? (e : Excerpt) : Option Excerpt :=
  let inside := trim ((e.start.slice? e.stop).getD [])
  if inside.isEmpty then none
  else
    let start := e.start.skipWhile isBlank
    some ⟨start, start.offset + byteLength inside⟩

/-- The item from `start` up to the byte offset `stop`, or up to the end of the text behind `c` when
that comes first. -/
def lastItem (stop : Nat) (start c : Cursor) : List Excerpt :=
  (trimmed? ⟨start, min stop c.atEnd.offset⟩).toList

/-- The items up to the byte offset `stop`, the first of them from `start`. -/
def itemsFrom (stop : Nat) : (fuel : Nat) → (start : Cursor) → Cursor → List Excerpt
  | 0, _, _ => []
  | fuel + 1, start, c =>
    match c.rest with
    | [] => lastItem stop start c
    | x :: _ =>
      if stop ≤ c.offset then lastItem stop start c
      else if isOpening x then
        match closing? c with
        | some close => itemsFrom stop fuel start close.next
        | none => lastItem stop start c
      else if isQuote x then itemsFrom stop fuel start (afterQuoted c)
      else if x == ',' then (trimmed? ⟨start, c.offset⟩).toList ++ itemsFrom stop fuel c.next c.next
      else itemsFrom stop fuel start c.next

/-- The items between the commas of an excerpt, without the blanks around them. Commas in brackets
and in strings separate nothing, and empty items are left out. -/
def items (e : Excerpt) : List Excerpt := itemsFrom e.stop (e.start.rest.length + 1) e.start e.start

/-- What stands between the parentheses that are next, and the position after them. -/
def parenthesized? (c : Cursor) : Option (Excerpt × Cursor) :=
  let open_ := token c
  if open_.head? == some '(' then
    (closing? open_).map fun close => (⟨open_.next, close.offset⟩, close.next)
  else none

end DeclBundle.Script
