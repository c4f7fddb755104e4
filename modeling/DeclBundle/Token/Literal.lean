import DeclBundle.Text.Cursor
import DeclBundle.Text.Words

/-!
# Names and literals

The readers for identifiers, numbers, operators, quoted strings and the text of templates. Each
takes the characters from the start of the token on and returns the position after it.
-/

set_option autoImplicit false

namespace DeclBundle.Literal

open Text

/-! ## Identifiers -/

/-- Where in an identifier the reader stands. -/
inductive NamePlace where
  | plain
  /-- Before the `u` of an escape. -/
  | escape
  /-- After the `u` of an escape. -/
  | digits
  /-- In an escape of four bytes, of which `left` are still to come. -/
  | fixed (left : Nat)
  /-- In an escape between braces. -/
  | braced

/-- The position after an identifier. Escapes are kept as they are written. -/
def identifierEnd (place : NamePlace) : (rest : List Char) → (offset : Nat) → Cursor
  | [], o => ⟨[], o⟩
  | c :: r, o =>
    let o' := o + c.utf8Size
    match place with
    | .plain =>
      if isIdentifierPart c then identifierEnd .plain r o'
      else if c == '\\' && r.head? == some 'u' then identifierEnd .escape r o'
      else ⟨c :: r, o⟩
    | .escape => identifierEnd .digits r o'
    | .digits =>
      if c == '{' then identifierEnd .braced r o'
      else if 4 ≤ c.utf8Size then identifierEnd .plain r o'
      else identifierEnd (.fixed (4 - c.utf8Size)) r o'
    | .fixed left =>
      if left ≤ c.utf8Size then identifierEnd .plain r o'
      else identifierEnd (.fixed (left - c.utf8Size)) r o'
    | .braced => if c == '}' then identifierEnd .plain r o' else identifierEnd .braced r o'

/-! ## Numbers -/

/-- A decimal digit or a digit separator. -/
def isDigitOrSeparator (c : Char) : Bool := c.isDigit || c == '_'

/-- A hexadecimal digit or a digit separator. -/
def isHexOrSeparator (c : Char) : Bool := isHexDigit c || c == '_'

/-- The letter after a leading zero that marks another base. -/
def isBaseLetter (c : Char) : Bool :=
  c == 'x' || c == 'X' || c == 'o' || c == 'O' || c == 'b' || c == 'B'

/-- The position after an exponent, when one stands at `c`. -/
def exponentEnd (c : Cursor) : Cursor :=
  match c.rest with
  | e :: r =>
    if e == 'e' || e == 'E' then
      match r with
      | s :: d :: _ =>
        if (s == '+' || s == '-') && d.isDigit then (c.skip 2).skipWhile isDigitOrSeparator
        else if s.isDigit then c.next.skipWhile isDigitOrSeparator
        else c
      | [s] => if s.isDigit then c.next.skipWhile isDigitOrSeparator else c
      | [] => c
    else c
  | [] => c

/-- The position after the digits of a number, its fraction and its exponent. -/
def numberEnd (c : Cursor) : Cursor :=
  match c.rest with
  | '0' :: b :: _ =>
    if isBaseLetter b then (c.skip 2).skipWhile isHexOrSeparator else decimalEnd c
  | _ => decimalEnd c
where
  decimalEnd (c : Cursor) : Cursor :=
    let whole := c.skipWhile isDigitOrSeparator
    let fraction :=
      if whole.head? == some '.' then whole.next.skipWhile isDigitOrSeparator else whole
    exponentEnd fraction

/-! ## Operators -/

/-- The characters that operators are made of. -/
def isOperatorChar (c : Char) : Bool :=
  c == '=' || c == '!' || c == '&' || c == '|' || c == '+' || c == '-' || c == '*' ||
    c == '%' || c == '^'
    || c == '~' || c == '?'

/-- The position after an operator of at most four characters, of which `taken` have been read and
`previous` last. A sign after an equals sign starts the operand. -/
def operatorEnd (taken : Nat) (previous : Option Char) :
    (rest : List Char) → (offset : Nat) → Cursor
  | [], o => ⟨[], o⟩
  | c :: r, o =>
    let startsOperand :=
      1 < taken && (c == '+' || c == '-' || c == '!' || c == '~') && previous == some '='
    if isOperatorChar c && taken < 4 &&
      !startsOperand then operatorEnd (taken + 1) (some c) r (o + c.utf8Size)
    else ⟨c :: r, o⟩

/-! ## Quoted strings -/

/-- The value of a run of hexadecimal digits, which a plus sign may precede. There is none for an
empty run, and none from 2^32 on. -/
def hexNumber? (cs : List Char) : Option Nat :=
  let digits := match cs with
    | '+' :: r => r
    | _ => cs
  if digits.isEmpty then none
  else
    match digits.foldl (fun n c => match n, hexValue? c with
        | some n, some d => some (n * 16 + d)
        | _, _ => none) (some 0) with
    | some n => if n < 0x100000000 then some n else none
    | none => none

/-- The character with a given number; surrogates and numbers beyond the last plane are none. -/
def scalar? (n : Nat) : Option Char :=
  if n.isValidChar then some (Char.ofNat n) else none

/-- A fixed number of bytes at the start of a text, when a character ends there. -/
def takeBytes? (n : Nat) (cs : List Char) : Option (List Char) :=
  (Cursor.atStart cs).slice? n

/-- What an escape stands for, and the number of characters it takes after its letter. -/
structure Escape where
  value : List Char
  taken : Nat

/-- The escape `\x` followed by two digits. Without them the letter is dropped. -/
def shortEscape (cs : List Char) : Escape :=
  match ((takeBytes? 2 cs).bind hexNumber?).bind scalar? with
  | some ch => ⟨[ch], 2⟩
  | none => ⟨[], 0⟩

/-- The escape `\u` followed by four digits, or by digits in braces, of which the closing one may be
missing at the end of the text. Without them the letter is dropped. -/
def longEscape (cs : List Char) : Escape :=
  match cs with
  | '{' :: r =>
    let digits := r.takeWhile (· != '}')
    match (hexNumber? digits).bind scalar? with
    | some ch => ⟨[ch], digits.length + 2⟩
    | none => ⟨[], 0⟩
  | _ =>
    match ((takeBytes? 4 cs).bind hexNumber?).bind scalar? with
    | some ch => ⟨[ch], 4⟩
    | none => ⟨[], 0⟩

/-- What the escape with the letter `c` stands for, when `r` follows. -/
def escape (c : Char) (r : List Char) : Escape :=
  if c == 'n' then ⟨['\n'], 0⟩
  else if c == 't' then ⟨['\t'], 0⟩
  else if c == 'r' then ⟨['\r'], 0⟩
  else if c == 'b' then ⟨['\x08'], 0⟩
  else if c == 'f' then ⟨['\x0c'], 0⟩
  else if c == 'v' then ⟨['\x0b'], 0⟩
  else if c == '0' && !(r.head?.any Char.isDigit) then ⟨['\x00'], 0⟩
  else if c == 'x' then shortEscape r
  else if c == 'u' then longEscape r
  else if c == '\r' then ⟨[], if r.head? == some '\n' then 1 else 0⟩
  else if c == '\n' then ⟨[], 0⟩
  else ⟨[c], 0⟩

/-- A quoted string that has been read. -/
structure Quoted where
  /-- What the literal stands for. -/
  value : List Char
  stop : Cursor
  /-- The closing quote was there. -/
  closed : Bool

/-- Where in a quoted string the reader stands. -/
inductive QuotePlace where
  | plain
  /-- After a backslash. -/
  | escape
  /-- In an escape whose value is known, of which `left` characters are still to come. -/
  | rest (left : Nat)

/-- Reads a string up to its closing quote or the end of the line. A backslash at the end of the
text stands for itself and for a character beyond the end. -/
def readQuoted (quote : Char) (place : QuotePlace) (value : List Char) :
    (rest : List Char) → (offset : Nat) → Quoted
  | [], o =>
    match place with
    | .escape => ⟨('\\' :: value).reverse, ⟨[], o + 1⟩, false⟩
    | _ => ⟨value.reverse, ⟨[], o⟩, false⟩
  | c :: r, o =>
    let o' := o + c.utf8Size
    match place with
    | .plain =>
      if c == quote then ⟨value.reverse, ⟨r, o'⟩, true⟩
      else if isLineEnd c then ⟨value.reverse, ⟨c :: r, o⟩, false⟩
      else if c == '\\' then readQuoted quote .escape value r o'
      else readQuoted quote .plain (c :: value) r o'
    | .escape =>
      let found := escape c r
      let place := if found.taken = 0 then .plain else QuotePlace.rest found.taken
      readQuoted quote place (found.value.reverse ++ value) r o'
    | .rest left =>
      readQuoted quote (if left ≤ 1 then .plain else .rest (left - 1)) value r o'

/-! ## Templates -/

/-- How a piece of template text ends. -/
inductive ChunkEnd where
  /-- At the closing backtick. -/
  | closed
  /-- At the start of a substitution. -/
  | substitution
  /-- At the end of the text. -/
  | open_
  deriving DecidableEq, Repr

/-- A piece of template text: where its text stops, the position after it, and how it ends. -/
structure Chunk where
  textStop : Nat
  stop : Cursor
  ending : ChunkEnd

/-- Reads template text up to a backtick or a substitution; a backslash hides the next character. -/
def readChunk (escaped : Bool) : (rest : List Char) → (offset : Nat) → Chunk
  | [], o => ⟨o, ⟨[], o⟩, .open_⟩
  | c :: r, o =>
    let o' := o + c.utf8Size
    if escaped then readChunk false r o'
    else if c == '\x60' then ⟨o, ⟨r, o'⟩, .closed⟩
    else if c == '$' && r.head? == some '{' then ⟨o, ⟨r.tail, o' + 1⟩, .substitution⟩
    else readChunk (c == '\\') r o'

end DeclBundle.Literal
