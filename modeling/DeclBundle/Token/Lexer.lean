import DeclBundle.Diagnostic
import DeclBundle.Token.Kind
import DeclBundle.Token.Literal
import DeclBundle.Token.Raw
import DeclBundle.Token.Trivia

/-!
# The lexer

A `Lexer` holds the position in a text, the current token and the lexical errors found so far.
`Lexer.scan` moves to the next token. A lexer is a plain value, so going back to an earlier one
takes back everything, errors included.
-/

set_option autoImplicit false

namespace DeclBundle

open Text

/-- A lexical error. -/
structure LexicalError where
  span : Span
  problem : Problem

/-- A token. It ends where its lexer stands. -/
structure Token where
  kind : TokenKind
  start : Cursor
  /-- The name, the value of a quoted string, the digits of a number, or the raw text of a piece of
  template. -/
  value : String
  /-- A line ended between the previous token and this one. -/
  afterLineBreak : Bool
  /-- The documentation comment right before the token. -/
  doc : Option Excerpt

/-- A position in a text with the token that ends there. -/
structure Lexer where
  /-- The number of bytes of the text. -/
  size : Nat
  here : Cursor
  token : Token
  /-- The errors found so far, the latest first. -/
  errors : List LexicalError

namespace Lexer

/-- A lexer before the first token. A byte order mark is no part of the program. -/
def ofText (text : String) : Lexer :=
  let start : Cursor := match text.toList with
    | '\ufeff' :: r => ⟨r, 3⟩
    | cs => ⟨cs, 0⟩
  ⟨text.utf8ByteSize, start, ⟨.unknown, start, "", false, none⟩, []⟩

/-- The byte offset at which the current token ends. -/
def tokenEnd (l : Lexer) : Nat := l.here.offset

/-- The current token as it is written. -/
def tokenText (l : Lexer) : String := l.token.start.text l.here.offset

/-- Records an error. -/
def report (l : Lexer) (span : Span) (problem : Problem) : Lexer :=
  { l with errors := ⟨span, problem⟩ :: l.errors }

/-! ## One token -/

/-- A token that has been recognised: its kind, its value, and the position after it. -/
structure Lexeme where
  kind : TokenKind
  value : String
  stop : Cursor
  error : Option Problem := none

/-- A lexeme of `n` characters without a value. -/
def fixed (kind : TokenKind) (n : Nat) (c : Cursor) : Lexeme := ⟨kind, "", c.skip n, none⟩

/-- A punctuation mark of `n` characters. -/
def mark (p : Punctuation) (n : Nat) (c : Cursor) : Lexeme := fixed (.punctuation p) n c

/-- A lexeme whose value is its text. -/
def written (kind : TokenKind) (start stop : Cursor) : Lexeme :=
  ⟨kind, start.text stop.offset, stop, none⟩

/-- An operator without a kind of its own. A leading slash is always part of it. -/
def operator (c : Cursor) : Lexeme :=
  let stop := match c.rest with
    | '/' :: r => Literal.operatorEnd 1 (some '/') r (c.offset + 1)
    | rest => Literal.operatorEnd 0 none rest c.offset
  written .operator c stop

/-- A number, or a big integer when the letter `n` follows. -/
def number (c : Cursor) : Lexeme :=
  let stop := Literal.numberEnd c
  if stop.head? == some 'n' then written .bigIntLiteral c stop.next
    else written .numericLiteral c stop

/-- A quoted string that starts at `c`. -/
def quoted (quote : Char) (c : Cursor) : Lexeme :=
  let found := Literal.readQuoted quote .plain [] c.next.rest c.next.offset
  ⟨.stringLiteral, String.ofList found.value, found.stop,
    if found.closed then none else some .unterminatedString⟩

/-- A piece of template text that starts at `c`. `whole` is its kind when the template ends with it,
`part` when a substitution follows. -/
def chunk (whole part : TokenKind) (c : Cursor) : Lexeme :=
  let found := Literal.readChunk false c.rest c.offset
  let value := c.text found.textStop
  match found.ending with
  | .closed => ⟨whole, value, found.stop, none⟩
  | .substitution => ⟨part, value, found.stop, none⟩
  | .open_ => ⟨whole, value, found.stop, some .unterminatedTemplate⟩

/-- An identifier or a keyword. -/
def word (c : Cursor) : Lexeme :=
  let stop := Literal.identifierEnd .plain c.rest c.offset
  let text := c.text stop.offset
  ⟨match Keyword.ofText? text with
    | some k => .keyword k
    | none => .identifier, text, stop, none⟩

/-- The marks that are always a token of their own. -/
def single? : Char → Option Punctuation
  | '{' => some .openBrace
  | '}' => some .closeBrace
  | '(' => some .openParen
  | ')' => some .closeParen
  | '[' => some .openBracket
  | ']' => some .closeBracket
  | ';' => some .semicolon
  | ',' => some .comma
  | ':' => some .colon
  | '@' => some .at_
  | '<' => some .lessThan
  | '>' => some .greaterThan
  | _ => none

/-- The kind of an operator character that stands alone. -/
def aloneKind : Char → Option TokenKind
  | '|' => some (.punctuation .bar)
  | '&' => some (.punctuation .ampersand)
  | '+' => some (.punctuation .plus)
  | '-' => some (.punctuation .minus)
  | '*' => some (.punctuation .asterisk)
  | '!' => some (.punctuation .exclamation)
  | '%' | '^' | '~' => some .operator
  | _ => none

/-- The token that starts at `c` with the character `x`, when `r` follows. -/
def lexeme (c : Cursor) (x : Char) (r : List Char) : Lexeme :=
  let next := r.head?
  match single? x with
  | some p => mark p 1 c
  | none =>
    if x == '.' then
      if next.any Char.isDigit then number c
      else if next == some '.' && r.tail.head? == some '.' then mark .dotDotDot 3 c
      else mark .dot 1 c
    else if x == '=' then
      if next == some '>' then mark .arrow 2 c
      else if next == some '=' then operator c
      else mark .equals 1 c
    else if x == '?' then
      if next == some '.' && !(r.tail.head?.any Char.isDigit) then mark .questionDot 2 c
      else if next == some '?' then operator c
      else mark .question 1 c
    else
      match aloneKind x with
      | some kind =>
        let doubles := x == '|' || x == '&' || x == '+' || x == '-' || x == '*'
        if next == some '=' || (next == some x && doubles) then operator c else fixed kind 1 c
      | none =>
        if x == '/' then if next == some '=' then operator c else mark .slash 1 c
        else if x == '\x22' || x == '\x27' then quoted x c
        else if x == '\x60' then chunk .wholeTemplate .templateHead c.next
        else if x == '#' then
          if next.any isIdentifierStart then
            written .privateIdentifier c (Literal.identifierEnd .plain r (c.offset + 1))
          else mark .hash 1 c
        else if x.isDigit then number c
        else if isIdentifierStart x || x == '\\' then word c
        else fixed .unknown 1 c

/-- Makes a lexeme the current token. -/
def accept (l : Lexer) (start : Cursor) (x : Lexeme) : Lexer :=
  let l :=
    { l with here := x.stop, token := { l.token with kind := x.kind, start, value := x.value } }
  match x.error with
  | some problem => l.report ⟨start.offset, x.stop.offset⟩ problem
  | none => l

/-- Moves to the next token. -/
def scan (l : Lexer) : Lexer :=
  let (gap, start) := Gap.skip l.here
  let l := match gap.openComment with
    | some o => l.report ⟨o, start.offset⟩ .unterminatedComment
    | none => l
  let l := { l with token := ⟨.endOfFile, start, "", gap.lineBreak, gap.doc⟩, here := start }
  match start.rest with
  | [] => l
  | x :: r => l.accept start (lexeme start x r)

/-! ## Reading a token again -/

/-- Reads the current closing brace as the end of a substitution, and the template text after it. -/
def rescanTemplate (l : Lexer) : Lexer :=
  l.accept l.token.start (chunk .templateTail .templateMiddle l.token.start.next)

/-- Reads the current slash as the start of a regular expression. -/
def rescanRegex (l : Lexer) : Lexer :=
  let start := l.token.start
  l.accept start (written .regularExpression start (Raw.skipRegex start.next))

/-! ## Skipping -/

/-- Skips from the current opening brace to the brace that closes it, and moves to the token after
that. Returns the offset at which the block ends. -/
def skipBlock (l : Lexer) : Nat × Lexer :=
  let start := l.token.start
  let (stop, closed) := Raw.skipBraces start.next
  let stop := { stop with offset := min stop.offset l.size }
  let l := { l with here := stop }
  let l := if closed then l else l.report ⟨start.offset, stop.offset⟩ .unclosedBlock
  (stop.offset, l.scan)

/-- Reads on from the head of a template to its end, and makes one token of it. Other tokens stay as
they are. -/
def skipTemplate (l : Lexer) : Lexer :=
  if l.token.kind = .templateHead then
    let start := l.token.start
    l.accept start (written .wholeTemplate start (Raw.skipSubstitutions l.here))
  else l

/-! ## All tokens -/

/-- The lexers at each token of the rest of the text, up to and including its end. A text has no
more tokens than `limit` when that exceeds its length. -/
def tokens (l : Lexer) : (limit : Nat) → List Lexer
  | 0 => []
  | limit + 1 =>
    let l := l.scan
    if l.token.kind = .endOfFile then [l] else l :: l.tokens limit

/-- The errors found so far, in the order in which they were found. -/
def foundErrors (l : Lexer) : List LexicalError := l.errors.reverse

end Lexer

end DeclBundle
