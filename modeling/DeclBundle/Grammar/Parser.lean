import DeclBundle.Ast.Arena
import DeclBundle.Token.Lexer

/-!
# Parsers

A parser reads tokens and adds nodes to an arena. Errors never stop it: it records them and goes on
with what it has.

The rules of the grammar call each other through `Rules`, which gives a parser for each recursive
notion. Each part of the grammar can so be written on its own; the knot is tied once, at the end,
with the length of the text as the limit on how deep the rules can nest. Every such call follows a
token that was consumed, so the limit is never reached. The same number limits repetitions, since
each round of one consumes a token. A parser that reaches a limit gives up and leaves a mark in its
state.
-/

set_option autoImplicit false

namespace DeclBundle

open Text (Cursor Span)

namespace Grammar

/-- The depth to which types and blocks may nest. -/
def maxDepth : Nat := 256

/-- Everything a parser reads and writes. -/
structure State where
  file : String
  lexer : Lexer
  arena : Arena
  /-- The errors found so far, the latest first. -/
  errors : List Diagnostic
  /-- Where the last consumed token ends. -/
  lastEnd : Nat
  /-- How many types and blocks are open. -/
  depth : Nat
  /-- An import or an export was found outside of all blocks. -/
  isModule : Bool
  /-- A conditional type may not start here: an `extends` belongs to an enclosing one. -/
  noConditional : Bool
  /-- More than the number of tokens of the text. -/
  limit : Nat
  /-- Where the tokens that have been read start, the latest first. Going back does not take them
  away. -/
  visited : List Cursor
  /-- A repetition or a rule has reached its limit. -/
  isCut : Bool

/-- A parser. -/
abbrev Parser := StateM State

/-- The notions of the grammar that contain themselves. -/
inductive Notion where
  | type
  | unionType
  | operatorType
  | statement
  | namespaceBody (start : Nat) (modifiers : Modifiers) (flavor : ModuleFlavor)
  | literalValue
  | bindingName

/-- A parser for each recursive notion. -/
abbrev Rules := Notion → Parser Slot

/-! ## The current token -/

/-- The kind of the current token. -/
def kind : Parser TokenKind := return (← get).lexer.token.kind

/-- The value of the current token. -/
def value : Parser String := return (← get).lexer.token.value

/-- The current token as it is written. -/
def tokenText : Parser String := return (← get).lexer.tokenText

/-- Where the current token starts. -/
def here : Parser Cursor := return (← get).lexer.token.start

/-- The offset at which the current token starts. -/
def offset : Parser Nat := return (← get).lexer.token.start.offset

/-- The documentation comment before the current token. -/
def pendingDoc : Parser (Option Text.Excerpt) := return (← get).lexer.token.doc

/-- The current token is of the given kind. -/
def isAt (k : TokenKind) : Parser Bool := return (← kind) == k

/-- The current token is the given mark. -/
def atMark (p : Punctuation) : Parser Bool := isAt (.punctuation p)

/-- The current token is the given word. -/
def atWord (k : Keyword) : Parser Bool := isAt (.keyword k)

/-- All tokens are consumed. -/
def atEnd : Parser Bool := isAt .endOfFile

/-- The current token can name a binding. -/
def atBindingName : Parser Bool := return (← kind).isBindingName

/-- The current token can name a property. -/
def atName : Parser Bool := return (← kind).isName

/-- A line ended before the current token. -/
def afterLineBreak : Parser Bool := return (← get).lexer.token.afterLineBreak

/-! ## Moving on -/

/-- The state after the tokens up to `stop` have been consumed, at the current token of `lexer`. -/
def State.moveTo (s : State) (stop : Nat) (lexer : Lexer) : State :=
  { s with lastEnd := stop, lexer, visited := lexer.token.start :: s.visited }

/-- Consumes the current token. -/
def advance : Parser Unit :=
  modify fun s => s.moveTo s.lexer.tokenEnd s.lexer.scan

/-- Consumes the current token if it is of the given kind. -/
def optional (k : TokenKind) : Parser Bool := do
  if ← isAt k then
    advance
    return true
  else
    return false

/-- Consumes the given mark if it is there. -/
def optionalMark (p : Punctuation) : Parser Bool := optional (.punctuation p)

/-- Consumes the given word if it is there. -/
def optionalWord (k : Keyword) : Parser Bool := optional (.keyword k)

/-- Skips the block that the current brace opens. -/
def skipBlock : Parser Unit :=
  modify fun s =>
    let (stop, lexer) := s.lexer.skipBlock
    s.moveTo stop lexer

/-- Applies a change to the lexer that keeps the tokens consumed so far. -/
def relex (f : Lexer → Lexer) : Parser Unit :=
  modify fun s => { s with lexer := f s.lexer }

/-! ## Looking ahead -/

/-- The kind of the token after the current one. -/
def nextKind : Parser TokenKind := return (← get).lexer.scan.token.kind

/-- The next token is on the same line and satisfies `p`. -/
def nextOnSameLine (p : TokenKind → Bool) : Parser Bool := do
  let next := (← get).lexer.scan.token
  return !next.afterLineBreak && p next.kind

/-- What has to be kept in order to come back to a place. -/
structure Mark where
  lexer : Lexer
  lastEnd : Nat
  errors : List Diagnostic

/-- The current place. -/
def mark : Parser Mark := do
  let s ← get
  return ⟨s.lexer, s.lastEnd, s.errors⟩

/-- Goes back to a place. -/
def rewind (m : Mark) : Parser Unit :=
  modify fun s => { s with lexer := m.lexer, lastEnd := m.lastEnd, errors := m.errors }

/-- Runs a parser for its answer only, and goes back. The nodes that it has added stay. -/
def lookAhead (p : Parser Bool) : Parser Bool := do
  let before ← mark
  let answer ← p
  rewind before
  return answer

/-! ## Errors -/

/-- Reports a problem with the current token. Only the first of several problems in a row at one
place is kept. -/
def report (problem : Problem) : Parser Unit :=
  modify fun s =>
    let start := s.lexer.token.start.offset
    if s.errors.head?.any (·.start == start) then s
    else
      { s with errors := .at_ s.file ⟨start, max s.lexer.tokenEnd start⟩ problem :: s.errors }

/-- Consumes a token of the given kind, or reports that it is missing. -/
def expect? (k : TokenKind) : Parser Bool := do
  if ← optional k then
    return true
  else
    report (.expected k.description)
    return false

/-- Consumes a token of the given kind, or reports that it is missing. -/
def expect (k : TokenKind) : Parser Unit := discard (expect? k)

/-- Consumes the given mark, or reports that it is missing. -/
def expectMark (p : Punctuation) : Parser Unit := expect (.punctuation p)

/-- Consumes the given word, or reports that it is missing. -/
def expectWord (k : Keyword) : Parser Unit := expect (.keyword k)

/-- The end of a statement: a semicolon, or a place where it may be left out. -/
def semicolon : Parser Unit := do
  if ← optionalMark .semicolon then
    return
  if (← atMark .closeBrace) || (← atEnd) || (← afterLineBreak) then
    return
  expectMark .semicolon

/-! ## Nodes -/

/-- Adds a node from `start` to the end of the last consumed token. -/
def finish (form : Form Slot) (start : Nat) : Parser Slot :=
  modifyGet fun s =>
    let (arena, id) := s.arena.add form ⟨start, max s.lastEnd start⟩
    (some id, { s with arena })

/-- Adds a node that covers no text, at the current token. -/
def finishEmpty (form : Form Slot) : Parser Slot :=
  modifyGet fun s =>
    let start := s.lexer.token.start.offset
    let (arena, id) := s.arena.add form ⟨start, start⟩
    (some id, { s with arena })

/-- Attaches a documentation comment to a node. -/
def attachDoc (node : Slot) (doc : Option Text.Excerpt) : Parser Unit :=
  match doc, node with
  | some e, some _ => modify fun s => { s with arena := s.arena.setDoc node e.text }
  | _, _ => return

/-- An expression kept as it is written, from `start` to the end of the last consumed token. -/
def finishVerbatim (start : Cursor) : Parser Slot := do
  finish (.verbatim (start.text (← get).lastEnd)) start.offset

/-! ## Repetition -/

/-- More rounds than any repetition can take. -/
def limit : Parser Nat := return (← get).limit

/-- The answer of a repetition or of a rule that has reached its limit. -/
def giveUp {α : Type} (answer : α) : Parser α := do
  modify fun s => { s with isCut := true }
  return answer

/-- Items with commas between them, up to the closing mark. -/
def itemsUntil (close : Punctuation) (item : Parser Slot) : (rounds : Nat) → List Slot →
    Parser (List Slot)
  | 0, done => giveUp done.reverse
  | rounds + 1, done => do
    if (← atMark close) || (← atEnd) then
      return done.reverse
    let x ← item
    if ← optionalMark .comma then
      itemsUntil close item rounds (x :: done)
    else
      return (x :: done).reverse

/-- Items with commas between them, up to the closing mark, which is not consumed. -/
def commaList (close : Punctuation) (item : Parser Slot) : Parser (List Slot) := do
  itemsUntil close item (← limit) []

/-- Modifiers, as long as the current token is one and can be meant as one. -/
def modifiersWhile (flag? : Parser (Option Modifier)) (isMeant : Parser Bool) :
    (rounds : Nat) → Modifiers → Parser Modifiers
  | 0, found => giveUp found
  | rounds + 1, found => do
    match ← flag? with
    | none => return found
    | some m =>
      if ← isMeant then
        advance
        modifiersWhile flag? isMeant rounds (found.insert m)
      else
        return found

/-- The modifiers before something, where `flag?` tells which words are modifiers here. -/
def modifiers (flag? : TokenKind → Option Modifier) (isMeant : Parser Bool) : Parser Modifiers := do
  modifiersWhile (return flag? (← kind)) isMeant (← limit) .empty

/-- The next token is a name. -/
def nextIsName : Parser Bool := return (← nextKind).isName

end Grammar

end DeclBundle
