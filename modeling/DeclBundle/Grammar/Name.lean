import DeclBundle.Grammar.Parser

/-!
# Names

Identifiers, dotted names, string literals, and the groups of tokens that are skipped as a whole.
-/

set_option autoImplicit false

namespace DeclBundle.Grammar

/-- A name where any keyword is allowed. -/
def identifierName : Parser Slot := do
  let start ← offset
  if ← atName then
    let text ← value
    advance
    finish (.identifier text) start
  else
    report .identifierExpected
    finish (.identifier "") start

/-- The name of a binding, where reserved words are not allowed. -/
def bindingIdentifier : Parser Slot := do
  if ← atBindingName then
    identifierName
  else
    report .identifierExpected
    finish (.identifier "") (← offset)

/-- A quoted string. -/
def stringLiteral : Parser Slot := do
  let start ← offset
  if ← isAt .stringLiteral then
    let text ← value
    advance
    finish (.stringLiteral text) start
  else
    expect .stringLiteral
    finish (.stringLiteral "") start

/-- The name of an export, which may be quoted. -/
def exportName : Parser Slot := do
  if ← isAt .stringLiteral then stringLiteral else identifierName

/-- Continues a dotted name after `entity`. -/
def dottedRest (start : Nat) : (rounds : Nat) → Slot → Parser Slot
  | 0, entity => giveUp entity
  | rounds + 1, entity => do
    unless ← atMark .dot do
      return entity
    let next ← nextKind
    unless next.isName || next == .privateIdentifier do
      return entity
    advance
    let right ← identifierName
    dottedRest start rounds (← finish (.qualifiedName entity right) start)

/-- A dotted name that starts with any name. -/
def entityName : Parser Slot := do
  let start ← offset
  dottedRest start (← limit) (← identifierName)

/-- A dotted name that starts with the name of a binding. -/
def bindingEntityName : Parser Slot := do
  let start ← offset
  dottedRest start (← limit) (← bindingIdentifier)

/-! ## Groups that are skipped -/

/-- Skips tokens until the group that `start` opens is closed; `depth` such groups are open. -/
def skipGroup (start close : Punctuation) : (rounds : Nat) → (depth : Nat) → Parser Unit
  | 0, _ => giveUp ()
  | rounds + 1, depth => do
    let token ← kind
    if token == .endOfFile then
      return
    if token == .punctuation .openBrace && start != .openBrace then
      skipBlock
      skipGroup start close rounds depth
    else
      relex Lexer.skipTemplate
      if token == .punctuation start then
        advance
        skipGroup start close rounds (depth + 1)
      else if token == .punctuation close then
        advance
        unless depth ≤ 1 do
          skipGroup start close rounds (depth - 1)
      else
        advance
        skipGroup start close rounds depth

/-- Skips a balanced group of tokens that starts with the current one. -/
def skipBalanced (start close : Punctuation) : Parser Unit := do
  skipGroup start close (← limit) 0

/-- Skips a dotted name. -/
def skipDotted : (rounds : Nat) → Parser Unit
  | 0 => giveUp ()
  | rounds + 1 => do
    if ← atName then
      advance
      if ← optionalMark .dot then
        skipDotted rounds

/-- Skips decorators. -/
def skipDecoratorsIn : (rounds : Nat) → Parser Unit
  | 0 => giveUp ()
  | rounds + 1 => do
    if ← optionalMark .at_ then
      skipDotted (← limit)
      if ← atMark .openParen then
        skipBalanced .openParen .closeParen
      skipDecoratorsIn rounds

/-- Skips the decorators before a declaration, a member or a parameter. -/
def skipDecorators : Parser Unit := do
  skipDecoratorsIn (← limit)

end DeclBundle.Grammar
