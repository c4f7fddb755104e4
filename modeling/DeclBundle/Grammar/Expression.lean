import DeclBundle.Grammar.Name

/-!
# Expressions

Declarations need little of expressions: literals, dotted names, and object and array literals that
are made of these. Every other expression is skipped and kept as it is written.
-/

set_option autoImplicit false

namespace DeclBundle.Grammar

variable (sub : Rules)

/-! ## Skipping -/

/-- A slash after a token of the given kind starts a regular expression. -/
def regexMayFollow : Option TokenKind → Bool
  | none => true
  | some .identifier | some .numericLiteral | some .bigIntLiteral | some .stringLiteral
  | some .wholeTemplate
  | some .regularExpression | some (.punctuation .closeParen) | some (.punctuation .closeBracket)
  | some (.punctuation .closeBrace) | some (.keyword .this) | some (.keyword .true_)
  | some (.keyword .false_)
  | some (.keyword .null) => false
  | some _ => true

/-- The current token starts a declaration when it is the first of its line. -/
def startsDeclaration : TokenKind → Bool
  | .keyword .export_ | .keyword .import_ | .keyword .function | .keyword .class_ | .keyword .const
  | .keyword .let_
  | .keyword .var | .keyword .interface | .keyword .enum_ | .keyword .declare | .keyword .namespace_
  | .keyword .abstract_ | .punctuation .at_ => true
  | _ => false

/-- Reads the current token on to its end when it is the head of a template or opens a regular
expression. Returns whether the token was one of these. -/
def completeToken (previous : Option TokenKind) : Parser Bool := do
  match ← kind with
  | .templateHead =>
    relex Lexer.skipTemplate
    return true
  | .punctuation .slash | .operator =>
    if (← tokenText).startsWith "/" && regexMayFollow previous then
      relex Lexer.rescanRegex
      return true
    else
      return false
  | _ => return false

/-- A declaration starts at the current token, on a line of its own and outside of all groups. -/
def atNextDeclaration (depth : Nat) (previous : Option TokenKind) : Parser Bool := do
  return previous.isSome && depth == 0 && (← afterLineBreak) && startsDeclaration (← kind)

/-- Consumes the current token, one of an expression, and goes on with it as the previous one. -/
def passToken (go : Option TokenKind → Parser Unit) : Parser Unit := do
  let passed ← kind
  advance
  go (some passed)

/-- Skips the tokens of an expression; `depth` groups are open. -/
def skipTokens : (rounds : Nat) → (depth : Nat) → (previous : Option TokenKind) → Parser Unit
  | 0, _, _ => giveUp ()
  | rounds + 1, depth, previous => do
    match ← kind with
    | .endOfFile => return
    | .punctuation .comma | .punctuation .semicolon | .punctuation .closeBrace =>
      unless depth == 0 do
        passToken (skipTokens rounds depth)
    | .punctuation .closeParen | .punctuation .closeBracket =>
      unless depth == 0 do
        passToken (skipTokens rounds (depth - 1))
    | .punctuation .openParen | .punctuation .openBracket =>
      passToken (skipTokens rounds (depth + 1))
    | .punctuation .openBrace =>
      skipBlock
      skipTokens rounds depth (some (.punctuation .closeBrace))
    | _ =>
      let completed ← completeToken previous
      unless !completed && (← atNextDeclaration depth previous) do
        passToken (skipTokens rounds depth)

/-- Skips an expression. -/
def skipExpression : Parser Unit := do
  skipTokens (← limit) 0 none

/-! ## Simple expressions -/

/-- Continues a chain of property accesses after `expression`. The chain fails when a dot has no
name after it. -/
def accessChain (start : Nat) : (rounds : Nat) → Slot → Parser Slot
  | 0, expression => giveUp expression
  | rounds + 1, expression => do
    unless ← atMark .dot do
      return expression
    advance
    unless ← atName do
      return none
    let name ← identifierName
    accessChain start rounds (← finish (.propertyAccess expression name) start)

/-- A literal that is the current token. -/
def tokenLiteral? : Parser (Option (Form Slot)) := do
  match ← kind with
  | .stringLiteral => return some (.stringLiteral (← value))
  | .numericLiteral => return some (.numericLiteral (← value))
  | .bigIntLiteral => return some (.bigIntLiteral (← value))
  | .wholeTemplate => return some (.templateLiteral (← tokenText))
  | .keyword .true_ => return some (.booleanLiteral true)
  | .keyword .false_ => return some (.booleanLiteral false)
  | .keyword .null => return some .nullLiteral
  | _ => return none

/-- The digits after a minus sign. -/
def negativeLiteral? : Parser (Option (Form Slot)) := do
  match ← kind with
  | .numericLiteral => return some (.numericLiteral ("-" ++ (← value)))
  | .bigIntLiteral => return some (.bigIntLiteral ("-" ++ (← value)))
  | _ => return none

/-- A literal or a chain of names, or nothing when the expression is none. -/
def simpleExpression : Parser Slot := do
  let start ← offset
  if let some form ← tokenLiteral? then
    advance
    return ← finish form start
  if ← optionalMark .minus then
    match ← negativeLiteral? with
    | some form =>
      advance
      finish form start
    | none => return none
  else if (← atBindingName) || (← atWord .this) then
    accessChain start (← limit) (← identifierName)
  else
    return none

/-- Nothing of an expression follows. -/
def atExpressionEnd : Parser Bool := do
  if ← afterLineBreak then
    return true
  match ← kind with
  | .punctuation .comma | .punctuation .semicolon | .punctuation .closeParen
  | .punctuation .closeBracket
  | .punctuation .closeBrace | .endOfFile => return true
  | _ => return false

/-- What is read on to tell whether an expression is simple. -/
def readsSimpleExpression : Parser Bool := do
  discard simpleExpression
  atExpressionEnd

/-- An expression: a literal, a chain of names, or anything else as it is written. -/
def expression : Parser Slot := do
  let start ← here
  let isSimple ← lookAhead readsSimpleExpression
  if isSimple then
    if let some node ← simpleExpression then
      return some node
  skipExpression
  finishVerbatim start

/-- The name of a property or of a member. -/
def propertyName : Parser Slot := do
  let start ← offset
  match ← kind with
  | .stringLiteral => stringLiteral
  | .numericLiteral | .bigIntLiteral =>
    let text ← value
    advance
    finish (.numericLiteral text) start
  | .privateIdentifier =>
    let text ← value
    advance
    finish (.privateIdentifier text) start
  | .punctuation .openBracket =>
    advance
    let inner ← expression
    expectMark .closeBracket
    finish (.computedName inner) start
  | _ => identifierName

/-! ## Object and array literals -/

/-- The properties of an object literal, or nothing when one of them is no literal. -/
def literalProperties : (rounds : Nat) → List Slot → Parser (Option (List Slot))
  | 0, done => giveUp (some done.reverse)
  | rounds + 1, done => do
    if ← atMark .closeBrace then
      return some done.reverse
    let isName ← match ← kind with
      | .stringLiteral | .numericLiteral => pure true
      | k => pure k.isName
    unless isName do
      return none
    let start ← offset
    let name ← propertyName
    let initializer ←
      if ← optionalMark .colon then
        match ← sub .literalValue with
        | some v => pure (some (some v))
        | none => pure none
      else
        pure (some none)
    match initializer with
    | none => return none
    | some initializer =>
      let property ← finish (.propertyAssignment name initializer) start
      if ← optionalMark .comma then
        literalProperties rounds (property :: done)
      else
        return some (property :: done).reverse

/-- An object literal, or nothing when it is not made of literals. -/
def objectLiteral : Parser Slot := do
  let start ← offset
  advance
  match ← literalProperties sub (← limit) [] with
  | none => return none
  | some properties =>
    if ← optionalMark .closeBrace then
      finish (.objectLiteral properties) start
    else
      return none

/-- The elements of an array literal, where a hole is an empty slot, or nothing when one of them is
no literal. -/
def literalElements : (rounds : Nat) → List Slot → Parser (Option (List Slot))
  | 0, done => giveUp (some done.reverse)
  | rounds + 1, done => do
    if ← atMark .closeBracket then
      return some done.reverse
    if ← optionalMark .comma then
      literalElements rounds (none :: done)
    else
      match ← sub .literalValue with
      | none => return none
      | some element =>
        if ← optionalMark .comma then
          literalElements rounds (some element :: done)
        else
          return some (some element :: done).reverse

/-- An array literal, or nothing when it is not made of literals. -/
def arrayLiteral : Parser Slot := do
  let start ← offset
  advance
  match ← literalElements sub (← limit) [] with
  | none => return none
  | some elements =>
    if ← optionalMark .closeBracket then
      finish (.arrayLiteral elements) start
    else
      return none

/-- A value made of literals, or nothing. -/
def literalValue : Parser Slot := do
  match ← kind with
  | .punctuation .openBrace => objectLiteral sub
  | .punctuation .openBracket => arrayLiteral sub
  | _ => simpleExpression

/-- What is read on to tell whether an expression in brackets is made of literals. -/
def readsLiteralValue : Parser Bool := do
  return (← literalValue sub).isSome && (← atExpressionEnd)

/-- The initializer of a variable. -/
def variableInitializer : Parser Slot := do
  if (← atMark .openBrace) || (← atMark .openBracket) then
    let isLiteral ← lookAhead (readsLiteralValue sub)
    if isLiteral then
      if let some node ← literalValue sub then
        return some node
  expression

/-- The value after an equals sign, if there is one. -/
def optionalInitializer : Parser Slot := do
  if ← optionalMark .equals then expression else return none

/-! ## Binding patterns -/

/-- One slot of an object pattern. -/
def objectPatternElement : Parser Slot := do
  let start ← offset
  let isRest ← optionalMark .dotDotDot
  let (key, name) ←
    if isRest then
      pure (none, ← bindingIdentifier)
    else
      let first ← propertyName
      if ← optionalMark .colon then
        pure (first, ← sub .bindingName)
      else
        pure (none, first)
  let initializer ← optionalInitializer
  finish (.bindingElement isRest key name initializer) start

/-- An object pattern. -/
def objectPattern : Parser Slot := do
  let start ← offset
  expectMark .openBrace
  let elements ← commaList .closeBrace (objectPatternElement sub)
  expectMark .closeBrace
  finish (.objectPattern elements) start

/-- The slots of an array pattern; a hole is an element without a name. -/
def arrayPatternElements : (rounds : Nat) → List Slot → Parser (List Slot)
  | 0, done => giveUp done.reverse
  | rounds + 1, done => do
    if (← atMark .closeBracket) || (← atEnd) then
      return done.reverse
    let start ← offset
    if ← optionalMark .comma then
      let hole ← finish (.bindingElement false none none none) start
      arrayPatternElements rounds (hole :: done)
    else
      let isRest ← optionalMark .dotDotDot
      let name ← sub .bindingName
      let initializer ← optionalInitializer
      let element ← finish (.bindingElement isRest none name initializer) start
      if ← optionalMark .comma then
        arrayPatternElements rounds (element :: done)
      else
        return (element :: done).reverse

/-- An array pattern. -/
def arrayPattern : Parser Slot := do
  let start ← offset
  expectMark .openBracket
  let elements ← arrayPatternElements sub (← limit) []
  expectMark .closeBracket
  finish (.arrayPattern elements) start

/-- The name of a variable, or a pattern of names. -/
def bindingName : Parser Slot := do
  match ← kind with
  | .punctuation .openBrace => objectPattern sub
  | .punctuation .openBracket => arrayPattern sub
  | _ => bindingIdentifier

end DeclBundle.Grammar
