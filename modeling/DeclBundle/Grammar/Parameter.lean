import DeclBundle.Grammar.Expression

/-!
# Parameters and arguments

Type parameters, type arguments, parameters and the ascriptions that follow them.
-/

set_option autoImplicit false

namespace DeclBundle.Grammar

variable (sub : Rules)

/-- A type after a colon, if there is one. -/
def optionalAscription : Parser Slot := do
  if ← optionalMark .colon then sub .type else return none

/-- The modifiers of a type parameter. -/
def typeParameterModifier? : TokenKind → Option Modifier
  | .keyword .in_ => some .in_
  | .keyword .out => some .out
  | .keyword .const => some .const
  | _ => none

/-- One type parameter. -/
def typeParameter : Parser Slot := do
  let start ← offset
  let ms ← modifiers typeParameterModifier? nextIsName
  let name ← bindingIdentifier
  let bound ← if ← optionalWord .extends_ then sub .type else pure none
  let default ← if ← optionalMark .equals then sub .type else pure none
  finish (.typeParameter ms name bound default) start

/-- Type parameters in angle brackets, if there are any. -/
def typeParameters : Parser (List Slot) := do
  unless ← optionalMark .lessThan do
    return []
  let found ← commaList .greaterThan (typeParameter sub)
  expectMark .greaterThan
  return found

/-- Type arguments in angle brackets, if there are any on the same line. -/
def typeArguments : Parser (List Slot) := do
  if !(← atMark .lessThan) || (← afterLineBreak) then
    return []
  advance
  let found ← commaList .greaterThan (sub .type)
  expectMark .greaterThan
  return found

/-- The modifiers of a parameter. -/
def parameterModifier? : TokenKind → Option Modifier
  | .keyword .public_ => some .public_
  | .keyword .private_ => some .private_
  | .keyword .protected_ => some .protected_
  | .keyword .readonly => some .readonly
  | .keyword .override => some .override
  | _ => none

/-- A token that can follow the modifier of a parameter. -/
def followsParameterModifier : TokenKind → Bool
  | .punctuation .openBrace | .punctuation .openBracket | .punctuation .dotDotDot => true
  | k => k.isName

/-- The name of a parameter; a pattern is kept as it is written. -/
def parameterName : Parser Slot := do
  let start ← here
  match ← kind with
  | .punctuation .openBrace =>
    skipBlock
    finishVerbatim start
  | .punctuation .openBracket =>
    skipBalanced .openBracket .closeBracket
    finishVerbatim start
  | .keyword .this => identifierName
  | _ => bindingIdentifier

/-- One parameter. -/
def parameter : Parser Slot := do
  let doc ← pendingDoc
  let start ← offset
  skipDecorators
  let ms ← modifiers parameterModifier? (return followsParameterModifier (← nextKind))
  let isRest ← optionalMark .dotDotDot
  let name ← parameterName
  let isOptional ← optionalMark .question
  let ascription ← optionalAscription sub
  let initializer ← optionalInitializer
  let node ← finish (.parameter ms isRest name isOptional ascription initializer) start
  attachDoc node doc
  return node

/-- Parameters in parentheses. -/
def parameters : Parser (List Slot) := do
  unless ← expect? (.punctuation .openParen) do
    return []
  let found ← commaList .closeParen (parameter sub)
  expectMark .closeParen
  return found

/-- Type parameters, parameters and the type of the result. -/
def signature : Parser (Signature Slot) := do
  let ts ← typeParameters sub
  let ps ← parameters sub
  let result ← optionalAscription sub
  return ⟨ts, ps, result⟩

end DeclBundle.Grammar
