import DeclBundle.Grammar.Member

/-!
# Types

From the loosest binding to the tightest: predicates, function and conditional types; unions;
intersections; operators; array types and indexed accesses; and the types that need no brackets.
-/

set_option autoImplicit false

namespace DeclBundle.Grammar

variable (sub : Rules)

/-- A node that stands for a missing type. -/
def missingType : Parser Slot := finishEmpty (.keywordType .any)

/-- Reports that a type is missing, and puts a node in its place. -/
def reportMissingType : Parser Slot := do
  report .typeExpected
  missingType

/-! ## Types without brackets -/

/-- The keyword type that a token stands for. -/
def keywordType? : TokenKind → Option KeywordType
  | .keyword .any => some .any
  | .keyword .unknown => some .unknown
  | .keyword .number => some .number
  | .keyword .bigint => some .bigint
  | .keyword .string => some .string
  | .keyword .boolean => some .boolean
  | .keyword .symbol => some .symbol
  | .keyword .object => some .object
  | .keyword .void => some .void
  | .keyword .undefined => some .undefined
  | .keyword .null => some .null
  | .keyword .never => some .never
  | .keyword .intrinsic => some .intrinsic
  | _ => none

/-- A literal type made of one literal. -/
def finishLiteralType (form : Form Slot) (start : Nat) : Parser Slot := do
  let literal ← finish form start
  finish (.literalType literal) start

/-- A number or a big integer, with an optional minus sign. -/
def numericType (start : Nat) : Parser Slot := do
  let sign := if ← optionalMark .minus then "-" else ""
  let text := sign ++ (← value)
  match ← kind with
  | .bigIntLiteral =>
    advance
    finishLiteralType (.bigIntLiteral text) start
  | .numericLiteral =>
    advance
    finishLiteralType (.numericLiteral text) start
  | _ => reportMissingType

/-- A type of an imported module, after an optional `typeof`. -/
def importType (start : Nat) (isTypeof : Bool) : Parser Slot := do
  expectWord .import_
  expectMark .openParen
  let argument ← stringLiteral
  if ← optionalMark .comma then
    if ← atMark .openBrace then
      skipBlock
  expectMark .closeParen
  let qualifier ← if ← optionalMark .dot then entityName else pure none
  let arguments ← typeArguments sub
  finish (.importType isTypeof argument qualifier arguments) start

/-- The substitutions of a template type, each with the text after it. -/
def templateSpans : (rounds : Nat) → List Slot → Parser (List Slot)
  | 0, done => giveUp done.reverse
  | rounds + 1, done => do
    let start ← offset
    let type ← sub .type
    unless ← atMark .closeBrace do
      expectMark .closeBrace
      return done.reverse
    relex Lexer.rescanTemplate
    let isTail ← isAt .templateTail
    let literal ← value
    advance
    let span ← finish (.templateSpan type literal isTail) start
    if isTail then
      return (span :: done).reverse
    else
      templateSpans rounds (span :: done)

/-- A template type, from its head on. -/
def templateType (start : Nat) : Parser Slot := do
  let head ← value
  advance
  let spans ← templateSpans sub (← limit) []
  finish (.templateType head spans) start

/-- What is read on from a brace to tell whether it opens a mapped type. -/
def readsMappedType : Parser Bool := do
  advance
  if (← atMark .plus) || (← atMark .minus) then
    advance
    unless ← atWord .readonly do
      return false
  discard (optionalWord .readonly)
  unless ← optionalMark .openBracket do
    return false
  unless ← atName do
    return false
  advance
  atWord .in_

/-- The current brace opens a mapped type. -/
def atMappedType : Parser Bool := lookAhead readsMappedType

/-- The sign before a modifier of a mapped type. -/
def leadingSign : Parser (Option MappedSign) := do
  if ← optionalMark .plus then
    return some .plus
  else if ← optionalMark .minus then
    return some .minus
  else
    return none

/-- A modifier of a mapped type with its sign. -/
def mappedSign (word : TokenKind) : Parser (Option MappedSign) := do
  let sign ← leadingSign
  if ← optional word then
    return some (sign.getD .present)
  if sign.isSome then
    expect word
  return sign

/-- A mapped type. -/
def mappedType (start : Nat) : Parser Slot := do
  expectMark .openBrace
  let readonly ← mappedSign (.keyword .readonly)
  expectMark .openBracket
  let parameterStart ← offset
  let name ← identifierName
  expectWord .in_
  let bound ← sub .type
  let parameter ← finish (.typeParameter .empty name bound none) parameterStart
  let nameType ← if ← optionalWord .as_ then sub .type else pure none
  expectMark .closeBracket
  let question ← mappedSign (.punctuation .question)
  let type ← optionalAscription sub
  unless ← optionalMark .semicolon do
    discard (optionalMark .comma)
  expectMark .closeBrace
  finish (.mappedType readonly parameter nameType question type) start

/-- What is read on to tell whether an element of a tuple has a name. -/
def readsNamedElement : Parser Bool := do
  discard (optionalMark .dotDotDot)
  unless ← atName do
    return false
  advance
  discard (optionalMark .question)
  atMark .colon

/-- The current element of a tuple has a name. -/
def atNamedElement : Parser Bool := lookAhead readsNamedElement

/-- One element of a tuple. -/
def tupleElement : Parser Slot := do
  let start ← offset
  if ← atNamedElement then
    let isRest ← optionalMark .dotDotDot
    let name ← identifierName
    let isOptional ← optionalMark .question
    expectMark .colon
    let type ← sub .type
    finish (.namedTupleMember isRest name isOptional type) start
  else if ← optionalMark .dotDotDot then
    let type ← sub .type
    finish (.restType type) start
  else
    let type ← sub .type
    if ← optionalMark .question then
      finish (.optionalType type) start
    else
      return type

/-- A tuple. -/
def tupleType (start : Nat) : Parser Slot := do
  expectMark .openBracket
  let elements ← commaList .closeBracket (tupleElement sub)
  expectMark .closeBracket
  finish (.tupleType elements) start

/-- A name with type arguments. -/
def typeReference (start : Nat) : Parser Slot := do
  let name ← entityName
  let arguments ← typeArguments sub
  finish (.typeReference name arguments) start

/-- A type that starts with a token that is no keyword type. -/
def otherPrimaryType (start : Nat) : Parser Slot := do
  match ← kind with
  | .keyword .this =>
    advance
    finish .thisType start
  | .keyword .true_ =>
    advance
    finishLiteralType (.booleanLiteral true) start
  | .keyword .false_ =>
    advance
    finishLiteralType (.booleanLiteral false) start
  | .stringLiteral =>
    let literal ← stringLiteral
    finish (.literalType literal) start
  | .numericLiteral | .bigIntLiteral | .punctuation .minus => numericType start
  | .wholeTemplate =>
    let text ← tokenText
    advance
    finishLiteralType (.templateLiteral text) start
  | .templateHead => templateType sub start
  | .keyword .typeof =>
    advance
    if ← atWord .import_ then
      importType sub start true
    else
      let name ← entityName
      let arguments ← typeArguments sub
      finish (.typeQuery name arguments) start
  | .keyword .import_ => importType sub start false
  | .punctuation .openBrace =>
    if ← atMappedType then
      mappedType sub start
    else
      let members ← typeMembers sub
      finish (.typeLiteral members) start
  | .punctuation .openBracket => tupleType sub start
  | .punctuation .openParen =>
    advance
    let type ← sub .type
    expectMark .closeParen
    finish (.parenthesizedType type) start
  | k => if k.isName then typeReference sub start else reportMissingType

/-- A type that needs no brackets. A keyword type before a dot is a name. -/
def primaryType : Parser Slot := do
  let start ← offset
  if let some keyword := keywordType? (← kind) then
    if (← nextKind) != .punctuation .dot then
      advance
      return ← finish (.keywordType keyword) start
  otherPrimaryType sub start

/-! ## Brackets after a type -/

/-- Continues a type with brackets on the same line. -/
def bracketsAfter (start : Nat) : (rounds : Nat) → Slot → Parser Slot
  | 0, type => giveUp type
  | rounds + 1, type => do
    if (← afterLineBreak) || !(← atMark .openBracket) then
      return type
    advance
    if ← optionalMark .closeBracket then
      bracketsAfter start rounds (← finish (.arrayType type) start)
    else
      let index ← sub .type
      expectMark .closeBracket
      bracketsAfter start rounds (← finish (.indexedAccess type index) start)

/-- A type with any brackets after it. -/
def bracketedType : Parser Slot := do
  let start ← offset
  bracketsAfter sub start (← limit) (← primaryType sub)

/-! ## Function types -/

/-- Skips the start of a parameter, and tells whether there was one. -/
def skipParameterStart : Parser Bool := do
  discard (modifiers (fun
    | .keyword .override => none
    | k => parameterModifier? k) nextIsName)
  match ← kind with
  | .punctuation .openBrace =>
    skipBlock
    return true
  | .punctuation .openBracket =>
    skipBalanced .openBracket .closeBracket
    return true
  | k =>
    unless k.isName do
      return false
    advance
    return true

/-- What is read on from a parenthesis to tell whether it opens the parameters of a function
type. -/
def readsFunctionType : Parser Bool := do
  advance
  if (← atMark .closeParen) || (← atMark .dotDotDot) then
    return true
  unless ← skipParameterStart do
    return false
  match ← kind with
  | .punctuation .colon | .punctuation .comma | .punctuation .question | .punctuation .equals =>
    return true
  | .punctuation .closeParen =>
    advance
    atMark .arrow
  | _ => return false

/-- The current token starts a function type. -/
def atFunctionType : Parser Bool := do
  if ← atMark .lessThan then
    return true
  unless ← atMark .openParen do
    return false
  lookAhead readsFunctionType

/-- The parameters and the result of a function type. -/
def arrowSignature : Parser (Signature Slot) := do
  let ts ← typeParameters sub
  let ps ← parameters sub
  expectMark .arrow
  let result ← sub .type
  return ⟨ts, ps, result⟩

/-- A function or constructor type, or nothing when none starts here. -/
def functionType? : Parser Slot := do
  let start ← offset
  if ← atFunctionType then
    let s ← arrowSignature sub
    return ← finish (.functionType s) start
  if ← optionalWord .new then
    let s ← arrowSignature sub
    return ← finish (.constructorType false s) start
  if (← atWord .abstract_) && (← nextKind) == .keyword .new then
    advance
    expectWord .new
    let s ← arrowSignature sub
    return ← finish (.constructorType true s) start
  return none

/-! ## Operators -/

/-- The operator that a token stands for. -/
def typeOperator? : TokenKind → Option TypeOperator
  | .keyword .keyof => some .keyof
  | .keyword .unique => some .unique
  | .keyword .readonly => some .readonly
  | _ => none

/-- The constraint of an `infer` type. It is given up when a question mark after it belongs to an
enclosing conditional type. -/
def inferConstraint : Parser Slot := do
  let before ← mark
  advance
  let saved := (← get).noConditional
  modify fun s => { s with noConditional := true }
  let candidate ← sub .unionType
  modify fun s => { s with noConditional := saved }
  if saved && (← atMark .question) then
    rewind before
    return none
  else
    return candidate

/-- The type parameter of an `infer` type. -/
def inferParameter : Parser Slot := do
  let start ← offset
  let name ← bindingIdentifier
  let bound ← if ← atWord .extends_ then inferConstraint sub else pure none
  finish (.typeParameter .empty name bound none) start

/-- A type with any operators before it. -/
def operatorType : Parser Slot := do
  let start ← offset
  if let some node ← functionType? sub then
    return some node
  if let some operator := typeOperator? (← kind) then
    advance
    let type ← sub .operatorType
    return ← finish (.typeOperator operator type) start
  if ← optionalWord .infer then
    let parameter ← inferParameter sub
    return ← finish (.inferType parameter) start
  bracketedType sub

/-! ## Intersections and unions -/

/-- Operands, each after the given mark. -/
def operandsAfter (p : Punctuation) (operand : Parser Slot) : (rounds : Nat) → List Slot →
    Parser (List Slot)
  | 0, done => giveUp done.reverse
  | rounds + 1, done => do
    if ← optionalMark p then
      let x ← operand
      operandsAfter p operand rounds (x :: done)
    else
      return done.reverse

/-- An intersection, or its only operand. -/
def intersectionType : Parser Slot := do
  let start ← offset
  discard (optionalMark .ampersand)
  let first ← operatorType sub
  unless ← atMark .ampersand do
    return first
  let types ← operandsAfter .ampersand (operatorType sub) (← limit) [first]
  finish (.intersectionType types) start

/-- A union, or its only operand when no bar stands before it. -/
def unionType : Parser Slot := do
  let start ← offset
  let leading ← optionalMark .bar
  let first ← intersectionType sub
  if !leading && !(← atMark .bar) then
    return first
  let types ← operandsAfter .bar (intersectionType sub) (← limit) [first]
  finish (.unionType types) start

/-! ## Predicates and conditional types -/

/-- A type predicate, or nothing when none starts here. -/
def typePredicate? (start : Nat) : Parser Slot := do
  let asserts ←
    if ← atWord .asserts then nextOnSameLine TokenKind.isName else pure false
  if asserts then
    advance
  else
    unless ← atName do
      return none
    unless ← nextOnSameLine (· == .keyword .is) do
      return none
  let subjectStart ← offset
  let subject ←
    if ← optionalWord .this then finish .thisType subjectStart else identifierName
  let isTyped ← if ← afterLineBreak then pure false else optionalWord .is
  let type ← if isTyped then sub .type else pure none
  finish (.typePredicate asserts subject type) start

/-- The type after the `extends` of a conditional type. -/
def extendedType : Parser Slot := do
  let saved := (← get).noConditional
  modify fun s => { s with depth := s.depth + 1, noConditional := true }
  let type ← match ← functionType? sub with
    | some node => pure (some node)
    | none => unionType sub
  modify fun s => { s with depth := s.depth - 1, noConditional := saved }
  return type

/-- A type, inside the limit on nesting. -/
def openType : Parser Slot := do
  let start ← offset
  if let some node ← typePredicate? sub start then
    return some node
  if let some node ← functionType? sub then
    return some node
  let check ← unionType sub
  if (← get).noConditional || (← afterLineBreak) || !(← atWord .extends_) then
    return check
  advance
  let extended ← extendedType sub
  expectMark .question
  let whenTrue ← sub .type
  expectMark .colon
  let whenFalse ← sub .type
  finish (.conditionalType check extended whenTrue whenFalse) start

/-- A type. One that is nested too deeply is reported and not read. -/
def type : Parser Slot := do
  if maxDepth ≤ (← get).depth then
    report .nestedTooDeep
    missingType
  else
    let saved := (← get).noConditional
    modify fun s => { s with depth := s.depth + 1, noConditional := false }
    let found ← openType sub
    modify fun s => { s with depth := s.depth - 1, noConditional := saved }
    return found

end DeclBundle.Grammar
