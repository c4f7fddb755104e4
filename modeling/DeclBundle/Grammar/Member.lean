import DeclBundle.Grammar.Parameter

/-!
# Members

The members of classes, and those of interfaces and type literals.
-/

set_option autoImplicit false

namespace DeclBundle.Grammar

variable (sub : Rules)

/-! ## Modifiers -/

/-- A token that can start the name of a member after a modifier. -/
def followsMemberModifier (next : Token) : Bool :=
  next.kind.isName ||
    (!next.afterLineBreak &&
      match next.kind with
      | .stringLiteral | .numericLiteral | .bigIntLiteral | .privateIdentifier
      | .punctuation .openBracket
      | .punctuation .asterisk | .punctuation .openBrace => true
      | _ => false)

/-- The current token, read as a modifier, is followed by the start of a member. -/
def canBeMemberModifier : Parser Bool := return followsMemberModifier (← get).lexer.scan.token

/-- The modifiers of a member. -/
def memberModifier? (inClass : Bool) : TokenKind → Option Modifier
  | .keyword .readonly => some .readonly
  | k =>
    if inClass then
      match k with
      | .keyword .public_ => some .public_
      | .keyword .private_ => some .private_
      | .keyword .protected_ => some .protected_
      | .keyword .static => some .static
      | .keyword .abstract_ => some .abstract_
      | .keyword .override => some .override
      | .keyword .declare => some .declare
      | .keyword .accessor => some .accessor
      | .keyword .async => some .async
      | _ => none
    else none

/-! ## Parts that all members share -/

/-- The end of a member of a type. -/
def memberSeparator : Parser Unit := do
  if ← optionalMark .semicolon then
    return
  if ← optionalMark .comma then
    return
  semicolon

/-- The body of a function, or the semicolon in its place. Returns whether there is a body. -/
def functionBody : Parser Bool := do
  if ← atMark .openBrace then
    skipBlock
    return true
  else
    semicolon
    return false

/-- What is read on from a bracket to tell whether it opens an index signature. -/
def readsIndexSignature : Parser Bool := do
  advance
  match ← kind with
  | .punctuation .dotDotDot | .punctuation .closeBracket => return true
  | k =>
    unless k.isName do
      return false
    advance
    match ← kind with
    | .punctuation .colon | .punctuation .comma | .punctuation .question => return true
    | _ => return false

/-- The current bracket opens an index signature and not a computed name. -/
def atIndexSignature : Parser Bool := do
  unless ← atMark .openBracket do
    return false
  lookAhead readsIndexSignature

/-- The parameter of an index signature. -/
def indexParameter : Parser Slot := do
  let start ← offset
  let name ← identifierName
  let ascription ← optionalAscription sub
  finish (.parameter .empty false name false ascription none) start

/-- An index signature. -/
def indexSignature (start : Nat) (ms : Modifiers) : Parser Slot := do
  expectMark .openBracket
  let ps ← commaList .closeBracket (indexParameter sub)
  expectMark .closeBracket
  let ascription ← optionalAscription sub
  memberSeparator
  finish (.indexSignature ms ps ascription) start

/-- A getter or a setter, or nothing when the current word is itself the name of a member. -/
def accessor? (start : Nat) (ms : Modifiers) (inClass : Bool) : Parser Slot := do
  let isGet ← atWord .get
  let isSet ← atWord .set
  unless isGet || isSet do
    return none
  unless ← canBeMemberModifier do
    return none
  advance
  let name ← propertyName
  discard (typeParameters sub)
  let ps ← parameters sub
  let result ← optionalAscription sub
  if inClass then
    discard functionBody
  else
    memberSeparator
  if isGet then
    finish (.getAccessor ms name ps result) start
  else
    finish (.setAccessor ms name ps) start

/-- The current token opens the parameters or the type parameters of a method. -/
def atCallStart : Parser Bool := return (← atMark .openParen) || (← atMark .lessThan)

/-- Members up to the closing brace, with at least one token for each. -/
def membersIn (member : Parser Slot) : (rounds : Nat) → List Slot → Parser (List Slot)
  | 0, done => giveUp done.reverse
  | rounds + 1, done => do
    if (← atMark .closeBrace) || (← atEnd) then
      return done.reverse
    let before ← offset
    let found ← member
    if (← offset) == before then
      advance
    match found with
    | some m => membersIn member rounds (some m :: done)
    | none => membersIn member rounds done

/-- Members in braces. -/
def memberBlock (member : Parser Slot) : Parser (List Slot) := do
  unless ← expect? (.punctuation .openBrace) do
    return []
  let found ← membersIn member (← limit) []
  expectMark .closeBrace
  return found

/-! ## Members of types -/

/-- A property or a method of a type. -/
def namedTypeMember (start : Nat) (ms : Modifiers) : Parser Slot := do
  let name ← propertyName
  let isOptional ← optionalMark .question
  if ← atCallStart then
    let s ← signature sub
    memberSeparator
    finish (.methodSignature name isOptional s) start
  else
    let ascription ← optionalAscription sub
    memberSeparator
    finish (.propertySignature ms name isOptional ascription) start

/-- One member of an interface or of a type literal, without its comment. -/
def bareTypeMember : Parser Slot := do
  let start ← offset
  if ← atCallStart then
    let s ← signature sub
    memberSeparator
    return ← finish (.callSignature s) start
  if ← atWord .new then
    let next ← nextKind
    if next == .punctuation .openParen || next == .punctuation .lessThan then
      advance
      let s ← signature sub
      memberSeparator
      return ← finish (.constructSignature s) start
  let ms ← modifiers (memberModifier? false) canBeMemberModifier
  if ← atIndexSignature then
    return ← indexSignature sub start ms
  if let some node ← accessor? sub start ms false then
    return some node
  namedTypeMember sub start ms

/-- One member of an interface or of a type literal. -/
def typeMember : Parser Slot := do
  let doc ← pendingDoc
  let node ← bareTypeMember sub
  attachDoc node doc
  return node

/-- The members of an interface or of a type literal. -/
def typeMembers : Parser (List Slot) := memberBlock (typeMember sub)

/-! ## Members of classes -/

/-- The current token is the name of a constructor. -/
def atConstructor : Parser Bool := do
  let isName ←
    if ← atWord .constructor_ then pure true
    else if ← isAt .stringLiteral then pure ((← value) == "constructor")
    else pure false
  return isName && (← nextKind) == .punctuation .openParen

/-- A property or a method of a class. -/
def namedClassMember (start : Nat) (ms : Modifiers) : Parser Slot := do
  discard (optionalMark .asterisk)
  let name ← propertyName
  let isOptional ← optionalMark .question
  if ← atCallStart then
    let s ← signature sub
    let hasBody ← functionBody
    finish (.methodDeclaration ms name isOptional s hasBody) start
  else
    let definite ← optionalMark .exclamation
    let ascription ← optionalAscription sub
    let initializer ← optionalInitializer
    semicolon
    finish (.propertyDeclaration ms name isOptional definite ascription initializer) start

/-- One member of a class after its modifiers. -/
def bareClassMember (start : Nat) (ms : Modifiers) : Parser Slot := do
  if ← atIndexSignature then
    return ← indexSignature sub start ms
  if ← atConstructor then
    advance
    let ps ← parameters sub
    discard (optionalAscription sub)
    let hasBody ← functionBody
    return ← finish (.constructorDeclaration ms ps hasBody) start
  if let some node ← accessor? sub start ms true then
    return some node
  namedClassMember sub start ms

/-- One member of a class; a static block and a lone semicolon are none. -/
def classMember : Parser Slot := do
  if ← optionalMark .semicolon then
    return none
  let doc ← pendingDoc
  let start ← offset
  skipDecorators
  let ms ← modifiers (memberModifier? true) canBeMemberModifier
  if ms.contains .static && (← atMark .openBrace) then
    skipBlock
    return none
  let node ← bareClassMember sub start ms
  attachDoc node doc
  return node

/-- The members of a class. -/
def classMembers : Parser (List Slot) := memberBlock (classMember sub)

end DeclBundle.Grammar
