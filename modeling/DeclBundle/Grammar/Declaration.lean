import DeclBundle.Grammar.Type

/-!
# Declarations

Variables, functions, classes, interfaces, type aliases, enums and modules. Each rule takes the
place where the statement started and the modifiers that were found before it.
-/

set_option autoImplicit false

namespace DeclBundle.Grammar

variable (sub : Rules)

/-! ## Variables -/

/-- One variable. -/
def variableDeclaration : Parser Slot := do
  let start ← offset
  let name ← bindingName sub
  let definite ← optionalMark .exclamation
  let ascription ← optionalAscription sub
  let initializer ← if ← optionalMark .equals then variableInitializer sub else pure none
  finish (.variableDeclaration name definite ascription initializer) start

/-- Variables with commas between them, at least one. -/
def variableDeclarations : (rounds : Nat) → List Slot → Parser (List Slot)
  | 0, done => giveUp done.reverse
  | rounds + 1, done => do
    let declaration ← variableDeclaration sub
    if ← optionalMark .comma then
      variableDeclarations rounds (declaration :: done)
    else
      return (declaration :: done).reverse

/-- A statement that declares variables. -/
def variableStatement (start : Nat) (ms : Modifiers) : Parser Slot := do
  let flavor : VariableFlavor := match ← kind with
    | .keyword .const => .const
    | .keyword .let_ => .let_
    | _ => .var
  advance
  let declarations ← variableDeclarations sub (← limit) []
  semicolon
  finish (.variableStatement ms flavor declarations) start

/-! ## Functions, classes and interfaces -/

/-- A function. Its name may be missing only after `export default`. -/
def functionDeclaration (start : Nat) (ms : Modifiers) : Parser Slot := do
  expectWord .function
  discard (optionalMark .asterisk)
  let name ←
    if ← atBindingName then bindingIdentifier
    else
      unless ms.contains .default_ do
        discard bindingIdentifier
      pure none
  let s ← signature sub
  let hasBody ← functionBody
  finish (.functionDeclaration ms name s hasBody) start

/-- The name of a class with type arguments, or a call that is kept as it is written. -/
def heritageType : Parser Slot := do
  let start ← here
  let chain ← heritageChain start.offset (← limit) (← identifierName)
  let expression ←
    if ← atMark .openParen then
      skipBalanced .openParen .closeParen
      finishVerbatim start
    else
      pure chain
  let arguments ← typeArguments sub
  finish (.heritageType expression arguments) start.offset
where
  /-- Continues a chain of names after `expression`. -/
  heritageChain (start : Nat) : (rounds : Nat) → Slot → Parser Slot
    | 0, expression => giveUp expression
    | rounds + 1, expression => do
      if ← optionalMark .dot then
        let name ← identifierName
        heritageChain start rounds (← finish (.propertyAccess expression name) start)
      else
        return expression

/-- The types of a heritage clause, with commas between them. -/
def heritageTypes : (rounds : Nat) → List Slot → Parser (List Slot)
  | 0, done => giveUp done.reverse
  | rounds + 1, done => do
    let type ← heritageType sub
    if ← optionalMark .comma then
      heritageTypes rounds (type :: done)
    else
      return (type :: done).reverse

/-- Heritage clauses in any order and number. -/
def heritageClausesIn : (rounds : Nat) → List Slot → Parser (List Slot)
  | 0, done => giveUp done.reverse
  | rounds + 1, done => do
    let word? : Option HeritageWord := match ← kind with
      | .keyword .extends_ => some .extends_
      | .keyword .implements => some .implements
      | _ => none
    match word? with
    | none => return done.reverse
    | some word =>
      let start ← offset
      advance
      let types ← heritageTypes sub (← limit) []
      let clause ← finish (.heritageClause word types) start
      heritageClausesIn rounds (clause :: done)

/-- The heritage clauses of a class or of an interface. -/
def heritageClauses : Parser (List Slot) := do
  heritageClausesIn sub (← limit) []

/-- A class. -/
def classDeclaration (start : Nat) (ms : Modifiers) : Parser Slot := do
  expectWord .class_
  let name ←
    if (← atBindingName) && !(← atWord .implements) then bindingIdentifier else pure none
  let ts ← typeParameters sub
  let heritage ← heritageClauses sub
  let members ← classMembers sub
  finish (.classDeclaration ms name ts heritage members) start

/-- An interface. -/
def interfaceDeclaration (start : Nat) (ms : Modifiers) : Parser Slot := do
  expectWord .interface
  let name ← bindingIdentifier
  let ts ← typeParameters sub
  let heritage ← heritageClauses sub
  let members ← typeMembers sub
  finish (.interfaceDeclaration ms name ts heritage members) start

/-! ## Aliases and enums -/

/-- A type alias. -/
def typeAlias (start : Nat) (ms : Modifiers) : Parser Slot := do
  expectWord .type
  let name ← bindingIdentifier
  let ts ← typeParameters sub
  expectMark .equals
  let type ← sub .type
  semicolon
  finish (.typeAlias ms name ts type) start

/-- One member of an enum. -/
def enumMember : Parser Slot := do
  let doc ← pendingDoc
  let start ← offset
  let name ← propertyName
  let initializer ← optionalInitializer
  let node ← finish (.enumMember name initializer) start
  attachDoc node doc
  return node

/-- An enum. -/
def enumDeclaration (start : Nat) (ms : Modifiers) : Parser Slot := do
  expectWord .enum_
  let name ← bindingIdentifier
  let members ←
    if ← expect? (.punctuation .openBrace) then
      let found ← commaList .closeBrace enumMember
      expectMark .closeBrace
      pure found
    else
      pure []
  finish (.enumDeclaration ms name members) start

/-! ## Modules -/

/-- Statements up to the end of the text, or up to a closing brace in a block. Each takes at least
one token. -/
def statementsIn (inBlock : Bool) : (rounds : Nat) → List Slot → Parser (List Slot)
  | 0, done => giveUp done.reverse
  | rounds + 1, done => do
    if ← atEnd then
      return done.reverse
    if ← atMark .closeBrace then
      if inBlock then
        return done.reverse
      report .declarationExpected
      advance
      statementsIn inBlock rounds done
    else
      let before ← offset
      let found ← sub .statement
      if (← offset) == before && !(← atEnd) then
        report .declarationExpected
        advance
      match found with
      | some node => statementsIn inBlock rounds (some node :: done)
      | none => statementsIn inBlock rounds done

/-- The statements of a module in braces. Imports and exports in it do not make the file a
module. -/
def moduleBlock : Parser Slot := do
  let start ← offset
  if maxDepth ≤ (← get).depth then
    report .nestedTooDeep
    skipBlock
    finish (.moduleBlock []) start
  else
    let saved := (← get).isModule
    modify fun s => { s with depth := s.depth + 1 }
    expectMark .openBrace
    let statements ← statementsIn sub true (← limit) []
    expectMark .closeBrace
    modify fun s => { s with depth := s.depth - 1, isModule := saved }
    finish (.moduleBlock statements) start

/-- The name and the body of a namespace. Each part of a dotted name is a namespace in the one
before. -/
def namespaceBody (start : Nat) (ms : Modifiers) (flavor : ModuleFlavor) : Parser Slot := do
  let name ← bindingIdentifier
  let body ←
    if ← optionalMark .dot then
      sub (.namespaceBody (← offset) (.single .export_) flavor)
    else
      moduleBlock sub
  finish (.moduleDeclaration ms flavor name body) start

/-- A namespace, or a module with a quoted name, which may lack a body. -/
def moduleDeclaration (start : Nat) (ms : Modifiers) : Parser Slot := do
  let flavor : ModuleFlavor := if ← atWord .namespace_ then .namespace_ else .module_
  advance
  if ← isAt .stringLiteral then
    let name ← stringLiteral
    let body ←
      if ← atMark .openBrace then moduleBlock sub
      else
        semicolon
        pure none
    finish (.moduleDeclaration ms .module_ name body) start
  else
    namespaceBody sub start ms flavor

/-- Declarations in the global scope. -/
def globalDeclaration (start : Nat) (ms : Modifiers) : Parser Slot := do
  let name ← identifierName
  let body ← moduleBlock sub
  finish (.moduleDeclaration ms .global name body) start

/-! ## Any declaration -/

/-- What is read on from `type` to tell whether it starts an alias: a name on the same line, then an
equals sign or type parameters. -/
def readsTypeAlias : Parser Bool := do
  advance
  if (← afterLineBreak) || !(← atBindingName) then
    return false
  advance
  return (← atMark .equals) || (← atMark .lessThan)

/-- The current `type` starts an alias. -/
def atTypeAlias : Parser Bool := lookAhead readsTypeAlias

/-- A declaration after its modifiers, or nothing when the current token starts none. -/
def declaration? (start : Nat) (ms : Modifiers) : Parser Slot := do
  match ← kind with
  | .keyword .var | .keyword .const => variableStatement sub start ms
  | .keyword .let_ =>
    if ← nextOnSameLine (fun k =>
        k.isBindingName || k == .punctuation .openBrace || k == .punctuation .openBracket) then
      variableStatement sub start ms
    else
      return none
  | .keyword .function => functionDeclaration sub start ms
  | .keyword .class_ => classDeclaration sub start ms
  | .keyword .interface =>
    if ← nextOnSameLine TokenKind.isBindingName then interfaceDeclaration sub start ms
      else return none
  | .keyword .type => if ← atTypeAlias then typeAlias sub start ms else return none
  | .keyword .enum_ => enumDeclaration start ms
  | .keyword .namespace_ | .keyword .module_ =>
    if ← nextOnSameLine (fun k => k.isBindingName || k == .stringLiteral) then
      moduleDeclaration sub start ms
    else
      return none
  | .keyword .global =>
    if ms.contains .declare then
      globalDeclaration sub start ms
    else if ← nextOnSameLine (· == .punctuation .openBrace) then
      globalDeclaration sub start ms
    else
      return none
  | _ => return none

end DeclBundle.Grammar
