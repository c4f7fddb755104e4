import DeclBundle.Grammar.Declaration

/-!
# Statements

Imports, exports, declarations, and statements that declare nothing, which are skipped. `parseFile`
ties the knot of the grammar and reads a whole file.
-/

set_option autoImplicit false

namespace DeclBundle

namespace Grammar

variable (sub : Rules)

/-! ## Imports -/

/-- Notes that the file is a module. -/
def markModule : Parser Unit := modify fun s => { s with isModule := true }

/-- Skips the attributes of an import. -/
def skipAttributes : Parser Unit := do
  let word ← value
  if !(← afterLineBreak) && (← atName) && (word == "assert" || word == "with")
      && (← nextKind) == .punctuation .openBrace then
    advance
    skipBlock

/-- What is read on from `type` to tell whether it marks an import as one of types only. -/
def readsTypeOnlyImport : Parser Bool := do
  advance
  match ← kind with
  | .punctuation .openBrace | .punctuation .asterisk => return true
  | .keyword .from_ =>
    advance
    return !(← isAt .stringLiteral)
  | k => return k.isBindingName

/-- The current `type` marks an import as one of types only. -/
def atTypeOnlyImport : Parser Bool := do
  unless ← atWord .type do
    return false
  lookAhead readsTypeOnlyImport

/-- What is read on from `type` to tell whether it marks a specifier. -/
def readsTypeOnlySpecifier : Parser Bool := do
  advance
  if ← optionalWord .as_ then
    atWord .as_
  else
    return (← atName) || (← isAt .stringLiteral)

/-- The current `type` marks a specifier; before `as` it is the name of one. -/
def atTypeOnlySpecifier : Parser Bool := do
  unless ← atWord .type do
    return false
  lookAhead readsTypeOnlySpecifier

/-- One name of an import or an export, with an optional other name for it. -/
def specifier (build : (typeOnly : Bool) → (propertyName name : Slot) → Form Slot) :
    Parser Slot := do
  let start ← offset
  let typeOnly ← atTypeOnlySpecifier
  if typeOnly then
    advance
  let first ← exportName
  let (propertyName, name) ←
    if ← optionalWord .as_ then pure (first, ← exportName) else pure (none, first)
  finish (build typeOnly propertyName name) start

/-- Names in braces. -/
def specifiers (build : (typeOnly : Bool) → (propertyName name : Slot) → Form Slot) :
    Parser (List Slot) := do
  expectMark .openBrace
  let found ← commaList .closeBrace (specifier build)
  expectMark .closeBrace
  return found

/-- What an import equals declaration refers to, and its end. -/
def importEquals (start : Nat) (ms : Modifiers) (typeOnly : Bool) : Parser Slot := do
  let name ← bindingIdentifier
  expectMark .equals
  let reference ←
    if (← atWord .require) && (← nextKind) == .punctuation .openParen then
      let referenceStart ← offset
      advance
      expectMark .openParen
      let expression ← stringLiteral
      expectMark .closeParen
      finish (.externalReference expression) referenceStart
    else
      bindingEntityName
  semicolon
  finish (.importEquals ms typeOnly name reference) start

/-- The end of an import after its clause. -/
def finishImport (start clauseStart : Nat) (typeOnly : Bool) (name bindings : Slot) :
    Parser Slot := do
  expectWord .from_
  let clause ← finish (.importClause typeOnly name bindings) clauseStart
  let module_ ← stringLiteral
  skipAttributes
  semicolon
  finish (.importDeclaration clause module_) start

/-- The names in braces or the star of an import. -/
def importBindings : Parser Slot := do
  let start ← offset
  match ← kind with
  | .punctuation .asterisk =>
    advance
    expectWord .as_
    let name ← bindingIdentifier
    finish (.namespaceImport name) start
  | .punctuation .openBrace =>
    let elements ← specifiers .importSpecifier
    finish (.namedImports elements) start
  | _ =>
    expectMark .openBrace
    return none

/-- An import. -/
def importDeclaration (start : Nat) (ms : Modifiers) : Parser Slot := do
  markModule
  expectWord .import_
  if ← isAt .stringLiteral then
    let module_ ← stringLiteral
    skipAttributes
    semicolon
    return ← finish (.importDeclaration none module_) start
  let typeOnly ← atTypeOnlyImport
  if typeOnly then
    advance
  if (← atBindingName) && (← nextKind) == .punctuation .equals then
    return ← importEquals start ms typeOnly
  let clauseStart ← offset
  let name ← if ← atBindingName then bindingIdentifier else pure none
  if name.isSome then
    unless ← optionalMark .comma do
      return ← finishImport start clauseStart typeOnly name none
  let bindings ← importBindings
  finishImport start clauseStart typeOnly name bindings

/-! ## Statements that declare nothing -/

/-- Skips the tokens of a statement; `depth` groups are open. A block ends it. -/
def skipStatement : (rounds : Nat) → (depth : Nat) → (previous : Option TokenKind) → Parser Unit
  | 0, _, _ => giveUp ()
  | rounds + 1, depth, previous => do
    match ← kind with
    | .endOfFile => return
    | .punctuation .semicolon =>
      if depth == 0 then advance else passToken (skipStatement rounds depth)
    | .punctuation .closeBrace =>
      unless depth == 0 do
        passToken (skipStatement rounds depth)
    | .punctuation .openBrace =>
      skipBlock
      unless depth == 0 do
        skipStatement rounds depth (some (.punctuation .closeBrace))
    | .punctuation .openParen | .punctuation .openBracket =>
      passToken (skipStatement rounds (depth + 1))
    | .punctuation .closeParen | .punctuation .closeBracket =>
      passToken (skipStatement rounds (depth - 1))
    | _ =>
      let completed ← completeToken previous
      unless !completed && (← atNextDeclaration depth previous) do
        passToken (skipStatement rounds depth)

/-- A statement that declares nothing. -/
def otherStatement (start : Nat) : Parser Slot := do
  skipStatement (← limit) 0 none
  finish .otherStatement start

/-! ## Exports -/

/-- The modifiers of a statement. A word is one only before a name or a brace on the same line. -/
def statementModifiers : Parser Modifiers := do
  let flag? : Parser (Option Modifier) := do
    match ← kind with
    | .keyword .declare => return some .declare
    | .keyword .abstract_ => return some .abstract_
    | .keyword .async => return some .async
    | .keyword .const => return if (← nextKind) == .keyword .enum_ then some .const else none
    | _ => return none
  modifiersWhile flag? (nextOnSameLine fun k => k.isName || k == .punctuation .openBrace)
    (← limit) .empty

/-- An export of names, of everything, or of everything under one name. -/
def exportDeclaration (start : Nat) (typeOnly : Bool) : Parser Slot := do
  let clauseStart ← offset
  let (clause, module_) ←
    if ← optionalMark .asterisk then
      let clause ←
        if ← optionalWord .as_ then
          let name ← exportName
          finish (.namespaceExport name) clauseStart
        else
          pure none
      expectWord .from_
      pure (clause, ← stringLiteral)
    else
      let elements ← specifiers .exportSpecifier
      let clause ← finish (.namedExports elements) clauseStart
      if ← optionalWord .from_ then pure (clause, ← stringLiteral) else pure (clause, none)
  skipAttributes
  semicolon
  finish (.exportDeclaration typeOnly clause module_) start

/-- The current token starts a declaration after `export default`. -/
def atDefaultDeclaration : Parser Bool := do
  match ← kind with
  | .keyword .function | .keyword .class_ | .punctuation .at_ => return true
  | .keyword .abstract_ | .keyword .async | .keyword .declare =>
    nextOnSameLine fun k => k == .keyword .class_ || k == .keyword .function
  | .keyword .interface => nextOnSameLine TokenKind.isBindingName
  | _ => return false

/-- An export of an expression. -/
def exportAssignment (start : Nat) (isEquals : Bool) : Parser Slot := do
  let value ← expression
  semicolon
  finish (.exportAssignment isEquals value) start

/-- A default export. -/
def exportDefault (start : Nat) : Parser Slot := do
  if ← atDefaultDeclaration then
    skipDecorators
    let ms ← statementModifiers
    if let some node ← declaration? sub start ((ms.insert .export_).insert .default_) then
      return some node
  exportAssignment start false

/-- An exported declaration. -/
def exportedDeclaration (start : Nat) : Parser Slot := do
  skipDecorators
  let ms ← statementModifiers
  if let some node ← declaration? sub start (ms.insert .export_) then
    return some node
  report .declarationExpected
  otherStatement start

/-- An export. -/
def export_ (start : Nat) : Parser Slot := do
  markModule
  advance
  match ← kind with
  | .punctuation .equals =>
    advance
    exportAssignment start true
  | .keyword .as_ =>
    advance
    expectWord .namespace_
    let name ← bindingIdentifier
    semicolon
    finish (.globalNamespaceExport name) start
  | .punctuation .asterisk | .punctuation .openBrace => exportDeclaration start false
  | .keyword .type =>
    let next ← nextKind
    if next == .punctuation .openBrace || next == .punctuation .asterisk then
      advance
      exportDeclaration start true
    else
      exportedDeclaration sub start
  | .keyword .import_ => importDeclaration start (.single .export_)
  | .keyword .default_ =>
    advance
    exportDefault sub start
  | _ => exportedDeclaration sub start

/-! ## Any statement -/

/-- One statement; an empty one is none. -/
def statement : Parser Slot := do
  let doc ← pendingDoc
  let start ← offset
  if ← optionalMark .semicolon then
    return none
  skipDecorators
  let node ← match ← kind with
    | .keyword .import_ =>
      let next ← nextKind
      if next == .punctuation .openParen || next == .punctuation .dot then
        otherStatement start
      else
        importDeclaration start .empty
    | .keyword .export_ => export_ sub start
    | _ =>
      let ms ← statementModifiers
      match ← declaration? sub start ms with
      | some node => pure (some node)
      | none => otherStatement start
  attachDoc node doc
  return node

/-! ## Whole files -/

/-- The parser for each recursive notion, which may call others to the given depth. -/
def rules : (depth : Nat) → Rules
  | 0, _ => giveUp none
  | depth + 1, notion =>
    match notion with
    | .type => type (rules depth)
    | .unionType => unionType (rules depth)
    | .operatorType => operatorType (rules depth)
    | .statement => statement (rules depth)
    | .namespaceBody start ms flavor => namespaceBody (rules depth) start ms flavor
    | .literalValue => literalValue (rules depth)
    | .bindingName => bindingName (rules depth)

end Grammar

open Text (Span)

/-- A file that has been read: its nodes, the node of the whole file, and what is wrong with it. -/
structure ParsedFile where
  arena : Arena
  root : NodeId
  diagnostics : List Diagnostic

instance : Inhabited ParsedFile := ⟨⟨.empty, ⟨0⟩, []⟩⟩

/-- The lexical errors of a file as diagnostics. -/
def lexicalDiagnostics (file : String) (l : Lexer) : List Diagnostic :=
  l.foundErrors.map fun e => .at_ file e.span e.problem

/-- A parser that has read nothing yet. No text has more tokens than bytes, so a repetition that
moves on in every round never reaches the limit. -/
def Grammar.State.ofText (file text : String) : Grammar.State :=
  { file, lexer := .ofText text, arena := .empty, errors := [], lastEnd := 0, depth := 0,
    isModule := false,
    noConditional := false, limit := text.utf8ByteSize + 3, visited := [], isCut := false }

/-- The statements of a file, and the state of the parser after them. -/
def readStatements (file text : String) : List Slot × Grammar.State :=
  let initial := Grammar.State.ofText file text
  (do
    Grammar.advance
    Grammar.statementsIn (Grammar.rules initial.limit) false initial.limit [] :
      Grammar.Parser _).run initial

/-- Reads a file. Diagnostics are ordered by their place; at one place, those of the grammar come
first.

A backslash that starts no escape can keep a repetition from moving on, which then goes on forever.
Of such a text this has only what was read up to the limit of the repetition, and `parseFile?` has
no answer. -/
def parseFile (file text : String) : ParsedFile :=
  let read := readStatements file text
  let found := read.2.errors.reverse ++ lexicalDiagnostics file read.2.lexer
  let added := read.2.arena.add (.sourceFile read.1 read.2.isModule) ⟨0, text.utf8ByteSize⟩
  ⟨added.1.setParents (some added.2), added.2, found.mergeSort fun d e => d.start ≤ e.start⟩

/-- Sorting leaves out none of the errors of the parser and of the lexer. -/
theorem length_diagnostics_parseFile (file text : String) :
    (parseFile file text).diagnostics.length = (readStatements file text).2.errors.length +
      (lexicalDiagnostics file (readStatements file text).2.lexer).length := by
  simp [parseFile]

/-- Reads a file, if reading it comes to an end: no repetition and no rule reaches its limit. -/
def parseFile? (file text : String) : Option ParsedFile :=
  if (readStatements file text).2.isCut then none else some (parseFile file text)

end DeclBundle
