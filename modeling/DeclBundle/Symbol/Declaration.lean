import DeclBundle.Diagnostic
import DeclBundle.Path
import DeclBundle.Symbol.Table

/-!
# Declaring the symbols of a file

The statements of a file declare names. A file that is a module has a symbol of its own: its
`locals` hold what its top level declares and imports, its `exports_` what it exports. All other
files, and blocks that are declared global, share one table of names.

Declarations of one name join one symbol when their kinds allow it; otherwise the later one is
reported and the earlier symbol stays. Every import and every export specifier is a symbol of its
own that stands for another one. Nothing is looked up in other files here.
-/

set_option autoImplicit false

namespace DeclBundle

open Text (Span)

/-- What the files of a project declare together. -/
structure SharedTables where
  symbols : SymbolArena := {}
  globals : SymbolTable := {}
  /-- The modules with quoted names. -/
  ambientModules : SymbolTable := {}
  /-- The specifiers of the modules that a module exports as a whole, in source order. -/
  exportStars : Std.TreeMap SymbolId (List String) := {}

/-- A file whose declarations are read. -/
structure DeclaringFile where
  id : FileId
  path : String
  arena : Arena

/-- What is declared so far. -/
structure Declarations where
  tables : SharedTables
  /-- The symbols of the nodes of this file that declare something. -/
  declared : Std.TreeMap NodeId SymbolId := {}
  diagnostics : List Diagnostic := []

/-- Where declarations go. -/
inductive Container where
  /-- The body of a module or a namespace. In some ambient bodies every declaration is exported. -/
  | module_ (symbol : SymbolId) (exportsAll : Bool)
  | global
  deriving DecidableEq, Repr

namespace Container

/-- Every declaration is exported. -/
def exportsAll : Container → Bool
  | module_ _ exportsAll => exportsAll
  | global => false

/-- The module or namespace. -/
def symbol? : Container → Option SymbolId
  | module_ symbol _ => some symbol
  | global => none

end Container

/-! ## Shapes of bodies -/

/-- A body with one of these statements exports only what it marks. -/
def hasExplicitExports (a : Arena) (statements : List Slot) : Bool :=
  statements.any fun s =>
    match a.form? s with
    | some (.exportDeclaration ..) | some (.exportAssignment ..) => true
    | _ => false

/-- A namespace declaration holds values, down to `depth` levels. -/
def isInstantiatedTo (a : Arena) : (depth : Nat) → Slot → Bool
  | 0, _ => false
  | depth + 1, declaration =>
    let holdsValue (s : Slot) : Bool :=
      match a.form? s with
      | some (.variableStatement ..) | some (.functionDeclaration ..) | some (.classDeclaration ..)
      | some (.exportAssignment ..) => true
      | some (.enumDeclaration modifiers _ _) => !modifiers.contains .const
      | some (.moduleDeclaration ..) => isInstantiatedTo a depth s
      | _ => false
    match a.form? declaration with
    | some (.moduleDeclaration _ _ _ body) =>
      match a.form? body with
      | some (.moduleBlock statements) => statements.any holdsValue
      | some (.moduleDeclaration ..) => isInstantiatedTo a depth body
      | _ => false
    | _ => false

/-- A namespace declaration holds values. -/
def isInstantiated (a : Arena) (declaration : Slot) : Bool :=
  isInstantiatedTo a (a.size + 1) declaration

/-- The names that a variable declaration introduces, each with the node that declares it, down to
`depth` levels of patterns. -/
def boundNamesTo (a : Arena) : (depth : Nat) → Slot → List (NodeId × String)
  | 0, _ => []
  | depth + 1, declaration =>
    let name := a.nameSlot declaration
    match declaration, a.form? name with
    | some id, some (.identifier text) => [(id, text)]
    | _, some (.objectPattern elements) | _, some (.arrayPattern elements) =>
      elements.flatMap (boundNamesTo a depth)
    | _, _ => []

/-- The names that a variable declaration introduces, each with the node that declares it. -/
def boundNames (a : Arena) (declaration : Slot) : List (NodeId × String) :=
  boundNamesTo a (a.size + 1) declaration

namespace Declarations

variable (f : DeclaringFile)

/-! ## Tables -/

/-- Changes a symbol. -/
def modify (d : Declarations) (id : SymbolId) (change : Symbol → Symbol) : Declarations :=
  { d with tables.symbols := d.tables.symbols.modify id change }

/-- The symbol with a number. -/
def symbol? (d : Declarations) (id : SymbolId) : Option Symbol := d.tables.symbols.get? id

/-- Adds a symbol without declarations. -/
def alloc (d : Declarations) (flags : SymbolFlags) (name : String) : Declarations × SymbolId :=
  let (symbols, id) := d.tables.symbols.alloc flags name f.id
  ({ d with tables.symbols := symbols }, id)

/-- Adds a node to the declarations of a symbol. -/
def addDeclaration (d : Declarations) (id : SymbolId) (node : NodeId) : Declarations :=
  let ref : NodeRef := ⟨f.id, some node⟩
  d.modify id fun s =>
    if s.declarations.contains ref then s else { s with declarations := s.declarations ++ [ref] }

/-- Sets the symbol of a node. -/
def setDeclared (d : Declarations) (node : NodeId) (id : SymbolId) : Declarations :=
  { d with declared := d.declared.insert node id }

/-- Sets the container of a symbol. -/
def setParent (d : Declarations) (id : SymbolId) (c : Container) : Declarations :=
  d.modify id fun s => { s with parent := c.symbol? }

/-- The symbol of a name in a container. -/
def lookup (d : Declarations) (c : Container) (name : String) : Option SymbolId :=
  match c with
  | .module_ symbol _ => (d.symbol? symbol).bind (·.locals.get? name)
  | .global => d.tables.globals.get? name

/-- Sets the symbol of a name in a container. -/
def setLocal (d : Declarations) (c : Container) (name : String) (id : SymbolId) : Declarations :=
  match c with
  | .module_ symbol _ => d.modify symbol fun s => { s with locals := s.locals.set name id }
  | .global => { d with tables.globals := d.tables.globals.set name id }

/-- Reports a name that is taken. -/
def reportDuplicate (d : Declarations) (node : NodeId) (name : String) : Declarations :=
  let nameSlot := f.arena.nameSlot (some node)
  let span := f.arena.span (if nameSlot.isSome then nameSlot else some node)
  { d with diagnostics := d.diagnostics ++ [.at_ f.path span (.duplicateIdentifier name)] }

/-- Exports a symbol under a name. A name that is taken by another symbol is reported; the global
scope exports nothing. -/
def setExport (d : Declarations) (c : Container) (name : String) (id : SymbolId) (node : NodeId) :
    Declarations :=
  match c with
  | .global => d
  | .module_ symbol _ =>
    match (d.symbol? symbol).bind (·.exports_.get? name) with
    | some taken => if taken = id then d else d.reportDuplicate f node name
    | none => d.modify symbol fun s => { s with exports_ := s.exports_.set name id }

/-- Exports a symbol, if it has a name to be exported under. -/
def setExport? (d : Declarations) (c : Container) (name : Option String) (id : SymbolId)
    (node : NodeId) :
    Declarations :=
  name.elim d fun name => d.setExport f c name id node

/-! ## Declaring one name -/

/-- Adds a symbol with one declaration that has no name in its container. -/
def addUnnamed (d : Declarations) (c : Container) (flags : SymbolFlags) (name : String)
    (node : NodeId) :
    Declarations × SymbolId :=
  let (d, id) := d.alloc f flags name
  (((d.addDeclaration f id node).setParent id c).setDeclared node id, id)

/-- Declares a name. A declaration that cannot join the symbol of the name is reported. -/
def declare (d : Declarations) (c : Container) (flags : SymbolFlags) (name : String) (node : NodeId)
    (exportName : Option String) : Declarations × SymbolId :=
  match d.lookup c name with
  | some known =>
    let knownFlags := (d.symbol? known).elim .empty Symbol.flags
    let d :=
      if knownFlags.canMerge flags then
        (d.modify known fun s => { s with flags := s.flags.union flags }).addDeclaration
          f known node
      else d.reportDuplicate f node name
    ((d.setDeclared node known).setExport? f c exportName known node, known)
  | none =>
    let (d, id) := d.addUnnamed f c flags name node
    ((d.setLocal c name id).setExport? f c exportName id node, id)

/-- What an alias is declared as. -/
structure AliasDeclaration where
  name : String
  target : AliasTarget
  typeOnly : Bool
  /-- The name can be used inside the container. -/
  isLocal : Bool
  exportName : Option String

/-- Declares an alias. One whose name is taken in its container is reported. -/
def declareAlias (d : Declarations) (c : Container) (node : NodeId) (declared : AliasDeclaration) :
    Declarations :=
  match if declared.isLocal then d.lookup c declared.name else none with
  | some known => (d.reportDuplicate f node declared.name).setDeclared node known
  | none =>
    let (d, id) := d.addUnnamed f c (.single .alias_) declared.name node
    let d := d.modify id fun s =>
      { s with aliasOf := some declared.target, typeOnly := declared.typeOnly }
    let d := if declared.isLocal then d.setLocal c declared.name id else d
    d.setExport? f c declared.exportName id node

/-- Declares what a statement names. A default export may have no name. -/
def declareNamed (d : Declarations) (c : Container) (flags : SymbolFlags) (node : NodeId)
    (name : Slot) (modifiers : Modifiers) : Declarations × Option SymbolId :=
  let isExported := modifiers.contains .export_
  let isDefault := isExported && modifiers.contains .default_
  match f.arena.nameText? name with
  | some text =>
    let exportName :=
      if isDefault then some "default" else if isExported || c.exportsAll then some text else none
    let (d, id) := d.declare f c flags text node exportName
    (d, some id)
  | none =>
    if isDefault then
      let (d, id) := d.addUnnamed f c flags "default" node
      (d.setExport f c "default" id node, some id)
    else (d, none)

/-! ## Statements -/

/-- Declares the variables of a statement. -/
def declareVariables (d : Declarations) (c : Container) (modifiers : Modifiers)
    (flavor : VariableFlavor) (declarations : List Slot) : Declarations :=
  let flag : SymbolFlag := match flavor with
    | .var => .functionScopedVariable
    | .let_ | .const => .blockScopedVariable
  let isExported := modifiers.contains .export_ || c.exportsAll
  (declarations.flatMap (boundNames f.arena)).foldl
    (fun d (node, name) =>
      (d.declare f c (.single flag) name node (if isExported then some name else none)).1) d

/-- Declares the members of an enum. Members of one name are one symbol. -/
def declareEnumMembers (d : Declarations) (owner : SymbolId) (members : List Slot) : Declarations :=
  members.foldl
    (fun d member =>
      match member, f.arena.form? member with
      | some node, some (.enumMember name _) =>
        match f.arena.nameText? name with
        | none => d
        | some text =>
          match (d.symbol? owner).bind (·.exports_.get? text) with
          | some known => (d.addDeclaration f known node).setDeclared node known
          | none =>
            let (d, id) := d.alloc f (.single .enumMember) text
            let d := (d.addDeclaration f id node).modify owner fun s =>
              { s with exports_ := s.exports_.set text id }
            (d.modify id fun s => { s with parent := some owner }).setDeclared node id
      | _, _ => d)
    d

/-- Declares what an import brings in. -/
def declareImports (d : Declarations) (c : Container) (clause specifier : Slot) : Declarations :=
  let a := f.arena
  match a.nameText? specifier, clause, a.form? clause with
  | some specifier, some clauseNode, some (.importClause typeOnly name bindings) =>
    let addAlias (d : Declarations) (node : NodeId) (name : String) (target : AliasTarget)
        (typeOnly : Bool) :=
      d.declareAlias f c node ⟨name, target, typeOnly, true, none⟩
    let d := match a.nameText? name with
      | some text => addAlias d clauseNode text (.export_ specifier "default") typeOnly
      | none => d
    match bindings, a.form? bindings with
    | some node, some (.namespaceImport name) =>
      match a.nameText? name with
      | some text => addAlias d node text (.module_ specifier) typeOnly
      | none => d
    | _, some (.namedImports elements) =>
      elements.foldl
        (fun d element =>
          match element, a.form? element with
          | some node, some (.importSpecifier typeOnlyHere propertyName name) =>
            match a.nameText? name with
            | some text =>
              addAlias d node text (.export_ specifier ((a.nameText? propertyName).getD text))
                (typeOnly || typeOnlyHere)
            | none => d
          | _, _ => d)
        d
    | _, _ => d
  | _, _, _ => d

/-- Declares `import name = reference`. -/
def declareImportEquals (d : Declarations) (c : Container) (node : NodeId) (modifiers : Modifiers)
    (typeOnly : Bool) (name reference : Slot) : Declarations :=
  let a := f.arena
  let target? : Option AliasTarget := match a.form? reference with
    | some (.externalReference expression) => (a.nameText? expression).map .module_
    | _ => some (.name ⟨f.id, reference⟩)
  match a.nameText? name, target? with
  | some text, some target =>
    let isExported := modifiers.contains .export_ || c.exportsAll
    d.declareAlias f c node ⟨text, target, typeOnly, true, if isExported then some text else none⟩
  | _, _ => d

/-- Declares what an export declaration names. -/
def declareExports (d : Declarations) (c : Container) (typeOnly : Bool) (clause specifier : Slot) :
    Declarations :=
  let a := f.arena
  let specifier? := a.nameText? specifier
  match clause, a.form? clause with
  | _, none =>
    match specifier?, c.symbol? with
    | some specifier, some module =>
      let known := (d.tables.exportStars[module]?).getD []
      { d with tables.exportStars := d.tables.exportStars.insert module (known ++ [specifier]) }
    | _, _ => d
  | some node, some (.namespaceExport name) =>
    match specifier?, a.nameText? name with
    | some specifier, some text =>
      d.declareAlias f c node ⟨text, .module_ specifier, typeOnly, false, some text⟩
    | _, _ => d
  | _, some (.namedExports elements) =>
    elements.foldl
      (fun d element =>
        match element, a.form? element with
        | some node, some (.exportSpecifier typeOnlyHere propertyName name) =>
          match a.nameText? name with
          | some text =>
            let localName := if propertyName.isSome then propertyName else name
            let target : AliasTarget := match specifier? with
              | some specifier => .export_ specifier ((a.nameText? localName).getD text)
              | none => .name ⟨f.id, localName⟩
            d.declareAlias f c node ⟨text, target, typeOnly || typeOnlyHere, false, some text⟩
          | none => d
        | _, _ => d)
      d
  | _, _ => d

/-- Declares what `export =` or `export default` exports: another name of a symbol, or a variable
without a name. -/
def declareAssignment (d : Declarations) (c : Container) (node : NodeId) (isEquals : Bool)
    (expression : Slot) :
    Declarations :=
  let exportName := if isEquals then "export=" else "default"
  match f.arena.form? expression with
  | some (.identifier _) | some (.propertyAccess ..) =>
    d.declareAlias f c node ⟨exportName, .name ⟨f.id, expression⟩, false, false, some exportName⟩
  | _ =>
    let (d, id) := d.addUnnamed f c (.single .blockScopedVariable) exportName node
    d.setExport f c exportName id node

/-- Declares a module with a quoted name, without its body. -/
def declareAmbientModule (d : Declarations) (node : NodeId) (text : String) :
    Declarations × SymbolId :=
  match d.tables.ambientModules.get? text with
  | some known => ((d.addDeclaration f known node).setDeclared node known, known)
  | none =>
    let (d, id) := d.alloc f (.single .ambientModule) ("\x22" ++ text ++ "\x22")
    let d := d.addDeclaration f id node
    let d := { d with tables.ambientModules := d.tables.ambientModules.set text id }
    (d.setDeclared node id, id)

/-- Declares a module or a namespace; `inside` declares one statement of its body. `isAmbient` says
that the declaration stands where there are no implementations. -/
def declareModule (inside : (isAmbient : Bool) → Container → Declarations → Slot → Declarations)
    (isAmbient : Bool) (d : Declarations) (c : Container) (node : NodeId) (modifiers : Modifiers)
    (flavor : ModuleFlavor) (name body : Slot) : Declarations :=
  let a := f.arena
  match flavor, a.form? name with
  | .global, _ =>
    match a.form? body with
    | some (.moduleBlock statements) => statements.foldl (inside true .global) d
    | _ => d
  | _, some (.stringLiteral text) =>
    let (d, id) := d.declareAmbientModule f node text
    match a.form? body with
    | some (.moduleBlock statements) =>
      statements.foldl (inside true (.module_ id (!hasExplicitExports a statements))) d
    | _ => d
  | _, _ =>
    let isAmbient := isAmbient || modifiers.contains .declare
    let flag : SymbolFlag := if isInstantiated a (some node) then .valueModule else .namespaceModule
    let (d, id?) := d.declareNamed f c (.single flag) node name modifiers
    match id?, a.form? body with
    | some id, some (.moduleBlock statements) =>
      statements.foldl
        (inside isAmbient (.module_ id (isAmbient && !hasExplicitExports a statements))) d
    | some id, some (.moduleDeclaration ..) => inside isAmbient (.module_ id false) d body
    | _, _ => d

/-- Declares what a statement names, down to `depth` levels of modules. -/
def declareStatement : (depth : Nat) → (isAmbient : Bool) → Container → Declarations → Slot →
    Declarations
  | 0, _, _, d, _ => d
  | depth + 1, isAmbient, c, d, statement =>
    let named (node : NodeId) (flag : SymbolFlag) (name : Slot) (modifiers : Modifiers) :=
      d.declareNamed f c (.single flag) node name modifiers
    match statement, f.arena.form? statement with
    | _, some (.variableStatement modifiers flavor declarations) =>
      d.declareVariables f c modifiers flavor declarations
    | some node, some (.functionDeclaration modifiers name _ _) =>
      (named node .function name modifiers).1
    | some node, some (.classDeclaration modifiers name _ _ _) =>
      (named node .class_ name modifiers).1
    | some node, some (.interfaceDeclaration modifiers name _ _ _) =>
      (named node .interface name modifiers).1
    | some node, some (.typeAlias modifiers name _ _) => (named node .typeAlias name modifiers).1
    | some node, some (.enumDeclaration modifiers name members) =>
      let flag : SymbolFlag := if modifiers.contains .const then .constEnum else .regularEnum
      match named node flag name modifiers with
      | (d, some id) => d.declareEnumMembers f id members
      | (d, none) => d
    | some node, some (.moduleDeclaration modifiers flavor name body) =>
      d.declareModule f (declareStatement depth) isAmbient c node modifiers flavor name body
    | _, some (.importDeclaration clause specifier) => d.declareImports f c clause specifier
    | some node, some (.importEquals modifiers typeOnly name reference) =>
      d.declareImportEquals f c node modifiers typeOnly name reference
    | _, some (.exportDeclaration typeOnly clause specifier) =>
      d.declareExports f c typeOnly clause specifier
    | some node, some (.exportAssignment isEquals expression) =>
      d.declareAssignment f c node isEquals expression
    | _, _ => d

/-- Declares what a file declares, and its own symbol when it is a module. -/
def declareFile (tables : SharedTables) (root : NodeId) : Declarations × Option SymbolId :=
  let d : Declarations := { tables }
  let isAmbient := Path.isDeclarationFile f.path
  match f.arena.form? (some root) with
  | some (.sourceFile statements isModule) =>
    let all (c : Container) (d : Declarations) :=
      statements.foldl (declareStatement f (f.arena.size + 1) isAmbient c) d
    if isModule then
      let (d, id) := d.alloc f (.single .sourceFile) ("\x22" ++ f.path ++ "\x22")
      let d := (d.addDeclaration f id root).setDeclared root id
      (all (.module_ id (isAmbient && !hasExplicitExports f.arena statements)) d, some id)
    else (all .global d, none)
  | _ => (d, none)

end Declarations

end DeclBundle
