import DeclBundle.Bundle.Naming
import DeclBundle.Bundle.Tree

/-!
# Laying out a bundle

The copied declarations are changed in place: references and declarations get their final names, and
modifiers are those of a declaration file. Then the statements are put in order: imports by
specifier, declarations, the exports, and the namespaces for modules.
-/

set_option autoImplicit false

namespace DeclBundle.Build

variable (p : Project) (collection : Collection) (plan : Plan) (naming : Naming)

/-! ## Final names and modifiers -/

/-- Makes a reference by name of an import type. The names after the first `depth` ones stay. -/
def nameImportType (node : NodeId) (text : String) (depth : Nat) : Build Unit := do
  let a := (← get).arena
  match a.form? (some node) with
  | some (.importType isTypeof _ qualifier typeArguments) =>
    let rest := ((Project.entityParts a qualifier).drop depth).filterMap a.nameText?
    let name ← dottedName (rest.foldl (fun text part => text ++ "." ++ part) text)
    replace node (if isTypeof then .typeQuery (some name) typeArguments
      else .typeReference (some name) typeArguments)
  | _ => pure ()

/-- Writes the final name of a target at all copies of a reference. -/
def nameReference (text : String) (r : Reference) : Build Unit := do
  ((← get).copiesOf r.node).forM fun copy =>
    match r.shape with
    | .identifier | .qualified => setDottedName copy text
    | .importType depth => nameImportType copy text depth

/-- Writes the final names at all references. -/
def nameReferences : Build Unit :=
  collection.references.entries.forM fun (target, references) =>
    match naming.textOf? p target with
    | some text => references.forM (nameReference text)
    | none => pure ()

/-- Writes a name at an identifier. -/
def nameIdentifier (name : String) (slot : Slot) : Build Unit := do
  match slot, (← get).form? slot with
  | some node, some (.identifier _) => replace node (.identifier name)
  | _, _ => pure ()

/-- Writes the name of a declaration. -/
def nameStatement (name : String) (statement : NodeId) : Build Unit := do
  ((← get).arena.nameSlots (some statement)).forM (nameIdentifier name)

/-- The name that the declarations of a symbol are written with. -/
def declaredName? (id : SymbolId) : Option String :=
  ((plan.moved.get? id).map Prod.snd).or (naming.nameOf? id)

/-- Writes the name of all declarations of a symbol. -/
def nameSymbol (id : SymbolId) : Build Unit :=
  match declaredName? plan naming id with
  | none => pure ()
  | some name => do ((← get).statementsOf id).forM (nameStatement name)

/-- Writes the names of all declarations. -/
def nameDeclarations : Build Unit := collection.kept.forM (nameSymbol plan naming)

/-- Removes `declare` from a statement. -/
def stripStatement (statement : Slot) : Build Unit := do
  match statement, (← get).form? statement with
  | some node, some form => replace node (form.withModifiers (form.modifiers.erase .declare))
  | _, _ => pure ()

/-- Removes `declare` from everything inside the namespaces below a node, down to `depth` levels:
bodies of namespaces are ambient anyway. -/
def stripInner : (depth : Nat) → Slot → Build Unit
  | 0, _ => pure ()
  | depth + 1, node => do
    match (← get).form? node with
    | some (.moduleDeclaration _ _ _ body) => stripInner depth body
    | some (.moduleBlock statements) =>
      statements.forM fun inner => do
        stripStatement inner
        stripInner depth inner
    | _ => pure ()

/-- The modifiers of a declaration in a bundle: members of namespaces are exported, and all other
declarations that have a value are declared. -/
def statementModifiers (isMoved : Bool) (form : Form Slot) : Modifiers :=
  let bare := (form.modifiers.erase .export_).erase .default_
  if isMoved then (bare.erase .declare).insert .export_
  else
    match form with
    | .interfaceDeclaration .. | .typeAlias .. => bare
    | _ => bare.insert .declare

/-- Sets the modifiers of a declaration and of everything inside it. -/
def modifyStatement (isMoved : Bool) (statement : NodeId) : Build Unit := do
  let t ← get
  match t.form? (some statement) with
  | none => pure ()
  | some form =>
    replace statement (form.withModifiers (statementModifiers isMoved form))
    stripInner (t.arena.size + 1) (some statement)

/-- Sets the modifiers of all declarations. -/
def setModifiers : Build Unit :=
  collection.kept.forM fun id => do
    ((← get).statementsOf id).forM (modifyStatement (plan.isMoved id))

/-! ## Specifiers -/

/-- Adds the first name of a specifier. It is left out when the second one is equal. -/
def frontName (first second : String) : Build Slot :=
  if first == second then pure none else some <$> identifier first

/-- Adds a specifier of an import. -/
def importSpecifier (imported localName : String) : Build NodeId := do
  let propertyName ← frontName imported localName
  let name ← identifier localName
  add (.importSpecifier false propertyName (some name))

/-- Adds a specifier of an export. -/
def exportSpecifier (localName exported : String) : Build NodeId := do
  let propertyName ← frontName localName exported
  let name ← identifier exported
  add (.exportSpecifier false propertyName (some name))

/-- Adds an export of several names. -/
def exportList (specifiers : List NodeId) : Build NodeId := do
  let clause ← add (.namedExports (specifiers.map some))
  add (.exportDeclaration false (some clause) none)

/-- Adds another name for something that is reached by a dotted name. -/
def exportedAlias (name text : String) : Build NodeId := do
  let nameNode ← identifier name
  let reference ← dottedName text
  add (.importEquals (.single .export_) false (some nameNode) (some reference))

/-! ## Imports -/

/-- Adds an import. -/
def importStatement (specifier : String) (name bindings : Slot) : Build NodeId := do
  let clause ← add (.importClause false name bindings)
  let specifier ← add (.stringLiteral specifier)
  add (.importDeclaration (some clause) (some specifier))

/-- What is imported from one specifier, under its final names. -/
structure ImportGroup where
  specifier : String
  /-- The name of the default import. -/
  default : Option String := none
  /-- Other names, each with the one that it is exported under. -/
  named : List (String × String) := []
  /-- Names for the whole module. -/
  namespaces : List String := []
  deriving DecidableEq, Repr

/-- Adds an import to a group. One default import can be written as such; all others are written by
name. -/
def ImportGroup.add (g : ImportGroup) (i : ExternalImport) (localName : String) : ImportGroup :=
  match i.importedName with
  | none => { g with namespaces := g.namespaces ++ [localName] }
  | some imported =>
    if imported == "default" && g.default.isNone then { g with default := some localName }
    else { g with named := g.named ++ [(imported, localName)] }

/-- The specifiers that are imported from, in order. -/
def importedSpecifiers : List String :=
  (collection.externals.values.map (·.specifier)).eraseDups.mergeSort fun a b => a ≤ b

/-- What is imported from a specifier. -/
def importGroup (specifier : String) : ImportGroup :=
  collection.externals.values.foldl
    (fun g i =>
      if i.specifier == specifier then (naming.nameOf? i.symbol).elim g (g.add i) else g)
    { specifier }

/-- Adds the names of an import in braces, if there are any. -/
def namedBindings (named : List NodeId) : Build Slot :=
  if named.isEmpty then pure none else some <$> add (.namedImports (named.map some))

/-- Adds the import of a default export and of names, if there are any. -/
def namedImport (specifier : String) (default : Slot) (named : List NodeId) : Build (List NodeId) :=
  if default.isSome || !named.isEmpty then do
    let bindings ← namedBindings named
    return [← importStatement specifier default bindings]
  else pure []

/-- Adds the import of a whole module. -/
def moduleImport (specifier localName : String) : Build NodeId := do
  let name ← identifier localName
  let bindings ← add (.namespaceImport (some name))
  importStatement specifier none (some bindings)

/-- Adds the imports from one specifier. -/
def importStatements (g : ImportGroup) : Build (List NodeId) := do
  let default ← g.default.mapM identifier
  let named ← g.named.mapM fun names => importSpecifier names.1 names.2
  let first ← namedImport g.specifier default named
  let others ← g.namespaces.mapM (moduleImport g.specifier)
  return first ++ others

/-- What is imported from each specifier. -/
def importGroups : List ImportGroup :=
  (importedSpecifiers collection).map (importGroup collection naming)

/-- Adds all imports. -/
def imports : Build (List NodeId) := do
  return (← (importGroups collection naming).mapM importStatements).flatten

/-! ## Exports -/

/-- What an exposed export stands for. -/
def exposedSymbol? : ExportOutcome → Option SymbolId
  | .direct id | .namespace_ id | .external id | .externalModule id | .member id => some id
  | .skipped _ => none

/-- The statements of the exports so far. -/
structure ExportStatements where
  specifiers : List NodeId := []
  statements : List NodeId := []
  /-- What the module is when it is imported as a whole. -/
  whole : Option NodeId := none

/-- Adds one export of something with a final name. -/
def exportStatement (e : ExportStatements) (name text : String) : Build ExportStatements := do
  if name == "export=" then
    return { e with whole := some (← add (.exportAssignment true (some (← dottedName text)))) }
  else if !text.toList.contains '.' then
    return { e with specifiers := e.specifiers ++ [← exportSpecifier text name] }
  else if name == "default" then
    return { e with statements := e.statements ++
      [← add (.exportAssignment false (some (← dottedName text)))] }
  else return { e with statements := e.statements ++ [← exportedAlias name text] }

/-- Adds a planned export, if what it stands for has a final name. -/
def plannedExport (e : ExportStatements) (planned : PlannedExport) : Build ExportStatements :=
  match (exposedSymbol? planned.outcome).bind (naming.textOf? p) with
  | some text => exportStatement e planned.name text
  | none => pure e

/-- Adds the export of several names. A bundle that exports nothing has an empty list of exports, so
that it is a module. -/
def exportListOf (e : ExportStatements) : Build (List NodeId) :=
  if !e.specifiers.isEmpty || (e.statements.isEmpty && e.whole.isNone) then do
    return [← exportList e.specifiers]
  else pure []

/-- Adds the statements for all exports. -/
def exportStatements : Build (List NodeId) := do
  let e ← plan.exports_.foldlM (plannedExport p naming) {}
  let list ← exportListOf e
  return list ++ e.statements ++ e.whole.toList

/-! ## Namespaces -/

/-- The statements for a member of a namespace that stand in its body; `inner` adds a namespace
inside. -/
def memberStatements (inner : String → SymbolId → Build (Option NodeId)) (name : String) :
    NamespaceMember → Build (List NodeId)
  | .moved id => do return (← get).statementsOf id
  | .reexposed _ => pure []
  | .qualified id => do return (← (naming.textOf? p id).mapM (exportedAlias name)).toList
  | .nested module => do return (← inner name module).toList

/-- Adds a specifier for a member of a namespace that stands at the top level. -/
def memberSpecifier? (name : String) : NamespaceMember → Build (Option NodeId)
  | .reexposed id => (naming.textOf? p id).mapM fun text => exportSpecifier text name
  | _ => pure none

/-- Adds the export of what stands at the top level, if there is something. -/
def memberList (specifiers : List NodeId) : Build (List NodeId) :=
  if specifiers.isEmpty then pure [] else do return [← exportList specifiers]

/-- Adds the namespace for a module under a name, with those inside it, down to `depth` levels. -/
def namespaceStatement : (depth : Nat) → (isTop : Bool) → (name : String) → SymbolId →
    Build (Option NodeId)
  | 0, _, _, _ => pure none
  | depth + 1, isTop, name, module =>
    match plan.namespaces.get? module with
    | none => pure none
    | some n => do
      let bodies ← n.members.mapM fun m =>
        memberStatements p naming (namespaceStatement depth false) m.1 m.2
      let reexposed ← n.members.filterMapM fun m => memberSpecifier? p naming m.1 m.2
      let list ← memberList reexposed
      let nameNode ← identifier name
      let block ← add (.moduleBlock ((bodies.flatten ++ list).map some))
      let modifiers : Modifiers := .single (if isTop then .declare else .export_)
      return some (← add (.moduleDeclaration modifiers .namespace_ (some nameNode) (some block)))

/-- Adds the namespace for a module at the top level. -/
def topNamespace? (n : PlannedNamespace) : Build (Option NodeId) :=
  match naming.nameOf? n.module with
  | some name => namespaceStatement p plan naming (plan.namespaces.size + 1) true name n.module
  | none => pure none

/-- Adds the namespaces at the top level. -/
def namespaceStatements : Build (List NodeId) :=
  plan.topNamespaces.filterMapM (topNamespace? p plan naming)

/-! ## The whole bundle -/

/-- Finishes what was copied and adds everything else. The result is the root of the bundle. -/
def layOut : Build NodeId := do
  nameReferences p collection naming
  nameDeclarations collection plan naming
  setModifiers collection plan
  let imports ← imports collection naming
  let t ← get
  let declarations := (collection.kept.filter (! plan.isMoved ·)).flatMap t.statementsOf
  let exports_ ← exportStatements p plan naming
  let namespaces ← namespaceStatements p plan naming
  let root ← add (.sourceFile ((imports ++ declarations ++ exports_ ++ namespaces).map some) true)
  modify fun t => { t with arena := t.arena.setParents (some root) }
  return root

end DeclBundle.Build
