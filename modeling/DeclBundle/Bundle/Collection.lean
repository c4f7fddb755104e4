import DeclBundle.Bundle.Target

/-!
# Collecting what a bundle needs

Everything that the exports of the entry need, found by walking from one declaration to the next.
Each symbol is visited once. Every name on the way that stands for something in the bundle is
recorded, so that it can be replaced when names are final; names that stand for nothing in the
project are reserved.

`Collecting.visitTo` bounds the walk by the number of symbols: whenever a visit starts another one
inside itself, one more symbol has been visited.
-/

set_option autoImplicit false

namespace DeclBundle

/-! ## References -/

/-- The shape of a reference. -/
inductive ReferenceShape where
  /-- An identifier, by itself or at the left end of a dotted name. -/
  | identifier
  /-- A name after the name of a module; the node covers both. -/
  | qualified
  /-- An import type; the first `depth` names after it lead to the target. -/
  | importType (depth : Nat)
  deriving DecidableEq, Repr

/-- A place at which a symbol is named. -/
structure Reference where
  node : NodeRef
  shape : ReferenceShape
  deriving DecidableEq, Repr

/-- What was found. -/
structure Collection where
  /-- The symbols whose declarations are written, in the order in which they were found. -/
  kept : List SymbolId := []
  /-- For each target the places at which it is named. -/
  references : Table SymbolId (List Reference) := {}
  externals : Table SymbolId ExternalImport := {}
  /-- The packages that are imported from, by specifier. -/
  packages : PackageTable := {}
  /-- The modules that are used as a whole, with names for them. -/
  namespaces : Table SymbolId String := {}
  /-- Names that stand for something outside the bundle. -/
  reserved : List String := []
  /-- Symbols without a declaration that can be written. -/
  skipped : List SymbolId := []
  /-- The number of nodes at which references cannot stand. -/
  unhandled : Nat := 0

namespace Collection

/-- The declarations of a symbol are written. -/
def isKept (c : Collection) (id : SymbolId) : Bool := c.kept.contains id

/-- The places at which a symbol is named. -/
def referencesTo (c : Collection) (id : SymbolId) : List Reference := (c.references.get? id).getD []

end Collection

/-! ## Where references stand -/

/-- How a walk goes on at a node. -/
inductive Walk where
  | stop
  | into (nodes : List Slot)
  /-- A body: bodies of overloaded functions are passed over. -/
  | members (before members : List Slot)
  /-- A name that refers to something, with the type arguments after it. -/
  | entity (name : Slot) (typeArguments : List Slot)
  | importType (typeArguments : List Slot)
  /-- A node below which there should be no reference. -/
  | unhandled
  deriving DecidableEq, Repr

/-- Members that are private are written without their types. -/
def isHidden (a : Arena) (form : Form Slot) : Bool :=
  let isPrivate := match form with
    | .parameter .. => false
    | _ => form.modifiers.contains .private_
  isPrivate || match a.form? (form.name?.getD none) with
    | some (.privateIdentifier _) => true
    | _ => false

/-- How a walk goes on at a node that is not hidden. -/
def Walk.ofForm (a : Arena) (node : Slot) (form : Form Slot) : Walk :=
  match form with
  | .identifier _ | .privateIdentifier _ | .stringLiteral _ | .numericLiteral _ | .bigIntLiteral _
  | .booleanLiteral _
  | .nullLiteral | .templateLiteral _ | .verbatim _ | .objectLiteral _ | .propertyAssignment ..
  | .arrayLiteral _
  | .objectPattern _ | .arrayPattern _ | .otherStatement | .keywordType _ | .thisType
  | .literalType _
  | .enumDeclaration .. | .exportDeclaration .. | .exportAssignment ..
  | .globalNamespaceExport _ => stop
  | .typeReference name typeArguments | .heritageType name typeArguments
  | .typeQuery name typeArguments =>
    entity name typeArguments
  | .computedName expression =>
    match a.form? expression with
    | some (.identifier _) | some (.propertyAccess ..) => entity expression []
    | _ => stop
  | .importEquals _ _ _ reference =>
    match a.form? reference with
    | some (.externalReference _) => unhandled
    | _ => entity reference []
  | .importType _ _ _ typeArguments => importType typeArguments
  | .classDeclaration _ _ typeParameters heritage body => members (typeParameters ++ heritage) body
  | .moduleBlock statements => members [] statements
  | .moduleDeclaration _ _ _ body => into [body]
  | .variableDeclaration _ _ ascription _ | .parameter _ _ _ _ ascription _ => into [ascription]
  | .bindingElement .. =>
    match a.form? (a.bindingRoot node) with
    | some (.variableDeclaration _ _ ascription _) => into [ascription]
    | _ => stop
  | .propertyDeclaration _ name _ _ ascription _ => into [name, ascription]
  | .sourceFile .. | .qualifiedName .. | .propertyAccess .. | .enumMember .. | .importDeclaration ..
  | .importClause ..
  | .namespaceImport _ | .namedImports _ | .importSpecifier .. | .externalReference _
  | .namedExports _
  | .namespaceExport _ | .exportSpecifier .. => unhandled
  | _ => into form.children

/-- How a walk goes on at a node. -/
def Walk.at_ (a : Arena) (node : Slot) : Walk :=
  match a.form? node with
  | none => stop
  | some form => if isHidden a form then stop else ofForm a node form

/-- The nodes that cover more and more of a dotted name, the longest first, down to `depth` levels.
There are none when the name does not start with an identifier. -/
def entityPrefixesTo (a : Arena) : (depth : Nat) → Slot → Option (List Slot)
  | 0, _ => none
  | depth + 1, entity =>
    match a.form? entity with
    | some (.identifier _) => some [entity]
    | some (.qualifiedName left _) | some (.propertyAccess left _) =>
      (entityPrefixesTo a depth left).map (entity :: ·)
    | _ => none

/-- The nodes that cover more and more of a dotted name, the first identifier first. -/
def entityPrefixes (a : Arena) (entity : Slot) : List Slot :=
  ((entityPrefixesTo a (a.size + 1) entity).getD []).reverse

/-! ## Walking -/

/-- A collection in progress, with the symbols that were visited. -/
structure Collecting where
  visited : List SymbolId := []
  found : Collection := {}

namespace Collecting

variable (p : Project)

/-- The symbols that the names after a first symbol lead to, as far as they lead. -/
def memberChain (first : SymbolId) : List String → List SymbolId
  | [] => [first]
  | name :: rest =>
    match p.member? first name with
    | some member => first :: memberChain member rest
    | none => [first]

/-- A symbol stands for a module. -/
def standsForModule (id : SymbolId) : Bool :=
  ((p.resolveAlias? id).bind p.symbol?).any Symbol.isModule

/-- The position in a chain of the symbol to which a dotted name refers, and how it is imported when
the name says so. Modules are looked through: the member of a module is meant, not the module. A
namespace that is imported by its name is meant itself. -/
def meantSymbol (chain : List SymbolId) (names : List String) : Nat × Option ImportHint :=
  let indexed := chain.zipIdx
  match (indexed.filter fun (id, _) => standsForModule p id).getLast? with
  | none => (0, none)
  | some (module, index) =>
    if index + 1 = chain.length then (index, none)
    else
      match p.target? module with
      | some (.module_ ..) => (index + 1, none)
      | some (.external i) =>
        if i.isNamespace then (index + 1, some ⟨i.specifier, names[index + 1]?⟩) else (index, none)
      | _ => (index, none)

/-- Reserves the name that is written at an identifier. -/
def reserve (file : FileId) (identifier : Slot) (c : Collecting) : Collecting :=
  match (p.arena? file).bind (·.nameText? identifier) with
  | some text =>
    if c.found.reserved.contains text then c
    else { c with found.reserved := c.found.reserved ++ [text] }
  | none => c

/-- Adds an import from a package. -/
def addExternal (i : ExternalImport) (c : Collecting) : Collecting :=
  if c.found.externals.contains i.symbol then c
  else
    { c with
      found.packages := c.found.packages.add i.specifier (.ofSpecifier i.specifier)
      found.externals := c.found.externals.set i.symbol i }

/-- Adds a place at which a target is named, once. -/
def addReference (target : SymbolId) (r : Reference) (c : Collecting) : Collecting :=
  let known := c.found.referencesTo target
  let places := if known.any (·.node == r.node) then known else known ++ [r]
  { c with found.references := c.found.references.set target places }

variable (visit : Target → Collecting → Collecting)

/-- Records that a symbol is named at a node, in a declaration of `owner`. Names of members inside
their own namespace stay as they are. -/
def record (owner : SymbolId) (r : Reference) (named : SymbolId) (hint : Option ImportHint)
    (c : Collecting) :
    Collecting :=
  let note (key : SymbolId) (target : Target) : Collecting :=
    let c := visit target c
    if p.topContainer? key = some owner then c else addReference key r c
  match p.targetWith? named hint with
  | none => c
  | some .ambient =>
    reserve p r.node.file (((p.arena? r.node.file).map (·.leftmost r.node.node)).getD none) c
  | some (.declaration id) => note id (.declaration id)
  | some (.module_ id localName) => note id (.module_ id localName)
  | some (.external i) => note i.symbol (.external i)

/-- Records what a chain of names refers to; `shapeAt` gives the place and the shape for a position
in the chain. -/
def recordChain (owner first : SymbolId) (names : List String) (shapeAt : Nat → Reference)
    (c : Collecting) :
    Collecting :=
  let chain := memberChain p first (names.drop 1)
  let (index, hint) := meantSymbol p chain names
  match chain[index]? with
  | some named => record p visit owner (shapeAt index) named hint c
  | none => c

/-- Records what a dotted name refers to. A name that refers to nothing in the project is reserved,
and one of a parameter is left alone. -/
def walkEntity (owner : SymbolId) (entity : NodeRef) (c : Collecting) : Collecting :=
  match p.file? entity.file with
  | none => c
  | some file =>
    let a := file.arena
    let parts := Project.entityParts a entity.node
    let prefixes := entityPrefixes a entity.node
    match parts with
    | [] => c
    | firstPart :: _ =>
      if prefixes.length ≠ parts.length then c
      else
        match firstPart.bind (file.resolved[·]?) with
        | none => reserve p entity.file firstPart c
        | some first =>
          if (p.symbol? first).any (·.isAny (.ofList [.typeParameter, .parameter])) then c
          else
            let names := parts.map fun part => (a.nameText? part).getD ""
            recordChain p visit owner first names
              (fun index => ⟨⟨entity.file, (prefixes[index]?).getD none⟩,
                if index = 0 then .identifier else .qualified⟩) c

/-- Records what an import type refers to. -/
def walkImportType (owner : SymbolId) (node : NodeRef) (c : Collecting) : Collecting :=
  match p.form? node, p.arena? node.file with
  | some (.importType _ argument qualifier _), some a =>
    match a.nameText? argument with
    | none => c
    | some specifier =>
      match p.moduleOf? node.file specifier with
      | none => c
      | some module =>
        let names := (Project.entityParts a qualifier).map fun part => (a.nameText? part).getD ""
        recordChain p visit owner module (specifier :: names)
          (fun index => ⟨node, .importType index⟩) c
  | _, _ => c

/-- Walks the syntax at a node, down to `depth` levels. -/
def walkTo (owner : SymbolId) (file : FileId) (a : Arena) :
    (depth : Nat) → Slot → Collecting → Collecting
  | 0, _, c => c
  | depth + 1, node, c =>
    let all (nodes : List Slot) (c : Collecting) : Collecting :=
      nodes.foldl (fun c n => walkTo owner file a depth n c) c
    match Walk.at_ a node with
    | .stop => c
    | .into nodes => all nodes c
    | .members before members =>
      all (members.filter fun m => !Print.isOverloadBody a members m) (all before c)
    | .entity name typeArguments => all typeArguments (walkEntity p visit owner ⟨file, name⟩ c)
    | .importType typeArguments => all typeArguments (walkImportType p visit owner ⟨file, node⟩ c)
    | .unhandled => { c with found.unhandled := c.found.unhandled + 1 }

/-- Walks the syntax of a declaration. -/
def walkDeclaration (owner : SymbolId) (c : Collecting) (declaration : NodeRef) : Collecting :=
  match p.arena? declaration.file with
  | some a => walkTo p visit owner declaration.file a (a.size + 1) declaration.node c
  | none => c

/-- Visits a declaration of the project, through the namespace that it is in. -/
def visitDeclaration (id : SymbolId) (c : Collecting) : Collecting :=
  let owner := (p.topContainer? id).getD id
  if c.visited.contains owner then c
  else
    let c := { c with visited := owner :: c.visited }
    match p.writtenDeclarations owner with
    | [] => { c with found.skipped := c.found.skipped ++ [owner] }
    | declarations =>
      declarations.foldl (walkDeclaration p visit owner)
        { c with found.kept := c.found.kept ++ [owner] }

/-- Visits what a symbol stands for. -/
def visitSymbol (id : SymbolId) (c : Collecting) : Collecting :=
  match p.target? id with
  | some target => visit target c
  | none => c

/-- Visits a whole module: everything that it exports under a name. -/
def visitModule (id : SymbolId) (localName : Option String) (c : Collecting) : Collecting :=
  if c.visited.contains id then c
  else
    let name := localName.getD ((p.symbol? id).elim "ns" fun s => nameOfPath s.name)
    let c :=
      { c with visited := id :: c.visited, found.namespaces := c.found.namespaces.set id name }
    (p.exportsOf id).foldl
      (fun c e => if isUnnamedExport e.name then c else visitSymbol p visit e.symbol c) c

/-- Visits a target; `inside` visits the targets that are found on the way. -/
def visitTarget (inside : Target → Collecting → Collecting) (target : Target) (c : Collecting) :
    Collecting :=
  match target with
  | .declaration id => visitDeclaration p inside id c
  | .module_ id localName => visitModule p inside id localName c
  | .external i => addExternal i c
  | .ambient => c

/-- Visits a target, through at most `depth` visits inside each other. -/
def visitTo : (depth : Nat) → Target → Collecting → Collecting
  | 0, _, c => c
  | depth + 1, target, c => visitTarget p (visitTo depth) target c

end Collecting

/-- Collects everything that the given exports need. -/
def Project.collect (p : Project) (exports_ : List ModuleExport) : Collection :=
  let visit := Collecting.visitTo p (p.tables.symbols.size + 2)
  (exports_.foldl (fun c e => Collecting.visitSymbol p visit e.symbol c) {}).found

end DeclBundle
