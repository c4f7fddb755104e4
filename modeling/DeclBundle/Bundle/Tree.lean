import DeclBundle.Bundle.Collection

/-!
# The tree of a bundle

The declarations of a bundle are copied into an arena of its own, so that names and modifiers can be
changed there. Every copied node knows the node that it was copied from, and every such node knows
its copies. A node has several copies when the names of one pattern share a type.
-/

set_option autoImplicit false

namespace DeclBundle

open Text (Span)

/-- The arena of a bundle, with the origins of its nodes. -/
structure BundleTree where
  arena : Arena := .empty
  /-- The nodes from which nodes were copied. -/
  origins : Std.TreeMap NodeId NodeRef := {}
  /-- The copies of nodes, the first copy first. -/
  copies : Std.TreeMap NodeRef (List NodeId) := {}
  /-- The statements of each symbol that is kept, in the order of its declarations. -/
  statements : Table SymbolId (List NodeId) := {}

instance : Inhabited BundleTree := ⟨{}⟩

/-- A step that builds part of a bundle. -/
abbrev Build := StateM BundleTree

namespace BundleTree

/-- The statements of a symbol. -/
def statementsOf (t : BundleTree) (id : SymbolId) : List NodeId := (t.statements.get? id).getD []

/-- The node from which a node was copied. -/
def originOf? (t : BundleTree) (node : NodeId) : Option NodeRef := t.origins[node]?

/-- The copies of a node. -/
def copiesOf (t : BundleTree) (origin : NodeRef) : List NodeId := (t.copies[origin]?).getD []

/-- The form of a node. -/
def form? (t : BundleTree) (node : Slot) : Option (Form Slot) := t.arena.form? node

end BundleTree

namespace Build

/-! ## Nodes -/

/-- Adds a node with a place in a source. -/
def addAt (span : Span) (form : Form Slot) : Build NodeId :=
  modifyGet fun t =>
    let (arena, id) := t.arena.add form span
    (id, { t with arena })

/-- Adds a node that comes from no source. -/
def add (form : Form Slot) : Build NodeId := addAt .none form

/-- Gives a node another form. -/
def replace (node : NodeId) (form : Form Slot) : Build Unit :=
  modify fun t => { t with arena := t.arena.replace (some node) form }

/-- Adds an identifier. -/
def identifier (text : String) : Build NodeId := add (.identifier text)

/-- Adds an identifier or a dotted name. -/
def dottedName (text : String) : Build NodeId := do
  match (Text.splitAt '.' text.toList).map String.ofList with
  | [] => identifier ""
  | first :: rest =>
    rest.foldlM (fun left part => do add (.qualifiedName (some left) (some (← identifier part))))
      (← identifier first)

/-- Makes a dotted name of a node. -/
def setDottedName (node : NodeId) (text : String) : Build Unit := do
  let name ← dottedName text
  match (← get).form? (some name) with
  | some form => replace node form
  | none => pure ()

/-! ## Copies -/

/-- Notes that a node was copied, and copies its comment. -/
def recordCopy (source : Arena) (origin : NodeRef) (copy : NodeId) : Build Unit :=
  modify fun t =>
    { t with
      arena := (source.doc? origin.node).elim t.arena (t.arena.setDoc (some copy))
      origins := t.origins.insert copy origin
      copies := t.copies.insert origin (t.copiesOf origin ++ [copy]) }

/-- Copies a node and all below it, down to `depth` levels. -/
def copyTo (source : Arena) (file : FileId) : (depth : Nat) → Slot → Build Slot
  | 0, _ => pure none
  | depth + 1, node =>
    match source.get? node with
    | none => pure none
    | some found => do
      let copy ← addAt found.span (← found.form.mapM (copyTo source file depth))
      recordCopy source ⟨file, node⟩ copy
      return some copy

/-- Copies a node and all below it. -/
def copy (source : Arena) (ref : NodeRef) : Build Slot :=
  copyTo source ref.file (source.size + 1) ref.node

variable (p : Project)

/-- Copies a type that is written in the project. -/
def copyType (type : NodeRef) : Build Slot :=
  match p.arena? type.file with
  | some source => copy source type
  | none => pure none

/-- Adds the type that reads one part of another. -/
def partType (object : Slot) (key : BindingKey) : Build Slot := do
  let literal ← add <| match key with
    | .property name => .stringLiteral name
    | .index i => .numericLiteral (toString i)
  let index ← add (.literalType (some literal))
  return some (← add (.indexedAccess object (some index)))

/-- Adds a type for what a declaration states or implies. -/
def declaredType : DeclaredType → Build Slot
  | .literal text => do
    let literal ← add (.verbatim text)
    return some (← add (.literalType (some literal)))
  | .keyword keyword => return some (← add (.keywordType keyword))
  | .written type => copyType p type
  | .part type path => do path.foldlM partType (← copyType p type)
  | .unknown => pure none

/-- Adds a statement with one variable. -/
def variableStatement (modifiers : Modifiers) (flavor : VariableFlavor) (declarator : Slot)
    (span : Span) :
    Build NodeId :=
  addAt span (.variableStatement modifiers flavor [declarator])

/-- Copies a variable into a statement of its own. -/
def copyVariable (source : Arena) (ref : NodeRef) : Build (Option NodeId) := do
  let statement := source.parent ref.node
  match source.form? statement with
  | some (.variableStatement modifiers flavor _) =>
    let declarator ← copy source ref
    let made ← variableStatement modifiers flavor declarator (source.span statement)
    recordCopy source ⟨ref.file, statement⟩ made
    return some made
  | _ => return none

/-- Makes a statement for a name in a pattern. -/
def copyBinding (source : Arena) (ref : NodeRef) (name : Slot) : Build (Option NodeId) := do
  let statement := source.parent (source.bindingRoot ref.node)
  match source.form? statement with
  | some (.variableStatement modifiers flavor _) =>
    let name ← copy source ⟨ref.file, name⟩
    let type ← declaredType p (p.typeOf ref)
    let declarator ← addAt (source.span ref.node) (.variableDeclaration name false type none)
    let made ← variableStatement modifiers flavor (some declarator) (source.span statement)
    recordCopy source ref made
    return some made
  | _ => return none

/-- Makes a constant for a value that is exported without a name. -/
def copyDefaultValue (source : Arena) (ref : NodeRef) : Build (Option NodeId) := do
  match ← declaredType p (p.typeOf ref) with
  | none => return none
  | some type =>
    let name ← identifier "default"
    let declarator ← add (.variableDeclaration (some name) false (some type) none)
    let made ← variableStatement .empty .const (some declarator) (source.span ref.node)
    recordCopy source ref made
    return some made

/-- Gives a function or a class without a name the name `default`. -/
def nameDefault (node : NodeId) : Build Unit := do
  let name ← identifier "default"
  match (← get).form? (some node) with
  | some (.functionDeclaration ms _ s hasBody) =>
    replace node (.functionDeclaration ms (some name) s hasBody)
  | some (.classDeclaration ms _ xs ys zs) =>
    replace node (.classDeclaration ms (some name) xs ys zs)
  | _ => pure ()

/-- Copies a declaration as a statement. -/
def copyDeclaration (ref : NodeRef) : Build (Option NodeId) := do
  match p.arena? ref.file with
  | none => return none
  | some source =>
    match source.form? ref.node with
    | none => return none
    | some (.variableDeclaration ..) => copyVariable source ref
    | some (.bindingElement _ _ name _) => copyBinding p source ref name
    | some (.exportAssignment ..) => copyDefaultValue p source ref
    | some (.functionDeclaration _ none _ _) | some (.classDeclaration _ none _ _ _) =>
      let made ← copy source ref
      made.forM nameDefault
      return made
    | some _ => copy source ref

/-! ## Types that literals imply -/

/-- A declaration with a keyword as its type instead of a value. A parameter with a default can be
left out. -/
def withImpliedType (type : Slot) : Form Slot → Option (Form Slot)
  | .parameter ms isRest name optional none (some _) =>
    some (.parameter ms isRest name (optional || !isRest) type none)
  | .propertyDeclaration ms name optional definite none (some _) =>
    some (.propertyDeclaration ms name optional definite type none)
  | .variableDeclaration name definite none (some _) =>
    some (.variableDeclaration name definite type none)
  | _ => none

/-- Gives a copied declaration the type that its value implies, if that is a keyword. -/
def implyType (node : NodeId) : Build Unit := do
  let t ← get
  match t.originOf? node, t.form? (some node) with
  | some origin, some form =>
    if (withImpliedType none form).isSome then
      match p.typeOf origin with
      | .keyword keyword =>
        let type ← add (.keywordType keyword)
        match withImpliedType (some type) form with
        | some form => replace node form
        | none => pure ()
      | _ => pure ()
  | _, _ => pure ()

/-! ## The whole tree -/

/-- Copies the declarations of a symbol. -/
def copySymbol (id : SymbolId) : Build Unit := do
  let made ← (p.writtenDeclarations id).filterMapM (copyDeclaration p)
  modify fun t => { t with statements := t.statements.set id made }

/-- Copies everything that is kept. -/
def copyAll (kept : List SymbolId) : Build Unit := do
  kept.forM (copySymbol p)
  let count := (← get).arena.size
  (List.range count).forM fun index => implyType p ⟨index⟩

end Build

/-- The tree with copies of everything that is kept. -/
def BundleTree.ofCollection (p : Project) (collection : Collection) : BundleTree :=
  ((Build.copyAll p collection.kept).run {}).2

end DeclBundle
