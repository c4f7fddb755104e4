import DeclBundle.Bundle.Collection

/-!
# Planning a bundle

How each export of the entry is exposed, and which namespaces the bundle declares for modules that
are used as a whole. A member of such a namespace is moved into its body, unless its declaration has
another place: then the namespace refers to that place.
-/

set_option autoImplicit false

namespace DeclBundle

/-- Why an export is left out. -/
inductive SkipReason where
  /-- It stands for nothing. -/
  | unresolved
  /-- It stands for a global name. -/
  | ambient
  /-- It has no declaration that can be written. -/
  | notWritten
  deriving DecidableEq, Repr

/-- How an export is exposed. -/
inductive ExportOutcome where
  /-- As a declaration at the top level. -/
  | direct (symbol : SymbolId)
  /-- As a namespace for a module. -/
  | namespace_ (module : SymbolId)
  /-- As an import of a name from a package. -/
  | external (symbol : SymbolId)
  /-- As an import of a whole module of a package. -/
  | externalModule (symbol : SymbolId)
  /-- As a member of a namespace that is declared in the project. -/
  | member (symbol : SymbolId)
  | skipped (reason : SkipReason)
  deriving DecidableEq, Repr

/-- An export and how it is exposed. -/
structure PlannedExport where
  name : String
  outcome : ExportOutcome
  deriving DecidableEq, Repr

/-- What a member of a declared namespace is. -/
inductive NamespaceMember where
  /-- A declaration in the body of the namespace. -/
  | moved (symbol : SymbolId)
  /-- Something at the top level of the bundle, exported by its name there. -/
  | reexposed (symbol : SymbolId)
  /-- Something that is reached by a dotted name. -/
  | qualified (symbol : SymbolId)
  /-- A namespace that is declared inside. -/
  | nested (module : SymbolId)
  deriving DecidableEq, Repr

/-- A namespace that the bundle declares for a module. -/
structure PlannedNamespace where
  module : SymbolId
  suggestedName : String
  members : List (String × NamespaceMember) := []
  /-- The namespace around it, if it is not at the top level. -/
  parent : Option SymbolId := none
  deriving Repr

/-- What a bundle consists of. -/
structure Plan where
  exports_ : List PlannedExport := []
  namespaces : Table SymbolId PlannedNamespace := {}
  /-- The symbols that are declared in a namespace, with its module and their names there. -/
  moved : Table SymbolId (SymbolId × String) := {}
  /-- The modules whose namespaces are declared in another one, with its module and their names
  there. -/
  nested : Table SymbolId (SymbolId × String) := {}

namespace Plan

/-- A symbol is exported as a declaration at the top level. -/
def isDirect (plan : Plan) (id : SymbolId) : Bool :=
  plan.exports_.any (·.outcome == .direct id)

/-- A symbol is declared in a namespace. -/
def isMoved (plan : Plan) (id : SymbolId) : Bool := plan.moved.contains id

/-- The namespaces at the top level, in the order in which they were planned. -/
def topNamespaces (plan : Plan) : List PlannedNamespace :=
  plan.namespaces.values.filter (·.parent.isNone)

/-- The symbols that are declared in the namespace for a module, in the order of its members. -/
def movedInto (plan : Plan) (module : SymbolId) : List SymbolId :=
  ((plan.namespaces.get? module).elim [] PlannedNamespace.members).filterMap fun
    | (_, .moved id) => some id
    | _ => none

end Plan

namespace Planning

variable (p : Project) (collection : Collection)

/-! ## Exports -/

/-- How an export is exposed. -/
def outcomeOf (e : ModuleExport) : ExportOutcome :=
  match p.target? e.symbol with
  | none => .skipped .unresolved
  | some .ambient => .skipped .ambient
  | some (.module_ id _) => .namespace_ id
  | some (.external i) => if i.isNamespace then .externalModule i.symbol else .external i.symbol
  | some (.declaration id) =>
    match p.topContainer? id with
    | some owner => if collection.isKept owner then .member id else .skipped .notWritten
    | none => if collection.isKept id then .direct id else .skipped .notWritten

/-! ## Namespaces -/

/-- The number of namespaces that are filled inside each other. -/
def maxNesting : Nat := 32

/-- Places a declaration that the namespace for a module exposes. -/
def placeDeclaration (plan : Plan) (module id : SymbolId) (name : String) :
    Plan × Option NamespaceMember :=
  match p.topContainer? id with
  | some owner => (plan, if collection.isKept owner then some (.qualified id) else none)
  | none =>
    if !collection.isKept id then (plan, none)
    else if plan.isMoved id then (plan, some (.qualified id))
    else if plan.isDirect id then (plan, some (.reexposed id))
    else ({ plan with moved := plan.moved.set id (module, name) }, some (.moved id))

/-- Places a module that the namespace for another module exposes: inside it, when it has no
namespace yet. -/
def placeModule (plan : Plan) (module inner : SymbolId) (name : String) : Plan × NamespaceMember :=
  if plan.namespaces.contains inner then (plan, .qualified inner)
  else
    ({ plan with
        namespaces := plan.namespaces.set inner ⟨inner, name, [], some module⟩
        nested := plan.nested.set inner (module, name) }, .nested inner)

/-- Places one export of a module in the namespace for it. -/
def placeExport (module : SymbolId) (plan : Plan) (e : ModuleExport) :
    Plan × Option NamespaceMember :=
  match p.target? e.symbol with
  | none | some .ambient => (plan, none)
  | some (.external i) => (plan, some (.reexposed i.symbol))
  | some (.declaration id) => placeDeclaration p collection plan module id e.name
  | some (.module_ inner _) =>
    let (plan, member) := placeModule plan module inner e.name
    (plan, some member)

/-- Places the exports of a module in turn, and lists the members. -/
def placeAll (module : SymbolId) : Plan → List ModuleExport → Plan × List (String × NamespaceMember)
  | plan, [] => (plan, [])
  | plan, e :: rest =>
    let (plan, member) := placeExport p collection module plan e
    let (plan, members) := placeAll module plan rest
    (plan, (member.map (e.name, ·)).toList ++ members)

/-- Sets the members of the namespace for a module. -/
def setMembers (plan : Plan) (module : SymbolId)
    (members : List (String × NamespaceMember)) : Plan :=
  match plan.namespaces.get? module with
  | some n => { plan with namespaces := plan.namespaces.set module { n with members } }
  | none => plan

/-- Fills the namespace for a module and those that are declared inside it, down to `depth`
levels. -/
def fill : (depth : Nat) → Plan → SymbolId → Plan
  | 0, plan, _ => plan
  | depth + 1, plan, module =>
    let named := (p.exportsOf module).filter fun e => !isUnnamedExport e.name
    let (plan, members) := placeAll p collection module plan named
    let inner := members.filterMap fun
      | (_, .nested id) => some id
      | _ => none
    inner.foldl (fill depth) (setMembers plan module members)

/-- Adds a namespace at the top level, unless its module has one. -/
def claim (state : Plan × List SymbolId) (wanted : SymbolId × String) : Plan × List SymbolId :=
  let (plan, claimed) := state
  let (module, name) := wanted
  if plan.namespaces.contains module then state
  else ({ plan with namespaces := plan.namespaces.set module ⟨module, name, [], none⟩ },
    claimed ++ [module])

/-- Adds namespaces at the top level for the modules that have none, and fills them. -/
def claimAll (plan : Plan) (wanted : List (SymbolId × String)) : Plan :=
  let (plan, claimed) := wanted.foldl claim (plan, [])
  claimed.foldl (fill p collection maxNesting) plan

/-- The name for the namespace of a module that is exported without one. -/
def nameForModule (module : SymbolId) : String :=
  match collection.namespaces.get? module with
  | some name => name
  | none => (p.symbol? module).elim "ns" fun s => nameOfPath s.name

/-- The modules that the entry exports as a whole, with names for their namespaces. -/
def exportedModules (exports_ : List PlannedExport) : List (SymbolId × String) :=
  exports_.filterMap fun e =>
    match e.outcome with
    | .namespace_ module =>
      some (module, if isUnnamedExport e.name then nameForModule p collection module else e.name)
    | _ => none

end Planning

/-- Plans the bundle of what was collected for the given exports. Namespaces that are exported come
before those that are only used. -/
def Project.plan (p : Project) (exports_ : List ModuleExport) (collection : Collection) : Plan :=
  let planned := exports_.map fun e => ⟨e.name, Planning.outcomeOf p collection e⟩
  let exposed := Planning.claimAll p collection { exports_ := planned }
    (Planning.exportedModules p collection planned)
  Planning.claimAll p collection exposed collection.namespaces.entries

end DeclBundle
