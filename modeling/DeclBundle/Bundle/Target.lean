import DeclBundle.Print.Overload
import DeclBundle.Project.DeclaredType
import DeclBundle.Project.Origin

/-!
# What symbols stand for in a bundle

Aliases never become part of a bundle: they are followed one by one to what they stand for. The
first alias on the way that leads into a package decides how the bundle imports it.
-/

set_option autoImplicit false

namespace DeclBundle

/-! ## Names from paths -/

/-- A name that is made of a path or of a specifier: its last segment up to the first dot, or the
segment before it when that is `index`, with an underscore for everything that cannot be part of a
name. -/
def nameOfPath (path : String) : String :=
  let segments := ((Text.splitAt '/' (Text.unquoted path).toList).filter (! ·.isEmpty)).reverse
  let stem := (segments.head?.getD "ns".toList).takeWhile (· != '.')
  let stem := if stem == "index".toList then (segments[1]?).getD stem else stem
  let name := stem.map fun c => if c.isAlphanum || c == '_' || c == '$' then c else '_'
  match name with
  | [] => "_"
  | c :: _ => String.ofList (if c.isDigit then '_' :: name else name)

/-! ## Targets -/

/-- A declaration or a module of a package that a bundle imports. -/
structure ExternalImport where
  symbol : SymbolId
  specifier : String
  /-- The name under which it is exported; a whole module has none. -/
  importedName : Option String
  /-- The name of the first alias on the way. -/
  localName : Option String
  deriving DecidableEq, Repr

namespace ExternalImport

/-- A whole module is imported. -/
def isNamespace (i : ExternalImport) : Bool := i.importedName.isNone

/-- The default export is imported. -/
def isDefault (i : ExternalImport) : Bool := i.importedName == some "default"

/-- The name that the import should have in the bundle. -/
def suggestedName (i : ExternalImport) : String :=
  match i.importedName.filter (· != "default") with
  | some name => name
  | none => i.localName.getD (nameOfPath i.specifier)

end ExternalImport

/-- What a symbol stands for. -/
inductive Target where
  /-- A declaration of the project. -/
  | declaration (symbol : SymbolId)
  /-- A whole module of the project. -/
  | module_ (symbol : SymbolId) (localName : Option String)
  | external (imported : ExternalImport)
  /-- A global name; it stays as it is written. -/
  | ambient
  deriving DecidableEq, Repr

/-- How something is imported, when that is known before its aliases are followed. -/
structure ImportHint where
  specifier : String
  importedName : Option String
  deriving DecidableEq, Repr

namespace Project

variable (p : Project)

/-- How the step over an alias enters a package, when it does. A path into a package is replaced by
the specifier of the module there. -/
def enteringHint? (id : SymbolId) : Option ImportHint := do
  let module ← p.aliasModule? id
  guard (p.originOf module = .external)
  let (specifier, importedName) ← match ← (← p.symbol? id).aliasOf with
    | .export_ specifier exportName => some (specifier, some exportName)
    | .module_ specifier => some (specifier, none)
    | .name _ => none
  let specifier ← if isRelativeSpecifier specifier then (p.packageOf? module).map (·.specifier)
    else some specifier
  return ⟨specifier, importedName⟩

/-- What a symbol of a package stands for; without a package it is a global name. -/
def externalTarget (id : SymbolId) (ownName : Option String) (hint : Option ImportHint)
    (localName : Option String) :
    Target :=
  match hint.or ((p.packageOf? id).map fun entry => ⟨entry.specifier, ownName⟩) with
  | some hint => .external ⟨id, hint.specifier, hint.importedName, localName⟩
  | none => .ambient

/-- What a module stands for. -/
def moduleTarget (id : SymbolId) (hint : Option ImportHint) (localName : Option String) : Target :=
  match p.originOf id with
  | .own => .module_ id localName
  | .ambient => .ambient
  | .external => p.externalTarget id none hint localName

/-- What a declaration stands for. -/
def declarationTarget (s : Symbol) (hint : Option ImportHint)
    (localName : Option String) : Target :=
  match p.originOf s.id with
  | .own => .declaration s.id
  | .ambient => .ambient
  | .external => p.externalTarget s.id (some s.name) hint localName

/-- What a symbol stands for, over at most `hops` aliases. -/
def targetTo : (hops : Nat) → (visited : List SymbolId) → (hint : Option ImportHint) →
    (localName : Option String) →
    SymbolId → Option Target
  | 0, _, _, _, _ => none
  | hops + 1, visited, hint, localName, id => do
    let s ← p.symbol? id
    if s.isModule then some (p.moduleTarget id hint localName)
    else if !s.isAlias then some (p.declarationTarget s hint localName)
    else if visited.contains id then none
    else
      targetTo hops (id :: visited) (hint.or (p.enteringHint? id)) (localName.or (some s.name))
        (← p.aliasTarget? id)

/-- What a symbol stands for, when it may be known how it is imported. -/
def targetWith? (id : SymbolId) (hint : Option ImportHint) : Option Target :=
  p.targetTo maxAliasHops [] hint none id

/-- What a symbol stands for. There is nothing when an alias on the way stands for nothing. -/
def target? (id : SymbolId) : Option Target := p.targetWith? id none

/-! ## Declarations that are written -/

/-- A declaration is written into the bundle: it is no implementation beside overloads, and no value
whose type is unknown. -/
def isWritten (ref : NodeRef) : Bool :=
  match p.arena? ref.file with
  | none => false
  | some a =>
    match a.form? ref.node with
    | some (.exportAssignment ..) => p.typeOf ref != .unknown
    | some (.functionDeclaration ..) =>
      let siblings := match a.form? (a.parent ref.node) with
        | some (.sourceFile statements _) | some (.moduleBlock statements) => statements
        | _ => []
      !Print.isOverloadBody a siblings ref.node
    | some (.variableDeclaration ..) | some (.bindingElement ..) => true
    | some form => form.isDeclaration
    | none => false

/-- The declarations of a symbol that are written into the bundle. -/
def writtenDeclarations (id : SymbolId) : List NodeRef := (p.declarationsOf id).filter p.isWritten

end Project

end DeclBundle
