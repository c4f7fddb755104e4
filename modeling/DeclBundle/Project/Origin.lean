import DeclBundle.Project.Member
import DeclBundle.Text.Quoted

/-!
# Where symbols come from

A symbol belongs to the project, to a package or to the global scope. Symbols of packages are
imported from there by the bundle, so each has a package entry.
-/

set_option autoImplicit false

namespace DeclBundle.Project

variable (p : Project)

/-- The number of containers that are walked outwards. -/
def maxContainers : Nat := maxAliasHops

/-- The outermost container of a symbol that is no module, over at most `hops` containers. -/
def outermostTo : (hops : Nat) → SymbolId → Option SymbolId
  | 0, id => some id
  | hops + 1, id => do
    match (← p.symbol? id).parent with
    | none => some id
    | some parent => if (← p.symbol? parent).isModule then some id else outermostTo hops parent

/-- The outermost namespace around a symbol, or none when the symbol stands at the top level
itself. -/
def topContainer? (id : SymbolId) : Option SymbolId :=
  (p.outermostTo (maxContainers + 1) id).filter (· != id)

/-- What the modules around a node say about its origin, up to `depth` levels. -/
def enclosingOrigin? (a : Arena) : (depth : Nat) → Slot → Option FileOrigin
  | 0, _ => none
  | depth + 1, node =>
    match a.form? node with
    | none => none
    | some (.moduleDeclaration _ flavor name _) =>
      if flavor = .global then some .ambient
      else
        match a.form? name with
        | some (.stringLiteral _) => some .external
        | _ => enclosingOrigin? a depth (a.parent node)
    | some _ => enclosingOrigin? a depth (a.parent node)

/-- Where a symbol comes from. -/
def originOf (id : SymbolId) : FileOrigin :=
  match p.symbol? id with
  | none => .ambient
  | some symbol =>
    if symbol.flags.contains .ambientModule then .external
    else
      match symbol.declarations with
      | [] => (p.file? symbol.file).elim .ambient SourceFile.origin
      | declaration :: _ =>
        match p.file? declaration.file with
        | none => .ambient
        | some file =>
          let a := file.arena
          (enclosingOrigin? a (a.size + 1) (a.parent declaration.node)).getD file.origin

/-- The name of the module with a quoted name that a symbol is or lives in, over at most `hops`
containers. -/
def ambientNameTo? : (hops : Nat) → SymbolId → Option String
  | 0, _ => none
  | hops + 1, id => do
    let symbol ← p.symbol? id
    if symbol.flags.contains .ambientModule then some (Text.unquoted symbol.name)
    else ambientNameTo? hops (← symbol.parent)

/-- The package entry from which a symbol is imported. -/
def packageOf? (id : SymbolId) : Option PackageEntry :=
  match p.ambientNameTo? (maxContainers + 1) id with
  | some name => some ((p.packages.get? name).getD (.ofSpecifier name))
  | none => do
    let declaration ← (p.declarationsOf id).head?
    let file ← p.file? declaration.file
    (p.packages.get? file.path).or (PackageEntry.ofPath? file.path)

end DeclBundle.Project
