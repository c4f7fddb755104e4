import DeclBundle.Project.Basic

/-!
# Exports, aliases and members

What a module exports, which symbol an alias stands for, and which symbol a dotted name means. A
module exports what it declares itself and then what the modules export that it exports as a whole;
nothing found earlier is replaced, and a default export is never passed on.
-/

set_option autoImplicit false

namespace DeclBundle

/-- One export of a module. -/
structure ModuleExport where
  name : String
  symbol : SymbolId
  deriving DecidableEq, Repr

/-- The names of exports that are not passed on. -/
def isUnnamedExport (name : String) : Bool := name == "default" || name == "export="

namespace Project

variable (p : Project)

/-! ## Modules -/

/-- The module that a specifier in a file means. -/
def moduleOf? (file : FileId) (specifier : String) : Option SymbolId := do
  let file ← p.file? file
  let (_, target) ← file.modules.find? (·.1 == specifier)
  match target with
  | .file id => (← p.file? id).symbol
  | .ambient symbol => symbol

/-- The modules that a module exports as a whole. -/
def starTargets (module : SymbolId) : List SymbolId :=
  match p.symbol? module with
  | none => []
  | some symbol =>
    ((p.tables.exportStars[module]?).getD []).filterMap (p.moduleOf? symbol.file)

/-- The limit for walks over modules that visit no module twice. -/
def walkDepth : Nat := p.tables.symbols.size + 1

/-- Exports found so far, and the modules that were visited. -/
structure ExportWalk where
  found : List ModuleExport := []
  visited : List SymbolId := []

/-- Adds the exports of one table. -/
def ExportWalk.addTable (w : ExportWalk) (isRoot : Bool) (table : SymbolTable) : ExportWalk :=
  table.entries.foldl
    (fun w (name, symbol) =>
      if (!isRoot && isUnnamedExport name) || w.found.any (·.name == name) then w
      else { w with found := w.found ++ [⟨name, symbol⟩] })
    w

/-- Collects the exports of a module, down to `depth` modules. -/
def collectExports : (depth : Nat) → (isRoot : Bool) → SymbolId → ExportWalk → ExportWalk
  | 0, _, _, w => w
  | depth + 1, isRoot, module, w =>
    if w.visited.contains module then w
    else
      let w := { w with visited := module :: w.visited }
      match p.symbol? module with
      | none => w
      | some symbol =>
        (p.starTargets module).foldl (fun w target => collectExports depth false target w)
          (w.addTable isRoot symbol.exports_)

/-- The exports of a module: its own in the order of their declarations, then those that it passes
on. -/
def exportsOf (module : SymbolId) : List ModuleExport :=
  (p.collectExports p.walkDepth true module {}).found

/-- Searches the modules in turn until the export is found; `search` takes the visited modules
along. -/
def firstExport (search : SymbolId → List SymbolId → Option SymbolId × List SymbolId) :
    List SymbolId → List SymbolId → Option SymbolId × List SymbolId
  | [], visited => (none, visited)
  | target :: rest, visited =>
    match search target visited with
    | (some found, visited) => (some found, visited)
    | (none, visited) => firstExport search rest visited

/-- Searches an export of a module, down to `depth` modules. -/
def searchExport (name : String) : (depth : Nat) → SymbolId → List SymbolId →
    Option SymbolId × List SymbolId
  | 0, _, visited => (none, visited)
  | depth + 1, module, visited =>
    if visited.contains module then (none, visited)
    else
      let visited := module :: visited
      match p.symbol? module with
      | none => (none, visited)
      | some symbol =>
        match symbol.exports_.get? name with
        | some found => (some found, visited)
        | none =>
          if isUnnamedExport name then (none, visited)
          else firstExport (searchExport name depth) (p.starTargets module) visited

/-- The export of a module with a name. -/
def exportNamed? (module : SymbolId) (name : String) : Option SymbolId :=
  (p.searchExport name p.walkDepth module []).1

/-! ## Dotted names -/

/-- The identifiers of a dotted name, the last one first, down to `depth` levels. -/
def reversedPartsTo (a : Arena) : (depth : Nat) → Slot → List Slot
  | 0, _ => []
  | depth + 1, entity =>
    match a.form? entity with
    | some (.identifier _) => [entity]
    | some (.qualifiedName left right) | some (.propertyAccess left right) =>
      right :: reversedPartsTo a depth left
    | _ => []

/-- The identifiers of a dotted name, the first one first. -/
def entityParts (a : Arena) (entity : Slot) : List Slot :=
  (reversedPartsTo a (a.size + 1) entity).reverse

/-! ## Aliases

The target of an alias can depend on the targets of others, through the members of namespaces that
are aliases themselves. The search for a target that depends on itself goes on forever. It finds no
target, and neither does the search for what a name means that means nothing. -/

/-- The number of aliases that are followed one after the other. -/
def maxAliasHops : Nat := 64

/-- Follows aliases to a symbol that is none, over at most `hops` of them; `target` follows one. -/
def followAliases (target : SymbolId → Option SymbolId) : (hops : Nat) → List SymbolId → SymbolId →
    Option SymbolId
  | 0, _, _ => none
  | hops + 1, visited, id =>
    match p.symbol? id with
    | none => none
    | some symbol =>
      if !symbol.isAlias then some id
      else if visited.contains id then none
      else (target id).bind (followAliases target hops (id :: visited))

/-- The exported member of a module, a namespace or an enum, or of what an alias for one stands
for. -/
def memberBy (target : SymbolId → Option SymbolId) (container : SymbolId) (name : String) :
    Option SymbolId := do
  let container ← p.followAliases target maxAliasHops [] container
  let symbol ← p.symbol? container
  if symbol.isModule then p.exportNamed? container name else symbol.exports_.get? name

/-- The member that is reached over several names. -/
def memberPath (target : SymbolId → Option SymbolId) (a : Arena) (start : SymbolId)
    (parts : List Slot) :
    Option SymbolId :=
  parts.foldlM (fun container part => (a.nameText? part).bind (p.memberBy target container)) start

/-- The symbol that a dotted name means. -/
def entityBy (target : SymbolId → Option SymbolId) (entity : NodeRef) : Option SymbolId := do
  let file ← p.file? entity.file
  match entityParts file.arena entity.node with
  | [] => none
  | first :: rest => p.memberPath target file.arena (← file.resolved[← first]?) rest

/-- The symbol that an alias stands for, when it is found through fewer than `depth` aliases that
depend on each other. -/
def aliasTargetTo : (depth : Nat) → SymbolId → Option SymbolId
  | 0, _ => none
  | depth + 1, id => do
    let symbol ← p.symbol? id
    match ← symbol.aliasOf with
    | .name entity => p.entityBy (aliasTargetTo depth) entity
    | .export_ specifier exportName =>
      let module ← p.moduleOf? symbol.file specifier
      match p.exportNamed? module exportName with
      | some found => some found
      | none => if exportName == "default" then p.exportNamed? module "export=" else none
    | .module_ specifier =>
      let module ← p.moduleOf? symbol.file specifier
      some ((p.exportNamed? module "export=").getD module)

/-- The symbol that an alias stands for, which may be an alias again. A search that goes on forever
goes through more aliases than there are symbols, and finds none. -/
def aliasTarget? (id : SymbolId) : Option SymbolId := p.aliasTargetTo p.walkDepth id

/-- The symbol that is no alias and that a symbol stands for. -/
def resolveAlias? (id : SymbolId) : Option SymbolId :=
  p.followAliases p.aliasTarget? maxAliasHops [] id

/-- The module into which an alias points. -/
def aliasModule? (id : SymbolId) : Option SymbolId := do
  let symbol ← p.symbol? id
  match ← symbol.aliasOf with
  | .export_ specifier _ | .module_ specifier => p.moduleOf? symbol.file specifier
  | .name _ => none

/-- The exported member of a module, a namespace or an enum, or of what an alias for one stands
for. -/
def member? (container : SymbolId) (name : String) : Option SymbolId :=
  p.memberBy p.aliasTarget? container name

/-- The symbol that a dotted name means. -/
def entity? (entity : NodeRef) : Option SymbolId := p.entityBy p.aliasTarget? entity

/-- The symbol that an import type means. -/
def importType? (ref : NodeRef) : Option SymbolId := do
  let a ← p.arena? ref.file
  match a.form? ref.node with
  | some (.importType _ argument qualifier _) =>
    let module ← p.moduleOf? ref.file (← a.nameText? argument)
    p.memberPath p.aliasTarget? a module (entityParts a qualifier)
  | _ => none

end Project

end DeclBundle
