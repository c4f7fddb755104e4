import DeclBundle.Bundle.NameTable
import DeclBundle.Bundle.Plan

/-!
# Final names

Every declaration at the top level of a bundle, every namespace and every import gets a name of its
own. Everything else is reached by a dotted name through the namespace that it is in.
-/

set_option autoImplicit false

namespace DeclBundle

/-- The name that a declaration should have in the bundle. Exports without a name get one. -/
def preferredName (name : String) : String :=
  match name with
  | "default" => "__default"
  | "export=" => "__export"
  | _ => name

/-- The final names of a bundle. -/
structure Naming where
  table : NameTable := {}
  /-- The symbols that are declared in a namespace, with its module and their names there. -/
  moved : Table SymbolId (SymbolId × String) := {}
  /-- The modules whose namespaces are declared in another one, with its module and their names
  there. -/
  nested : Table SymbolId (SymbolId × String) := {}

namespace Naming

/-- The text that names a symbol, through fewer than `depth` namespaces. -/
def textTo (p : Project) (n : Naming) : (depth : Nat) → SymbolId → Option String
  | 0, _ => none
  | depth + 1, id =>
    match n.table.nameOf? id with
    | some name => some name
    | none =>
      match (n.moved.get? id).or (n.nested.get? id) with
      | some (module, name) => (textTo p n depth module).map (· ++ "." ++ name)
      | none => do
        let s ← p.symbol? id
        let parent ← p.symbol? (← s.parent)
        if parent.isModule then none else (textTo p n depth parent.id).map (· ++ "." ++ s.name)

/-- The text that names a symbol in the bundle: a name at the top level, or a dotted name through
namespaces. -/
def textOf? (n : Naming) (p : Project) (id : SymbolId) : Option String :=
  n.textTo p (Planning.maxNesting + 1) id

/-- The name of a symbol at the top level. -/
def nameOf? (n : Naming) (id : SymbolId) : Option String := n.table.nameOf? id

/-- The names that may not be used at the top level: those that stand for something outside the
bundle, and those that are declared inside its namespaces. -/
def reservedNames (collection : Collection) (plan : Plan) : List String :=
  collection.reserved ++ plan.namespaces.values.flatMap fun n =>
    n.members.filterMap fun
      | (_, .reexposed _) => none
      | (name, _) => some name

/-- The symbols that get names at the top level, with the names that they should have, in the order
in which they choose: declarations, namespaces, and imports by specifier. -/
def namedSymbols (p : Project) (collection : Collection) (plan : Plan) : List (SymbolId × String) :=
  let declarations := collection.kept.filterMap fun id =>
    if plan.isMoved id then none else (p.symbol? id).map fun s => (id, preferredName s.name)
  let namespaces := plan.topNamespaces.map fun n => (n.module, n.suggestedName)
  let imports :=
    (collection.externals.values.mergeSort fun a b => a.specifier ≤ b.specifier).map fun i =>
    (i.symbol, i.suggestedName)
  declarations ++ namespaces ++ imports

/-- Gives every symbol its final name. -/
def ofPlan (p : Project) (collection : Collection) (plan : Plan) : Naming :=
  let reserved := (reservedNames collection plan).foldl NameTable.reserve {}
  let table := (namedSymbols p collection plan).foldl
    (fun t (id, preferred) => (t.assign id preferred).1) reserved
  ⟨table, plan.moved, plan.nested⟩

end Naming

end DeclBundle
