import DeclBundle.Proofs.ImportedNames
import DeclBundle.Proofs.LeastClosed
import DeclBundle.Proofs.Standing
import DeclBundle.Proofs.TopLevel

/-!
# Texts are paths

The text that names a symbol in a bundle is found by going up from one namespace to the next, and
the tree is built by going down. Both agree: the text is made of the names of the namespaces around
the declaration, the outermost one first, and of the name that is written at the declaration itself,
at the import, or at the namespace (`Bundle.textsArePaths`). Going up ends in time, since a
namespace with members is less than `Planning.maxNesting` levels deep.

On the way up no symbol may have a name at the top level before the top level is reached. So
modules, moved declarations and imports must be different symbols: the first two belong to the
project, and only the first ones are modules (`Target.HasOrigin`, `Target.IsSorted`).
-/

set_option autoImplicit false

namespace DeclBundle

open Relation (ReflTransGen)

/-! ## Origins -/

/-- Declarations and modules belong to the project, imports to packages. -/
def Target.HasOrigin (p : Project) : Target → Prop
  | .declaration id => p.originOf id = .own
  | .module_ id _ => p.originOf id = .own
  | .external i => p.originOf i.symbol = .external
  | .ambient => True

section Origins

variable {p : Project}

theorem hasOrigin_externalTarget {id : SymbolId} (h : p.originOf id = .external)
    (name : Option String) (hint : Option ImportHint) (localName : Option String) :
    (p.externalTarget id name hint localName).HasOrigin p := by
  unfold Project.externalTarget
  split
  · exact h
  · trivial

/-- What symbols stand for has its origin. -/
theorem hasOrigin_of_targetWith? {id : SymbolId} {hint : Option ImportHint} {target : Target}
    (h : p.targetWith? id hint = some target) : target.HasOrigin p := by
  obtain ⟨id, s, hint, localName, hs, ⟨-, rfl⟩ | ⟨-, rfl⟩⟩ := exists_of_targetTo h
  · unfold Project.moduleTarget
    split
    · next horigin => exact horigin
    · trivial
    · next horigin => exact hasOrigin_externalTarget horigin _ _ _
  · unfold Project.declarationTarget
    split
    · next horigin => exact horigin
    · trivial
    · next horigin => exact hasOrigin_externalTarget horigin _ _ _

end Origins

/-! ## What collections and plans are about -/

namespace Collecting

/-- An import is found under its symbol. -/
theorem symbol_of_mem_externals {p : Project} {exports_ : List ModuleExport}
    {entry : SymbolId × ExternalImport} (h : entry ∈ (p.collect exports_).externals.entries) :
    entry.2.symbol = entry.1 := by
  have hkeeps : Keeps p fun c => ∀ entry ∈ c.found.externals.entries, entry.2.symbol = entry.1 := by
    constructor
    case toKeepsNotes =>
      constructor
      case reserve =>
        intro file identifier c hc
        rwa [(Notes.reserve file identifier c).externals]
      case addReference => exact fun _ _ _ hc _ => hc
      case pass => exact fun _ hc => hc
    case addExternal =>
      intro i c hc
      unfold Collecting.addExternal
      split
      · exact hc
      · intro entry hentry
        rcases Table.mem_entries_set hentry with rfl | hentry
        · rfl
        · exact hc entry hentry
    case skip => exact fun _ _ hc _ _ => hc
    case keep => exact fun _ _ hc _ _ => hc
    case enter => exact fun _ _ _ hc _ => hc
  obtain ⟨c, hc, hfound⟩ := hkeeps.collect (fun _ hentry => by cases hentry) exports_
  rw [← hfound] at h
  exact hc entry h

end Collecting

namespace Planning

variable {p : Project} {collection : Collection} {plan plan' : Plan}

/-- A module is one that something stands for, or one that was collected. -/
def IsModule (p : Project) (collection : Collection) (module : SymbolId) : Prop :=
  (∃ id localName, p.target? id = some (.module_ module localName)) ∨
    collection.namespaces.contains module = true

/-- What is moved is something that a symbol stands for, and namespaces are planned for modules. -/
structure IsSound (p : Project) (collection : Collection) (plan : Plan) : Prop where
  moved : ∀ id, plan.isMoved id = true →
    p.topContainer? id = none ∧ ∃ named, p.target? named = some (.declaration id)
  namespaces : ∀ module, plan.namespaces.contains module = true → IsModule p collection module

/-- Every step keeps a plan sound, when modules are exported as namespaces. -/
theorem Step.isSound (h : Step p collection plan plan')
    (hexports : ∀ e ∈ plan.exports_, ∀ module, e.outcome = .namespace_ module →
      IsModule p collection module)
    (hplan : IsSound p collection plan) : IsSound p collection plan' := by
  -- only `claim` and `nest` add a namespace, and only `move` moves a symbol
  cases h with
  | claim module name hwanted hnew =>
    refine ⟨hplan.moved, fun other hother => ?_⟩
    rcases Table.contains_set.1
      (show (plan.namespaces.set module _).contains other = true from hother) with rfl | hold
    · rcases hwanted with ⟨e, he, houtcome⟩ | hcollected
      · exact hexports e he module houtcome
      · exact .inr hcollected
    · exact hplan.namespaces other hold
  | begin_ module hmodule hmembers =>
    refine ⟨fun id hid => hplan.moved id ?_, fun other hother => hplan.namespaces other ?_⟩
    · rwa [Plan.isMoved, moved_setMembers] at hid
    · rwa [contains_setMembers] at hother
  | refer module name member hopen hmember =>
    refine ⟨fun id hid => hplan.moved id ?_, fun other hother => hplan.namespaces other ?_⟩
    · rwa [Plan.isMoved, addMember, moved_setMembers] at hid
    · rwa [addMember, contains_setMembers] at hother
  | move module id name hopen hmeant htop _ _ _ =>
    refine ⟨fun other hother => ?_, fun other hother => hplan.namespaces other ?_⟩
    · rw [Plan.isMoved, addMember, moved_setMembers] at hother
      rcases Table.contains_set.1
        (show (plan.moved.set id _).contains other = true from hother) with rfl | hold
      · exact ⟨htop, hmeant⟩
      · exact hplan.moved other hold
    · rwa [addMember, contains_setMembers] at hother
  | nest module inner name hopen hinner hnew =>
    refine ⟨fun id hid => hplan.moved id ?_, fun other hother => ?_⟩
    · rwa [Plan.isMoved, addMember, moved_setMembers] at hid
    · rw [addMember, contains_setMembers] at hother
      rcases Table.contains_set.1
        (show (plan.namespaces.set inner _).contains other = true from hother) with rfl | hold
      · obtain ⟨localName, e, -, -, htarget⟩ := hinner
        exact .inl ⟨e.symbol, localName, htarget⟩
      · exact hplan.namespaces other hold

/-- Every plan is sound. -/
theorem isSound_plan (p : Project) (collection : Collection) (exports_ : List ModuleExport) :
    IsSound p collection (p.plan exports_ collection) := by
  have hstart : ∀ e ∈ exports_.map fun e =>
    (⟨e.name, outcomeOf p collection e⟩ : PlannedExport), ∀ module,
      e.outcome = .namespace_ module → IsModule p collection module := by
    intro planned hplanned module houtcome
    obtain ⟨e, -, rfl⟩ := List.mem_map.1 hplanned
    cases (houtcome ▸ hasOutcome_outcomeOf p collection e : HasOutcome p collection e
      (.namespace_ module)) with
    | namespace_ _ localName htarget => exact .inl ⟨e.symbol, localName, htarget⟩
  have hsteps : ∀ plan plan', Steps p collection plan plan' →
      (∀ e ∈ plan.exports_, ∀ module, e.outcome = .namespace_ module →
        IsModule p collection module) →
      IsSound p collection plan → IsSound p collection plan' := by
    intro plan plan' h hexports hplan
    induction h with
    | refl => exact hplan
    | tail hsteps hstep ih => exact hstep.isSound (exports_eq_of_steps hsteps ▸ hexports) ih
  exact hsteps _ _ (steps_plan p collection exports_) hstart
    ⟨fun _ h => (by cases h), fun _ h => (by cases h)⟩

end Planning

/-- Modules, moved declarations and imports are different symbols. -/
structure Plan.Separates (p : Project) (collection : Collection) (plan : Plan) : Prop where
  kept : ∀ id ∈ collection.kept, p.isModuleSymbol id = false
  externals : ∀ i ∈ collection.externals.values, p.originOf i.symbol = .external
  namespaces : ∀ module, plan.namespaces.contains module = true →
    p.isModuleSymbol module = true ∧ p.originOf module = .own
  moved : ∀ id, plan.isMoved id = true → p.isModuleSymbol id = false ∧ p.originOf id = .own

/-- The plan of a loaded project separates them. -/
theorem Planning.separates_plan {p : Project}
    (hnumbered : ∀ id s, p.symbol? id = some s → s.id = id) (exports_ : List ModuleExport) :
    (p.plan exports_ (p.collect exports_)).Separates p (p.collect exports_) := by
  obtain ⟨c, hfound, hbooked, -, -⟩ := Collecting.exists_collected exports_ hnumbered
  have hneeded : (p.collect exports_).IsNeeded p exports_ := hfound ▸ hbooked.needed
  have hsound := Planning.isSound_plan p (p.collect exports_) exports_
  constructor
  · intro owner howner
    obtain ⟨id, hneeds, rfl⟩ := hneeded.kept owner howner
    exact isSorted_of_needs hnumbered hneeds
  · intro i hi
    obtain ⟨entry, hentry, rfl⟩ := List.mem_map.1 hi
    obtain ⟨i', hneeds, hsymbol⟩ := hneeded.externals entry.1 (Table.contains_of_mem hentry)
    obtain ⟨named, hint, hmeant⟩ := exists_of_needs hneeds
    rw [Collecting.symbol_of_mem_externals hentry, ← hsymbol]
    exact hasOrigin_of_targetWith? hmeant
  · intro module hmodule
    -- a namespace of the plan is meant by an export of the entry or was collected, and in both
    -- cases by a name
    have hmeant : ∃ named hint localName,
        p.targetWith? named hint = some (.module_ module localName) := by
      rcases hsound.namespaces module hmodule with ⟨named, localName, hmeant⟩ | hcollected
      · exact ⟨named, none, localName, hmeant⟩
      · obtain ⟨localName, hneeds⟩ := hneeded.namespaces module hcollected
        obtain ⟨named, hint, hmeant⟩ := exists_of_needs hneeds
        exact ⟨named, hint, localName, hmeant⟩
    obtain ⟨named, hint, localName, hmeant⟩ := hmeant
    exact ⟨isSorted_of_targetWith? hnumbered hmeant, hasOrigin_of_targetWith? hmeant⟩
  · intro id hid
    obtain ⟨htop, named, hmeant⟩ := hsound.moved id hid
    have hsorted : p.isModuleSymbol ((p.topContainer? id).getD id) = false :=
      isSorted_of_targetWith? hnumbered hmeant
    rw [htop] at hsorted
    exact ⟨hsorted, hasOrigin_of_targetWith? hmeant⟩

/-! ## Texts -/

namespace Naming

variable {p : Project} {collection : Collection} {plan : Plan}

/-- The text of names with dots between them. -/
def dotted (names : List String) : String := ".".intercalate names

theorem dotted_concat {names : List String} (h : names ≠ []) (name : String) :
    dotted (names ++ [name]) = dotted names ++ "." ++ name := by
  rw [dotted, String.intercalate_append_of_ne_nil h (List.cons_ne_nil _ _),
    String.intercalate_singleton]
  rfl

/-- What asks for a name at the top level is a declaration that is not moved, a namespace there, or
an import. -/
theorem cases_of_mem_namedSymbols {id : SymbolId} {preferred : String}
    (h : (id, preferred) ∈ namedSymbols p collection plan) :
    id ∈ collection.kept ∧ plan.isMoved id = false ∨ (∃ n ∈ plan.topNamespaces, n.module = id) ∨
      ∃ i ∈ collection.externals.values, i.symbol = id := by
  rcases List.mem_append.1 h with h | h
  · rcases List.mem_append.1 h with h | h
    · obtain ⟨other, hkept, hother⟩ := List.mem_filterMap.1 h
      split at hother
      · cases hother
      · next hmoved =>
        obtain ⟨s, -, heq⟩ := Option.map_eq_some_iff.1 hother
        obtain rfl : other = id := congrArg Prod.fst heq
        exact .inl ⟨hkept, by simpa using hmoved⟩
    · obtain ⟨n, hn, heq⟩ := List.mem_map.1 h
      exact .inr (.inl ⟨n, hn, congrArg Prod.fst heq⟩)
  · obtain ⟨i, hi, heq⟩ := List.mem_map.1 h
    exact .inr (.inr ⟨i, (List.mergeSort_perm _ _).mem_iff.1 hi, congrArg Prod.fst heq⟩)

/-- Declarations that are moved have no name at the top level. -/
theorem nameOf?_of_moved (hplan : plan.Separates p collection)
    (hmodules : ∀ n ∈ plan.topNamespaces, plan.namespaces.contains n.module = true) {id : SymbolId}
    (hmoved : plan.isMoved id = true) : (ofPlan p collection plan).nameOf? id = none := by
  cases hname : (ofPlan p collection plan).nameOf? id with
  | none => rfl
  | some name =>
    obtain ⟨preferred, hmem⟩ := mem_namedSymbols hname
    obtain ⟨hdeclared, hown⟩ := hplan.moved id hmoved
    rcases cases_of_mem_namedSymbols hmem with ⟨-, hfalse⟩ | ⟨n, hn, rfl⟩ | ⟨i, hi, rfl⟩
    · rw [hmoved] at hfalse
      cases hfalse
    · rw [(hplan.namespaces _ (hmodules n hn)).1] at hdeclared
      cases hdeclared
    · rw [hplan.externals i hi] at hown
      cases hown

/-- Neither have modules whose namespaces are declared in another one. -/
theorem nameOf?_of_nested (hplan : plan.Separates p collection)
    (htops : ∀ n ∈ plan.topNamespaces, plan.nested.get? n.module = none) {module : SymbolId}
    (hmodule : plan.namespaces.contains module = true) {place : SymbolId × String}
    (hnested : plan.nested.get? module = some place) :
    (ofPlan p collection plan).nameOf? module = none := by
  cases hname : (ofPlan p collection plan).nameOf? module with
  | none => rfl
  | some name =>
    obtain ⟨preferred, hmem⟩ := mem_namedSymbols hname
    obtain ⟨hismodule, hown⟩ := hplan.namespaces module hmodule
    rcases cases_of_mem_namedSymbols hmem with ⟨hkept, -⟩ | ⟨n, hn, rfl⟩ | ⟨i, hi, rfl⟩
    · rw [hplan.kept module hkept] at hismodule
      cases hismodule
    · rw [htops n hn] at hnested
      cases hnested
    · rw [hplan.externals i hi] at hown
      cases hown

/-- What is moved has the place that is planned for it. -/
theorem place_of_moved {id : SymbolId} {place : SymbolId × String}
    (hmoved : plan.moved.get? id = some place) :
    ((ofPlan p collection plan).moved.get? id).or ((ofPlan p collection plan).nested.get? id) =
      some place := by
  show (plan.moved.get? id).or (plan.nested.get? id) = some place
  rw [hmoved]
  rfl

/-- So has a namespace inside another one. -/
theorem place_of_nested (hplan : plan.Separates p collection) {module : SymbolId}
    (hmodule : plan.namespaces.contains module = true) {place : SymbolId × String}
    (hnested : plan.nested.get? module = some place) :
    ((ofPlan p collection plan).moved.get? module).or
      ((ofPlan p collection plan).nested.get? module) = some place := by
  have hunmoved : plan.moved.get? module = none := by
    cases hmoved : plan.moved.get? module with
    | none => rfl
    | some place =>
      have hdeclared := (hplan.moved module (Table.contains_of_get? hmoved)).1
      rw [(hplan.namespaces module hmodule).1] at hdeclared
      cases hdeclared
  show (plan.moved.get? module).or (plan.nested.get? module) = some place
  rw [hunmoved, hnested]
  rfl

/-- The text for a module leads through the namespaces around its own one. -/
theorem textTo_of_within (hplan : plan.Separates p collection)
    (htops : ∀ n ∈ plan.topNamespaces, plan.nested.get? n.module = none) {top module : SymbolId}
    {names : List String} (hwithin : plan.Within top names module) {topName : String}
    (htop : (ofPlan p collection plan).nameOf? top = some topName) {depth : Nat}
    (hdepth : names.length < depth) :
    (ofPlan p collection plan).textTo p depth module = some (dotted (topName :: names)) := by
  induction hwithin generalizing depth with
  | top hn hparent =>
    obtain ⟨depth, rfl⟩ := Nat.exists_eq_succ_of_ne_zero (Nat.ne_of_gt (Nat.zero_lt_of_lt hdepth))
    have hname : (ofPlan p collection plan).table.nameOf? _ = some topName := htop
    rw [textTo, hname]
    exact congrArg some String.intercalate_singleton.symm
  | @inside n module outer name names hn hparent hnested houter ih =>
    have hlength : (names ++ [name]).length = names.length + 1 := List.length_append
    obtain ⟨depth, rfl⟩ := Nat.exists_eq_succ_of_ne_zero (Nat.ne_of_gt (Nat.zero_lt_of_lt hdepth))
    have hcontains : plan.namespaces.contains module = true := Table.contains_of_get? hn
    have hnone : (ofPlan p collection plan).table.nameOf? module = none :=
      nameOf?_of_nested hplan htops hcontains hnested
    rw [textTo, hnone]
    dsimp only
    rw [place_of_nested hplan hcontains hnested]
    dsimp only
    rw [ih (by omega), Option.map_some, ← List.cons_append, dotted_concat (List.cons_ne_nil _ _)]

end Naming

namespace Bundle

variable {p : Project} {keepDocs : Bool} {exports_ : List ModuleExport}

section

variable {settled t : BundleTree} {root : NodeId}
  {imports exportStatements namespaces : List NodeId} (h : Build.IsFinished
    (ofExports p keepDocs exports_).collection (ofExports p keepDocs exports_).plan
    (ofExports p keepDocs exports_).naming settled root t imports exportStatements namespaces)
  (hplan : (ofExports p keepDocs exports_).plan.Separates p
    (ofExports p keepDocs exports_).collection)

include h hplan

/-- Every namespace stands where its text leads. -/
theorem exists_path_of_namespace {module : SymbolId}
    (hmodule : (ofExports p keepDocs exports_).plan.namespaces.contains module = true) :
    ∃ names name n body, (ofExports p keepDocs exports_).naming.textOf? p module =
        some (Naming.dotted (names ++ [name])) ∧ t.arena.StandsIn root names n ∧
          t.arena.IsNamespace n name body := by
  obtain ⟨top, topName, names, before, name, n, depth, hwithin, htop, hnames, hstands,
      ⟨body, hbody, -⟩, hlength, -⟩ :=
    exists_namespace h hmodule
  refine ⟨before, name, n, body, ?_, hstands, hbody⟩
  rw [← hnames]
  exact Naming.textTo_of_within hplan
    (fun n hn => (Planning.get?_of_mem_topNamespaces p _ exports_ hn).2) hwithin htop
    (Nat.lt_succ_of_le hlength)

/-- Every declaration that is moved stands where its text leads. -/
theorem exists_path_of_moved {id module : SymbolId} {name : String}
    (hmoved : (ofExports p keepDocs exports_).plan.moved.get? id = some (module, name)) :
    ∃ names, (ofExports p keepDocs exports_).naming.textOf? p id =
      some (Naming.dotted (names ++ [name])) ∧
      ∀ s ∈ settled.statementsOf id, t.arena.StandsIn root names s := by
  have hcoherent : (ofExports p keepDocs exports_).plan.Coherent :=
    Planning.coherent_plan p (p.collect exports_) exports_
  have hmember := (hcoherent.moved id module name).1 hmoved
  obtain ⟨top, topName, names, before, outerName, n, depth, hwithin, htop, hnames, hstands,
    ⟨body, hbody, hstatements, -⟩,
    -, hlength⟩ := exists_namespace h (Planning.contains_of_mem_membersOf hmember)
  refine ⟨before ++ [outerName], ?_,
    fun s hs => .inside hstands hbody (hstatements name id hmember s hs)⟩
  -- going up from the declaration takes one step more than going up from its namespace
  have houter := Naming.textTo_of_within hplan
    (fun n hn => (Planning.get?_of_mem_topNamespaces p _ exports_ hn).2) hwithin htop
    (hlength (List.ne_nil_of_mem hmember))
  have hnone : (ofExports p keepDocs exports_).naming.table.nameOf? id = none :=
    Naming.nameOf?_of_moved hplan (fun n hn => Planning.contains_of_mem_topNamespaces p _ hn)
      (Table.contains_of_get? hmoved)
  have hplace : ((ofExports p keepDocs exports_).naming.moved.get? id).or
      ((ofExports p keepDocs exports_).naming.nested.get? id) = some (module, name) :=
        Naming.place_of_moved hmoved
  rw [Naming.textOf?, Naming.textTo, hnone]
  dsimp only
  rw [hplace]
  dsimp only
  rw [← hnames, Naming.dotted_concat (List.cons_ne_nil _ _)]
  exact congrArg (Option.map (· ++ "." ++ name)) houter

end

/-- What has a name at the top level has it as its text. -/
theorem textOf?_of_nameOf? {naming : Naming} {id : SymbolId} {name : String}
    (h : naming.nameOf? id = some name) :
    naming.textOf? p id = some name := by
  rw [Naming.textOf?, Naming.textTo, show naming.table.nameOf? id = some name from h]

/-- The text for everything that is kept, imported or declared as a namespace is its path in the
tree of the bundle: the names of the namespaces that it stands in, the outermost one first, and the
name that is written at it. -/
structure TextsArePaths (b : Bundle) (p : Project) : Prop where
  /-- The name of a declaration is written at all of its statements. -/
  declarations : ∀ id ∈ b.collection.kept, ∃ names name,
    b.naming.textOf? p id = some (Naming.dotted (names ++ [name])) ∧
      ∀ s ∈ b.tree.statementsOf id, b.tree.arena.StandsIn b.root names s ∧
        ∀ text ∈ b.tree.arena.boundNames (some s), text = name
  /-- Imports stand at the top level. -/
  imports : ∀ i ∈ b.collection.externals.values, ∃ name, b.naming.textOf? p i.symbol = some name ∧
    ∃ s, b.tree.arena.StandsIn b.root [] s ∧ b.tree.arena.Imports s i.specifier i.importedName name
  namespaces : ∀ n ∈ b.plan.namespaces.values, ∃ names name s body,
    b.naming.textOf? p n.module = some (Naming.dotted (names ++ [name])) ∧
      b.tree.arena.StandsIn b.root names s ∧
      b.tree.arena.IsNamespace s name body

/-- In the bundle of a loaded project all texts are paths. -/
theorem textsArePaths {entry : String} {options : ProjectOptions} {host : Host}
    (hload : Project.load entry options host = .ok p) (keepDocs : Bool)
    (exports_ : List ModuleExport) :
    (ofExports p keepDocs exports_).TextsArePaths p := by
  have hnumbered : ∀ id s, p.symbol? id = some s → s.id = id := fun id s hs =>
    Project.id_of_load hload hs
  have hplan :
      (ofExports p keepDocs exports_).plan.Separates p (ofExports p keepDocs exports_).collection :=
    Planning.separates_plan hnumbered exports_
  obtain ⟨settled, imports, exportStatements, namespaces, -, h⟩ :=
    exists_isFinished p keepDocs exports_
  -- laying out copies no statement anew, so those of the settled tree are meant
  have hof : ∀ id, (ofExports p keepDocs exports_).tree.statementsOf id = settled.statementsOf id :=
    fun id => by
    rw [BundleTree.statementsOf, h.statements_eq]
    rfl
  refine ⟨fun id hid => ?_, fun i hi => ?_, fun n hn => ?_⟩
  · obtain ⟨_, _, _, hlaid⟩ := exists_laidOut_ofExports p keepDocs exports_
    cases hmoved : (ofExports p keepDocs exports_).plan.moved.get? id with
    | some place =>
      obtain ⟨module, name⟩ := place
      obtain ⟨names, htext, hstands⟩ := exists_path_of_moved h hplan hmoved
      exact ⟨names, name, htext,
        fun s hs => ⟨hstands s (hof id ▸ hs), hlaid.declarations id hid name
          (Build.declaredName?_of_moved hmoved) s hs⟩⟩
    | none =>
      have hunmoved : (ofExports p keepDocs exports_).plan.isMoved id = false :=
        Table.contains_eq_false_iff.2 hmoved
      obtain ⟨name, hname⟩ := exists_nameOf? hid hunmoved
      have hdeclared := (Build.declaredName?_of_unmoved hunmoved).trans hname
      refine ⟨[], name, ?_, fun s hs => ⟨.top ?_, hlaid.declarations id hid name hdeclared s hs⟩⟩
      · rw [textOf?_of_nameOf? hname]
        exact congrArg some String.intercalate_singleton.symm
      · rw [h.children_root]
        refine List.mem_append_left _ (List.mem_append_left _ (List.mem_append_right _ ?_))
        exact List.mem_flatMap.2 ⟨id, List.mem_filter.2 ⟨hid, by rw [hunmoved]; rfl⟩, hof id ▸ hs⟩
  · have hnamed :
      (i.symbol, i.suggestedName) ∈ Naming.namedSymbols p (ofExports p keepDocs exports_).collection
        (ofExports p keepDocs exports_).plan :=
      List.mem_append_right _ (List.mem_map.2 ⟨i, (List.mergeSort_perm _ _).mem_iff.2 hi, rfl⟩)
    obtain ⟨name, hname⟩ := Naming.nameOf?_ofPlan hnamed
    obtain ⟨s, hs, himports⟩ := h.imports _ (Build.adds_imports_each _ _) i hi name hname
    refine ⟨name, textOf?_of_nameOf? hname, s, .top ?_, himports⟩
    rw [h.children_root]
    exact List.mem_append_left _ (List.mem_append_left _ (List.mem_append_left _ hs))
  · obtain ⟨entry, hentry, rfl⟩ := List.mem_map.1 hn
    rw [Planning.module_of_mem_namespaces p _ hentry]
    exact exists_path_of_namespace h hplan (Table.contains_of_mem hentry)

/-- In the bundles of modules that export each other as namespaces, whatever is exported. -/
theorem textsArePaths_mutualModules : ∃ p, Project.ofFiles "/a.ts" mutualModules = .ok p ∧
    ∀ keepDocs exports_, (ofExports p keepDocs exports_).TextsArePaths p := by
  have h := movedStatements_mutualModules
  cases hp : Project.ofFiles "/a.ts" mutualModules with
  | error e => simp [hp, Except.toOption] at h
  | ok p => exact ⟨p, rfl, fun keepDocs exports_ => textsArePaths hp keepDocs exports_⟩

end Bundle

end DeclBundle
