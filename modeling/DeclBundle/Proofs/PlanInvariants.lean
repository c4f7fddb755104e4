import DeclBundle.Proofs.Paths
import Mathlib.Logic.Relation

/-!
# What holds of every plan

A plan never says two things about one symbol: what is exported at the top level is not moved, what
is moved has one place, and so has every namespace inside another one (`Planning.lawful_plan`). That
each member has one place is known from `Plan.Coherent`; here the plan is compared with the
collection it was made from. Both follow the same exports: whatever a module exposes that is used as
a whole was collected with it, so every namespace of a plan is one of the collection, and every
member that is exported by a name at the top level has such a name.
-/

set_option autoImplicit false

namespace DeclBundle

open Relation (ReflTransGen TransGen)

namespace Plan

/-- The namespace for a module is declared in the namespace for another one. -/
def InsideOf (plan : Plan) (module outer : SymbolId) : Prop :=
  ∃ n, plan.namespaces.get? module = some n ∧ n.parent = some outer

theorem InsideOf.unique {plan : Plan} {module outer outer' : SymbolId}
    (h : plan.InsideOf module outer) (h' : plan.InsideOf module outer') : outer = outer' := by
  obtain ⟨n, hn, hparent⟩ := h
  obtain ⟨n', hn', hparent'⟩ := h'
  obtain rfl := Option.some.inj (hn.symm.trans hn')
  exact Option.some.inj (hparent.symm.trans hparent')

/-- A namespace at the top level is inside no other. -/
theorem not_insideOf {plan : Plan} {module outer : SymbolId} {n : PlannedNamespace}
    (hn : plan.namespaces.get? module = some n) (hparent : n.parent = none) :
    ¬ plan.InsideOf module outer := by
  rintro ⟨n', hn', hparent'⟩
  obtain rfl := Option.some.inj (hn.symm.trans hn')
  rw [hparent] at hparent'
  cases hparent'

/-- From a namespace that is reached one goes up to the top level. -/
theorem Within.reflTransGen {plan : Plan} {top module : SymbolId} {names : List String}
    (h : plan.Within top names module) : ReflTransGen plan.InsideOf module top := by
  induction h with
  | top _ _ => exact .refl
  | inside hn hparent _ _ ih => exact .head ⟨_, hn, hparent⟩ ih

/-- Going up from a namespace that is reached ends. -/
theorem Within.acc {plan : Plan} {top module : SymbolId} {names : List String}
    (h : plan.Within top names module) :
    Acc (Function.swap plan.InsideOf) module := by
  induction h with
  | top hn hparent => exact .intro _ fun outer hinside => absurd hinside (not_insideOf hn hparent)
  | inside hn hparent _ _ ih =>
    refine .intro _ fun outer hinside => ?_
    obtain rfl := InsideOf.unique ⟨_, hn, hparent⟩ hinside
    exact ih

namespace Coherent

variable {plan : Plan} (h : plan.Coherent)

include h

/-- A namespace is inside another one when it is a member there, and then it is a member of that one
only, under one name. -/
theorem mem_nested_iff {module outer : SymbolId} (hinside : plan.InsideOf module outer) :
    ∃ name, ∀ other name', (name', .nested module) ∈ plan.membersOf other ↔
      other = outer ∧ name' = name := by
  obtain ⟨n, hn, hparent⟩ := hinside
  rw [h.parent_eq module n hn] at hparent
  obtain ⟨⟨_, name⟩, hname, rfl⟩ := Option.map_eq_some_iff.1 hparent
  refine ⟨name, fun other name' => ?_⟩
  rw [← h.nested, hname]
  constructor
  · intro heq
    cases heq
    exact ⟨rfl, rfl⟩
  · rintro ⟨rfl, rfl⟩
    rfl

/-- Namespaces are not inside each other in a circle. -/
theorem not_transGen (module : SymbolId) : ¬ TransGen plan.InsideOf module module := by
  have hwf : WellFounded (Function.swap plan.InsideOf) := by
    refine ⟨fun module => ?_⟩
    cases hmodule : plan.namespaces.contains module with
    | true =>
      obtain ⟨_, _, hwithin, -⟩ := h.within module hmodule
      exact hwithin.acc
    | false =>
      refine .intro _ fun outer hinside => ?_
      obtain ⟨n, hn, -⟩ := hinside
      rw [Table.contains, hn] at hmodule
      cases hmodule
  intro hcircle
  exact hwf.transGen.irrefl.irrefl module (Relation.transGen_swap.2 hcircle)

end Coherent

end Plan

namespace Planning

variable {p : Project} {collection : Collection} {plan plan' : Plan}

/-! ## Plans and collections -/

/-- What a plan is about was collected: the modules of its namespaces, what its members are that are
declared elsewhere, and what is moved, which is no export. -/
structure IsCovered (collection : Collection) (plan : Plan) : Prop where
  namespaces : ∀ module, plan.namespaces.contains module = true →
    collection.namespaces.contains module = true
  reexposed : ∀ module name id, (name, .reexposed id) ∈ plan.membersOf module →
    plan.isDirect id = true ∨ collection.externals.contains id = true
  moved : ∀ id, plan.isMoved id = true → collection.isKept id = true ∧ plan.isDirect id = false

section Steps

variable (hplan : IsCovered collection plan)

include hplan

/-- Adding a member keeps a plan covered, when the member is. -/
theorem isCovered_addMember {module : SymbolId} {name : String} {member : NamespaceMember}
    (hmodule : plan.namespaces.contains module = true)
    (hmember : ∀ id, member = .reexposed id → plan.isDirect id = true ∨
      collection.externals.contains id = true) :
    IsCovered collection (addMember plan module (name, member)) := by
  have hdirect : ∀ id, (addMember plan module (name, member)).isDirect id = plan.isDirect id :=
    fun id => by
    rw [Plan.isDirect, addMember, exports_setMembers, Plan.isDirect]
  constructor
  case namespaces =>
    intro other hother
    rw [addMember, contains_setMembers] at hother
    exact hplan.namespaces other hother
  case reexposed =>
    intro other name' id hid
    rw [membersOf_addMember hmodule] at hid
    rw [hdirect]
    split at hid
    · rcases List.mem_append.1 hid with hid | hid
      · exact hplan.reexposed module name' id hid
      · exact hmember id (congrArg Prod.snd (List.mem_singleton.1 hid)).symm
    · exact hplan.reexposed other name' id hid
  case moved =>
    intro id hid
    rw [Plan.isMoved, addMember, moved_setMembers] at hid
    rw [hdirect]
    exact hplan.moved id hid

theorem isCovered_move {module id : SymbolId} {name : String} (hkept : collection.isKept id = true)
    (hdirect : plan.isDirect id = false) : IsCovered collection (move plan id module name) where
  namespaces := hplan.namespaces
  reexposed := hplan.reexposed
  moved other hother := by
    rcases Table.contains_set.1
      (show (plan.moved.set id _).contains other = true from hother) with rfl | hold
    · exact ⟨hkept, hdirect⟩
    · exact hplan.moved other hold

/-- A new namespace keeps a plan covered, when its module was collected. -/
theorem isCovered_set {module : SymbolId} {n : PlannedNamespace}
    (hnew : plan.namespaces.contains module = false) (hmembers : n.members = [])
    (hcollected : collection.namespaces.contains module = true)
    {nested : Table SymbolId (SymbolId × String)} :
    IsCovered collection { plan with namespaces := plan.namespaces.set module n, nested } where
  namespaces other hother := by
    rcases Table.contains_set.1 hother with rfl | hold
    · exact hcollected
    · exact hplan.namespaces other hold
  reexposed other name id hid :=
    hplan.reexposed other name id (membersOf_set hnew hmembers rfl other ▸ hid)
  moved := hplan.moved

/-- Every step keeps a plan covered, when whatever collected modules expose was collected, and so
were the modules that are exported. -/
theorem Step.isCovered (h : Step p collection plan plan')
    (hexposed : ∀ module, collection.namespaces.contains module = true → ∀ target,
      Exposes p module target →
      collection.Has p target)
    (hexports : ∀ e ∈ plan.exports_, ∀ module, e.outcome = .namespace_ module →
      collection.namespaces.contains module = true) : IsCovered collection plan' := by
  cases h with
  | claim module name hwanted hnew =>
    refine isCovered_set hplan hnew rfl ?_
    rcases hwanted with ⟨e, he, houtcome⟩ | hcollected
    · exact hexports e he module houtcome
    · exact hcollected
  | begin_ module hmodule hmembers =>
    constructor
    case namespaces =>
      intro other hother
      rw [contains_setMembers] at hother
      exact hplan.namespaces other hother
    case reexposed =>
      intro other name id hid
      rw [membersOf_setMembers hmodule] at hid
      rw [Plan.isDirect, exports_setMembers]
      split at hid
      · cases hid
      · exact hplan.reexposed other name id hid
    case moved =>
      intro id hid
      rw [Plan.isMoved, moved_setMembers] at hid
      rw [Plan.isDirect, exports_setMembers]
      exact hplan.moved id hid
  | refer module name member hopen hmember =>
    refine isCovered_addMember hplan hopen.contains ?_
    rintro id rfl
    -- only members that are exposed again say something about declarations elsewhere
    rcases hmember with hdirect | ⟨i, rfl, hexposes⟩
    · exact .inl hdirect
    · exact .inr (hexposed module (hplan.namespaces module hopen.contains) (.external i) hexposes)
  | move module id name hopen hmeant htop hkept hmoved hdirect =>
    exact isCovered_addMember (isCovered_move hplan hkept hdirect) hopen.contains
      (fun _ h => by cases h)
  | nest module inner name hopen hinner hnew =>
    obtain ⟨localName, hexposes⟩ := hinner
    have hcollected : collection.namespaces.contains inner = true :=
      hexposed module (hplan.namespaces module hopen.contains) (.module_ inner localName) hexposes
    exact isCovered_addMember (isCovered_set hplan hnew rfl hcollected)
      ((grows_nest hnew module name).contains hopen.contains)
      (fun _ h => by cases h)

end Steps

/-- A declaration that is exported at the top level is kept. -/
theorem isKept_of_isDirect {exports_ : List ModuleExport} {id : SymbolId}
    (h : (p.plan exports_ collection).isDirect id = true) : collection.isKept id = true := by
  rw [Plan.isDirect, exports_plan, List.any_map, List.any_eq_true] at h
  obtain ⟨e, -, houtcome⟩ := h
  have houtcome : outcomeOf p collection e = .direct id := by simpa using houtcome
  cases (houtcome ▸ hasOutcome_outcomeOf p collection e : HasOutcome p collection e
    (.direct id)) with
  | direct _ _ _ hkept => exact hkept

/-- The plan of a loaded project is about what was collected. -/
theorem isCovered_plan (hnumbered : ∀ id s, p.symbol? id = some s → s.id = id)
    (exports_ : List ModuleExport) :
    IsCovered (p.collect exports_) (p.plan exports_ (p.collect exports_)) := by
  obtain ⟨c, hfound, hbooked, hcloses, hreached⟩ := Collecting.exists_collected exports_ hnumbered
  -- the walk has visited all exports of the modules that it found as namespaces
  have hexposed : ∀ module, (p.collect exports_).namespaces.contains module = true → ∀ target,
      Exposes p module target → (p.collect exports_).Has p target := by
    rw [← hfound]
    rintro module hmodule target ⟨e, he, hname, htarget⟩
    exact Collecting.has_of_reached hbooked (isSorted_of_targetWith? hnumbered htarget)
      (hcloses.exported module hmodule rfl e he hname target htarget)
  have hstart : ∀ e ∈ exports_.map fun e =>
    (⟨e.name, outcomeOf p (p.collect exports_) e⟩ : PlannedExport), ∀ module,
      e.outcome = .namespace_ module → (p.collect exports_).namespaces.contains module = true := by
    intro planned hplanned module houtcome
    obtain ⟨e, he, rfl⟩ := List.mem_map.1 hplanned
    cases (houtcome ▸ hasOutcome_outcomeOf p _ e : HasOutcome p (p.collect exports_) e
      (.namespace_ module)) with
    | namespace_ _ localName htarget =>
      have hhas : c.found.Has p (.module_ module localName) :=
        Collecting.has_of_reached hbooked (isSorted_of_targetWith? hnumbered htarget)
          (hreached e he _ htarget)
      rw [← hfound]
      exact hhas
  -- by induction on the steps, which leave the exports of the plan as they are
  have hsteps : ∀ plan plan', Steps p (p.collect exports_) plan plan' →
      (∀ e ∈ plan.exports_, ∀ module, e.outcome = .namespace_ module →
        (p.collect exports_).namespaces.contains module = true) →
      IsCovered (p.collect exports_) plan → IsCovered (p.collect exports_) plan' := by
    intro plan plan' h hexports hplan
    induction h with
    | refl => exact hplan
    | tail hsteps hstep ih =>
      exact hstep.isCovered ih hexposed (exports_eq_of_steps hsteps ▸ hexports)
  exact hsteps _ _ (steps_plan p _ exports_) hstart
    ⟨fun _ h => (by cases h), fun _ _ _ h => (by cases h), fun _ h => (by cases h)⟩

end Planning

/-! ## All of it -/

/-- What a plan for a collection says about symbols, namespaces and members fits together. -/
structure Plan.Lawful (p : Project) (collection : Collection) (plan : Plan) : Prop where
  /-- What is exported as a declaration at the top level is not moved. -/
  not_both : ∀ id, ¬ (plan.isDirect id = true ∧ plan.isMoved id = true)
  /-- What is moved is kept, and it is a member of the namespace that is recorded for it, and of no
  other. -/
  moved : ∀ id module name, plan.moved.get? id = some (module, name) → collection.isKept id = true ∧
    ∀ other name', (name', .moved id) ∈ plan.membersOf other ↔ other = module ∧ name' = name
  /-- Whatever is a member as something that is moved is recorded. -/
  recorded : ∀ id module name, (name, .moved id) ∈ plan.membersOf module →
    plan.moved.get? id = some (module, name)
  /-- A namespace inside another one is a member of that one, and of no other. -/
  nested : ∀ module outer, plan.InsideOf module outer →
    ∃ name, ∀ other name', (name', .nested module) ∈ plan.membersOf other ↔
      other = outer ∧ name' = name
  /-- Whatever is a member as a namespace is declared there. -/
  inside : ∀ module outer name, (name, .nested module) ∈ plan.membersOf outer →
    plan.InsideOf module outer
  /-- From every namespace one comes to one at the top level. -/
  reaches_top : ∀ module, plan.namespaces.contains module = true → ∃ top n,
    ReflTransGen plan.InsideOf module top ∧
    plan.namespaces.get? top = some n ∧ n.parent = none
  /-- No namespace is inside itself, over any number of others. -/
  no_circle : ∀ module, ¬ TransGen plan.InsideOf module module
  /-- What is exported by its name at the top level is kept there or imported from a package, and it
  has a name. -/
  reexposed : ∀ module name id, (name, .reexposed id) ∈ plan.membersOf module →
    (collection.isKept id = true ∧ plan.isMoved id = false ∨
      collection.externals.contains id = true) ∧
      ∃ final, (Naming.ofPlan p collection plan).nameOf? id = some final
  /-- The members of a namespace have different names. -/
  distinct : ∀ module, ((plan.membersOf module).map Prod.fst).Nodup

namespace Planning

/-- Every collected import has a name at the top level. -/
theorem exists_nameOf?_of_external {p : Project} (plan : Plan) {exports_ : List ModuleExport}
    {id : SymbolId} (h : (p.collect exports_).externals.contains id = true) :
    ∃ final, (Naming.ofPlan p (p.collect exports_) plan).nameOf? id = some final := by
  obtain ⟨i, hi⟩ := Option.isSome_iff_exists.1 h
  have hmem : (id, i) ∈ (p.collect exports_).externals.entries := Table.mem_of_get? hi
  obtain rfl : i.symbol = id := Collecting.symbol_of_mem_externals hmem
  have hvalue : i ∈ (p.collect exports_).externals.values := List.mem_map.2 ⟨_, hmem, rfl⟩
  refine Naming.nameOf?_ofPlan (List.mem_append_right _ (List.mem_map.2 ⟨i, ?_, rfl⟩))
  exact (List.mergeSort_perm _ _).mem_iff.2 hvalue

/-- Every plan of a loaded project is lawful, whatever is exported. -/
theorem lawful_plan {entry : String} {options : ProjectOptions} {host : Host} {p : Project}
    (hload : Project.load entry options host = .ok p) (exports_ : List ModuleExport) :
    (p.plan exports_ (p.collect exports_)).Lawful p (p.collect exports_) := by
  have hnumbered : ∀ id s, p.symbol? id = some s → s.id = id := fun id s hs =>
    Project.id_of_load hload hs
  have hcoherent := coherent_plan p (p.collect exports_) exports_
  have hcovered := isCovered_plan hnumbered exports_
  set plan := p.plan exports_ (p.collect exports_) with hplanEq
  -- what is direct stays where it is, and only what is not kept is moved
  have hnot : ∀ id, plan.isDirect id = true → plan.isMoved id = false := by
    intro id hdirect
    cases hmoved : plan.isMoved id with
    | false => rfl
    | true =>
      rw [(hcovered.moved id hmoved).2] at hdirect
      cases hdirect
  constructor
  case not_both =>
    rintro id ⟨hdirect, hmoved⟩
    rw [hnot id hdirect] at hmoved
    cases hmoved
  case moved =>
    intro id module name hplace
    refine ⟨(hcovered.moved id (Table.contains_of_get? hplace)).1,
      fun other name' => ?_⟩
    rw [← hcoherent.moved, hplace]
    constructor
    · intro heq
      cases heq
      exact ⟨rfl, rfl⟩
    · rintro ⟨rfl, rfl⟩
      rfl
  case recorded => exact fun id module name hmember => (hcoherent.moved id module name).2 hmember
  case nested => exact fun module outer hinside => hcoherent.mem_nested_iff hinside
  case inside =>
    intro module outer name hmember
    have hplace := (hcoherent.nested module outer name).2 hmember
    obtain ⟨n, hn⟩ := Option.isSome_iff_exists.1 (hcoherent.contains_nested module _ hplace)
    refine ⟨n, hn, ?_⟩
    rw [hcoherent.parent_eq module n hn, hplace]
    rfl
  case reaches_top =>
    intro module hmodule
    obtain ⟨top, names, hwithin, -⟩ := hcoherent.within module hmodule
    obtain ⟨n, hn, hparent⟩ := hwithin.exists_top
    exact ⟨top, n, hwithin.reflTransGen, hn, hparent⟩
  case no_circle => exact hcoherent.not_transGen
  case reexposed =>
    intro module name id hmember
    rcases hcovered.reexposed module name id hmember with hdirect | hexternal
    · have hkept : (p.collect exports_).isKept id = true := isKept_of_isDirect hdirect
      have hmem : id ∈ (p.collect exports_).kept := by simpa [Collection.isKept] using hkept
      have hname : ∃ name, (Bundle.ofExports p true exports_).naming.nameOf? id = some name :=
        Bundle.exists_nameOf? hmem (hnot id hdirect)
      exact ⟨.inl ⟨hkept, hnot id hdirect⟩, hname⟩
    · exact ⟨.inr hexternal, exists_nameOf?_of_external plan hexternal⟩
  case distinct => exact hcoherent.names_nodup

/-- In the plans for modules that export each other as namespaces. -/
theorem lawful_plan_mutualModules : ∃ p, Project.ofFiles "/a.ts" Bundle.mutualModules = .ok p ∧
    ∀ exports_, (p.plan exports_ (p.collect exports_)).Lawful p (p.collect exports_) := by
  have h := Bundle.movedStatements_mutualModules
  cases hp : Project.ofFiles "/a.ts" Bundle.mutualModules with
  | error e => simp [hp, Except.toOption] at h
  | ok p => exact ⟨p, rfl, fun exports_ => lawful_plan hp exports_⟩

end Planning

end DeclBundle
