import DeclBundle.Bundle.Plan
import DeclBundle.Proofs.Collecting

/-!
# What planning keeps true

A plan changes in four ways: a declaration is moved, a namespace is nested, a namespace is claimed
at the top level, and the members of a namespace are set. What all of them keep is kept by the whole
plan (`Planning.Keeps.plan`). In particular every namespace is planned under its own module, and the
exports stay what they were.
-/

set_option autoImplicit false

namespace DeclBundle.Planning

variable (p : Project) (collection : Collection)

/-- A declaration is moved into the namespace for a module. -/
def move (plan : Plan) (id module : SymbolId) (name : String) : Plan :=
  { plan with moved := plan.moved.set id (module, name) }

/-- The namespace for one module is declared in the namespace for another one. -/
def nest (plan : Plan) (inner module : SymbolId) (name : String) : Plan :=
  { plan with
    namespaces := plan.namespaces.set inner ⟨inner, name, [], some module⟩
    nested := plan.nested.set inner (module, name) }

/-- A namespace is declared at the top level. -/
def declareTop (plan : Plan) (module : SymbolId) (name : String) : Plan :=
  { plan with namespaces := plan.namespaces.set module ⟨module, name, [], none⟩ }

/-- Every change of a plan keeps the property. -/
structure Keeps (P : Plan → Prop) : Prop where
  move : ∀ plan id module name, P plan → p.topContainer? id = none → collection.isKept id = true →
    plan.isMoved id = false → plan.isDirect id = false → P (move plan id module name)
  nest : ∀ plan inner module name, P plan → plan.namespaces.contains inner = false →
    P (nest plan inner module name)
  declareTop : ∀ plan module name, P plan → plan.namespaces.contains module = false →
    P (declareTop plan module name)
  setMembers : ∀ plan module members, P plan → P (setMembers plan module members)

namespace Keeps

variable {p collection} {P : Plan → Prop}

theorem placeExport (hP : Keeps p collection P) (module : SymbolId) (plan : Plan) (e : ModuleExport)
    (h : P plan) :
    P (placeExport p collection module plan e).1 := by
  unfold Planning.placeExport
  split
  · exact h
  · exact h
  · exact h
  · next id _ =>
    unfold placeDeclaration
    split
    · exact h
    · next htop =>
      split
      · exact h
      · next hkept =>
        split
        · exact h
        · next hmoved =>
          split
          · exact h
          · next hdirect =>
            exact hP.move plan id module e.name h htop (by simpa using hkept) (by
              simpa using hmoved)
              (by simpa using hdirect)
  · next inner _ _ =>
    show P (placeModule plan module inner e.name).1
    unfold placeModule
    split
    · exact h
    · next hnew => exact hP.nest plan inner module e.name h (by simpa using hnew)

theorem placeAll (hP : Keeps p collection P) (module : SymbolId) (exports_ : List ModuleExport)
    (plan : Plan) (h : P plan) : P (placeAll p collection module plan exports_).1 := by
  induction exports_ generalizing plan with
  | nil => exact h
  | cons e rest ih => exact ih _ (hP.placeExport module plan e h)

/-- Filling a namespace keeps the property. -/
theorem fill (hP : Keeps p collection P) (depth : Nat) (plan : Plan) (module : SymbolId)
    (h : P plan) :
    P (fill p collection depth plan module) := by
  induction depth generalizing plan module with
  | zero => exact h
  | succ depth ih =>
    have hall : ∀ (inner : List SymbolId) (plan : Plan), P plan →
        P (inner.foldl (Planning.fill p collection depth) plan) := by
      intro inner
      induction inner with
      | nil => exact fun _ h => h
      | cons id inner ihinner => exact fun plan h => ihinner _ (ih plan id h)
    exact hall _ _ (hP.setMembers _ _ _ (hP.placeAll module _ plan h))

theorem claim (hP : Keeps p collection P) (state : Plan × List SymbolId)
    (wanted : SymbolId × String) (h : P state.1) : P (claim state wanted).1 := by
  obtain ⟨plan, claimed⟩ := state
  obtain ⟨module, name⟩ := wanted
  show P (if plan.namespaces.contains module then (plan, claimed)
    else (Planning.declareTop plan module name, claimed ++ [module])).1
  split
  · exact h
  · next hnew => exact hP.declareTop plan module name h (by simpa using hnew)

theorem claims (hP : Keeps p collection P) (wanted : List (SymbolId × String))
    (state : Plan × List SymbolId) (h : P state.1) : P (wanted.foldl Planning.claim state).1 := by
  induction wanted generalizing state with
  | nil => exact h
  | cons first rest ih => exact ih _ (hP.claim state first h)

theorem fillAll (hP : Keeps p collection P) (modules : List SymbolId) (plan : Plan) (h : P plan) :
    P (modules.foldl (Planning.fill p collection maxNesting) plan) := by
  induction modules generalizing plan with
  | nil => exact h
  | cons module rest ih => exact ih _ (hP.fill maxNesting plan module h)

theorem claimAll (hP : Keeps p collection P) (plan : Plan) (wanted : List (SymbolId × String))
    (h : P plan) :
    P (claimAll p collection plan wanted) :=
  hP.fillAll _ _ (hP.claims wanted (plan, []) h)

/-- What holds of the planned exports and is kept holds of the finished plan. -/
theorem plan (hP : Keeps p collection P) (exports_ : List ModuleExport)
    (h : P { exports_ := exports_.map fun e => ⟨e.name, outcomeOf p collection e⟩ }) :
    P (p.plan exports_ collection) :=
  hP.claimAll _ _ (hP.claimAll _ _ h)

end Keeps

/-! ## Exports and namespaces -/

/-- How an export is exposed, with the reason for it. -/
inductive HasOutcome (e : ModuleExport) : ExportOutcome → Prop where
  | direct (id : SymbolId) (htarget : p.target? e.symbol = some (.declaration id))
    (htop : p.topContainer? id = none) (hkept : collection.isKept id = true) :
    HasOutcome e (.direct id)
  | namespace_ (module : SymbolId) (localName : Option String)
    (htarget : p.target? e.symbol = some (.module_ module localName)) :
    HasOutcome e (.namespace_ module)
  | external (i : ExternalImport) (htarget : p.target? e.symbol = some (.external i)) :
      HasOutcome e (.external i.symbol)
  | externalModule (i : ExternalImport) (htarget : p.target? e.symbol = some (.external i)) :
    HasOutcome e (.externalModule i.symbol)
  | member (id owner : SymbolId) (htarget : p.target? e.symbol = some (.declaration id))
    (htop : p.topContainer? id = some owner) (hkept : collection.isKept owner = true) :
    HasOutcome e (.member id)
  | skipped (reason : SkipReason) : HasOutcome e (.skipped reason)

theorem hasOutcome_outcomeOf (e : ModuleExport) :
    HasOutcome p collection e (outcomeOf p collection e) := by
  unfold outcomeOf
  split
  · exact .skipped _
  · exact .skipped _
  · next module localName htarget => exact .namespace_ module localName htarget
  · next i htarget =>
    split
    · exact .externalModule i htarget
    · exact .external i htarget
  · next id htarget =>
    split
    · next owner htop =>
      split
      · next hkept => exact .member id owner htarget htop hkept
      · exact .skipped _
    · next htop =>
      split
      · next hkept => exact .direct id htarget htop hkept
      · exact .skipped _

/-- Planning namespaces does not change how exports are exposed. -/
theorem exports_plan (exports_ : List ModuleExport) :
    (p.plan exports_ collection).exports_ = exports_.map fun e =>
      ⟨e.name, outcomeOf p collection e⟩ := by
  have hkeeps : ∀ planned : List PlannedExport, Keeps p collection fun plan =>
    plan.exports_ = planned := by
    intro planned
    constructor
    case move => exact fun _ _ _ _ h _ _ _ _ => h
    case nest => exact fun _ _ _ _ h _ => h
    case declareTop => exact fun _ _ _ h _ => h
    case setMembers =>
      intro plan module members h
      unfold Planning.setMembers
      split
      · exact h
      · exact h
  exact (hkeeps _).plan exports_ rfl

/-- Every namespace is planned under its own module. -/
theorem module_of_mem_namespaces {exports_ : List ModuleExport}
    {entry : SymbolId × PlannedNamespace}
    (h : entry ∈ (p.plan exports_ collection).namespaces.entries) : entry.2.module = entry.1 := by
  have hkeeps : Keeps p collection fun plan => ∀ entry ∈ plan.namespaces.entries,
      entry.2.module = entry.1 := by
    constructor
    case move => exact fun _ _ _ _ h _ _ _ _ => h
    case nest =>
      intro plan inner module name h _ entry hentry
      rcases Table.mem_entries_set hentry with rfl | hentry
      · rfl
      · exact h entry hentry
    case declareTop =>
      intro plan module name h _ entry hentry
      rcases Table.mem_entries_set hentry with rfl | hentry
      · rfl
      · exact h entry hentry
    case setMembers =>
      intro plan module members h
      unfold Planning.setMembers
      split
      · next n hn =>
        intro entry hentry
        rcases Table.mem_entries_set hentry with rfl | hentry
        · exact h (module, n) (Table.mem_of_get? hn)
        · exact h entry hentry
      · exact h
  exact hkeeps.plan exports_ (fun _ hentry => by cases hentry) entry h

/-- Namespaces are not taken back. -/
theorem keeps_contains (module : SymbolId) : Keeps p collection fun plan =>
  plan.namespaces.contains module = true := by
  constructor
  case move => exact fun _ _ _ _ h _ _ _ _ => h
  case nest => exact fun _ _ _ _ h _ => Table.contains_set.2 (.inr h)
  case declareTop => exact fun _ _ _ h _ => Table.contains_set.2 (.inr h)
  case setMembers =>
    intro plan other members h
    unfold Planning.setMembers
    split
    · exact Table.contains_set.2 (.inr h)
    · exact h

/-- A module for which a namespace is wanted has one afterwards. -/
theorem contains_claimAll (plan : Plan) {wanted : List (SymbolId × String)} {module : SymbolId}
    {name : String} (h : (module, name) ∈ wanted) :
    (claimAll p collection plan wanted).namespaces.contains module = true := by
  have hclaimed : ∀ (wanted : List (SymbolId × String)) (state : Plan × List SymbolId),
    (module, name) ∈ wanted →
      (wanted.foldl claim state).1.namespaces.contains module = true := by
    intro wanted
    induction wanted with
    | nil => exact fun _ h => absurd h List.not_mem_nil
    | cons first rest ih =>
      intro state h
      rcases List.mem_cons.1 h with rfl | h
      · refine (keeps_contains p collection module).claims rest _ ?_
        show (if state.1.namespaces.contains module then state
          else (declareTop state.1 module name, state.2 ++ [module])).1.namespaces.contains module =
            true
        split
        · next hold => exact hold
        · exact Table.contains_set.2 (.inl rfl)
      · exact ih _ h
  exact (keeps_contains p collection module).fillAll _ _ (hclaimed wanted (plan, []) h)

/-- Every module that is exported as a whole has a namespace. -/
theorem contains_of_outcomeOf {exports_ : List ModuleExport} {e : ModuleExport} {module : SymbolId}
    (he : e ∈ exports_) (h : outcomeOf p collection e = .namespace_ module) :
    (p.plan exports_ collection).namespaces.contains module = true := by
  let planned : PlannedExport := ⟨e.name, outcomeOf p collection e⟩
  let name : String := if isUnnamedExport e.name then nameForModule p collection module else e.name
  have hwanted : (module, name) ∈
      exportedModules p collection (exports_.map fun e => ⟨e.name, outcomeOf p collection e⟩) := by
    refine List.mem_filterMap.2 ⟨planned, List.mem_map.2 ⟨e, he, rfl⟩, ?_⟩
    simp only [planned, name, h]
  exact (keeps_contains p collection module).claimAll _ _ (contains_claimAll p collection _ hwanted)

/-- The namespace for a module at the top level is found under the module. -/
theorem contains_of_mem_topNamespaces {exports_ : List ModuleExport} {n : PlannedNamespace}
    (h : n ∈ (p.plan exports_ collection).topNamespaces) :
    (p.plan exports_ collection).namespaces.contains n.module = true := by
  obtain ⟨entry, hentry, rfl⟩ := List.mem_map.1 (List.mem_filter.1 h).1
  rw [module_of_mem_namespaces p collection hentry]
  exact Table.contains_of_mem hentry

end DeclBundle.Planning
