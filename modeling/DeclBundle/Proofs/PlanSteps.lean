import DeclBundle.Proofs.ModuleExports
import DeclBundle.Proofs.Planning
import Mathlib.Logic.Relation

/-!
# How a plan grows

`Planning.Step` says what planning does in one step: it claims a namespace at the top level, begins
the members of a namespace, or adds one member to them. A member that is a declaration or a
namespace is placed at the same time. The whole plan is made in such steps (`Planning.steps_plan`),
and members are only added to namespaces that are less than `Planning.maxNesting` levels deep.

Members are added to the plan at the end of each level in the program and one by one here.
`Planning.steps_placeAll` is where the two meet: the members that were placed so far are those of
the plan with these members set.
-/

set_option autoImplicit false

namespace DeclBundle

open Relation (ReflTransGen)

namespace Plan

/-- The members of the namespace for a module. -/
def membersOf (plan : Plan) (module : SymbolId) : List (String × NamespaceMember) :=
  (plan.namespaces.get? module).elim [] PlannedNamespace.members

/-- The namespace for a module is reached from one at the top level through namespaces with the
given names. -/
inductive Within (plan : Plan) (top : SymbolId) : List String → SymbolId → Prop where
  | top {n : PlannedNamespace} (hn : plan.namespaces.get? top = some n)
    (hparent : n.parent = none) :
    Within plan top [] top
  | inside {n : PlannedNamespace} {module outer : SymbolId} {name : String} {names : List String}
    (hn : plan.namespaces.get? module = some n) (hparent : n.parent = some outer)
    (hname : plan.nested.get? module = some (outer, name)) (houter : Within plan top names outer) :
    Within plan top (names ++ [name]) module

theorem Within.contains {plan : Plan} {top module : SymbolId} {names : List String}
    (h : plan.Within top names module) :
    plan.namespaces.contains module = true := by
  cases h with
  | top hn _ => exact Table.contains_of_get? hn
  | inside hn _ _ _ => exact Table.contains_of_get? hn

/-- The first of the namespaces is at the top level. -/
theorem Within.exists_top {plan : Plan} {top module : SymbolId} {names : List String}
    (h : plan.Within top names module) :
    ∃ n, plan.namespaces.get? top = some n ∧ n.parent = none := by
  induction h with
  | top hn hparent => exact ⟨_, hn, hparent⟩
  | inside _ _ _ _ ih => exact ih

/-- Namespaces stay where they are. -/
structure Grows (plan plan' : Plan) : Prop where
  parent_eq : ∀ module n, plan.namespaces.get? module = some n →
    ∃ n', plan'.namespaces.get? module = some n' ∧ n'.parent = n.parent
  nested_eq : ∀ module, plan.namespaces.contains module = true →
    plan'.nested.get? module = plan.nested.get? module

namespace Grows

variable {plan plan' plan'' : Plan}

theorem refl (plan : Plan) : Grows plan plan := ⟨fun _ n hn => ⟨n, hn, rfl⟩, fun _ _ => rfl⟩

theorem contains (h : Grows plan plan') {module : SymbolId}
    (hmodule : plan.namespaces.contains module = true) :
    plan'.namespaces.contains module = true := by
  obtain ⟨n, hn⟩ := Option.isSome_iff_exists.1 hmodule
  obtain ⟨n', hn', -⟩ := h.parent_eq module n hn
  exact Table.contains_of_get? hn'

theorem trans (h : Grows plan plan') (h' : Grows plan' plan'') : Grows plan plan'' := by
  constructor
  · intro module n hn
    obtain ⟨n', hn', hparent⟩ := h.parent_eq module n hn
    obtain ⟨n'', hn'', hparent'⟩ := h'.parent_eq module n' hn'
    exact ⟨n'', hn'', hparent'.trans hparent⟩
  · intro module hmodule
    rw [h'.nested_eq module (h.contains hmodule), h.nested_eq module hmodule]

theorem within (h : Grows plan plan') {top module : SymbolId} {names : List String}
    (hwithin : plan.Within top names module) : plan'.Within top names module := by
  induction hwithin with
  | top hn hparent =>
    obtain ⟨n', hn', heq⟩ := h.parent_eq _ _ hn
    exact .top hn' (heq.trans hparent)
  | inside hn hparent hname _ ih =>
    obtain ⟨n', hn', heq⟩ := h.parent_eq _ _ hn
    exact .inside hn' (heq.trans hparent)
      ((h.nested_eq _ (Table.contains_of_get? hn)).trans hname) ih

end Grows

end Plan

namespace Planning

variable {plan : Plan} {module : SymbolId}

/-! ## Setting members -/

theorem get?_setMembers (plan : Plan) (module other : SymbolId)
    (members : List (String × NamespaceMember)) :
    (setMembers plan module members).namespaces.get? other =
      if module = other then (plan.namespaces.get? other).map fun n => { n with members }
      else plan.namespaces.get? other := by
  unfold setMembers
  cases hn : plan.namespaces.get? module with
  | none =>
    by_cases h : module = other
    · subst h
      simp [hn]
    · simp [h]
  | some n =>
    rw [Table.get?_set]
    by_cases h : module = other
    · subst h
      simp [hn]
    · simp [h]

theorem contains_setMembers (plan : Plan) (module other : SymbolId)
    (members : List (String × NamespaceMember)) :
    (setMembers plan module members).namespaces.contains other =
      plan.namespaces.contains other := by
  rw [Table.contains, Table.contains, get?_setMembers]
  split <;> simp

@[simp] theorem nested_setMembers (plan : Plan) (module : SymbolId)
    (members : List (String × NamespaceMember)) :
    (setMembers plan module members).nested = plan.nested := by
  unfold setMembers
  split <;> rfl

@[simp] theorem moved_setMembers (plan : Plan) (module : SymbolId)
    (members : List (String × NamespaceMember)) :
    (setMembers plan module members).moved = plan.moved := by
  unfold setMembers
  split <;> rfl

@[simp] theorem exports_setMembers (plan : Plan) (module : SymbolId)
    (members : List (String × NamespaceMember)) :
    (setMembers plan module members).exports_ = plan.exports_ := by
  unfold setMembers
  split <;> rfl

theorem membersOf_setMembers (hmodule : plan.namespaces.contains module = true) (other : SymbolId)
    (members : List (String × NamespaceMember)) :
    (setMembers plan module members).membersOf other = if module = other then members
      else plan.membersOf other := by
  obtain ⟨n, hn⟩ := Option.isSome_iff_exists.1 hmodule
  rw [Plan.membersOf, get?_setMembers]
  by_cases h : module = other
  · subst h
    simp [hn]
  · simp [h, Plan.membersOf]

theorem grows_setMembers (plan : Plan) (module : SymbolId)
    (members : List (String × NamespaceMember)) :
    plan.Grows (setMembers plan module members) := by
  constructor
  · intro other n hn
    rw [get?_setMembers, hn]
    split
    · exact ⟨_, rfl, rfl⟩
    · exact ⟨n, rfl, rfl⟩
  · intro other _
    rw [nested_setMembers]

/-- Members that are set are replaced by those that are set afterwards. -/
theorem setMembers_setMembers (plan : Plan) (module : SymbolId)
    (first second : List (String × NamespaceMember)) :
    setMembers (setMembers plan module first) module second = setMembers plan module second := by
  have hget := get?_setMembers plan module module first
  cases hn : plan.namespaces.get? module with
  | none =>
    have hsame : setMembers plan module first = plan := by
      unfold setMembers
      rw [hn]
    rw [hsame]
  | some n =>
    rw [if_pos rfl, hn] at hget
    have hfirst : setMembers plan module first =
        { plan with namespaces := plan.namespaces.set module { n with members := first } } := by
      unfold setMembers
      rw [hn]
    have hsecond : setMembers plan module second =
        { plan with namespaces := plan.namespaces.set module { n with members := second } } := by
      unfold setMembers
      rw [hn]
    rw [hsecond, setMembers, hget]
    simp only [Option.map_some, hfirst, Table.set_set]

/-- Adds a member at the end of those that a namespace has. -/
def addMember (plan : Plan) (module : SymbolId) (member : String × NamespaceMember) : Plan :=
  setMembers plan module (plan.membersOf module ++ [member])

/-- Adding a member to members that were set. -/
theorem addMember_setMembers (hmodule : plan.namespaces.contains module = true)
    (members : List (String × NamespaceMember)) (member : String × NamespaceMember) :
    addMember (setMembers plan module members) module member =
      setMembers plan module (members ++ [member]) := by
  rw [addMember, membersOf_setMembers hmodule, if_pos rfl, setMembers_setMembers]

theorem membersOf_addMember (hmodule : plan.namespaces.contains module = true) (other : SymbolId)
    (member : String × NamespaceMember) :
    (addMember plan module member).membersOf other =
      if module = other then plan.membersOf module ++ [member] else plan.membersOf other :=
  membersOf_setMembers hmodule other _

/-! ## Steps -/

/-- The namespace has room for a member with a name. -/
structure IsOpen (plan : Plan) (module : SymbolId) (name : String) : Prop where
  within : ∃ top names, plan.Within top names module ∧ names.length < maxNesting
  fresh : name ∉ (plan.membersOf module).map Prod.fst

theorem IsOpen.contains {name : String} (h : IsOpen plan module name) :
    plan.namespaces.contains module = true := by
  obtain ⟨_, _, hwithin, -⟩ := h.within
  exact hwithin.contains

variable (p : Project) (collection : Collection)

/-- A module exports something under a name. -/
def Exposes (module : SymbolId) (target : Target) : Prop :=
  ∃ e ∈ p.exportsOf module, isUnnamedExport e.name = false ∧ p.target? e.symbol = some target

/-- A member of the namespace for a module is declared somewhere else: it is exported as a
declaration at the top level, imported from a package, or reached by a dotted name. -/
def IsElsewhere (plan : Plan) (module : SymbolId) : NamespaceMember → Prop
  | .reexposed id => plan.isDirect id = true ∨ ∃ i, i.symbol = id ∧ Exposes p module (.external i)
  | .qualified _ => True
  | .moved _ | .nested _ => False

/-- A namespace for a module is wanted at the top level. -/
def IsWanted (plan : Plan) (module : SymbolId) : Prop :=
  (∃ e ∈ plan.exports_, e.outcome = .namespace_ module) ∨
    collection.namespaces.contains module = true

/-- One step of planning. -/
inductive Step : Plan → Plan → Prop where
  /-- A namespace is claimed at the top level. -/
  | claim (plan : Plan) (module : SymbolId) (name : String)
    (hwanted : IsWanted collection plan module) (hnew : plan.namespaces.contains module = false) :
    Step plan (declareTop plan module name)
  /-- The members of a namespace are begun. -/
  | begin_ (plan : Plan) (module : SymbolId) (hmodule : plan.namespaces.contains module = true)
    (hmembers : plan.membersOf module = []) : Step plan (setMembers plan module [])
  /-- Something that is declared elsewhere becomes a member. -/
  | refer (plan : Plan) (module : SymbolId) (name : String) (member : NamespaceMember)
    (hopen : IsOpen plan module name) (hmember : IsElsewhere p plan module member) :
    Step plan (addMember plan module (name, member))
  /-- A declaration becomes a member and is moved. -/
  | move (plan : Plan) (module id : SymbolId) (name : String) (hopen : IsOpen plan module name)
    (hmeant : ∃ named, p.target? named = some (.declaration id))
    (htop : p.topContainer? id = none) (hkept : collection.isKept id = true)
    (hmoved : plan.isMoved id = false) (hdirect : plan.isDirect id = false) :
    Step plan (addMember (move plan id module name) module (name, .moved id))
  /-- A namespace becomes a member and is declared inside. -/
  | nest (plan : Plan) (module inner : SymbolId) (name : String) (hopen : IsOpen plan module name)
    (hinner : ∃ localName, Exposes p module (.module_ inner localName))
    (hnew : plan.namespaces.contains inner = false) :
    Step plan (addMember (nest plan inner module name) module (name, .nested inner))

variable {p collection}

theorem ne_of_contains {inner : SymbolId} (hmodule : plan.namespaces.contains module = true)
    (hnew : plan.namespaces.contains inner = false) : inner ≠ module := by
  rintro rfl
  rw [hmodule] at hnew
  cases hnew

theorem grows_nest {inner : SymbolId} (hnew : plan.namespaces.contains inner = false)
    (module : SymbolId) (name : String) : plan.Grows (nest plan inner module name) := by
  constructor
  · intro other n hn
    have hne : inner ≠ other := by
      rintro rfl
      rw [Table.contains_of_get? hn] at hnew
      cases hnew
    refine ⟨n, ?_, rfl⟩
    show (plan.namespaces.set inner _).get? other = some n
    rw [Table.get?_set, if_neg hne, hn]
  · intro other hother
    show (plan.nested.set inner _).get? other = _
    rw [Table.get?_set, if_neg (ne_of_contains hother hnew)]

theorem grows_declareTop (hnew : plan.namespaces.contains module = false) (name : String) :
    plan.Grows (declareTop plan module name) := by
  constructor
  · intro other n hn
    have hne : module ≠ other := by
      rintro rfl
      rw [Table.contains_of_get? hn] at hnew
      cases hnew
    refine ⟨n, ?_, rfl⟩
    show (plan.namespaces.set module _).get? other = some n
    rw [Table.get?_set, if_neg hne, hn]
  · exact fun _ _ => rfl

theorem Step.grows {plan' : Plan} (h : Step p collection plan plan') : plan.Grows plan' := by
  cases h with
  | claim module name hwanted hnew => exact grows_declareTop hnew name
  | begin_ module hmodule hmembers => exact grows_setMembers plan module []
  | refer module name member hopen hmember => exact grows_setMembers plan module _
  | move module id name hopen hmeant htop hkept hmoved hdirect =>
    have hmove : plan.Grows (Planning.move plan id module name) :=
      ⟨fun _ n hn => ⟨n, hn, rfl⟩, fun _ _ => rfl⟩
    exact hmove.trans (grows_setMembers _ module _)
  | nest module inner name hopen hinner hnew =>
    exact (grows_nest hnew module name).trans (grows_setMembers _ module _)

/-- Planning goes on in steps. -/
abbrev Steps (p : Project) (collection : Collection) : Plan → Plan → Prop :=
  ReflTransGen (Step p collection)

theorem grows_of_steps {plan plan' : Plan} (h : Steps p collection plan plan') :
    plan.Grows plan' := by
  induction h with
  | refl => exact .refl plan
  | tail _ hstep ih => exact ih.trans hstep.grows

/-- The exports stay what they were. -/
theorem Step.exports_eq {plan' : Plan} (h : Step p collection plan plan') :
    plan'.exports_ = plan.exports_ := by
  cases h with
  | claim module name hwanted hnew => rfl
  | begin_ module hmodule hmembers => exact exports_setMembers plan module []
  | refer module name member hopen hmember => exact exports_setMembers plan module _
  | move module id name hopen hmeant htop hkept hmoved hdirect =>
    exact exports_setMembers _ module _
  | nest module inner name hopen hinner hnew => exact exports_setMembers _ module _

theorem exports_eq_of_steps {plan plan' : Plan} (h : Steps p collection plan plan') :
    plan'.exports_ = plan.exports_ := by
  induction h with
  | refl => rfl
  | tail _ hstep ih => exact hstep.exports_eq.trans ih

/-! ## Placing members -/

/-- The namespaces among members. -/
def nestedAmong (members : List (String × NamespaceMember)) : List SymbolId :=
  members.filterMap fun
    | (_, .nested id) => some id
    | _ => none

@[simp] theorem nestedAmong_append (first second : List (String × NamespaceMember)) :
    nestedAmong (first ++ second) = nestedAmong first ++ nestedAmong second := List.filterMap_append

/-- From one plan to the other members were placed in a namespace, and nothing else has changed
about namespaces that were there. The namespaces among the members are new, and nothing is in
them. -/
structure Places (p : Project) (collection : Collection) (module top : SymbolId)
    (names : List String) (plan plan' : Plan)
    (members : List (String × NamespaceMember)) : Prop where
  steps : Steps p collection plan plan'
  get?_eq : ∀ other, plan.namespaces.contains other = true → module ≠ other →
    plan'.namespaces.get? other = plan.namespaces.get? other
  nodup : (nestedAmong members).Nodup
  new : ∀ inner ∈ nestedAmong members, plan.namespaces.contains inner = false ∧
    plan'.membersOf inner = [] ∧
    ∃ name, plan'.Within top (names ++ [name]) inner

namespace Places

variable {top : SymbolId} {names : List String} {plan plan' plan'' : Plan}

theorem refl (module top : SymbolId) (names : List String) (plan : Plan) :
    Places p collection module top names plan plan [] :=
  ⟨.refl, fun _ _ _ => rfl, List.nodup_nil, fun _ h => by cases h⟩

theorem trans {members members' : List (String × NamespaceMember)}
    (hmodule : plan.namespaces.contains module = true)
    (h : Places p collection module top names plan plan' members)
    (h' : Places p collection module top names plan' plan'' members') :
    Places p collection module top names plan plan'' (members ++ members') := by
  have hgrows := grows_of_steps h.steps
  have hthere : ∀ inner ∈ nestedAmong members, plan'.namespaces.contains inner = true := by
    intro inner hinner
    obtain ⟨-, -, name, hwithin⟩ := h.new inner hinner
    exact hwithin.contains
  constructor
  · exact h.steps.trans h'.steps
  · intro other hother hne
    rw [h'.get?_eq other (hgrows.contains hother) hne, h.get?_eq other hother hne]
  · rw [nestedAmong_append]
    refine List.nodup_append.2 ⟨h.nodup, h'.nodup, ?_⟩
    rintro inner hinner _ hinner' rfl
    have hnew := (h'.new inner hinner').1
    rw [hthere inner hinner] at hnew
    cases hnew
  · intro inner hinner
    rw [nestedAmong_append] at hinner
    rcases List.mem_append.1 hinner with hinner | hinner
    · obtain ⟨hnew, hmembers, name, hwithin⟩ := h.new inner hinner
      have hne : module ≠ inner := (ne_of_contains hmodule hnew).symm
      refine ⟨hnew, ?_, name, (grows_of_steps h'.steps).within hwithin⟩
      rw [Plan.membersOf, h'.get?_eq inner hwithin.contains hne]
      exact hmembers
    · obtain ⟨hnew, hmembers, hwithin⟩ := h'.new inner hinner
      refine ⟨?_, hmembers, hwithin⟩
      cases hc : plan.namespaces.contains inner with
      | false => rfl
      | true =>
        rw [hgrows.contains hc] at hnew
        cases hnew

/-- A member that is no namespace. -/
theorem single {plan' : Plan} {name : String} {member : NamespaceMember}
    (hstep : Step p collection plan (addMember plan' module (name, member)))
    (hsame : plan'.namespaces = plan.namespaces) (hmember : nestedAmong [(name, member)] = []) :
    Places p collection module top names plan (addMember plan' module (name, member))
      [(name, member)] := by
  refine ⟨.single hstep, ?_, by rw [hmember]; exact List.nodup_nil, fun inner hinner => ?_⟩
  · intro other _ hne
    rw [addMember, get?_setMembers, if_neg hne, hsame]
  · rw [hmember] at hinner
    cases hinner

end Places

section Filling

variable {top : SymbolId} {names : List String}

/-- A member that is declared elsewhere is placed. -/
theorem places_refer {members : List (String × NamespaceMember)} {name : String}
    {member : NamespaceMember} (hmodule : plan.namespaces.contains module = true)
    (hopen : IsOpen (setMembers plan module members) module name)
    (hmember : IsElsewhere p plan module member) :
    Places p collection module top names (setMembers plan module members)
      (setMembers plan module (members ++ [(name, member)])) [(name, member)] := by
  rw [← addMember_setMembers hmodule]
  have hsame : IsElsewhere p (setMembers plan module members) module member := by
    cases member with
    | reexposed id => simpa [IsElsewhere, Plan.isDirect] using hmember
    | _ => exact hmember
  refine .single (.refer _ module name member hopen hsame) rfl ?_
  cases member with
  | reexposed _ => rfl
  | qualified _ => rfl
  | moved _ => cases hmember
  | nested _ => cases hmember

/-- A declaration is placed and moved. -/
theorem places_move {members : List (String × NamespaceMember)} {name : String} {id : SymbolId}
    (hmodule : plan.namespaces.contains module = true)
    (hopen : IsOpen (setMembers plan module members) module name)
    (hmeant : ∃ named, p.target? named = some (.declaration id)) (htop : p.topContainer? id = none)
    (hkept : collection.isKept id = true) (hmoved : plan.isMoved id = false)
    (hdirect : plan.isDirect id = false) :
    Places p collection module top names (setMembers plan module members)
      (setMembers (move plan id module name) module (members ++ [(name, .moved id)]))
      [(name, .moved id)] := by
  have hmove : move (setMembers plan module members) id module name =
      setMembers (move plan id module name) module members := by
    unfold move setMembers
    dsimp only
    split <;> rfl
  have hthere : (move plan id module name).namespaces.contains module = true := hmodule
  have hstep : Step p collection (setMembers plan module members)
      (addMember (move (setMembers plan module members) id module name) module (name, .moved id)) :=
    .move _ module id name hopen hmeant htop hkept (by simpa [Plan.isMoved] using hmoved)
      (by simpa [Plan.isDirect] using hdirect)
  have hplaced : Places p collection module top names (setMembers plan module members)
      (addMember (move (setMembers plan module members) id module name) module (name, .moved id))
          [(name, .moved id)] :=
    .single hstep rfl rfl
  rwa [hmove, addMember_setMembers hthere] at hplaced

/-- A namespace is placed and declared inside. -/
theorem places_nest {members : List (String × NamespaceMember)} {name : String} {inner : SymbolId}
    (hwithin : (setMembers plan module members).Within top names module)
    (hmodule : plan.namespaces.contains module = true)
    (hopen : IsOpen (setMembers plan module members) module name) (hinner : ∃ localName,
      Exposes p module (.module_ inner localName)) (hnew : plan.namespaces.contains inner = false) :
    Places p collection module top names (setMembers plan module members)
      (setMembers (nest plan inner module name) module (members ++ [(name, .nested inner)]))
      [(name, .nested inner)] := by
  have hne : inner ≠ module := ne_of_contains hmodule hnew
  have hnew' : (setMembers plan module members).namespaces.contains inner = false := by
    rwa [contains_setMembers]
  -- the members that were placed before are written to another key than the new namespace
  have hnest : nest (setMembers plan module members) inner module name =
      setMembers (nest plan inner module name) module members := by
    obtain ⟨n, hn⟩ := Option.isSome_iff_exists.1 hmodule
    have hn' : (nest plan inner module name).namespaces.get? module = some n := by
      show (plan.namespaces.set inner _).get? module = some n
      rw [Table.get?_set, if_neg hne, hn]
    unfold setMembers
    rw [hn, hn']
    simp only [nest]
    rw [Table.set_comm hmodule hnew]
  have hthere : (nest plan inner module name).namespaces.contains module = true :=
    (grows_nest hnew module name).contains hmodule
  have hstep : Step p collection (setMembers plan module members)
      (addMember (nest (setMembers plan module members) inner module name) module
          (name, .nested inner)) :=
    .nest _ module inner name hopen hinner hnew'
  rw [hnest, addMember_setMembers hthere] at hstep
  have hget :
    (setMembers (nest plan inner module name) module
    (members ++ [(name, .nested inner)])).namespaces.get?
      inner = some ⟨inner, name, [], some module⟩ := by
    rw [get?_setMembers, if_neg (Ne.symm hne)]
    show (plan.namespaces.set inner _).get? inner = _
    rw [Table.get?_set, if_pos rfl]
  refine ⟨.single hstep, ?_, List.nodup_cons.2 ⟨List.not_mem_nil, List.nodup_nil⟩, ?_⟩
  · intro other hother hother'
    rw [contains_setMembers] at hother
    rw [get?_setMembers, if_neg hother', get?_setMembers, if_neg hother']
    show (plan.namespaces.set inner _).get? other = _
    rw [Table.get?_set, if_neg (ne_of_contains hother hnew)]
  · intro other hother
    obtain rfl : other = inner := List.mem_singleton.1 hother
    refine ⟨hnew', by rw [Plan.membersOf, hget]; rfl, name,
      .inside hget rfl ?_ (hstep.grows.within hwithin)⟩
    rw [nested_setMembers]
    show (plan.nested.set other _).get? other = _
    rw [Table.get?_set, if_pos rfl]

/-- Placing one export places its member, if it gives one. `members` are those that were placed
before. -/
theorem places_placeExport {members : List (String × NamespaceMember)} {e : ModuleExport}
    (hmodule : plan.namespaces.contains module = true)
    (hwithin : (setMembers plan module members).Within top names module)
    (hdepth : names.length < maxNesting) (hexport : e ∈ p.exportsOf module)
    (hnamed : isUnnamedExport e.name = false) (hfresh : e.name ∉ members.map Prod.fst) :
    Places p collection module top names (setMembers plan module members)
      (setMembers (placeExport p collection module plan e).1 module
        (members ++ ((placeExport p collection module plan e).2.map (e.name, ·)).toList))
      ((placeExport p collection module plan e).2.map (e.name, ·)).toList := by
  have hopen : IsOpen (setMembers plan module members) module e.name := by
    refine ⟨⟨top, names, hwithin, hdepth⟩, ?_⟩
    rwa [membersOf_setMembers hmodule, if_pos rfl]
  have hnothing : Places p collection module top names (setMembers plan module members)
      (setMembers plan module (members ++ [])) [] := by
    rw [List.append_nil]
    exact .refl _ _ _ _
  unfold placeExport
  split
  · exact hnothing
  · exact hnothing
  · next i htarget => exact places_refer hmodule hopen (.inr ⟨i, rfl, e, hexport, hnamed, htarget⟩)
  · next id hmeant =>
    unfold placeDeclaration
    split
    · split
      · exact places_refer hmodule hopen trivial
      · exact hnothing
    · next htop =>
      split
      · exact hnothing
      · next hkept =>
        split
        · exact places_refer hmodule hopen trivial
        · next hmoved =>
          split
          · next hdirect => exact places_refer hmodule hopen (.inl hdirect)
          · next hdirect =>
            exact places_move hmodule hopen ⟨_, hmeant⟩ htop (by simpa using hkept) (by
              simpa using hmoved)
              (by simpa using hdirect)
  · next inner localName htarget =>
    show Places p collection module top names _
      (setMembers (placeModule plan module inner e.name).1 module
        (members ++ [(e.name, (placeModule plan module inner e.name).2)]))
          [(e.name, (placeModule plan module inner e.name).2)]
    unfold placeModule
    split
    · exact places_refer hmodule hopen trivial
    · next hnew =>
      exact places_nest hwithin hmodule hopen ⟨localName, e, hexport, hnamed, htarget⟩ (by
        simpa using hnew)

/-- Placing exports with different names places their members. -/
theorem places_placeAll {members : List (String × NamespaceMember)} {exports_ : List ModuleExport}
    (hmodule : plan.namespaces.contains module = true)
    (hwithin : (setMembers plan module members).Within top names module)
    (hdepth : names.length < maxNesting)
    (hexports : ∀ e ∈ exports_, e ∈ p.exportsOf module ∧ isUnnamedExport e.name = false)
    (hnodup : (members.map Prod.fst ++ exports_.map ModuleExport.name).Nodup) :
    Places p collection module top names (setMembers plan module members)
      (setMembers (placeAll p collection module plan exports_).1 module
        (members ++ (placeAll p collection module plan exports_).2))
      (placeAll p collection module plan exports_).2 := by
  induction exports_ generalizing plan members with
  | nil =>
    show Places p collection module top names _ (setMembers plan module (members ++ [])) []
    rw [List.append_nil]
    exact .refl _ _ _ _
  | cons e rest ih =>
    rw [List.map_cons, List.nodup_append] at hnodup
    obtain ⟨hmembers, hnames, hapart⟩ := hnodup
    obtain ⟨he, hrest⟩ := List.nodup_cons.1 hnames
    have hfresh : e.name ∉ members.map Prod.fst :=
      fun hmem => hapart _ hmem _ List.mem_cons_self rfl
    let placed := placeExport p collection module plan e
    let added : List (String × NamespaceMember) := (placed.2.map (e.name, ·)).toList
    have hhead : Places p collection module top names (setMembers plan module members)
        (setMembers placed.1 module (members ++ added)) added :=
      places_placeExport hmodule hwithin hdepth (hexports e List.mem_cons_self).1
        (hexports e List.mem_cons_self).2 hfresh
    -- placing the first export keeps the module open, and uses up its name only
    have hmodule' : placed.1.namespaces.contains module = true := by
      rw [← contains_setMembers placed.1 module module (members ++ added)]
      refine (grows_of_steps hhead.steps).contains ?_
      rwa [contains_setMembers]
    have hnodup' : ((members ++ added).map Prod.fst ++ rest.map ModuleExport.name).Nodup := by
      have hsingle : ∀ member : Option NamespaceMember,
        (member.map (e.name, ·)).toList.map Prod.fst = [] ∨
          (member.map (e.name, ·)).toList.map Prod.fst = [e.name] := by
        intro member
        cases member with
        | none => exact .inl rfl
        | some member => exact .inr rfl
      rw [List.map_append]
      rcases hsingle placed.2 with hnil | hone
      · rw [hnil, List.append_nil]
        exact List.nodup_append.2
          ⟨hmembers, hrest, fun a ha b hb => hapart a ha b (List.mem_cons_of_mem _ hb)⟩
      · rw [hone, List.append_assoc]
        exact List.nodup_append.2 ⟨hmembers, hnames, hapart⟩
    have htail := ih hmodule' ((grows_of_steps hhead.steps).within hwithin)
      (fun other hother => hexports other (List.mem_cons_of_mem _ hother)) hnodup'
    have hthere : (setMembers plan module members).namespaces.contains module = true := by
      rwa [contains_setMembers]
    have hall := hhead.trans hthere htail
    rw [List.append_assoc] at hall
    exact hall

/-! ## Filling namespaces -/

/-- The namespace is in the plan, without members, and is to be filled down to `depth` levels. -/
def IsEmpty (plan : Plan) (depth : Nat) (module : SymbolId) : Prop :=
  plan.membersOf module = [] ∧ ∃ top names, plan.Within top names module ∧
    names.length + depth = maxNesting

/-- From one plan to the other the namespaces for the given modules were filled, and nothing else
has changed about namespaces that were there. -/
structure Fills (p : Project) (collection : Collection) (modules : List SymbolId)
    (plan plan' : Plan) : Prop where
  steps : Steps p collection plan plan'
  get?_eq : ∀ other, plan.namespaces.contains other = true → other ∉ modules →
    plan'.namespaces.get? other = plan.namespaces.get? other

theorem fills_nil (plan : Plan) : Fills p collection [] plan plan := ⟨.refl, fun _ _ _ => rfl⟩

/-- Filling namespaces in turn. -/
theorem fills_foldl {depth : Nat} (hfill : ∀ plan module, IsEmpty plan depth module →
      Fills p collection [module] plan (fill p collection depth plan module))
    {modules : List SymbolId} (hnodup : modules.Nodup) {plan : Plan}
    (hempty : ∀ module ∈ modules, IsEmpty plan depth module) :
    Fills p collection modules plan (modules.foldl (fill p collection depth) plan) := by
  induction modules generalizing plan with
  | nil => exact fills_nil plan
  | cons module rest ih =>
    obtain ⟨hnot, hrest⟩ := List.nodup_cons.1 hnodup
    have hhead := hfill plan module (hempty module List.mem_cons_self)
    have hgrows := grows_of_steps hhead.steps
    have hstill : ∀ other ∈ rest, IsEmpty (fill p collection depth plan module) depth other := by
      intro other hother
      obtain ⟨hmembers, top, names, hwithin, hlength⟩ :=
        hempty other (List.mem_cons_of_mem _ hother)
      have hne : other ∉ [module] := by
        intro hmem
        obtain rfl := List.mem_singleton.1 hmem
        exact hnot hother
      refine ⟨?_, top, names, hgrows.within hwithin, hlength⟩
      rw [Plan.membersOf, hhead.get?_eq other hwithin.contains hne]
      exact hmembers
    have htail := ih hrest hstill
    refine ⟨hhead.steps.trans htail.steps, fun other hother hnot => ?_⟩
    rw [List.foldl_cons, htail.get?_eq other (hgrows.contains hother) fun h =>
      hnot (List.mem_cons_of_mem _ h)]
    exact hhead.get?_eq other hother fun h => hnot (List.mem_singleton.1 h ▸ List.mem_cons_self)

/-- Filling an empty namespace only changes the namespace and those that are new. -/
theorem fills_fill (depth : Nat) (plan : Plan) (module : SymbolId) (h : IsEmpty plan depth module) :
    Fills p collection [module] plan (fill p collection depth plan module) := by
  induction depth generalizing plan module with
  | zero => exact ⟨.refl, fun _ _ _ => rfl⟩
  | succ depth ih =>
    obtain ⟨hmembers, top, names, hwithin, hlength⟩ := h
    let named := (p.exportsOf module).filter fun e => !isUnnamedExport e.name
    let placed := placeAll p collection module plan named
    let inner := nestedAmong placed.2
    have hmodule := hwithin.contains
    have hbegin : Step p collection plan (setMembers plan module []) :=
      .begin_ plan module hmodule hmembers
    have hnames : ((([] : List (String × NamespaceMember)).map Prod.fst) ++
        named.map ModuleExport.name).Nodup :=
      (p.nodup_exportsOf module).sublist ((List.filter_sublist ..).map _)
    have hplaces : Places p collection module top names (setMembers plan module [])
        (setMembers placed.1 module placed.2) placed.2 :=
      places_placeAll hmodule (hbegin.grows.within hwithin) (by omega)
        (fun e he => by simpa using List.mem_filter.1 he) hnames
    -- what was placed inside is new, so it is empty and one level deeper
    have hinner : ∀ x ∈ inner, IsEmpty (setMembers placed.1 module placed.2) depth x := by
      intro x hx
      obtain ⟨-, hempty, name, hx⟩ := hplaces.new x hx
      refine ⟨hempty, top, names ++ [name], hx, ?_⟩
      rw [List.length_append, List.length_singleton]
      omega
    have hfills := fills_foldl ih hplaces.nodup hinner
    refine ⟨(ReflTransGen.single hbegin).trans (hplaces.steps.trans hfills.steps),
      fun other hother hne => ?_⟩
    have hne : module ≠ other := fun heq => hne (heq ▸ List.mem_singleton_self _)
    have hthere : (setMembers plan module []).namespaces.contains other = true := by
      rwa [contains_setMembers]
    have hnew : other ∉ inner := by
      intro hmem
      have hfalse := (hplaces.new other hmem).1
      rw [hthere] at hfalse
      cases hfalse
    show (inner.foldl (fill p collection depth)
      (setMembers placed.1 module placed.2)).namespaces.get? other = _
    rw [hfills.get?_eq other ((grows_of_steps hplaces.steps).contains hthere) hnew,
      hplaces.get?_eq other hthere hne, get?_setMembers, if_neg hne]

end Filling

/-! ## The whole plan -/

/-- Namespaces that were claimed are in the plan, each once and without members. -/
structure Claimed (p : Project) (collection : Collection) (start : Plan)
    (state : Plan × List SymbolId) : Prop where
  steps : Steps p collection start state.1
  nodup : state.2.Nodup
  isEmpty : ∀ module ∈ state.2, IsEmpty state.1 maxNesting module

theorem Claimed.claim {start : Plan} {state : Plan × List SymbolId}
    (h : Claimed p collection start state) {wanted : SymbolId × String}
    (hwanted : IsWanted collection start wanted.1) :
    Claimed p collection start (claim state wanted) := by
  obtain ⟨plan, claimed⟩ := state
  obtain ⟨module, name⟩ := wanted
  show Claimed p collection start (if plan.namespaces.contains module then (plan, claimed)
    else (declareTop plan module name, claimed ++ [module]))
  split
  · exact h
  · next hnew =>
    have hnew : plan.namespaces.contains module = false := by simpa using hnew
    have hwanted : IsWanted collection plan module := by
      rw [IsWanted, show plan.exports_ = start.exports_ from exports_eq_of_steps h.steps]
      exact hwanted
    have hstep : Step p collection plan (declareTop plan module name) :=
      .claim plan module name hwanted hnew
    have hget : (declareTop plan module name).namespaces.get? module =
        some ⟨module, name, [], none⟩ := by
      show (plan.namespaces.set module _).get? module = _
      rw [Table.get?_set, if_pos rfl]
    -- the module is new in the list, since all that are in it have a namespace already
    refine ⟨h.steps.tail hstep, ?_, fun other hother => ?_⟩
    · refine List.nodup_append.2 ⟨h.nodup, List.nodup_cons.2 ⟨List.not_mem_nil, List.nodup_nil⟩, ?_⟩
      rintro other hother _ hsingle rfl
      obtain rfl := List.mem_singleton.1 hsingle
      obtain ⟨-, _, _, hwithin, -⟩ := h.isEmpty _ hother
      exact ne_of_contains hwithin.contains hnew rfl
    · rcases List.mem_append.1 hother with hother | hother
      · obtain ⟨hmembers, top, names, hwithin, hlength⟩ := h.isEmpty other hother
        refine ⟨?_, top, names, hstep.grows.within hwithin, hlength⟩
        have hne := ne_of_contains hwithin.contains hnew
        show ((plan.namespaces.set module _).get? other).elim [] PlannedNamespace.members = []
        rw [Table.get?_set, if_neg hne]
        exact hmembers
      · obtain rfl := List.mem_singleton.1 hother
        refine ⟨?_, other, [], .top hget rfl, Nat.zero_add _⟩
        rw [Plan.membersOf, hget]
        rfl

/-- Claiming namespaces and filling them is done in steps. -/
theorem steps_claimAll (plan : Plan) {wanted : List (SymbolId × String)}
    (hwanted : ∀ w ∈ wanted, IsWanted collection plan w.1) :
    Steps p collection plan (claimAll p collection plan wanted) := by
  have hclaimed : ∀ (wanted : List (SymbolId × String)) (state : Plan × List SymbolId),
      (∀ w ∈ wanted, IsWanted collection plan w.1) → Claimed p collection plan state →
      Claimed p collection plan (wanted.foldl claim state) := by
    intro wanted
    induction wanted with
    | nil => exact fun _ _ h => h
    | cons w rest ih =>
      intro state hwanted h
      exact ih _ (fun w' hw' => hwanted w' (List.mem_cons_of_mem _ hw'))
        (h.claim (hwanted w List.mem_cons_self))
  have hstart : Claimed p collection plan (plan, []) :=
    ⟨.refl, List.nodup_nil, fun _ h => by cases h⟩
  have hall := hclaimed wanted (plan, []) hwanted hstart
  exact hall.steps.trans (fills_foldl (fills_fill maxNesting) hall.nodup hall.isEmpty).steps

/-- A whole plan is made in steps from the exports. -/
theorem steps_plan (p : Project) (collection : Collection) (exports_ : List ModuleExport) :
    Steps p collection { exports_ := exports_.map fun e => ⟨e.name, outcomeOf p collection e⟩ }
      (p.plan exports_ collection) := by
  refine ReflTransGen.trans (steps_claimAll _ fun w hw => ?_) (steps_claimAll _ fun w hw => ?_)
  · obtain ⟨planned, hplanned, hw⟩ := List.mem_filterMap.1 hw
    split at hw
    · next module houtcome =>
      obtain rfl := Option.some.inj hw
      exact .inl ⟨planned, hplanned, houtcome⟩
    · cases hw
  · exact .inr (Table.contains_of_mem hw)

end Planning

end DeclBundle
