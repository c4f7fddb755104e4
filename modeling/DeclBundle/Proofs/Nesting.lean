import DeclBundle.Proofs.Descent
import DeclBundle.Proofs.PlanSteps
import Mathlib.Data.List.Nodup

/-!
# Every member of a planned namespace has one place

In a plan the tables of moved declarations and of nested namespaces say the same as the lists of
members (`Plan.Coherent`): a declaration is moved to a namespace under a name exactly when it is a
member under that name, and so for namespaces. Every step of planning keeps this, so it holds of
every plan (`Planning.coherent_plan`).

The namespaces of a plan are therefore a forest: each of them is declared once, at the top level or
in one other namespace, and from it one comes to the top level over at most `Planning.maxNesting`
levels.
-/

set_option autoImplicit false

namespace DeclBundle

open Relation (ReflTransGen)

namespace Plan

/-- A table has the places of all members of one kind: their namespaces and their names there. -/
def Lists (plan : Plan) (table : Table SymbolId (SymbolId × String))
    (kind : SymbolId → NamespaceMember) : Prop :=
  ∀ id module name, table.get? id = some (module, name) ↔ (name, kind id) ∈ plan.membersOf module

/-- Tables and members agree, and namespaces are not nested too deep. -/
structure Coherent (plan : Plan) : Prop where
  keys_nodup : plan.namespaces.keys.Nodup
  parent_eq : ∀ module n, plan.namespaces.get? module = some n →
    n.parent = (plan.nested.get? module).map Prod.fst
  contains_nested : ∀ module place, plan.nested.get? module = some place →
    plan.namespaces.contains module = true
  moved : plan.Lists plan.moved .moved
  nested : plan.Lists plan.nested .nested
  names_nodup : ∀ module, ((plan.membersOf module).map Prod.fst).Nodup
  /-- A namespace with members is less deep than others may be. -/
  within : ∀ module, plan.namespaces.contains module = true → ∃ top names,
    plan.Within top names module ∧
    names.length ≤ Planning.maxNesting ∧
      (plan.membersOf module ≠ [] → names.length < Planning.maxNesting)

end Plan

namespace Planning

variable {p : Project} {collection : Collection} {plan plan' : Plan} {module : SymbolId}

/-! ## Steps keep plans coherent -/

theorem membersOf_eq_nil (h : plan.namespaces.contains module = false) :
    plan.membersOf module = [] := by
  rw [Plan.membersOf, Table.contains_eq_false_iff.1 h]
  rfl

theorem contains_of_mem_membersOf {member : String × NamespaceMember}
    (h : member ∈ plan.membersOf module) :
    plan.namespaces.contains module = true := by
  cases hc : plan.namespaces.contains module with
  | true => rfl
  | false =>
    rw [membersOf_eq_nil hc] at h
    cases h

/-- A namespace that is new lies in no other. -/
theorem nested_eq_none (h : plan.Coherent) (hnew : plan.namespaces.contains module = false) :
    plan.nested.get? module = none := by
  rw [Option.eq_none_iff_forall_not_mem]
  intro place hplace
  rw [h.contains_nested module place hplace] at hnew
  cases hnew

/-- A namespace that is new has no members, so all members stay. -/
theorem membersOf_set {n : PlannedNamespace} (hnew : plan.namespaces.contains module = false)
    (hn : n.members = []) {namespaces : Table SymbolId PlannedNamespace}
    (h : namespaces = plan.namespaces.set module n) (other : SymbolId) :
    (namespaces.get? other).elim [] PlannedNamespace.members = plan.membersOf other := by
  subst h
  rw [Table.get?_set]
  by_cases hother : module = other
  · subst hother
    rw [if_pos rfl, membersOf_eq_nil hnew]
    exact hn
  · rw [if_neg hother]
    rfl

/-- A member with a new name leaves the names of members different, and no namespace gets too
deep. -/
theorem names_and_within {name : String} {member : NamespaceMember} (h : plan.Coherent)
    (hgrows : plan.Grows plan') (hopen : IsOpen plan module name)
    (hmembers : ∀ other, plan'.membersOf other =
      if module = other then plan.membersOf module ++ [(name, member)] else plan.membersOf other) :
    (∀ other, ((plan'.membersOf other).map Prod.fst).Nodup) ∧
      ∀ other, plan.namespaces.contains other = true → ∃ top names, plan'.Within top names other ∧
        names.length ≤ maxNesting ∧ (plan'.membersOf other ≠ [] → names.length < maxNesting) := by
  constructor
  · intro other
    rw [hmembers]
    split
    · rw [List.map_append]
      refine List.nodup_append.2
        ⟨h.names_nodup module, List.nodup_cons.2 ⟨List.not_mem_nil, List.nodup_nil⟩, ?_⟩
      rintro first hfirst _ hsecond rfl
      obtain rfl := List.mem_singleton.1 hsecond
      exact hopen.fresh hfirst
    · exact h.names_nodup other
  · intro other hother
    by_cases heq : module = other
    · subst heq
      obtain ⟨top, names, hwithin, hlt⟩ := hopen.within
      exact ⟨top, names, hgrows.within hwithin, Nat.le_of_lt hlt, fun _ => hlt⟩
    · obtain ⟨top, names, hwithin, hle, hlt⟩ := h.within other hother
      refine ⟨top, names, hgrows.within hwithin, hle, ?_⟩
      rw [hmembers, if_neg heq]
      exact hlt

section Lists

variable {name : String} {member : NamespaceMember} {kind : SymbolId → NamespaceMember}
  {table : Table SymbolId (SymbolId × String)}

/-- A member of another kind changes nothing about a table. -/
theorem lists_of_other (h : plan.Lists table kind)
    (hmembers : ∀ other, plan'.membersOf other =
      if module = other then plan.membersOf module ++ [(name, member)] else plan.membersOf other)
    (hother : ∀ id, member ≠ kind id) : plan'.Lists table kind := by
  intro id place name'
  rw [h id place name', hmembers]
  split
  · next heq =>
    subst heq
    constructor
    · exact fun hin => List.mem_append_left _ hin
    · intro hin
      rcases List.mem_append.1 hin with hin | hin
      · exact hin
      · exact absurd (congrArg Prod.snd (List.mem_singleton.1 hin)).symm (hother id)
  · exact Iff.rfl

/-- A member that is in no namespace yet is added to its table. -/
theorem lists_set (h : plan.Lists table kind) {id : SymbolId}
    (hmembers : ∀ other, plan'.membersOf other =
      if module = other then plan.membersOf module ++ [(name, kind id)] else plan.membersOf other)
    (hkind : ∀ id id', kind id = kind id' → id = id') (hnone : table.get? id = none) :
    plan'.Lists (table.set id (module, name)) kind := by
  intro other place name'
  -- nothing else leads to the member, since it had no place
  have hold : ∀ place name', (name', kind id) ∉ plan.membersOf place := by
    intro place name' hin
    rw [← h id place name', hnone] at hin
    cases hin
  rw [Table.get?_set, hmembers]
  by_cases hother : id = other
  · subst hother
    rw [if_pos rfl]
    split
    · next heq =>
      subst heq
      constructor
      · intro heq
        cases heq
        exact List.mem_append_right _ (List.mem_singleton_self _)
      · intro hin
        rcases List.mem_append.1 hin with hin | hin
        · exact absurd hin (hold _ _)
        · cases congrArg Prod.fst (List.mem_singleton.1 hin)
          rfl
    · next hne =>
      constructor
      · intro heq
        cases heq
        exact absurd rfl hne
      · exact fun hin => absurd hin (hold _ _)
  · rw [if_neg hother, h other place name']
    split
    · next heq =>
      subst heq
      constructor
      · exact fun hin => List.mem_append_left _ hin
      · intro hin
        rcases List.mem_append.1 hin with hin | hin
        · exact hin
        · exact absurd (hkind _ _ (congrArg Prod.snd (List.mem_singleton.1 hin))).symm hother
    · exact Iff.rfl

end Lists

/-- Setting members changes no parent. -/
theorem parent_eq_setMembers {members : List (String × NamespaceMember)}
    (h : ∀ module n, plan.namespaces.get? module = some n →
      n.parent = (plan.nested.get? module).map Prod.fst) :
    ∀ other n, (setMembers plan module members).namespaces.get? other = some n →
      n.parent = ((setMembers plan module members).nested.get? other).map Prod.fst := by
  intro other n hn
  rw [get?_setMembers] at hn
  rw [nested_setMembers]
  split at hn
  · obtain ⟨n', hn', rfl⟩ := Option.map_eq_some_iff.1 hn
    exact h other n' hn'
  · exact h other n hn

theorem keys_nodup_setMembers {members : List (String × NamespaceMember)}
    (h : plan.namespaces.keys.Nodup) :
    (setMembers plan module members).namespaces.keys.Nodup := by
  unfold setMembers
  split
  · exact Table.nodup_keys_set h _ _
  · exact h

/-- Claiming a namespace and beginning its members change no members. -/
theorem coherent_of_same (h : plan.Coherent) (hgrows : plan.Grows plan')
    (hkeys : plan'.namespaces.keys.Nodup) (hnested : plan'.nested = plan.nested)
    (hmoved : plan'.moved = plan.moved)
    (hmembers : ∀ other, plan'.membersOf other = plan.membersOf other) (hparent : ∀ other n,
      plan'.namespaces.get? other = some n → n.parent = (plan'.nested.get? other).map Prod.fst)
    (hnew : ∀ other, plan'.namespaces.contains other = true →
      plan.namespaces.contains other = false →
      plan'.Within other [] other) : plan'.Coherent where
  keys_nodup := hkeys
  parent_eq := hparent
  contains_nested := fun other place hplace =>
    hgrows.contains (h.contains_nested other place (hnested ▸ hplace))
  moved := fun id other name => by rw [hmoved, hmembers, h.moved]
  nested := fun inner other name => by rw [hnested, hmembers, h.nested]
  names_nodup := fun other => by
    rw [hmembers]
    exact h.names_nodup other
  within := by
    intro other hother
    rw [hmembers]
    cases hc : plan.namespaces.contains other with
    | true =>
      obtain ⟨top, names, hwithin, hle⟩ := h.within other hc
      exact ⟨top, names, hgrows.within hwithin, hle⟩
    | false => exact ⟨other, [], hnew other hother hc, Nat.zero_le _, fun _ => Nat.zero_lt_succ _⟩

theorem coherent_claim (h : plan.Coherent) {name : String}
    (hnew : plan.namespaces.contains module = false) :
    (declareTop plan module name).Coherent := by
  have hget : (declareTop plan module name).namespaces.get? module =
      some ⟨module, name, [], none⟩ := by
    show (plan.namespaces.set module _).get? module = _
    rw [Table.get?_set, if_pos rfl]
  refine coherent_of_same h (grows_declareTop hnew name)
    (Table.nodup_keys_set h.keys_nodup _ _) rfl rfl
    (membersOf_set hnew rfl rfl) (fun other n hn => ?_) (fun other hother hfalse => ?_)
  · have hnested : plan.nested.get? module = none := nested_eq_none h hnew
    by_cases heq : module = other
    · subst heq
      obtain rfl := Option.some.inj (hget.symm.trans hn)
      exact (congrArg (Option.map Prod.fst) hnested).symm
    · have hn' : (plan.namespaces.set module ⟨module, name, [], none⟩).get? other = some n := hn
      rw [Table.get?_set, if_neg heq] at hn'
      exact h.parent_eq other n hn'
  · rcases Table.contains_set.1
      (show (plan.namespaces.set module _).contains other = true from hother) with rfl | hold
    · exact .top hget rfl
    · rw [hold] at hfalse
      cases hfalse

theorem coherent_begin (h : plan.Coherent) (hmodule : plan.namespaces.contains module = true)
    (hmembers : plan.membersOf module = []) : (setMembers plan module []).Coherent := by
  refine coherent_of_same h (grows_setMembers plan module []) (keys_nodup_setMembers h.keys_nodup)
    (nested_setMembers _ _ _) (moved_setMembers _ _ _) (fun other => ?_)
      (parent_eq_setMembers h.parent_eq)
    (fun other hother hfalse => ?_)
  · rw [membersOf_setMembers hmodule]
    by_cases heq : module = other
    · subst heq
      rw [if_pos rfl, hmembers]
    · rw [if_neg heq]
  · rw [contains_setMembers, hfalse] at hother
    cases hother

theorem coherent_refer (h : plan.Coherent) {name : String} {member : NamespaceMember}
    (hopen : IsOpen plan module name) (hmember : IsElsewhere p plan module member) :
    (addMember plan module (name, member)).Coherent := by
  have hmembers := fun other => membersOf_addMember hopen.contains other (name, member)
  obtain ⟨hnames, hwithin⟩ := names_and_within h (grows_setMembers plan module _) hopen hmembers
  constructor
  case keys_nodup => exact keys_nodup_setMembers h.keys_nodup
  case parent_eq => exact parent_eq_setMembers h.parent_eq
  case contains_nested =>
    intro other place hplace
    rw [addMember, nested_setMembers] at hplace
    rw [addMember, contains_setMembers]
    exact h.contains_nested other place hplace
  case moved =>
    rw [addMember, moved_setMembers]
    refine lists_of_other h.moved hmembers ?_
    rintro id rfl
    exact hmember
  case nested =>
    rw [addMember, nested_setMembers]
    refine lists_of_other h.nested hmembers ?_
    rintro id rfl
    exact hmember
  case names_nodup => exact hnames
  case within =>
    intro other hother
    rw [addMember, contains_setMembers] at hother
    exact hwithin other hother

theorem coherent_move (h : plan.Coherent) {name : String} {id : SymbolId}
    (hopen : IsOpen plan module name) (hmoved : plan.isMoved id = false) :
    (addMember (move plan id module name) module (name, .moved id)).Coherent := by
  have hgrows : plan.Grows (move plan id module name) :=
    ⟨fun _ n hn => ⟨n, hn, rfl⟩, fun _ _ => rfl⟩
  have hmembers : ∀ other,
    (addMember (move plan id module name) module (name, .moved id)).membersOf other =
      if module = other then plan.membersOf module ++ [(name, .moved id)]
        else plan.membersOf other :=
    fun other =>
      membersOf_addMember (show (move plan id module name).namespaces.contains module = true from
      hopen.contains) other (name, .moved id)
  obtain ⟨hnames, hwithin⟩ :=
    names_and_within h (hgrows.trans (grows_setMembers _ module _)) hopen hmembers
  constructor
  case keys_nodup => exact keys_nodup_setMembers h.keys_nodup
  case parent_eq =>
    have hparent : ∀ other n, (move plan id module name).namespaces.get? other = some n →
        n.parent = ((move plan id module name).nested.get? other).map Prod.fst := h.parent_eq
    exact parent_eq_setMembers hparent
  case contains_nested =>
    intro other place hplace
    rw [addMember, nested_setMembers] at hplace
    rw [addMember, contains_setMembers]
    exact h.contains_nested other place hplace
  case moved =>
    rw [addMember, moved_setMembers]
    exact lists_set h.moved hmembers (fun _ _ heq => by cases heq; rfl)
      (Table.contains_eq_false_iff.1 hmoved)
  case nested =>
    rw [addMember, nested_setMembers]
    exact lists_of_other h.nested hmembers (fun _ heq => by cases heq)
  case names_nodup => exact hnames
  case within =>
    intro other hother
    rw [addMember, contains_setMembers] at hother
    exact hwithin other hother

/-- A namespace that gets a place notes the namespace around it. -/
theorem parent_eq_nest (h : plan.Coherent) {name : String} {inner other : SymbolId}
    {n : PlannedNamespace} (hn : (nest plan inner module name).namespaces.get? other = some n) :
    n.parent = ((nest plan inner module name).nested.get? other).map Prod.fst := by
  have hn' : (plan.namespaces.set inner ⟨inner, name, [], some module⟩).get? other = some n := hn
  show _ = ((plan.nested.set inner (module, name)).get? other).map Prod.fst
  rw [Table.get?_set] at hn' ⊢
  split at hn'
  · next heq =>
    obtain rfl := Option.some.inj hn'
    rw [if_pos heq]
    rfl
  · next hne =>
    rw [if_neg hne]
    exact h.parent_eq other n hn'

/-- A namespace that gets a place in an open one lies one level below it. -/
theorem within_nest {name : String} {inner : SymbolId} (hopen : IsOpen plan module name)
    (hnew : plan.namespaces.contains inner = false) {member : String × NamespaceMember}
    (hgrows : plan.Grows (addMember (nest plan inner module name) module member)) :
    ∃ top names, (addMember (nest plan inner module name) module member).Within top names inner ∧
      names.length ≤ maxNesting ∧
        (addMember (nest plan inner module name) module member).membersOf inner = [] := by
  obtain ⟨top, names, houter, hlt⟩ := hopen.within
  have hget : (addMember (nest plan inner module name) module member).namespaces.get? inner =
      some ⟨inner, name, [], some module⟩ := by
    rw [addMember, get?_setMembers, if_neg (ne_of_contains hopen.contains hnew).symm]
    exact (Table.get?_set _ _ _ _).trans (if_pos rfl)
  have hplace : (addMember (nest plan inner module name) module member).nested.get? inner =
      some (module, name) := by
    rw [addMember, nested_setMembers]
    exact (Table.get?_set _ _ _ _).trans (if_pos rfl)
  refine ⟨top, names ++ [name], .inside hget rfl hplace (hgrows.within houter), ?_, ?_⟩
  · rw [List.length_append, List.length_singleton]
    exact hlt
  · rw [Plan.membersOf, hget]
    rfl

theorem coherent_nest (h : plan.Coherent) {name : String} {inner : SymbolId}
    (hopen : IsOpen plan module name) (hnew : plan.namespaces.contains inner = false) :
    (addMember (nest plan inner module name) module (name, .nested inner)).Coherent := by
  have hgrows : plan.Grows (nest plan inner module name) := grows_nest hnew module name
  have hkept : ∀ other, (nest plan inner module name).membersOf other = plan.membersOf other :=
    membersOf_set hnew rfl rfl
  have hmembers : ∀ other,
    (addMember (nest plan inner module name) module (name, .nested inner)).membersOf other =
      if module = other then plan.membersOf module ++ [(name, .nested inner)]
        else plan.membersOf other := by
    intro other
    rw [membersOf_addMember (hgrows.contains hopen.contains), hkept, hkept]
  have hall := hgrows.trans (grows_setMembers _ module
    ((nest plan inner module name).membersOf module ++ [(name, .nested inner)]))
  obtain ⟨hnames, hwithin⟩ := names_and_within h hall hopen hmembers
  have hcontains : ∀ other, (nest plan inner module name).namespaces.contains other = true ↔
      inner = other ∨ plan.namespaces.contains other = true := fun other => Table.contains_set
  have hnested : ∀ other, (nest plan inner module name).nested.get? other =
      if inner = other then some (module, name) else plan.nested.get? other := fun other =>
        Table.get?_set _ _ _ _
  constructor
  case keys_nodup => exact keys_nodup_setMembers (Table.nodup_keys_set h.keys_nodup _ _)
  case parent_eq => exact parent_eq_setMembers fun other n hn => parent_eq_nest h hn
  case contains_nested =>
    intro other place hplace
    rw [addMember, nested_setMembers, hnested] at hplace
    rw [addMember, contains_setMembers, hcontains]
    split at hplace
    · next heq => exact .inl heq
    · exact .inr (h.contains_nested other place hplace)
  case moved =>
    rw [addMember, moved_setMembers]
    exact lists_of_other h.moved hmembers (fun _ heq => by cases heq)
  case nested =>
    rw [addMember, nested_setMembers]
    exact lists_set h.nested hmembers (fun _ _ heq => by cases heq; rfl) (nested_eq_none h hnew)
  case names_nodup => exact hnames
  case within =>
    intro other hother
    rw [addMember, contains_setMembers, hcontains] at hother
    rcases hother with rfl | hother
    · -- the new namespace has no members yet, so it may be as deep as any
      obtain ⟨top, names, hplace, hle, hnil⟩ := within_nest hopen hnew hall
      exact ⟨top, names, hplace, hle, fun hne => absurd hnil hne⟩
    · exact hwithin other hother

/-- Every step keeps a plan coherent. -/
theorem Step.coherent (h : Step p collection plan plan') (hplan : plan.Coherent) :
    plan'.Coherent := by
  cases h with
  | claim module name hwanted hnew => exact coherent_claim hplan hnew
  | begin_ module hmodule hmembers => exact coherent_begin hplan hmodule hmembers
  | refer module name member hopen hmember => exact coherent_refer hplan hopen hmember
  | move module id name hopen _ _ _ hmoved _ => exact coherent_move hplan hopen hmoved
  | nest module inner name hopen _ hnew => exact coherent_nest hplan hopen hnew

theorem coherent_start (exports_ : List PlannedExport) : Plan.Coherent { exports_ } where
  keys_nodup := List.nodup_nil
  parent_eq := fun _ _ h => by cases h
  contains_nested := fun _ _ h => by cases h
  moved := fun _ _ _ => ⟨fun h => (by cases h), fun h => (by cases h)⟩
  nested := fun _ _ _ => ⟨fun h => (by cases h), fun h => (by cases h)⟩
  names_nodup := fun _ => List.nodup_nil
  within := fun _ h => by cases h

theorem coherent_of_steps (h : Steps p collection plan plan') (hplan : plan.Coherent) :
    plan'.Coherent := by
  induction h with
  | refl => exact hplan
  | tail _ hstep ih => exact hstep.coherent ih

/-- Every plan is coherent. -/
theorem coherent_plan (p : Project) (collection : Collection) (exports_ : List ModuleExport) :
    (p.plan exports_ collection).Coherent :=
  coherent_of_steps (steps_plan p collection exports_) (coherent_start _)

end Planning

namespace Plan.Coherent

variable {plan : Plan} (h : plan.Coherent)

include h

/-! ## Every member has one place -/

/-- Of the members of one kind no two are the same. -/
theorem nodup_members {table : Table SymbolId (SymbolId × String)}
    {kind : SymbolId → NamespaceMember} (hlists : plan.Lists table kind)
    {f : String × NamespaceMember → Option SymbolId}
    (hf : ∀ name member id, f (name, member) = some id → member = kind id) (module : SymbolId) :
    ((plan.membersOf module).filterMap f).Nodup := by
  have hmembers : (plan.membersOf module).Nodup := List.Nodup.of_map _ (h.names_nodup module)
  refine List.pairwise_filterMap.2 (hmembers.imp_of_mem ?_)
  rintro ⟨name, member⟩ ⟨name', member'⟩ hin hin' hne id hid id' hid' rfl
  obtain rfl := hf _ _ _ hid
  obtain rfl := hf _ _ _ hid'
  have hplace := (hlists id module name).2 hin
  rw [(hlists id module name').2 hin'] at hplace
  cases hplace
  exact hne rfl

theorem mem_movedInto_iff (id module : SymbolId) :
    id ∈ plan.movedInto module ↔ ∃ name, plan.moved.get? id = some (module, name) := by
  constructor
  · intro hid
    obtain ⟨⟨name, member⟩, hmember, hid⟩ := List.mem_filterMap.1 hid
    cases member with
    | moved other =>
      obtain rfl := Option.some.inj hid
      exact ⟨name, (h.moved _ _ _).2 hmember⟩
    | _ => cases hid
  · rintro ⟨name, hname⟩
    exact List.mem_filterMap.2 ⟨_, (h.moved _ _ _).1 hname, rfl⟩

theorem nodup_movedInto (module : SymbolId) : (plan.movedInto module).Nodup := by
  refine h.nodup_members h.moved (fun name member id hid => ?_) module
  cases member with
  | moved other =>
    obtain rfl := Option.some.inj hid
    rfl
  | _ => cases hid

end Plan.Coherent

namespace Plan

/-- The modules whose namespaces are declared in the one for a module. -/
def nestedInto (plan : Plan) (module : SymbolId) : List SymbolId :=
  Planning.nestedAmong (plan.membersOf module)

namespace Coherent

variable {plan : Plan} (h : plan.Coherent)

include h

theorem mem_nestedInto_iff (inner module : SymbolId) :
    inner ∈ plan.nestedInto module ↔ ∃ name, plan.nested.get? inner = some (module, name) := by
  constructor
  · intro hinner
    obtain ⟨⟨name, member⟩, hmember, hinner⟩ := List.mem_filterMap.1 hinner
    cases member with
    | nested other =>
      obtain rfl := Option.some.inj hinner
      exact ⟨name, (h.nested _ _ _).2 hmember⟩
    | _ => cases hinner
  · rintro ⟨name, hname⟩
    exact List.mem_filterMap.2 ⟨_, (h.nested _ _ _).1 hname, rfl⟩

theorem nodup_nestedInto (module : SymbolId) : (plan.nestedInto module).Nodup := by
  refine h.nodup_members h.nested (fun name member id hid => ?_) module
  cases member with
  | nested other =>
    obtain rfl := Option.some.inj hid
    rfl
  | _ => cases hid

/-- The namespaces of a plan are a forest. -/
theorem isChildOf_nestedInto (inner : SymbolId) :
    IsChildOf plan.nestedInto ((plan.nested.get? inner).map Prod.fst) inner := by
  intro module
  by_cases hinner : inner ∈ plan.nestedInto module
  · obtain ⟨name, hname⟩ := (h.mem_nestedInto_iff inner module).1 hinner
    rw [List.count_eq_one_of_mem (h.nodup_nestedInto module) hinner, hname]
    simp
  · rw [List.count_eq_zero.2 hinner, if_neg]
    intro hparent
    obtain ⟨⟨_, name⟩, hname, rfl⟩ := Option.map_eq_some_iff.1 hparent
    exact hinner ((h.mem_nestedInto_iff _ _).2 ⟨name, hname⟩)

/-- From a namespace one comes to the top level over as many levels as there are names. -/
theorem hangs_of_within {top module : SymbolId} {names : List String}
    (hwithin : plan.Within top names module) :
    Hangs plan.nestedInto top module names.length := by
  induction hwithin with
  | top hn hparent =>
    have htop := h.isChildOf_nestedInto top
    rw [← h.parent_eq top _ hn, hparent] at htop
    exact .root htop
  | @inside n module outer name names hn hparent hname houter ih =>
    have hmodule := h.isChildOf_nestedInto module
    rw [hname] at hmodule
    rw [List.length_append, List.length_singleton]
    exact .child ih hmodule

/-- There are at least as many namespaces as levels. -/
theorem length_le_size {top module : SymbolId} {names : List String}
    (hwithin : plan.Within top names module) :
    names.length ≤ plan.namespaces.size := by
  have hkeys : ∀ outer, plan.nestedInto outer ≠ [] → outer ∈ plan.namespaces.keys := by
    intro outer hne
    obtain ⟨inner, hinner⟩ := List.exists_mem_of_ne_nil _ hne
    obtain ⟨member, hmember, -⟩ := List.mem_filterMap.1 hinner
    exact (plan.namespaces.contains_iff_mem_keys outer).1
      (Planning.contains_of_mem_membersOf hmember)
  have hle := (h.hangs_of_within hwithin).le_length hkeys
  rwa [Table.keys, List.length_map] at hle

end Coherent

end Plan

namespace Planning

variable (p : Project) (collection : Collection) (exports_ : List ModuleExport)

/-! ## Namespaces at the top level -/

/-- A namespace at the top level is found under its module, and is nested in no other. -/
theorem get?_of_mem_topNamespaces {n : PlannedNamespace}
    (h : n ∈ (p.plan exports_ collection).topNamespaces) :
    (p.plan exports_ collection).namespaces.get? n.module = some n ∧
      (p.plan exports_ collection).nested.get? n.module = none := by
  have hplan := coherent_plan p collection exports_
  obtain ⟨hmem, hparent⟩ := List.mem_filter.1 h
  obtain ⟨⟨module, n'⟩, hentry, rfl⟩ := List.mem_map.1 hmem
  obtain rfl : n'.module = module := module_of_mem_namespaces p collection hentry
  have hget := Table.get?_of_mem hplan.keys_nodup hentry
  refine ⟨hget, ?_⟩
  have hmap := hplan.parent_eq _ _ hget
  rw [Option.isNone_iff_eq_none.1 hparent] at hmap
  exact Option.map_eq_none_iff.1 hmap.symm

/-- The modules of the namespaces at the top level are all different. -/
theorem nodup_topNamespaces :
    ((p.plan exports_ collection).topNamespaces.map PlannedNamespace.module).Nodup := by
  have hplan := coherent_plan p collection exports_
  have hmodules : (p.plan exports_ collection).namespaces.values.map PlannedNamespace.module =
      (p.plan exports_ collection).namespaces.keys := by
    rw [Table.values, Table.keys, List.map_map]
    exact List.map_congr_left fun entry hentry => module_of_mem_namespaces p collection hentry
  have hsub : ((p.plan exports_ collection).topNamespaces.map PlannedNamespace.module).Sublist
      (p.plan exports_ collection).namespaces.keys := hmodules ▸ List.filter_sublist.map _
  exact hplan.keys_nodup.sublist hsub

end Planning

end DeclBundle
