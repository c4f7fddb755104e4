import DeclBundle.Proofs.Depths
import DeclBundle.Proofs.Ending
import DeclBundle.Proofs.FollowingAliases

/-!
# Aliases that are asked for

The search for the target of an alias asks for the targets of other aliases, when a member of a
namespace is meant that an alias stands for (`Project.askedBy`). It comes to an end when some depth
is enough (`Project.AliasEnds`), and otherwise an alias asks for its own target on the way, as
`import A = A.B` does. A search that ends needs no more depth than there are symbols
(`Project.aliasEndsTo_of_ends`), and then what it finds does not depend on the depth
(`Project.aliasTargetTo_eq`).

Collecting asks for the targets of aliases at every name that it visits. It comes to an end when all
these searches do (`Project.CollectingEnds`).
-/

set_option autoImplicit false

namespace DeclBundle

namespace Project

variable (p : Project)

/-! ## What is asked for -/

/-- The aliases that are followed from a symbol, over at most `hops` of them. -/
def followed : (hops : Nat) → List SymbolId → SymbolId → List SymbolId
  | 0, _, _ => []
  | hops + 1, visited, id =>
    match p.symbol? id with
    | none => []
    | some symbol =>
      if !symbol.isAlias || visited.contains id then []
      else id :: (p.aliasTarget? id).elim [] (followed hops (id :: visited))

/-- The aliases that are followed to reach a member over several names. -/
def followedOnPath (a : Arena) : SymbolId → List Slot → List SymbolId
  | _, [] => []
  | container, part :: rest =>
    match a.nameText? part with
    | none => []
    | some name =>
      p.followed maxAliasHops [] container ++
        (p.member? container name).elim [] (followedOnPath a · rest)

/-- The aliases that are followed to find what a dotted name means. -/
def followedForEntity (entity : NodeRef) : List SymbolId :=
  match p.file? entity.file with
  | none => []
  | some file =>
    match entityParts file.arena entity.node with
    | [] => []
    | first :: rest =>
      match first.bind (file.resolved[·]?) with
      | none => []
      | some start => p.followedOnPath file.arena start rest

/-- The aliases whose targets the search for the target of an alias asks for. -/
def askedBy (id : SymbolId) : List SymbolId :=
  match (p.symbol? id).bind Symbol.aliasOf with
  | some (.name entity) => p.followedForEntity entity
  | _ => []

/-- The search for the target of an alias ends with fewer than `depth` aliases that depend on each
other. -/
def aliasEndsTo : (depth : Nat) → SymbolId → Bool
  | 0, _ => false
  | depth + 1, id => (p.askedBy id).all (aliasEndsTo depth)

/-- The search for the target of an alias comes to an end. -/
def AliasEnds (id : SymbolId) : Prop := ∃ depth, p.aliasEndsTo depth id = true

/-! ## The depth of a search -/

variable {p}

theorem aliasEndsTo_succ {depth : Nat} {id : SymbolId} (h : p.aliasEndsTo depth id = true) :
    p.aliasEndsTo (depth + 1) id = true := by
  induction depth generalizing id with
  | zero => cases h
  | succ depth ih =>
    rw [aliasEndsTo, List.all_eq_true] at h ⊢
    intro other hother
    exact ih (h other hother)

/-- Only symbols of the project ask for something. -/
theorem index_lt_of_mem_askedBy {id other : SymbolId} (h : other ∈ p.askedBy id) :
    id.index < p.tables.symbols.size := by
  rw [askedBy] at h
  cases hid : p.symbol? id with
  | none =>
    rw [hid] at h
    cases h
  | some symbol => exact (Array.getElem?_eq_some_iff.1 hid).1

/-- Searches for targets that need a depth. -/
theorem deepens_aliasEndsTo (p : Project) :
    Deepens (fun depth id => p.aliasEndsTo depth id = true) (fun _ => True) SymbolId.index
      (List.range p.tables.symbols.size) where
  zero id h := nomatch h
  succ depth id h := aliasEndsTo_succ h
  injective id other _ _ heq := by
    cases id
    cases other
    exact congrArg SymbolId.mk heq
  asks depth id _ hshort hends := by
    rw [aliasEndsTo, List.all_eq_true] at hshort hends
    simp only [not_forall] at hshort
    obtain ⟨other, hother, hneeded⟩ := hshort
    refine ⟨List.mem_range.2 (index_lt_of_mem_askedBy hother), other, trivial, hneeded, ?_⟩
    exact hends other hother

/-- A depth above the number of symbols is enough for every search that ends. -/
theorem aliasEndsTo_of_ends {id : SymbolId} (h : p.AliasEnds id) {depth : Nat}
    (hdepth : p.tables.symbols.size < depth) : p.aliasEndsTo depth id = true := by
  obtain ⟨enough, henough⟩ := h
  have hdeepens := p.deepens_aliasEndsTo
  have hends := hdeepens.endsIn trivial henough
  rw [List.length_range] at hends
  exact hdeepens.endsIn_of_le hdepth hends

/-- An alias that asks for its own target is searched forever. -/
theorem not_aliasEnds_of_mem {id : SymbolId} (h : id ∈ p.askedBy id) : ¬ p.AliasEnds id := by
  rintro ⟨depth, hends⟩
  induction depth with
  | zero => cases hends
  | succ depth ih =>
    rw [aliasEndsTo] at hends
    exact ih (List.all_eq_true.1 hends id h)

/-! ## Targets that are not asked for -/

section Asked

variable {target : SymbolId → Option SymbolId}

/-- Following aliases asks for no targets but those of the aliases that are followed. -/
theorem followAliases_congr {hops : Nat} {visited : List SymbolId} {id : SymbolId}
    (h : ∀ other ∈ p.followed hops visited id, target other = p.aliasTarget? other) :
    p.followAliases target hops visited id = p.followAliases p.aliasTarget? hops visited id := by
  induction hops generalizing visited id with
  | zero => rw [followAliases, followAliases]
  | succ hops ih =>
    rw [followed] at h
    rw [followAliases, followAliases]
    cases hid : p.symbol? id with
    | none => simp only
    | some symbol =>
      rw [hid] at h
      dsimp only at h ⊢
      cases halias : symbol.isAlias with
      | false => simp only [Bool.not_false, if_true]
      | true =>
        rw [Bool.not_true, if_neg Bool.false_ne_true, if_neg Bool.false_ne_true]
        rw [halias, Bool.not_true, Bool.false_or] at h
        cases hvisited : visited.contains id with
        | true => rw [if_pos rfl, if_pos rfl]
        | false =>
          rw [hvisited, if_neg Bool.false_ne_true] at h
          rw [if_neg Bool.false_ne_true, if_neg Bool.false_ne_true, h id List.mem_cons_self]
          apply Option.bind_congr
          intro next hnext
          rw [hnext, Option.elim_some] at h
          exact ih fun other hother => h other (List.mem_cons_of_mem id hother)

theorem memberBy_congr {container : SymbolId} {name : String}
    (h : ∀ other ∈ p.followed maxAliasHops [] container, target other = p.aliasTarget? other) :
    p.memberBy target container name = p.member? container name := by
  rw [member?, memberBy, memberBy, followAliases_congr h]

theorem memberPath_congr {a : Arena} {start : SymbolId} {parts : List Slot}
    (h : ∀ other ∈ p.followedOnPath a start parts, target other = p.aliasTarget? other) :
    p.memberPath target a start parts = p.memberPath p.aliasTarget? a start parts := by
  induction parts generalizing start with
  | nil => rw [memberPath, memberPath, List.foldlM_nil, List.foldlM_nil]
  | cons part rest ih =>
    rw [followedOnPath] at h
    rw [memberPath, memberPath, List.foldlM_cons, List.foldlM_cons]
    have hfirst : (a.nameText? part).bind (p.memberBy target start) =
        (a.nameText? part).bind (p.member? start) := by
      apply Option.bind_congr
      intro name hname
      rw [hname] at h
      exact memberBy_congr fun other hother => h other (List.mem_append_left _ hother)
    rw [hfirst]
    apply Option.bind_congr
    intro next hnext
    obtain ⟨name, hname, hmember⟩ := Option.bind_eq_some_iff.1 hnext
    rw [hname] at h
    dsimp only at h
    rw [hmember, Option.elim_some] at h
    exact ih fun other hother => h other (List.mem_append_right _ hother)

theorem entityBy_congr {entity : NodeRef}
    (h : ∀ other ∈ p.followedForEntity entity, target other = p.aliasTarget? other) :
    p.entityBy target entity = p.entity? entity := by
  rw [followedForEntity] at h
  rw [entity?, entityBy, entityBy]
  apply Option.bind_congr
  intro file hfile
  rw [hfile] at h
  dsimp only at h
  cases hparts : entityParts file.arena entity.node with
  | nil => simp only
  | cons first rest =>
    rw [hparts] at h
    dsimp only at h ⊢
    apply Option.bind_congr
    intro node hnode
    apply Option.bind_congr
    intro start hstart
    rw [hnode, Option.bind_some, hstart] at h
    exact memberPath_congr h

/-- The search for the target of an alias asks for no targets but those that it asks for. -/
theorem aliasStep_congr {id : SymbolId}
    (h : ∀ other ∈ p.askedBy id, target other = p.aliasTarget? other) :
    p.aliasStep target id = p.aliasTarget? id := by
  rw [aliasTarget?_eq, aliasStep, aliasStep]
  rw [askedBy] at h
  apply Option.bind_congr
  intro symbol hsymbol
  apply Option.bind_congr
  intro declared hdeclared
  rw [hsymbol, Option.bind_some, hdeclared] at h
  cases declared with
  | name entity => exact entityBy_congr h
  | export_ specifier exportName => simp only
  | module_ specifier => simp only

/-- A search that ends within a depth has found the target there, if there is one. -/
theorem aliasTargetTo_eq {depth : Nat} {id : SymbolId} (h : p.aliasEndsTo depth id = true) :
    p.aliasTargetTo depth id = p.aliasTarget? id := by
  induction depth generalizing id with
  | zero => cases h
  | succ depth ih =>
    rw [aliasEndsTo] at h
    rw [aliasTargetTo_succ]
    apply aliasStep_congr
    intro other hother
    exact ih (List.all_eq_true.1 h other hother)

end Asked

/-! ## Collecting -/

variable (p)

/-- The aliases that are followed at a name that a walk visits: from every symbol to which its parts
lead. -/
def followedAt (name : NodeRef) : List SymbolId :=
  if p.startsAtParameter name then []
  else
    match p.start? name with
    | none => []
    | some (first, names) =>
      (Collecting.memberChain p first (names.drop 1)).flatMap (p.followed maxAliasHops [])

/-- The aliases that are followed on a walk over the written declarations of a symbol. -/
def followedOnWalk (owner : SymbolId) : List SymbolId :=
  (p.writtenDeclarations owner).flatMap fun ref =>
    match p.arena? ref.file with
    | none => []
    | some a => (stops a ref.node).flatMap fun
      | .name slot => p.followedAt ⟨ref.file, slot⟩
      | .unhandled => []

/-- The aliases that are followed to find what the exports in a list stand for. -/
def followedForExports (exports_ : List ModuleExport) : List SymbolId :=
  exports_.flatMap fun e => p.followed maxAliasHops [] e.symbol

/-- The aliases whose targets are asked for while a collection is made: for the given exports, at
the names in kept declarations, and for the named exports of modules that are used as a whole. -/
def askedFor (exports_ : List ModuleExport) (c : Collection) : List SymbolId :=
  p.followedForExports exports_ ++ c.kept.flatMap p.followedOnWalk ++
    c.namespaces.keys.flatMap fun module =>
      p.followedForExports ((p.exportsOf module).filter fun e => !isUnnamedExport e.name)

/-- Collecting for given exports comes to an end: the searches for all targets do that it asks
for. -/
def CollectingEnds (exports_ : List ModuleExport) : Prop :=
  ∀ id ∈ p.askedFor exports_ (p.collect exports_), p.AliasEnds id

/-- Collects what the given exports need, if at most `depth` visits are inside each other and fewer
than `depth` aliases depend on each other on the way. -/
def collectTo? (depth : Nat) (exports_ : List ModuleExport) : Option Collection :=
  let c := p.collectTo depth exports_
  if (p.askedFor exports_ c).all (p.aliasEndsTo depth) then some c else none

variable {p} {exports_ : List ModuleExport} {depth : Nat} (hdepth : p.tables.symbols.size < depth)

include hdepth

/-- Collecting that comes to an end needs no greater depth than there are symbols. -/
theorem collectTo?_of_ends (h : p.CollectingEnds exports_) :
    p.collectTo? depth exports_ = some (p.collect exports_) := by
  rw [collectTo?, p.collectTo_eq hdepth]
  apply if_pos
  rw [List.all_eq_true]
  intro id hid
  exact aliasEndsTo_of_ends (h id hid) hdepth

theorem collectTo?_eq_some_iff {c : Collection} :
    p.collectTo? depth exports_ = some c ↔ p.CollectingEnds exports_ ∧ c = p.collect exports_ := by
  constructor
  · intro h
    rw [collectTo?, p.collectTo_eq hdepth] at h
    obtain ⟨hall, hc⟩ := Option.ite_none_right_eq_some.1 h
    refine ⟨?_, (Option.some.inj hc).symm⟩
    intro id hid
    exact ⟨depth, List.all_eq_true.1 hall id hid⟩
  · rintro ⟨hends, rfl⟩
    exact collectTo?_of_ends hdepth hends

end Project

end DeclBundle
