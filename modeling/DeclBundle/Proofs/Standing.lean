import DeclBundle.Bundle.Basic
import DeclBundle.Proofs.BoundNames
import DeclBundle.Proofs.Collecting
import DeclBundle.Proofs.Laying
import DeclBundle.Proofs.Placing
import DeclBundle.Proofs.UniqueNames
import DeclBundle.Project.Loading

/-!
# Every statement stands once

A declaration that is kept is copied to statements, and each of them stands in the finished bundle
exactly once (`Bundle.statements_stand_once`): at the top level, unless its symbol is moved, and
otherwise in the body of exactly one namespace that was added for a module. This holds for every way
in which namespaces are nested, meet in cycles or reach the deepest level that a plan has.

When the tree is laid out, the statements at the top level and those of namespaces are used once
each (`Plan.count_statements_le_one`), so no node has a second place. That each of them has a place
at all follows the plan from the top level down (`Build.exists_namespace`).
-/

set_option autoImplicit false

namespace DeclBundle

/-! ## Counting statements -/

/-- What comes from one element only is there as often as the element. -/
theorem count_flatMap_of_only {α β : Type} [DecidableEq α] [DecidableEq β] {f : α → List β}
    {x : α} {s : β} (hself : (f x).count s = 1) (hother : ∀ y, s ∈ f y → y = x) (ys : List α) :
    (ys.flatMap f).count s = ys.count x := by
  induction ys with
  | nil => rfl
  | cons y ys ih =>
    rw [List.flatMap_cons, List.count_append, ih, List.count_cons]
    by_cases hy : y = x
    · subst hy
      rw [hself, beq_self_eq_true, if_pos rfl, Nat.add_comm]
    · have hnone : (f y).count s = 0 := List.count_eq_zero.2 fun hs => hy (hother y hs)
      rw [hnone, if_neg (by simpa using hy), Nat.zero_add, Nat.add_zero]

/-- The statements of different symbols are different. -/
structure AreApart (statementsOf : SymbolId → List NodeId) : Prop where
  nodup : ∀ id, (statementsOf id).Nodup
  apart : ∀ id id' s, s ∈ statementsOf id → s ∈ statementsOf id' → id = id'

theorem AreApart.count_flatMap {statementsOf : SymbolId → List NodeId} (h : AreApart statementsOf)
    {id : SymbolId} {s : NodeId} (hs : s ∈ statementsOf id) (ids : List SymbolId) :
    (ids.flatMap statementsOf).count s = ids.count id :=
  count_flatMap_of_only (List.count_eq_one_of_mem (h.nodup id) hs)
    (fun _ hs' => h.apart _ _ s hs' hs) ids

namespace Plan

variable {plan : Plan} {statementsOf : SymbolId → List NodeId}

/-- The statements for members are those of what is moved, and those for what is nested. -/
theorem flatMap_members_perm (inside : SymbolId → List NodeId)
    (members : List (String × NamespaceMember)) :
    (members.flatMap fun member => match member.2 with
      | .moved id => statementsOf id
      | .nested inner => inside inner
      | _ => []).Perm
    ((members.filterMap fun
      | (_, .moved id) => some id
      | _ => none).flatMap statementsOf ++ (Planning.nestedAmong members).flatMap inside) := by
  induction members with
  | nil => exact .refl _
  | cons member members ih =>
    obtain ⟨name, member⟩ := member
    cases member with
    | moved id =>
      simp only [List.flatMap_cons, List.filterMap_cons, List.append_assoc]
      exact ih.append_left _
    | nested inner =>
      -- what is nested comes first here, and last among the statements of all members
      simp only [List.flatMap_cons, List.filterMap_cons, Planning.nestedAmong]
      refine (ih.append_left (inside inner)).trans ?_
      rw [← List.append_assoc, ← List.append_assoc]
      exact List.perm_append_comm.append_right _
    | reexposed _ => exact ih
    | qualified _ => exact ih

/-- The statements below a namespace are those that are moved into it or into one below it. -/
theorem statementsBelow_perm (plan : Plan) (statementsOf : SymbolId → List NodeId) (depth : Nat)
    (module : SymbolId) :
    (plan.statementsBelow statementsOf depth module).Perm
      ((descendantsTo plan.nestedInto depth module).flatMap fun m =>
        (plan.movedInto m).flatMap statementsOf) := by
  induction depth generalizing module with
  | zero => exact .refl _
  | succ depth ih =>
    rw [statementsBelow, descendantsTo, List.flatMap_cons, List.flatMap_assoc]
    refine (flatMap_members_perm _ _).trans (List.Perm.append_left _ ?_)
    exact List.Perm.flatMap_left _ fun inner _ => ih inner

/-- A statement is at the top level or below a namespace there, and nowhere twice. -/
theorem Coherent.count_statements_le_one (h : plan.Coherent) (hapart : AreApart statementsOf)
    {kept : List SymbolId} (hkept : kept.Nodup) {tops : List SymbolId} (htops : tops.Nodup)
    (hparents : ∀ top ∈ tops, plan.nested.get? top = none) (depth : Nat) (s : NodeId) :
    ((kept.filter (! plan.isMoved ·)).flatMap statementsOf ++
      tops.flatMap (plan.statementsBelow statementsOf depth)).count s ≤ 1 := by
  by_cases hs : ∃ id, s ∈ statementsOf id
  · obtain ⟨id, hs⟩ := hs
    -- below the top, statements are counted by the symbol that is moved there
    have hbelow : (tops.flatMap (plan.statementsBelow statementsOf depth)).count s =
        ((tops.flatMap (descendantsTo plan.nestedInto depth)).flatMap plan.movedInto).count id := by
      have hperm : (tops.flatMap (plan.statementsBelow statementsOf depth)).Perm
          (((tops.flatMap (descendantsTo plan.nestedInto depth)).flatMap plan.movedInto).flatMap
              statementsOf) := by
        rw [List.flatMap_assoc, List.flatMap_assoc]
        exact List.Perm.flatMap_left _ fun top _ => plan.statementsBelow_perm statementsOf depth top
      rw [hperm.count_eq, hapart.count_flatMap hs]
    rw [List.count_append, hapart.count_flatMap hs, hbelow]
    cases hmoved : plan.moved.get? id with
    | none =>
      have hnot :
          id ∉ (tops.flatMap (descendantsTo plan.nestedInto depth)).flatMap plan.movedInto := by
        intro hid
        obtain ⟨module, -, hid⟩ := List.mem_flatMap.1 hid
        obtain ⟨name, hname⟩ := (h.mem_movedInto_iff id module).1 hid
        rw [hmoved] at hname
        cases hname
      rw [List.count_eq_zero.2 hnot, Nat.add_zero]
      exact List.nodup_iff_count_le_one.1 (hkept.filter _) id
    | some place =>
      obtain ⟨module, name⟩ := place
      -- a moved symbol has left the top level and has one place in the forest of namespaces
      have hnot : id ∉ kept.filter (! plan.isMoved ·) := by
        intro hid
        have hfalse := (List.mem_filter.1 hid).2
        rw [show plan.isMoved id = true from Table.contains_of_get? hmoved] at hfalse
        cases hfalse
      have hmember : id ∈ plan.movedInto module := (h.mem_movedInto_iff id module).2 ⟨name, hmoved⟩
      have hcount :
        ((tops.flatMap (descendantsTo plan.nestedInto depth)).flatMap plan.movedInto).count id =
          (tops.flatMap (descendantsTo plan.nestedInto depth)).count module := by
        refine count_flatMap_of_only (List.count_eq_one_of_mem (h.nodup_movedInto module) hmember)
          (fun other hother => ?_) _
        obtain ⟨name', hname'⟩ := (h.mem_movedInto_iff id other).1 hother
        rw [hmoved] at hname'
        cases hname'
        rfl
      rw [List.count_eq_zero.2 hnot, Nat.zero_add, hcount]
      refine count_forest_le_one h.isChildOf_nestedInto htops (fun top htop => ?_) depth module
      rw [hparents top htop]
      rfl
  · rw [List.count_eq_zero.2]
    · exact Nat.zero_le _
    · intro hmem
      rcases List.mem_append.1 hmem with hmem | hmem
      · obtain ⟨id, -, hid⟩ := List.mem_flatMap.1 hmem
        exact hs ⟨id, hid⟩
      · obtain ⟨top, -, hmem⟩ := List.mem_flatMap.1 hmem
        obtain ⟨module, -, hmem⟩ :=
          List.mem_flatMap.1 ((plan.statementsBelow_perm statementsOf depth top).mem_iff.1 hmem)
        obtain ⟨id, -, hid⟩ := List.mem_flatMap.1 hmem
        exact hs ⟨id, hid⟩

end Plan

/-! ## The finished tree -/

namespace Arena

variable {a b : Arena}

/-- Places are told by the forms of nodes. -/
theorem places_congr (h : ∀ slot, b.form? slot = a.form? slot) (n : NodeId) :
    b.places n = a.places n := by
  have hab : a.Extends b := fun m form hform => (h m).trans hform
  have hba : b.Extends a := fun m form hform => (h m).symm.trans hform
  have hsize : b.size = a.size := Nat.le_antisymm hba.size_le hab.size_le
  rw [places, places, hsize]
  refine Finset.sum_congr rfl fun i _ => ?_
  rw [children, children, h]

/-- A node that was nobody's child is given a place only in new nodes. -/
theorem Unplaced.size_le {n parent : NodeId} (h : a.Unplaced n) (hext : a.Extends b)
    (hn : n ∈ b.children (some parent)) : a.size ≤ parent.index := by
  by_contra hlt
  refine h parent ?_
  rwa [children, ← hext.form?_eq (Nat.lt_of_not_le hlt)]

end Arena

namespace Build

variable (p : Project) (collection : Collection) (plan : Plan) (naming : Naming)

/-- Writes the final names and modifiers at everything that was copied. -/
def settle : Build Unit := do
  nameReferences p collection naming
  nameDeclarations collection plan naming
  setModifiers collection plan

/-- Adds everything that was not copied. -/
def addRest : Build NodeId := do
  let imports ← imports collection naming
  let t ← get
  let exports_ ← exportStatements p plan naming
  let namespaces ← namespaceStatements p plan naming
  add (.sourceFile
    ((imports ++ (collection.kept.filter (! plan.isMoved ·)).flatMap t.statementsOf ++ exports_ ++
    namespaces).map some) true)

theorem layOut_eq : layOut p collection plan naming = do
    settle p collection plan naming
    let root ← addRest p collection plan naming
    modify fun t => { t with arena := t.arena.setParents (some root) }
    return root := rfl

/-- The finished tree has everything that was settled and what was added to it. -/
structure IsLaidOut (settled : BundleTree) (root : NodeId) (t : BundleTree)
    (imports exports_ namespaces : List NodeId) :
    Prop where
  form_eq : t.arena.form? (some root) = some (.sourceFile ((imports ++
    (collection.kept.filter (! plan.isMoved ·)).flatMap settled.statementsOf ++ exports_ ++
      namespaces).map some) true)
  extends_ : settled.arena.Extends t.arena
  notes : SameNotes settled t
  imports : ∀ Q : List NodeId → Arena → Prop, Adds (Build.imports collection naming) Q →
    Q imports t.arena
  exports_ : ∀ Q : List NodeId → Arena → Prop, Adds (exportStatements p plan naming) Q →
    Q exports_ t.arena
  namespaces : ∀ Q : List NodeId → Arena → Prop, Adds (namespaceStatements p plan naming) Q →
    Q namespaces t.arena

/-- Laying out a tree settles it and adds everything else. -/
theorem exists_isLaidOut (hplan : ∀ n ∈ plan.topNamespaces,
    plan.namespaces.contains n.module = true)
    (copied : BundleTree) :
    ∃ imports exports_ namespaces,
      IsLaidOut p collection plan naming ((settle p collection plan naming).run copied).2
      ((layOut p collection plan naming).run copied).1
        ((layOut p collection plan naming).run copied).2
      imports exports_ namespaces := by
  rw [layOut_eq]
  let settled : BundleTree := ((settle p collection plan naming).run copied).2
  obtain ⟨hext₁, hnotes₁, -⟩ := adds_imports collection naming settled
  let t₁ : BundleTree := ((imports collection naming).run settled).2
  obtain ⟨hext₂, hnotes₂, -⟩ := adds_exportStatements p plan naming t₁
  let t₂ : BundleTree := ((exportStatements p plan naming).run t₁).2
  obtain ⟨hext₃, hnotes₃, -⟩ := adds_namespaceStatements p plan naming hplan t₂
  let t₃ : BundleTree := ((namespaceStatements p plan naming).run t₂).2
  let statements : List NodeId := ((imports collection naming).run settled).1 ++
    (collection.kept.filter (! plan.isMoved ·)).flatMap t₁.statementsOf ++
    ((exportStatements p plan naming).run t₁).1 ++ ((namespaceStatements p plan naming).run t₂).1
  obtain ⟨hext₄, hnotes₄, hroot⟩ := adds_add (.sourceFile (statements.map some) true) t₃
  let t₄ : BundleTree := ((add (.sourceFile (statements.map some) true)).run t₃).2
  let root : NodeId := ((add (.sourceFile (statements.map some) true)).run t₃).1
  let final : BundleTree := { t₄ with arena := t₄.arena.setParents (some root) }
  have hfinal : t₄.arena.Extends final.arena := fun slot form hform =>
    (Arena.form?_setParents t₄.arena (some root) slot).trans hform
  -- what is added notes no statements, so it is the same to ask before and after
  have hof : t₁.statementsOf = settled.statementsOf := funext fun id => by
    rw [BundleTree.statementsOf, BundleTree.statementsOf, hnotes₁.statements_eq]
  have hnotes₅ : SameNotes t₃ final :=
    ⟨hnotes₄.origins_eq, hnotes₄.copies_eq, hnotes₄.statements_eq⟩
  have hform := hroot final.arena hfinal
  simp only [statements, hof] at hform
  exact ⟨_, _, _, hform, hext₁.trans (hext₂.trans (hext₃.trans (hext₄.trans hfinal))),
    ((hnotes₁.trans hnotes₂).trans hnotes₃).trans hnotes₅,
    fun Q hQ => (hQ settled).2.2 _ (hext₂.trans (hext₃.trans (hext₄.trans hfinal))),
    fun Q hQ => (hQ t₁).2.2 _ (hext₃.trans (hext₄.trans hfinal)),
    fun Q hQ => (hQ t₂).2.2 _ (hext₄.trans hfinal)⟩

theorem spares_settle {first : Nat} : Spares first (settle p collection plan naming) := by
  refine spares_bind (spares_nameReferences p collection naming) fun _ => ?_
  exact spares_bind (spares_nameDeclarations collection plan naming) fun _ =>
    spares_setModifiers collection plan

/-- The statements of everything that is kept, where they are used. -/
def usedStatements (statementsOf : SymbolId → List NodeId) : List NodeId :=
  (collection.kept.filter (! plan.isMoved ·)).flatMap statementsOf ++
    plan.topNamespaces.flatMap fun n =>
      plan.statementsBelow statementsOf (plan.namespaces.size + 1) n.module

/-- The root has the statements of a bundle as its children, and the namespaces among them hold what
they should. -/
structure IsRoot (statementsOf : SymbolId → List NodeId) (root : NodeId) (a : Arena)
    (imports exports_ namespaces : List NodeId) : Prop where
  form_eq : a.form? (some root) = some (.sourceFile ((imports ++
    (collection.kept.filter (! plan.isMoved ·)).flatMap statementsOf ++ exports_ ++ namespaces).map
      some) true)
  imports : ∀ Q : List NodeId → Arena → Prop, Adds (Build.imports collection naming) Q → Q imports a
  namespaces : ∀ n ∈ plan.topNamespaces, ∀ name, naming.nameOf? n.module = some name →
    ∃ s ∈ namespaces,
    Holds plan statementsOf a (plan.namespaces.size + 1) name n.module s

variable {p collection plan naming} {tab : Table SymbolId (List NodeId)}

theorem exists_of_mem_usedStatements {statementsOf : SymbolId → List NodeId} {s : NodeId}
    (h : s ∈ usedStatements collection plan statementsOf) : ∃ id, s ∈ statementsOf id := by
  rcases List.mem_append.1 h with h | h
  · obtain ⟨id, -, hid⟩ := List.mem_flatMap.1 h
    exact ⟨id, hid⟩
  · obtain ⟨n, -, h⟩ := List.mem_flatMap.1 h
    obtain ⟨module, -, h⟩ :=
      List.mem_flatMap.1 ((plan.statementsBelow_perm statementsOf _ n.module).mem_iff.1 h)
    obtain ⟨id, -, hid⟩ := List.mem_flatMap.1 h
    exact ⟨id, hid⟩

theorem lays_get {α : Type} {uses : List NodeId} {f : BundleTree → Build α}
    {gives : α → List NodeId} {Q : α → Arena → Prop}
    (h : ∀ t : BundleTree, t.statements = tab → Lays tab uses (f t) gives Q) :
    Lays tab uses (get >>= f) gives Q :=
  fun t ht => h t ht t ht

/-- What is known of added nodes is known of them when they are laid out. -/
theorem Lays.adds {α : Type} {uses : List NodeId} {m : Build α} {gives : α → List NodeId}
    {Q : α → Arena → Prop} (h : Lays tab uses m gives Q) :
    Lays tab uses m gives fun x a => Q x a ∧ ∀ R : α → Arena → Prop, Adds m R → R x a := by
  intro t ht
  obtain ⟨hext, hstatements, hcount, hQ⟩ := h t ht
  exact ⟨hext, hstatements, hcount, fun a ha => ⟨hQ a ha, fun R hR => (hR t).2.2 a ha⟩⟩

/-- Everything that is kept is used once. -/
theorem lays_addRest (hplan : ∀ n ∈ plan.topNamespaces, plan.namespaces.contains n.module = true) :
    Lays tab (usedStatements collection plan (statementsIn tab)) (addRest p collection plan naming)
      (fun n => [n])
      fun root a => ∃ imports exports_ namespaces,
        IsRoot collection plan naming (statementsIn tab) root a imports exports_ namespaces := by
  refine lays_then (lays_imports collection naming).adds fun imports => ?_
  refine lays_get fun t ht => lays_then (lays_exportStatements p plan naming) fun exports_ => ?_
  have hof : t.statementsOf = statementsIn tab := funext fun id => by
    rw [BundleTree.statementsOf, ht]; rfl
  rw [hof]
  let unmoved : List NodeId :=
    (collection.kept.filter (! plan.isMoved ·)).flatMap (statementsIn tab)
  let below : List NodeId := plan.topNamespaces.flatMap fun n =>
    plan.statementsBelow (statementsIn tab) (plan.namespaces.size + 1) n.module
  -- the namespaces come last in the file, and the kept statements are shared out between it and
  -- them
  have hrest : Lays tab (below ++ (unmoved ++ imports ++ exports_)) (do
      let namespaces ← namespaceStatements p plan naming
      add (.sourceFile ((imports ++ unmoved ++ exports_ ++ namespaces).map some) true)) (fun n =>
        [n]) fun root a =>
        ∃ namespaces, a.form? (some root) =
          some (.sourceFile ((imports ++ unmoved ++ exports_ ++ namespaces).map some)
          true) ∧ ∀ n ∈ plan.topNamespaces, ∀ name, naming.nameOf? n.module = some name →
            ∃ s ∈ namespaces,
            Holds plan (statementsIn tab) a (plan.namespaces.size + 1) name n.module s := by
    refine lays_bind (lays_namespaceStatements p plan naming hplan) fun namespaces => ?_
    refine (lays_add _).weaken (fun n => ?_) (fun _ _ => Nat.le_refl _) fun root a hroot hholds =>
      ⟨namespaces, hroot, hholds⟩
    rw [Form.children, filterMap_map_some]
    simp only [List.count_append, id_eq]
    omega
  refine hrest.weaken (fun n => ?_) (fun _ _ => Nat.le_refl _) fun root a h _ himports => ?_
  · simp only [usedStatements, unmoved, below, List.count_append, id_eq]
    omega
  · obtain ⟨namespaces, hform, hholds⟩ := h
    exact ⟨imports, exports_, namespaces, hform, himports.2, hholds⟩

/-- The root is a new node. -/
theorem size_le_addRest (hplan : ∀ n ∈ plan.topNamespaces, plan.namespaces.contains n.module = true)
    (t : BundleTree) :
    t.arena.size ≤ ((addRest p collection plan naming).run t).1.index := by
  let t₁ : BundleTree := ((imports collection naming).run t).2
  let t₂ : BundleTree := ((exportStatements p plan naming).run t₁).2
  let t₃ : BundleTree := ((namespaceStatements p plan naming).run t₂).2
  have h₁ : t.arena.size ≤ t₁.arena.size := (adds_imports collection naming t).1.size_le
  have h₂ : t₁.arena.size ≤ t₂.arena.size := (adds_exportStatements p plan naming t₁).1.size_le
  have h₃ : t₂.arena.size ≤ t₃.arena.size :=
    (adds_namespaceStatements p plan naming hplan t₂).1.size_le
  exact h₁.trans (h₂.trans h₃)

variable (p collection plan naming)

/-- In a finished tree the statements of everything that is kept, and all nodes that were added to
them, have one place at most. -/
structure IsFinished (settled : BundleTree) (root : NodeId) (t : BundleTree)
    (imports exports_ namespaces : List NodeId) :
    Prop extends IsRoot collection plan naming settled.statementsOf root t.arena imports exports_
      namespaces where
  statements_eq : t.statements = settled.statements
  extends_ : settled.arena.Extends t.arena
  closed : settled.arena.ClosedFrom 0
  places_le : ∀ n, settled.arena.Unplaced n → t.arena.places n ≤ 1
  places_root : t.arena.places root = 0

/-- Laying out statements that are used once each finishes the tree. -/
theorem exists_isFinished (hplan : ∀ n ∈ plan.topNamespaces,
    plan.namespaces.contains n.module = true) {t : BundleTree}
    (ht : t.StatementsApart) (hused : ∀ statementsOf, AreApart statementsOf → ∀ s,
      (usedStatements collection plan statementsOf).count s ≤ 1) :
    ∃ settled imports exports_ namespaces, SparesTo t.arena.size t settled ∧
      IsFinished collection plan naming settled ((layOut p collection plan naming).run t).1
        ((layOut p collection plan naming).run t).2 imports exports_ namespaces := by
  let settled : BundleTree := ((settle p collection plan naming).run t).2
  have hspares : SparesTo t.arena.size t settled :=
    spares_settle p collection plan naming t (Nat.le_refl _) ht.closed
  have hsettled : settled.StatementsApart := ht.spare hspares
  have hcount := hused settled.statementsOf ⟨hsettled.nodup, hsettled.apart⟩
  have hlays : Lays settled.statements _ (addRest p collection plan naming) _ _ :=
    lays_addRest hplan
  obtain ⟨hext, hstatements, huses, hroot⟩ := hlays settled rfl
  let root : NodeId := ((addRest p collection plan naming).run settled).1
  let t₁ : BundleTree := ((addRest p collection plan naming).run settled).2
  let used : List NodeId := usedStatements collection plan settled.statementsOf
  have huses : ∀ n, t₁.arena.places n + [root].count n ≤ settled.arena.places n + used.count n +
    if settled.arena.size ≤ n.index ∧ n.index < t₁.arena.size then 1 else 0 := huses
  let final : BundleTree := { t₁ with arena := t₁.arena.setParents (some root) }
  have hform : ∀ slot, final.arena.form? slot = t₁.arena.form? slot :=
    t₁.arena.form?_setParents (some root)
  have hfinal : t₁.arena.Extends final.arena := fun n form hn => (hform n).trans hn
  obtain ⟨imports, exports_, namespaces, hisRoot⟩ := hroot final.arena hfinal
  -- new nodes are no statements, and old ones that were nobody's children have no other place
  have hnew : ∀ n : NodeId, settled.arena.size ≤ n.index →
      used.count n = 0 ∧ settled.arena.places n = 0 := by
    refine fun n hn =>
      ⟨List.count_eq_zero.2 fun hmem => ?_, Arena.places_eq_zero (hsettled.closed.unplaced hn)⟩
    obtain ⟨id, hid⟩ := exists_of_mem_usedStatements hmem
    exact Nat.not_lt.2 hn (hsettled.lt_size id n hid)
  refine ⟨settled, imports, exports_, namespaces, hspares, hisRoot, hstatements, hext.trans hfinal,
    hsettled.closed, ?_, ?_⟩
  · intro n hn
    show final.arena.places n ≤ 1
    rw [Arena.places_congr hform]
    have hle := huses n
    rw [Arena.places_eq_zero hn] at hle
    by_cases hold : settled.arena.size ≤ n.index
    · rw [(hnew n hold).1] at hle
      split at hle <;> omega
    · have hone : used.count n ≤ 1 := hcount n
      rw [if_neg fun h => hold h.1] at hle
      omega
  · show final.arena.places root = 0
    rw [Arena.places_congr hform]
    have hle := huses root
    have hnew := hnew root (size_le_addRest hplan settled)
    rw [hnew.1, hnew.2, List.count_singleton, beq_self_eq_true, if_pos rfl] at hle
    split at hle <;> omega

end Build

/-! ## Where statements stand -/

namespace Arena

variable {a : Arena} {root : NodeId}

/-- The statements in the body of a namespace. -/
def namespaceBody (a : Arena) (n : NodeId) : List NodeId :=
  match a.form? (some n) with
  | some (.moduleDeclaration _ _ _ body) => a.children body
  | _ => []

/-- The node stands in namespaces with the given names, of which the first one is at the top
level. -/
inductive StandsIn (a : Arena) (root : NodeId) : List String → NodeId → Prop where
  | top {n : NodeId} (hn : n ∈ a.children (some root)) : StandsIn a root [] n
  | inside {names : List String} {outer n : NodeId} {name : String} {body : List NodeId}
    (h : StandsIn a root names outer) (houter : a.IsNamespace outer name body) (hn : n ∈ body) :
    StandsIn a root (names ++ [name]) n

theorem IsNamespace.namespaceBody_eq {n : NodeId} {name : String} {body : List NodeId}
    (h : a.IsNamespace n name body) :
    a.namespaceBody n = body := by
  obtain ⟨modifiers, nameNode, block, hn, -, hblock⟩ := h
  have hchildren : a.children (some block) = body := by
    rw [children, hblock]
    exact Build.filterMap_map_some body
  rw [namespaceBody, hn]
  exact hchildren

/-- What stands in the body of a namespace is a child of its block, which is a child of the
namespace. -/
theorem exists_block_of_mem_namespaceBody {outer n : NodeId} (h : n ∈ a.namespaceBody outer) :
    ∃ block, block ∈ a.children (some outer) ∧ n ∈ a.children (some block) ∧
      a.namespaceBody outer = a.children (some block) := by
  unfold namespaceBody at h ⊢
  split at h
  · next modifiers flavor name body hform =>
    cases body with
    | none => cases h
    | some block => exact ⟨block, mem_children_iff.2 ⟨_, hform, by simp [Form.children]⟩, h, rfl⟩
  · cases h

end Arena

namespace Build

variable {p : Project} {collection : Collection} {plan : Plan} {naming : Naming}
  {settled t : BundleTree} {root n : NodeId} {imports exports_ namespaces : List NodeId}
    {names : List String}

namespace IsFinished

variable (h : IsFinished collection plan naming settled root t imports exports_ namespaces)

include h

/-- Whatever contains a node that was nobody's child is new. -/
theorem isNew_parent {parent : NodeId} (hn : settled.arena.Unplaced n)
    (hparent : n ∈ t.arena.children (some parent)) :
    settled.arena.size ≤ parent.index ∧ settled.arena.Unplaced parent :=
  have hle := hn.size_le h.extends_ hparent
  ⟨hle, h.closed.unplaced hle⟩

/-- The parents of what stands in namespaces lead up to the root. -/
theorem hangs_of_standsIn (hstands : t.arena.StandsIn root names n)
    (hn : settled.arena.Unplaced n) :
    ∃ level, Hangs (fun m => t.arena.children (some m)) root n level := by
  induction hstands with
  | top hchild =>
    exact ⟨1, .child (.root (Arena.isChildOf_none h.places_root))
      (Arena.isChildOf_some (h.places_le _ hn) hchild)⟩
  | @inside names outer n name body _ houter hmem ih =>
    obtain ⟨block, hblock, hchild, -⟩ :=
      Arena.exists_block_of_mem_namespaceBody
        (houter.namespaceBody_eq.symm ▸ hmem : n ∈ t.arena.namespaceBody outer)
    have hnew := (h.isNew_parent hn hchild).2
    obtain ⟨level, hlevel⟩ := ih (h.isNew_parent hnew hblock).2
    have hbelow := hlevel.child (Arena.isChildOf_some (h.places_le _ hnew) hblock)
    exact ⟨_, hbelow.child (Arena.isChildOf_some (h.places_le _ hn) hchild)⟩

/-- What stands in the body of a namespace is there once, in no other body and not at the top
level. -/
theorem count_namespaceBody {outer : NodeId} (hn : settled.arena.Unplaced n)
    (hmem : n ∈ t.arena.namespaceBody outer) :
    (t.arena.namespaceBody outer).count n = 1 ∧ n ∉ t.arena.children (some root) ∧
      ∀ other, n ∈ t.arena.namespaceBody other → other = outer := by
  obtain ⟨block, hblock, hchild, hbody⟩ := Arena.exists_block_of_mem_namespaceBody hmem
  have hparent := Arena.isChildOf_some (h.places_le _ hn) hchild
  have hnew := (h.isNew_parent hn hchild).2
  refine ⟨?_, fun hroot => ?_, fun other hother => ?_⟩
  · rw [hbody]
    exact (hparent block).trans (if_pos rfl)
  · -- the block would be the root, which is nobody's child
    obtain rfl := Hangs.parent_unique hparent (Arena.isChildOf_some (h.places_le _ hn) hroot)
    have hzero := t.arena.count_children_le outer block
    rw [h.places_root] at hzero
    exact absurd hblock (List.count_eq_zero.1 (Nat.le_zero.1 hzero))
  · obtain ⟨block', hblock', hchild', -⟩ := Arena.exists_block_of_mem_namespaceBody hother
    obtain rfl := Hangs.parent_unique hparent (Arena.isChildOf_some (h.places_le _ hn) hchild')
    exact Hangs.parent_unique (Arena.isChildOf_some (h.places_le _ hnew) hblock')
      (Arena.isChildOf_some (h.places_le _ hnew) hblock)

theorem children_root : t.arena.children (some root) =
    imports ++ (collection.kept.filter (! plan.isMoved ·)).flatMap settled.statementsOf ++
      exports_ ++ namespaces := by
  rw [Arena.children, h.form_eq]
  exact Build.filterMap_map_some _

/-- Every namespace of the plan is declared at its place, with enough levels left for those
inside. -/
theorem exists_namespace (hplan : plan.Coherent) {top module : SymbolId}
    (hwithin : plan.Within top names module) {topName : String}
    (htop : naming.nameOf? top = some topName)
    (hmodule : ∀ n, plan.namespaces.get? top = some n → n.module = top) :
    ∃ before name n depth, topName :: names = before ++ [name] ∧ t.arena.StandsIn root before n ∧
      Holds plan settled.statementsOf t.arena depth name module n ∧
        depth + names.length = plan.namespaces.size + 1 := by
  induction hwithin with
  | @top planned hn hparent =>
    have hmem : planned ∈ plan.topNamespaces := by
      refine List.mem_filter.2 ⟨List.mem_map.2 ⟨_, Table.mem_of_get? hn, rfl⟩, ?_⟩
      rw [hparent]
      rfl
    obtain rfl := hmodule planned hn
    obtain ⟨s, hs, hholds⟩ := h.namespaces planned hmem topName htop
    refine ⟨[], topName, s, _, rfl, .top ?_, hholds, rfl⟩
    rw [h.children_root]
    exact List.mem_append_right _ hs
  | @inside planned module outer name names hn hparent hname houter ih =>
    obtain ⟨before, outerName, n, depth, hnames, hstands, hholds, hdepth⟩ := ih
    have hsize := hplan.length_le_size (.inside hn hparent hname houter)
    rw [List.length_append, List.length_singleton] at hsize ⊢
    cases depth with
    | zero => exact hholds.elim
    | succ depth =>
      obtain ⟨body, hbody, -, hnested⟩ := hholds
      have hcontains : plan.namespaces.contains module = true := Table.contains_of_get? hn
      obtain ⟨inner, hinner, hholds⟩ :=
        hnested name module ((hplan.nested _ _ _).1 hname) (by omega) hcontains
      refine ⟨before ++ [outerName], name, inner, depth, ?_, .inside hstands hbody hinner,
        hholds, by omega⟩
      rw [← hnames, List.cons_append]

end IsFinished

end Build

namespace Bundle

variable (p : Project) (keepDocs : Bool) (exports_ : List ModuleExport)

/-- The tree of a bundle is finished from the copies of everything that is kept. -/
theorem exists_isFinished :
    ∃ settled imports exportStatements namespaces,
      Build.SparesTo
        (BundleTree.ofCollection p (ofExports p keepDocs exports_).collection).arena.size
        (BundleTree.ofCollection p (ofExports p keepDocs exports_).collection) settled ∧
      Build.IsFinished (ofExports p keepDocs exports_).collection
        (ofExports p keepDocs exports_).plan
        (ofExports p keepDocs exports_).naming settled (ofExports p keepDocs exports_).root
        (ofExports p keepDocs exports_).tree imports exportStatements namespaces := by
  refine Build.exists_isFinished _ _ _ _ (fun _ h => Planning.contains_of_mem_topNamespaces p _ h)
    (Build.statementsApart_ofCollection p _) fun statementsOf hapart s => ?_
  have hplan := Planning.coherent_plan p (p.collect exports_) exports_
  have hcount := hplan.count_statements_le_one hapart (Collecting.nodup_kept p exports_)
    (Planning.nodup_topNamespaces p (p.collect exports_) exports_) (fun top htop => ?_)
    ((p.plan exports_ (p.collect exports_)).namespaces.size + 1) s
  · rwa [List.flatMap_map] at hcount
  · obtain ⟨n, hn, rfl⟩ := List.mem_map.1 htop
    exact (Planning.get?_of_mem_topNamespaces p _ exports_ hn).2

/-- The body of a namespace that was added to the copies. -/
def addedBody (b : Bundle) (p : Project) (n : NodeId) : List NodeId :=
  if (BundleTree.ofCollection p b.collection).arena.size ≤
    n.index then b.tree.arena.namespaceBody n else []

variable {p keepDocs exports_}

section

variable {settled t : BundleTree} {root : NodeId}
  {imports exportStatements namespaces : List NodeId}

/-- Every namespace of the plan is declared in the tree of a bundle. -/
theorem exists_namespace {module : SymbolId}
    (h : Build.IsFinished (ofExports p keepDocs exports_).collection
      (ofExports p keepDocs exports_).plan
      (ofExports p keepDocs exports_).naming settled root t imports exportStatements namespaces)
    (hmodule : (ofExports p keepDocs exports_).plan.namespaces.contains module = true) :
    ∃ top topName names before name n depth,
      (ofExports p keepDocs exports_).plan.Within top names module ∧
      (ofExports p keepDocs exports_).naming.nameOf? top = some topName ∧
        topName :: names = before ++ [name] ∧
      t.arena.StandsIn root before n ∧
      Build.Holds (ofExports p keepDocs exports_).plan settled.statementsOf t.arena
        (depth + 1) name module n ∧
      names.length ≤ Planning.maxNesting ∧
      ((ofExports p keepDocs exports_).plan.membersOf module ≠ [] →
        names.length < Planning.maxNesting) := by
  have hplan : (ofExports p keepDocs exports_).plan.Coherent :=
    Planning.coherent_plan p (p.collect exports_) exports_
  obtain ⟨top, names, hwithin, hlength⟩ := hplan.within module hmodule
  obtain ⟨planned, hplanned, hparent⟩ := hwithin.exists_top
  have hmem := Planning.module_of_mem_namespaces p (p.collect exports_) (Table.mem_of_get? hplanned)
  obtain ⟨topName, htop⟩ : ∃ name, (ofExports p keepDocs exports_).naming.nameOf? top =
      some name := by
    have htops : planned ∈ (ofExports p keepDocs exports_).plan.topNamespaces := by
      refine List.mem_filter.2 ⟨List.mem_map.2 ⟨_, Table.mem_of_get? hplanned, rfl⟩, ?_⟩
      rw [hparent]
      rfl
    obtain rfl : planned.module = top := hmem
    have hnamed : (planned.module, planned.suggestedName) ∈ Naming.namedSymbols p
        (ofExports p keepDocs exports_).collection (ofExports p keepDocs exports_).plan :=
      List.mem_append_left _ (List.mem_append_right _ (List.mem_map.2 ⟨planned, htops, rfl⟩))
    exact Naming.nameOf?_ofPlan hnamed
  obtain ⟨before, name, n, depth, hnames, hstands, hholds, hdepth⟩ :=
    h.exists_namespace hplan hwithin htop fun n hn =>
      Planning.module_of_mem_namespaces p _ (Table.mem_of_get? hn)
  have hle := hplan.length_le_size hwithin
  obtain ⟨depth, rfl⟩ : ∃ k, depth = k + 1 := ⟨depth - 1, by omega⟩
  exact ⟨top, topName, names, before, name, n, depth, hwithin, htop, hnames, hstands,
    hholds, hlength⟩

/-- The statements of a declaration that is moved are in the body of a namespace. -/
theorem exists_body_of_moved {id module : SymbolId} {name : String}
    (h : Build.IsFinished (ofExports p keepDocs exports_).collection
      (ofExports p keepDocs exports_).plan
      (ofExports p keepDocs exports_).naming settled root t imports exportStatements namespaces)
    (hmoved : (ofExports p keepDocs exports_).plan.moved.get? id = some (module, name)) :
    ∃ names outer outerName body, t.arena.StandsIn root names outer ∧
      t.arena.IsNamespace outer outerName body ∧
      ∀ s ∈ settled.statementsOf id, s ∈ body := by
  have hplan : (ofExports p keepDocs exports_).plan.Coherent :=
    Planning.coherent_plan p (p.collect exports_) exports_
  have hmember := (hplan.moved id module name).1 hmoved
  obtain ⟨top, topName, names, before, outerName, n, depth, -, -, -, hstands,
      ⟨body, hbody, hstatements, -⟩, -⟩ :=
    exists_namespace h (Planning.contains_of_mem_membersOf hmember)
  exact ⟨before, n, outerName, body, hstands, hbody, hstatements name id hmember⟩

end

/-- Every statement that a kept declaration is copied to stands in the bundle exactly once: at the
top level, unless its symbol is moved, and otherwise in the body of exactly one of the namespaces
that were added for modules. -/
theorem statements_stand_once {id : SymbolId}
    (hid : id ∈ (ofExports p keepDocs exports_).collection.kept) {s : NodeId}
    (hs : s ∈
      (BundleTree.ofCollection p (ofExports p keepDocs exports_).collection).statementsOf id) :
    ((ofExports p keepDocs exports_).tree.arena.preorder (ofExports p keepDocs exports_).root).count
      s = 1 ∧
      (Print.statementsOf (ofExports p keepDocs exports_).tree.arena
        (some (ofExports p keepDocs exports_).root)).count (some s) =
          (if (ofExports p keepDocs exports_).plan.isMoved id then 0 else 1) ∧
      (((ofExports p keepDocs exports_).tree.arena.preorder
        (ofExports p keepDocs exports_).root).flatMap
        ((ofExports p keepDocs exports_).addedBody p)).count s =
          if (ofExports p keepDocs exports_).plan.isMoved id then 1 else 0 := by
  obtain ⟨settled, imports, exportStatements, namespaces, hspares, h⟩ :=
    exists_isFinished p keepDocs exports_
  have happart := Build.statementsApart_ofCollection p (ofExports p keepDocs exports_).collection
  generalize hb : ofExports p keepDocs exports_ = b at *
  have hunplaced := hspares.unplaced (happart.lt_size id s hs) (happart.unplaced id s hs)
  have hsettled : s ∈ settled.statementsOf id := by
    rw [BundleTree.statementsOf, hspares.statements_eq]
    exact hs
  -- the printer and the tree list the same statements below the root
  have htop : (Print.statementsOf b.tree.arena (some b.root)).count (some s) =
      (b.tree.arena.children (some b.root)).count s := by
    rw [Print.statementsOf, h.form_eq, h.children_root]
    exact List.count_map_of_injective _ _ (Option.some_injective _) _
  rw [htop]
  cases hmoved : b.plan.moved.get? id with
  | none =>
    have hfalse : b.plan.isMoved id = false := Table.contains_eq_false_iff.2 hmoved
    -- a symbol that is not moved: its statements are children of the root, and no added body has
    -- them
    have hchild : s ∈ b.tree.arena.children (some b.root) := by
      rw [h.children_root]
      refine List.mem_append_left _ (List.mem_append_left _ (List.mem_append_right _ ?_))
      exact List.mem_flatMap.2 ⟨id, List.mem_filter.2 ⟨hid, by rw [hfalse]; rfl⟩, hsettled⟩
    obtain ⟨level, hlevel⟩ := h.hangs_of_standsIn (.top hchild) hunplaced
    rw [hfalse]
    refine ⟨Arena.count_preorder_of_hangs hlevel, ?_, List.count_eq_zero.2 fun hmem => ?_⟩
    · exact (Arena.isChildOf_some (h.places_le _ hunplaced) hchild b.root).trans (if_pos rfl)
    · obtain ⟨outer, -, hbody⟩ := List.mem_flatMap.1 hmem
      unfold addedBody at hbody
      split at hbody
      · exact (h.count_namespaceBody hunplaced hbody).2.1 hchild
      · cases hbody
  | some place =>
    have htrue : b.plan.isMoved id = true := Table.contains_of_get? hmoved
    obtain ⟨module, name⟩ := place
    subst hb
    -- a moved symbol: its statements stand in one added body, whose namespace hangs in the tree
    -- once
    obtain ⟨names, outer, outerName, body, houter, hbody, hstatements⟩ :=
      exists_body_of_moved h hmoved
    have hmem : s ∈ (ofExports p keepDocs exports_).tree.arena.namespaceBody outer :=
      hbody.namespaceBody_eq.symm ▸ hstatements s hsettled
    obtain ⟨level, hlevel⟩ :=
      h.hangs_of_standsIn (.inside houter hbody (hstatements s hsettled)) hunplaced
    obtain ⟨hcount, hroot, honly⟩ := h.count_namespaceBody hunplaced hmem
    obtain ⟨block, hblock, hchild, -⟩ := Arena.exists_block_of_mem_namespaceBody hmem
    obtain ⟨hnewBlock, hunplacedBlock⟩ := h.isNew_parent hunplaced hchild
    obtain ⟨hnew, hunplacedOuter⟩ := h.isNew_parent hunplacedBlock hblock
    obtain ⟨outerLevel, houterLevel⟩ := h.hangs_of_standsIn houter hunplacedOuter
    have hadded : (ofExports p keepDocs exports_).addedBody p outer =
        (ofExports p keepDocs exports_).tree.arena.namespaceBody outer :=
      if_pos (Nat.le_trans hspares.size_le hnew)
    rw [htrue]
    refine ⟨Arena.count_preorder_of_hangs hlevel, List.count_eq_zero.2 hroot, ?_⟩
    rw [count_flatMap_of_only (x := outer) (hadded ▸ hcount) fun other hother => ?_]
    · exact Arena.count_preorder_of_hangs houterLevel
    · unfold addedBody at hother
      split at hother
      · exact honly other hother
      · cases hother

/-- Two modules that export each other as namespaces, below a third one. -/
def mutualModules : List (String × String) :=
  [("/a.ts", "export * as N from \x22./b\x22;\n"),
    ("/b.ts", "export * as M from \x22./c\x22;\nexport interface F \x7b\x7d\n"),
    ("/c.ts", "export * as N from \x22./b\x22;\nexport interface G \x7b\x7d\n")]

/-- The statements of declarations that are moved. -/
def movedStatements (b : Bundle) (p : Project) : List (SymbolId × NodeId) :=
  (b.collection.kept.filter b.plan.isMoved).flatMap fun id =>
    ((BundleTree.ofCollection p b.collection).statementsOf id).map (id, ·)

set_option maxRecDepth 1000000 in
theorem movedStatements_mutualModules :
    ((Project.ofFiles "/a.ts" mutualModules).toOption.bind fun p =>
      ((p.file? p.entry).bind SourceFile.symbol).map fun module =>
        (ofExports p true (p.exportsOf module)).movedStatements p) =
          some [(⟨7⟩, ⟨1⟩), (⟨4⟩, ⟨3⟩)] := by
  decide +kernel

/-- In the bundle of the first of these modules there is a statement in the body of an added
namespace, and it stands nowhere else. -/
theorem exists_moved_statement : ∃ p module, Project.ofFiles "/a.ts" mutualModules = .ok p ∧
    (p.file? p.entry).bind SourceFile.symbol = some module ∧
    ∃ id ∈ (ofExports p true (p.exportsOf module)).collection.kept,
    ∃ s ∈
      (BundleTree.ofCollection p (ofExports p true (p.exportsOf module)).collection).statementsOf
      id,
      ((ofExports p true (p.exportsOf module)).tree.arena.preorder
        (ofExports p true (p.exportsOf module)).root).count s = 1 ∧
      (Print.statementsOf (ofExports p true (p.exportsOf module)).tree.arena
        (some (ofExports p true (p.exportsOf module)).root)).count (some s) = 0 ∧
      (((ofExports p true (p.exportsOf module)).tree.arena.preorder
        (ofExports p true (p.exportsOf module)).root).flatMap
        ((ofExports p true (p.exportsOf module)).addedBody p)).count s = 1 := by
  have h := movedStatements_mutualModules
  cases hp : Project.ofFiles "/a.ts" mutualModules with
  | error e => simp [hp, Except.toOption] at h
  | ok p =>
    simp only [hp, Except.toOption, Option.bind_some] at h
    cases hmodule : (p.file? p.entry).bind SourceFile.symbol with
    | none =>
      rw [hmodule] at h
      cases h
    | some module =>
      simp only [hmodule, Option.map_some, Option.some.injEq] at h
      have hmem : ((⟨7⟩, ⟨1⟩) : SymbolId × NodeId) ∈
          (ofExports p true (p.exportsOf module)).movedStatements p := by
        rw [h]
        exact List.mem_cons_self
      obtain ⟨id, hid, hmem⟩ := List.mem_flatMap.1 hmem
      obtain ⟨s, hs, -⟩ := List.mem_map.1 hmem
      obtain ⟨hkept, hmoved⟩ := List.mem_filter.1 hid
      have hstands := statements_stand_once hkept hs
      rw [hmoved] at hstands
      exact ⟨p, module, rfl, hmodule, id, hkept, s, hs, hstands⟩

end Bundle

end DeclBundle
