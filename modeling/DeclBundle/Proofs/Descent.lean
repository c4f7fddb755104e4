import DeclBundle.Ast.Arena
import Mathlib.Algebra.GroupWithZero.Nat
import Mathlib.Data.List.Nodup
import Mathlib.Data.List.Perm.Subperm

/-!
# How often a node stands in a tree

A tree is given by the children of each node, and a list of all nodes below a root comes from a walk
that goes down to a number of levels. A node that is a child once stands as often below the root as
its parent does one level higher (`count_descendantsTo`). So a node from which the parents lead up
to a root that is nobody's child stands there exactly once, when the walk goes deep enough
(`Hangs.count_eq_one`), and there are never more levels than nodes with children
(`Hangs.le_length`).
-/

set_option autoImplicit false

namespace DeclBundle

section Trees

variable {α : Type} [DecidableEq α] {children : α → List α} {root x y : α}

/-- A node and all below it, each before its children, down to `depth` levels. -/
def descendantsTo (children : α → List α) : (depth : Nat) → α → List α
  | 0, _ => []
  | depth + 1, root => root :: (children root).flatMap (descendantsTo children depth)

/-- The node is a child of `parent?` once and of no other node; without a parent it is nobody's
child. -/
def IsChildOf (children : α → List α) (parent? : Option α) (x : α) : Prop :=
  ∀ y, (children y).count x = if parent? = some y then 1 else 0

/-! ## Counting -/

theorem sum_map_ite_eq_count (x : α) (f : α → Nat) (xs : List α) :
    (xs.map fun y => (if y = x then 1 else 0) + f y).sum = xs.count x + (xs.map f).sum := by
  induction xs with
  | nil => rfl
  | cons y xs ih =>
    by_cases h : y = x
    · subst h
      simp [ih]
      omega
    · simp [ih, h]
      omega

/-- A node stands at the root, or below it as often as its parent does one level higher. -/
theorem count_descendantsTo {parent? : Option α} (h : IsChildOf children parent? x) (depth : Nat)
    (root : α) :
    (descendantsTo children (depth + 1) root).count x =
      (if root = x then 1 else 0) + parent?.elim 0 fun parent =>
        (descendantsTo children depth root).count parent := by
  induction depth generalizing root with
  | zero =>
    have hsingle : descendantsTo children 1 root = [root] :=
      congrArg (root :: ·) (List.flatMap_eq_nil_iff.2 fun _ _ => rfl)
    rw [hsingle, List.count_singleton]
    cases parent? <;> simp [descendantsTo]
  | succ depth ih =>
    have hsum : ((children root).flatMap (descendantsTo children (depth + 1))).count x =
        (children root).count x + ((children root).map fun c =>
          parent?.elim 0 fun parent => (descendantsTo children depth c).count parent).sum := by
      rw [List.count_flatMap, ← sum_map_ite_eq_count]
      exact congrArg List.sum (List.map_congr_left fun c _ => ih c)
    have hhead : (descendantsTo children (depth + 2) root).count x = (if root = x then 1 else 0) +
        ((children root).flatMap (descendantsTo children (depth + 1))).count x := by
      rw [descendantsTo, List.count_cons]
      simp only [beq_iff_eq]
      omega
    rw [hhead, hsum, h root]
    cases parent? with
    | none => simp
    | some parent =>
      -- the children of the root below which the parent stands are those below which it stands at
      -- all
      have hparent : (descendantsTo children (depth + 1) root).count parent =
        (if root = parent then 1 else 0) +
          ((children root).map fun c => (descendantsTo children depth c).count parent).sum := by
        rw [descendantsTo, List.count_cons, List.count_flatMap]
        simp only [beq_iff_eq]
        exact Nat.add_comm _ _
      simp only [Option.elim_some, Option.some.injEq, hparent, eq_comm]

/-- Below several roots the node stands as often as it is one of them, and as its parent stands
there. -/
theorem count_flatMap_descendantsTo {parent? : Option α} (h : IsChildOf children parent? x)
    (depth : Nat) (roots : List α) : (roots.flatMap (descendantsTo children (depth + 1))).count x =
      roots.count x + parent?.elim 0 fun parent =>
        (roots.flatMap (descendantsTo children depth)).count parent := by
  have hsum : (roots.flatMap (descendantsTo children (depth + 1))).count x = roots.count x +
      (roots.map fun y => parent?.elim 0 fun parent =>
        (descendantsTo children depth y).count parent).sum := by
    rw [List.count_flatMap, ← sum_map_ite_eq_count]
    exact congrArg List.sum (List.map_congr_left fun y _ => count_descendantsTo h depth y)
  rw [hsum]
  cases parent? with
  | none => simp
  | some parent =>
    rw [Option.elim_some, List.count_flatMap]
    rfl

/-- In a forest in which every node is a child once, or one of the roots, no node stands twice. -/
theorem count_forest_le_one {parentOf : α → Option α} (h : ∀ x, IsChildOf children (parentOf x) x)
    {roots : List α} (hnodup : roots.Nodup) (hroots : ∀ y ∈ roots, parentOf y = none)
    (depth : Nat) (x : α) :
    (roots.flatMap (descendantsTo children depth)).count x ≤ 1 := by
  induction depth generalizing x with
  | zero =>
    have hnone : roots.flatMap (descendantsTo children 0) = [] :=
      List.flatMap_eq_nil_iff.2 fun _ _ => rfl
    rw [hnone]
    exact Nat.zero_le _
  | succ depth ih =>
    rw [count_flatMap_descendantsTo (h x)]
    cases hparent : parentOf x with
    | none =>
      rw [Option.elim_none, Nat.add_zero]
      exact List.nodup_iff_count_le_one.1 hnodup x
    | some parent =>
      have hnot : x ∉ roots := by
        intro hx
        rw [hroots x hx] at hparent
        cases hparent
      rw [List.count_eq_zero.2 hnot, Option.elim_some, Nat.zero_add]
      exact ih parent

/-! ## Levels -/

/-- From the node the parents lead up to the root, over a number of levels. -/
inductive Hangs (children : α → List α) (root : α) : α → (level : Nat) → Prop where
  | root (h : IsChildOf children none root) : Hangs children root root 0
  | child {parent x : α} {level : Nat} (h : Hangs children root parent level)
    (hx : IsChildOf children (some parent) x) :
    Hangs children root x (level + 1)

namespace Hangs

variable {level : Nat}

theorem isChildOf_root (h : Hangs children root x level) : IsChildOf children none root := by
  induction h with
  | root h => exact h
  | child _ _ ih => exact ih

/-- A child hangs below the root, so it is another node. -/
theorem ne_root {parent : α} (h : Hangs children root parent level)
    (hx : IsChildOf children (some parent) x) :
    root ≠ x := by
  rintro rfl
  have hroot := h.isChildOf_root parent
  have hparent := hx parent
  simp_all

/-- A walk that goes deep enough finds the node exactly once. -/
theorem count_eq_one (h : Hangs children root x level) {depth : Nat} (hdepth : level < depth) :
    (descendantsTo children depth root).count x = 1 := by
  obtain ⟨depth, rfl⟩ := Nat.exists_eq_succ_of_ne_zero (Nat.ne_of_gt (Nat.zero_lt_of_lt hdepth))
  induction h generalizing depth with
  | root h =>
    rw [count_descendantsTo h]
    simp
  | @child parent x level hparent hx ih =>
    obtain ⟨depth, rfl⟩ := Nat.exists_eq_succ_of_ne_zero (n := depth) (by omega)
    rw [count_descendantsTo hx, if_neg (hparent.ne_root hx)]
    simpa using ih depth (by omega)

theorem parent_unique {parent parent' : α} (h : IsChildOf children (some parent) x)
    (h' : IsChildOf children (some parent') x) : parent = parent' := by
  have hparent := h parent'
  have hparent' := h' parent'
  simp_all

/-- A node hangs on one level only. -/
theorem level_unique {level' : Nat} (h : Hangs children root x level)
    (h' : Hangs children root x level') :
    level = level' := by
  induction h generalizing level' with
  | root _ =>
    cases h' with
    | root _ => rfl
    | child h' hx => exact absurd rfl (h'.ne_root hx)
  | child h hx ih =>
    cases h' with
    | root _ => exact absurd rfl (h.ne_root hx)
    | child h' hx' =>
      obtain rfl := parent_unique hx hx'
      rw [ih h']

/-- The nodes above a node are all different, as many as there are levels, and all of them have
children. -/
theorem exists_above (h : Hangs children root x level) :
    ∃ above : List α, above.Nodup ∧ above.length = level ∧
      ∀ y ∈ above, children y ≠ [] ∧ ∃ lower < level, Hangs children root y lower := by
  induction h with
  | root _ => exact ⟨[], List.nodup_nil, rfl, fun y hy => by cases hy⟩
  | @child parent x level hparent hx ih =>
    obtain ⟨above, hnodup, hlength, habove⟩ := ih
    refine ⟨parent :: above, List.nodup_cons.2 ⟨?_, hnodup⟩, by rw [List.length_cons, hlength], ?_⟩
    · intro hmem
      obtain ⟨-, lower, hlt, hlower⟩ := habove parent hmem
      exact absurd (hparent.level_unique hlower) (Nat.ne_of_gt hlt)
    · intro y hy
      rcases List.mem_cons.1 hy with rfl | hy
      · refine ⟨fun hnil => ?_, level, Nat.lt_succ_self _, hparent⟩
        have hcount := hx y
        simp [hnil] at hcount
      · obtain ⟨hne, lower, hlt, hlower⟩ := habove y hy
        exact ⟨hne, lower, Nat.lt_succ_of_lt hlt, hlower⟩

/-- There are at most as many levels as nodes with children. -/
theorem le_length (h : Hangs children root x level) {nodes : List α}
    (hnodes : ∀ y, children y ≠ [] → y ∈ nodes) :
    level ≤ nodes.length := by
  obtain ⟨above, hnodup, hlength, habove⟩ := h.exists_above
  rw [← hlength]
  exact (hnodup.subperm fun y hy => hnodes y (habove y hy).1).length_le

end Hangs

end Trees

namespace Arena

/-- The nodes below a node are those that are listed before the rest. -/
theorem preorderTo_eq (a : Arena) (depth : Nat) (root : NodeId) (rest : List NodeId) :
    preorderTo depth a root rest =
      descendantsTo (fun n => a.children (some n)) depth root ++ rest := by
  induction depth generalizing root rest with
  | zero => rfl
  | succ depth ih =>
    have hfold : ∀ nodes : List NodeId,
      nodes.foldr (fun child rest => preorderTo depth a child rest) rest =
        nodes.flatMap (descendantsTo (fun n => a.children (some n)) depth) ++ rest := by
      intro nodes
      induction nodes with
      | nil => rfl
      | cons node nodes ihnodes =>
        rw [List.foldr_cons, ihnodes, ih, List.flatMap_cons, List.append_assoc]
    rw [preorderTo, hfold]
    rfl

/-- Only nodes of the arena have children. -/
theorem mem_range_of_children {a : Arena} {n : NodeId} (h : a.children (some n) ≠ []) :
    n ∈ (List.range a.size).map NodeId.mk := by
  refine List.mem_map.2 ⟨n.index, List.mem_range.2 ?_, rfl⟩
  by_contra hlt
  have hnone : a.form? (some n) = none := by
    have hget : a.nodes[n.index]? = none := Array.getElem?_eq_none (Nat.le_of_not_lt hlt)
    simp [form?, get?, hget]
  simp [children, hnone] at h

/-- What hangs below the root stands in the tree exactly once. -/
theorem count_preorder_of_hangs {a : Arena} {root x : NodeId} {level : Nat}
    (h : Hangs (fun n => a.children (some n)) root x level) : (a.preorder root).count x = 1 := by
  have hlevel := h.le_length fun n hn => mem_range_of_children hn
  rw [List.length_map, List.length_range] at hlevel
  rw [preorder, preorderTo_eq, List.append_nil]
  exact h.count_eq_one (Nat.lt_succ_of_le hlevel)

end Arena

end DeclBundle
