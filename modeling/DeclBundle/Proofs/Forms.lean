import DeclBundle.Ast.Arena

/-!
# Forms in an arena that changes

What adding and replacing nodes does to the forms of all other nodes. An arena extends another one
when every node that is there keeps its form (`Arena.Extends`); the parents and the comments of
nodes do not matter.
-/

set_option autoImplicit false

namespace DeclBundle.Arena

open Text (Span)

/-! ## Slots with a node -/

@[simp] theorem form?_none (a : Arena) : a.form? none = none := rfl

theorem form?_some (a : Arena) (n : NodeId) :
    a.form? (some n) = (a.nodes[n.index]?).map Node.form := rfl

/-- A slot has a form when its node is in the arena. -/
theorem isSome_form?_iff {a : Arena} {n : NodeId} : (a.form? (some n)).isSome = true ↔
    n.index < a.size := by
  simp [form?_some, size]

theorem lt_size_of_form? {a : Arena} {n : NodeId} {form : Form Slot}
    (h : a.form? (some n) = some form) :
    n.index < a.size :=
  isSome_form?_iff.1 (by rw [h]; rfl)

theorem form?_eq_none_of_le {a : Arena} {n : NodeId} (h : a.size ≤ n.index) :
    a.form? (some n) = none := by
  cases hf : a.form? (some n) with
  | none => rfl
  | some form => exact absurd (lt_size_of_form? hf) (Nat.not_lt.2 h)

/-! ## Steps -/

@[simp] theorem size_add (a : Arena) (form : Form Slot) (span : Span) :
    (a.add form span).1.size = a.size + 1 := by
  simp [add, size]

@[simp] theorem index_add (a : Arena) (form : Form Slot) (span : Span) :
    (a.add form span).2.index = a.size := rfl

/-- A new node has the form that it was added with. -/
theorem form?_add_self (a : Arena) (form : Form Slot) (span : Span) :
    (a.add form span).1.form? (some (a.add form span).2) = some form := by
  simp [form?_some, add]

/-- The nodes that were there before keep their forms. -/
theorem form?_add_of_lt {a : Arena} {n : NodeId} (h : n.index < a.size) (form : Form Slot)
    (span : Span) :
    (a.add form span).1.form? (some n) = a.form? (some n) := by
  have hlt : n.index < a.nodes.size := h
  simp [form?_some, add, Array.getElem?_push, Nat.ne_of_lt hlt]

@[simp] theorem size_modify (a : Arena) (slot : Slot) (f : Node → Node) :
    (a.modify slot f).size = a.size := by
  cases slot <;> simp [modify, size]

@[simp] theorem size_replace (a : Arena) (slot : Slot) (form : Form Slot) :
    (a.replace slot form).size = a.size :=
  a.size_modify slot _

/-- Replacing the form of a node changes no other node. -/
theorem form?_replace {a : Arena} {n : NodeId} (h : n.index < a.size) (form : Form Slot)
    (slot : Slot) :
    (a.replace (some n) form).form? slot = if slot = some n then some form else a.form? slot := by
  have hlt : n.index < a.nodes.size := h
  cases slot with
  | none => simp
  | some m =>
    simp only [form?_some, replace, modify, Array.getElem?_modify, Option.some.injEq]
    by_cases hm : m = n
    · subst hm
      simp [hlt]
    · have hidx : n.index ≠ m.index := by
        intro heq
        cases m
        cases n
        exact hm (congrArg NodeId.mk heq.symm)
      simp [hm, hidx]

theorem form?_replace_of_ne {a : Arena} {n : NodeId} {slot : Slot} (h : slot ≠ some n)
    (form : Form Slot) :
    (a.replace (some n) form).form? slot = a.form? slot := by
  by_cases hn : n.index < a.size
  · rw [form?_replace hn, if_neg h]
  · cases slot with
    | none => rfl
    | some m =>
      have hidx : n.index ≠ m.index := by
        intro heq
        cases m
        cases n
        exact h (congrArg (some ∘ NodeId.mk) heq.symm)
      simp [form?_some, replace, modify, Array.getElem?_modify, hidx]

@[simp] theorem form?_setDoc (a : Arena) (slot other : Slot) (text : String) :
    (a.setDoc slot text).form? other = a.form? other := rfl

@[simp] theorem size_setDoc (a : Arena) (slot : Slot) (text : String) :
    (a.setDoc slot text).size = a.size := rfl

/-- Setting a parent changes no form. -/
theorem form?_modify_parent (a : Arena) (slot other parent : Slot) :
    (a.modify slot fun node => { node with parent }).form? other = a.form? other := by
  cases slot with
  | none => rfl
  | some n =>
    cases other with
    | none => rfl
    | some m =>
      simp only [form?_some, modify, Array.getElem?_modify]
      split
      · simp [Option.map_map, Function.comp_def]
      · rfl

theorem form?_adopt (a : Arena) (parent : NodeId) (nodes : List NodeId) (slot : Slot) :
    (a.adopt parent nodes).form? slot = a.form? slot := by
  unfold adopt
  induction nodes generalizing a with
  | nil => rfl
  | cons node rest ih => rw [List.foldl_cons, ih, form?_modify_parent]

theorem form?_setParentsTo (depth : Nat) (a : Arena) (root : NodeId) (slot : Slot) :
    (setParentsTo depth a root).form? slot = a.form? slot := by
  induction depth generalizing a root with
  | zero => rfl
  | succ depth ih =>
    have hfold : ∀ (nodes : List NodeId) (b : Arena),
        (nodes.foldl (setParentsTo depth) b).form? slot = b.form? slot := by
      intro nodes
      induction nodes with
      | nil => intro b; rfl
      | cons node rest ihnodes => intro b; rw [List.foldl_cons, ihnodes, ih]
    unfold setParentsTo
    rw [hfold, form?_adopt]

/-- Setting the parents of nodes changes no form. -/
@[simp] theorem form?_setParents (a : Arena) (root slot : Slot) :
    (a.setParents root).form? slot = a.form? slot := by
  cases root with
  | none => rfl
  | some root => exact form?_setParentsTo _ a root slot

/-! ## Extensions -/

/-- Every node of the first arena is in the second one, with the form that it has. -/
def Extends (a b : Arena) : Prop :=
  ∀ slot form, a.form? slot = some form → b.form? slot = some form

theorem Extends.refl (a : Arena) : a.Extends a := fun _ _ h => h

theorem Extends.trans {a b c : Arena} (hab : a.Extends b) (hbc : b.Extends c) : a.Extends c :=
  fun slot form h => hbc slot form (hab slot form h)

theorem Extends.size_le {a b : Arena} (h : a.Extends b) : a.size ≤ b.size := by
  cases hsize : a.size with
  | zero => exact Nat.zero_le _
  | succ last =>
    have hlast : ((a.form? (some ⟨last⟩)).isSome) = true :=
      isSome_form?_iff.2 (by rw [hsize]; exact Nat.lt_succ_self _)
    obtain ⟨form, hform⟩ := Option.isSome_iff_exists.1 hlast
    exact lt_size_of_form? (h _ _ hform)

/-- The nodes of the smaller arena have the same forms in both. -/
theorem Extends.form?_eq {a b : Arena} (h : a.Extends b) {n : NodeId} (hn : n.index < a.size) :
    b.form? (some n) = a.form? (some n) := by
  obtain ⟨form, hform⟩ := Option.isSome_iff_exists.1 (isSome_form?_iff.2 hn)
  rw [hform, h _ _ hform]

theorem extends_add (a : Arena) (form : Form Slot) (span : Span) :
    a.Extends (a.add form span).1 := by
  intro slot old h
  cases slot with
  | none => cases h
  | some n => rw [form?_add_of_lt (lt_size_of_form? h), h]

end DeclBundle.Arena
