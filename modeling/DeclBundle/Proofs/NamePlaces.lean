import DeclBundle.Proofs.Meanings
import DeclBundle.Proofs.ParsingFiles

/-!
# Where names stand in a file

A node of a file is the child of one node (`Arena.IsTree`). So a dotted name has one outermost name
around it (`Arena.IsTree.root_unique`): a part of a name that a walk reads is no part of the
qualifier of an import type (`Arena.IsTree.not_inName_qualifier`), and neither of them is declared
by anything (`Arena.IsTree.not_name_of_inName`).
-/

set_option autoImplicit false

namespace DeclBundle

namespace Form

variable {α : Type}

/-- The name that a walk reads at a form. -/
def held? : Form α → Option α
  | typeReference name _ | heritageType name _ | typeQuery name _ | computedName name
  | importEquals _ _ _ name =>
    some name
  | _ => none

theorem mem_children_of_held? {form : Form α} {name : α} (h : form.held? = some name) :
    name ∈ form.children := by
  cases form <;> simp [held?] at h <;> simp [children, h]

theorem isDotted_of_held? {form : Form α} {name : α} (h : form.held? = some name) :
    form.isDotted = false := by
  cases form <;> first
    | rfl
    | cases h

theorem name?_of_isDotted {form : Form α} (h : form.isDotted = true) : form.name? = none := by
  cases form <;> first
    | rfl
    | cases h

/-- A form that declares the name that it holds has two children for it. -/
theorem two_le_count_of_held? [BEq α] [LawfulBEq α] {form : Form α} {name : α}
    (hname : form.name? = some name) (hheld : form.held? = some name) :
    2 ≤ form.children.count name := by
  cases form <;> simp_all [name?, held?, children]

end Form

namespace Arena

variable {a : Arena}

theorem exists_held?_of_holdsName {root : Slot} (h : a.HoldsName root) :
    ∃ node form, a.form? node = some form ∧ form.held? = some root := by
  obtain ⟨node, typeArguments, h⟩ := h
  unfold Walk.at_ at h
  split at h
  · cases h
  · next form hform =>
    refine ⟨node, form, hform, ?_⟩
    split at h
    · cases h
    · unfold Walk.ofForm at h
      split at h <;> first
        | exact congrArg some (Walk.entity.inj h).1
        | cases h
        | skip
      all_goals
        split at h <;> first
          | exact congrArg some (Walk.entity.inj h).1
          | cases h

/-- The slot is a whole name: no dotted name has it as a part. -/
def IsOutermost (a : Arena) (root : Slot) : Prop :=
  ∃ node form, a.form? node = some form ∧ form.isDotted = false ∧ root ∈ form.children

theorem HoldsName.isOutermost {root : Slot} (h : a.HoldsName root) : a.IsOutermost root := by
  obtain ⟨node, form, hform, hheld⟩ := exists_held?_of_holdsName h
  exact ⟨node, form, hform, Form.isDotted_of_held? hheld, Form.mem_children_of_held? hheld⟩

theorem isOutermost_qualifier {node : Slot} {isTypeof : Bool} {argument qualifier : Slot}
    {typeArguments : List Slot}
    (h : a.form? node = some (.importType isTypeof argument qualifier typeArguments)) :
    a.IsOutermost qualifier :=
  ⟨node, _, h, rfl, List.mem_cons_of_mem _ List.mem_cons_self⟩

theorem InName.eq_none {slot : Slot} (h : a.InName none slot) : slot = none := by
  induction h with
  | root => rfl
  | part _ hform _ _ ih =>
    subst ih
    cases hform

/-! ## One parent -/

namespace IsTree

variable (h : a.IsTree)

include h

/-- Nodes with a common child are the same. -/
theorem parent_unique {n : NodeId} {parent parent' : Slot} {form form' : Form Slot}
    (hform : a.form? parent = some form) (hn : some n ∈ form.children)
    (hform' : a.form? parent' = some form') (hn' : some n ∈ form'.children) :
    parent = parent' := by
  cases parent with
  | none => cases hform
  | some m =>
    cases parent' with
    | none => cases hform'
    | some m' =>
      have hchild := isChildOf_some (h.places_le n) (mem_children_iff.2 ⟨form, hform, hn⟩)
      have hchild' := isChildOf_some (h.places_le n) (mem_children_iff.2 ⟨form', hform', hn'⟩)
      exact congrArg some (Hangs.parent_unique hchild hchild')

/-- Forms with a common child are the same. -/
theorem form_unique {n : NodeId} {parent parent' : Slot} {form form' : Form Slot}
    (hform : a.form? parent = some form) (hn : some n ∈ form.children)
    (hform' : a.form? parent' = some form') (hn' : some n ∈ form'.children) :
    form = form' := by
  obtain rfl := h.parent_unique hform hn hform' hn'
  exact Option.some.inj (hform.symm.trans hform')

theorem count_children_le_one {n : NodeId} {parent : Slot} {form : Form Slot}
    (hform : a.form? parent = some form) :
    form.children.count (some n) ≤ 1 := by
  cases parent with
  | none => cases hform
  | some m =>
    have hle := Nat.le_trans (a.count_children_le m n) (h.places_le n)
    rw [children, hform] at hle
    have hcount : (form.children.filterMap id).count n = form.children.count (some n) := by
      rw [List.count_filterMap]
      exact List.countP_congr fun slot _ => by cases slot <;> simp
    exact hcount ▸ hle

/-! ## One outermost name -/

theorem root_unique {root root' : Slot} {n : NodeId} (hroot : a.IsOutermost root)
    (hroot' : a.IsOutermost root') (hn : a.InName root (some n)) (hn' : a.InName root' (some n)) :
    root = root' := by
  generalize hslot : some n = slot at hn
  induction hn generalizing n with
  | root =>
    subst hslot
    obtain ⟨node, form, hform, hplain, hchild⟩ := hroot
    cases hn' with
    | root => rfl
    | part _ hform' hdotted hinner =>
      rw [h.form_unique hform hchild hform' hinner, hdotted] at hplain
      cases hplain
  | @part outer inner form houter hform hdotted hinner ih =>
    subst hslot
    cases hn' with
    | root =>
      obtain ⟨node, form', hform', hplain, hchild⟩ := hroot'
      rw [h.form_unique hform' hchild hform hinner, hdotted] at hplain
      cases hplain
    | part houter' hform' _ hinner' =>
      obtain rfl := h.parent_unique hform hinner hform' hinner'
      cases outer with
      | none => cases hform
      | some m => exact ih houter' rfl

/-- A part of a name that a walk reads is no part of the qualifier of an import type. -/
theorem not_inName_qualifier {root node : Slot} {isTypeof : Bool} {argument qualifier : Slot}
    {typeArguments : List Slot} {n : NodeId} (hroot : a.HoldsName root)
    (hn : a.InName root (some n))
    (hform : a.form? node = some (.importType isTypeof argument qualifier typeArguments)) :
    ¬ a.InName qualifier (some n) := by
  intro hn'
  obtain rfl := h.root_unique hroot.isOutermost (isOutermost_qualifier hform) hn hn'
  obtain ⟨node', form, hform', hheld⟩ := exists_held?_of_holdsName hroot
  cases root with
  | none => cases hn.eq_none
  | some m =>
    obtain rfl := h.form_unique hform' (Form.mem_children_of_held? hheld) hform
      (List.mem_cons_of_mem _ List.mem_cons_self)
    cases hheld

/-! ## Names that are not declared -/

/-- When the node around a whole name does not declare it, no part of the name is declared. -/
theorem not_name_of_inName {root node declaration : Slot} {holder form : Form Slot} {n : NodeId}
    (hholder : a.form? node = some holder) (hroot : root ∈ holder.children)
    (hname : holder.name? ≠ some root) (hn : a.InName root (some n))
    (hform : a.form? declaration = some form) : form.name? ≠ some (some n) := by
  intro hdeclared
  have hchild := Form.mem_children_of_name? hdeclared
  cases hn with
  | root =>
    obtain rfl := h.form_unique hholder hroot hform hchild
    exact hname hdeclared
  | part _ hform' hdotted hinner =>
    obtain rfl := h.form_unique hform' hinner hform hchild
    rw [Form.name?_of_isDotted hdotted] at hdeclared
    cases hdeclared

/-- No part of a name that a walk reads is declared. -/
theorem not_name_of_holdsName {root declaration : Slot} {form : Form Slot} {n : NodeId}
    (hroot : a.HoldsName root) (hn : a.InName root (some n))
    (hform : a.form? declaration = some form) : form.name? ≠ some (some n) := by
  obtain ⟨node, holder, hholder, hheld⟩ := exists_held?_of_holdsName hroot
  refine h.not_name_of_inName hholder (Form.mem_children_of_held? hheld) (fun hname => ?_) hn hform
  cases root with
  | none => cases hn.eq_none
  | some m =>
    have htwo := Form.two_le_count_of_held? hname hheld
    have hone := h.count_children_le_one (n := m) hholder
    omega

/-- No part of the qualifier of an import type is declared. -/
theorem not_name_of_qualifier {node declaration : Slot} {isTypeof : Bool}
    {argument qualifier : Slot} {typeArguments : List Slot} {form : Form Slot} {n : NodeId}
    (hnode : a.form? node = some (.importType isTypeof argument qualifier typeArguments))
    (hn : a.InName qualifier (some n)) (hform : a.form? declaration = some form) :
    form.name? ≠ some (some n) :=
  h.not_name_of_inName hnode (List.mem_cons_of_mem _ List.mem_cons_self)
    (fun hname => by cases hname) hn hform

end IsTree

end Arena

end DeclBundle
