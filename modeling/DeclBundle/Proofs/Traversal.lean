import DeclBundle.Ast.Form

/-!
# Replacing the children of a form

`Form.mapM` runs a step at each child, in the order of `Form.children` (`Form.children_mapM`), and
changes nothing else: the old and the new form are the two halves of one form of pairs
(`Form.exists_pairs`).
-/

set_option autoImplicit false

namespace DeclBundle

variable {α β γ σ : Type}

/-! ## Lists and signatures -/

theorem fst_run_bind (x : StateM σ α) (f : α → StateM σ β) (s : σ) :
    ((x >>= f).run s).1 = ((f (x.run s).1).run (x.run s).2).1 := rfl

theorem fst_run_pure (a : α) (s : σ) : ((pure a : StateM σ α).run s).1 = a := rfl

theorem fst_run_map_const (x : StateM σ β) (a : α) (s : σ) :
    (((fun _ => a) <$> x : StateM σ α).run s).1 = a := rfl

theorem map_mapM_list (f : α → StateM σ β) (h : β → γ) (xs : List α) :
    (List.map h <$> xs.mapM f : StateM σ (List γ)) = xs.mapM fun a => h <$> f a := by
  induction xs with
  | nil => rfl
  | cons x xs ih =>
    simp only [List.mapM_cons, map_bind, bind_map_left, ← ih, map_pure, List.map_cons]

/-- A step that gives back what it was run at gives back the list. -/
theorem run_mapM_const (f : α → StateM σ β) (xs : List α) (s : σ) :
    ((xs.mapM fun a => (fun _ => a) <$> f a).run s).1 = xs := by
  induction xs generalizing s with
  | nil => rfl
  | cons x xs ih =>
    rw [List.mapM_cons]
    exact congrArg (x :: ·) (ih _)

namespace Signature

theorem map_mapM (f : α → StateM σ β) (h : β → γ) (s : Signature α) :
    ((fun r : Signature β => Id.run (r.mapM fun a => pure (h a))) <$>
      s.mapM f : StateM σ (Signature γ)) =
      s.mapM fun a => h <$> f a := by
  simp only [mapM, ← map_mapM_list, map_bind, bind_map_left, map_pure, List.mapM_pure, pure_bind,
    Id.run_pure]

theorem run_mapM_const (f : α → StateM σ β) (s : Signature α) (state : σ) :
    ((s.mapM fun a => (fun _ => a) <$> f a).run state).1 = s := by
  have h₁ := DeclBundle.run_mapM_const f s.typeParameters state
  have h₂ := DeclBundle.run_mapM_const f s.parameters
    ((s.typeParameters.mapM fun a => (fun _ => a) <$> f a).run state).2
  exact congr (congrArg (fun xs ys => Signature.mk xs ys s.returnType) h₁) h₂

end Signature

namespace Form

/-! ## Children -/

-- the equations for all forms are made here, once for the lemmas below
attribute [local simp] children Form.mapM

/-- The steps run at the children, in order, and give the new children. -/
theorem children_mapM (f : α → StateM σ β) (form : Form α) :
    (children <$> form.mapM f : StateM σ (List β)) = form.children.mapM f := by
  cases form <;> first
    | rfl
    | simp only [children, Signature.children, List.mapM_append, List.mapM_cons, List.mapM_nil]
      rfl

theorem children_run_mapM (f : α → StateM σ β) (form : Form α) (s : σ) :
    ((form.mapM f).run s).1.children = ((form.children.mapM f).run s).1 := by
  rw [← children_mapM]
  rfl

theorem state_run_mapM (f : α → StateM σ β) (form : Form α) (s : σ) :
    ((form.mapM f).run s).2 = ((form.children.mapM f).run s).2 := by
  rw [← children_mapM]
  rfl

@[simp] theorem children_map (f : α → β) (form : Form α) :
    (form.map f).children = form.children.map f := by
  have h : (children <$> form.mapM (fun a => pure (f a)) : Id (List β)) =
      form.children.mapM fun a => pure (f a) := by
    cases form <;> first
      | rfl
      | simp only [children, Signature.children, List.mapM_append, List.mapM_cons, List.mapM_nil]
        rfl
  rw [List.mapM_pure] at h
  exact congrArg Id.run h

/-! ## The rest of a form -/

theorem map_mapM (f : α → StateM σ β) (h : β → γ) (form : Form α) :
    (Form.map h <$> form.mapM f : StateM σ (Form γ)) = form.mapM fun a => h <$> f a := by
  cases form <;> first
    | rfl
    | simp only [mapM, Form.map, ← map_mapM_list, ← Signature.map_mapM, map_bind,
      bind_map_left, map_pure,
        List.mapM_pure, pure_bind, Id.run_pure, Id.run_bind]

theorem run_mapM_const (f : α → StateM σ β) (form : Form α) (s : σ) :
    ((form.mapM fun a => (fun _ => a) <$> f a).run s).1 = form := by
  cases form <;> first
    | rfl
    | simp only [mapM, fst_run_bind, fst_run_pure, DeclBundle.run_mapM_const,
      Signature.run_mapM_const,
        fst_run_map_const]

/-- The old and the new form are the halves of one form, whose children are the pairs of old and new
children. -/
theorem exists_pairs (f : α → StateM σ β) (form : Form α) (s : σ) :
    ∃ pairs : Form (α × β), pairs.map Prod.fst = form ∧
      pairs.map Prod.snd = ((form.mapM f).run s).1 ∧
      pairs.children = ((form.children.mapM fun a => (fun b => (a, b)) <$> f a).run s).1 := by
  let step (a : α) : StateM σ (α × β) := (fun b => (a, b)) <$> f a
  refine ⟨((form.mapM step).run s).1, ?_, ?_, children_run_mapM step form s⟩
  · have h := congrArg (fun m => (StateT.run m s).1) (map_mapM step Prod.fst form)
    exact h.trans (run_mapM_const f form s)
  · exact congrArg (fun m => (StateT.run m s).1) (map_mapM step Prod.snd form)

@[simp] theorem name?_map (f : α → β) (form : Form α) : (form.map f).name? = form.name?.map f := by
  cases form <;> rfl

@[simp] theorem isDeclaration_map (f : α → β) (form : Form α) :
    (form.map f).isDeclaration = form.isDeclaration := by
  cases form <;> rfl

/-- The declared name is one of the children. -/
theorem mem_children_of_name? {form : Form α} {name : α} (h : form.name? = some name) :
    name ∈ form.children := by
  cases form <;> simp [name?] at h <;> simp [children, h]

end Form

end DeclBundle
