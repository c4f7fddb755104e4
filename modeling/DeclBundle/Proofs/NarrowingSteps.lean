import DeclBundle.Proofs.CopiedNames

/-!
# Steps that declare nothing new

Types that are filled in, references that get their final names and modifiers that are set change
forms, but no node declares more afterwards than before (`Build.Narrows`). So the names of symbols
stay apart through all of these steps, from the first copy to the finished bundle.
-/

set_option autoImplicit false

namespace DeclBundle.Build

variable {α β : Type}

/-- One tree has the statements of the other one, and no node declares more in it. -/
structure NarrowsTo (t t' : BundleTree) : Prop where
  arena : t.arena.Narrows t'.arena
  statements_eq : t'.statements = t.statements

theorem NarrowsTo.refl (t : BundleTree) : NarrowsTo t t := ⟨.refl _, rfl⟩

theorem NarrowsTo.trans {t t' t'' : BundleTree} (h : NarrowsTo t t') (h' : NarrowsTo t' t'') :
    NarrowsTo t t'' :=
  ⟨h.arena.trans h'.arena, h'.statements_eq.trans h.statements_eq⟩

/-- The step keeps the statements of symbols, and no node declares more afterwards. -/
def Narrows (m : Build α) : Prop := ∀ t : BundleTree, NarrowsTo t (m.run t).2

/-! ## Rules -/

theorem narrows_pure (x : α) : Narrows (pure x) := fun t => .refl t

theorem narrows_bind {m : Build α} {f : α → Build β} (hm : Narrows m) (hf : ∀ x, Narrows (f x)) :
    Narrows (m >>= f) :=
  fun t => (hm t).trans (hf (m.run t).1 (m.run t).2)

theorem narrows_forM {γ : Type} {f : γ → Build PUnit} {xs : List γ} (hf : ∀ x ∈ xs, Narrows (f x)) :
    Narrows (xs.forM f) := by
  induction xs with
  | nil => exact narrows_pure _
  | cons x xs ih =>
    exact narrows_bind (hf x List.mem_cons_self) fun _ => ih fun y hy =>
      hf y (List.mem_cons_of_mem _ hy)

theorem Adds.narrows {m : Build α} {Q : α → Arena → Prop} (h : Adds m Q) : Narrows m :=
  fun t => ⟨(h t).1.narrows, (h t).2.1.statements_eq⟩

/-- A form that declares what the node declared, or nothing. -/
theorem narrowsTo_replace {n : NodeId} {form : Form Slot} {t : BundleTree}
    (h : form.heads = t.arena.heads (some n) ∨ form.heads = {}) :
    NarrowsTo t ((replace n form).run t).2 :=
  ⟨t.arena.narrows_replace n h, rfl⟩

theorem narrows_replace {n : NodeId} {form : Form Slot} (h : form.heads = {}) :
    Narrows (replace n form) :=
  fun _ => narrowsTo_replace (.inr h)

/-- The names of symbols stay apart. -/
theorem NarrowsTo.namesApart {t t' : BundleTree} (h : NarrowsTo t t') (ht : t.NamesApart) :
    t'.NamesApart :=
  ht.narrow h.arena h.statements_eq

/-! ## Types that are filled in -/

theorem heads_withImpliedType {type : Slot} {form form' : Form Slot}
    (h : withImpliedType type form = some form') :
    form'.heads = form.heads := by
  unfold withImpliedType at h
  split at h <;> cases h <;> rfl

theorem narrows_implyType (p : Project) (node : NodeId) : Narrows (implyType p node) := by
  intro t
  obtain ⟨-, heq⟩ | ⟨keyword, form, form', -, hform, hform', heq⟩ := implyType_cases p node t
  · rw [heq]
    exact .refl t
  · have hadds := adds_add (.keywordType keyword)
    have hform₁ : ((add (.keywordType keyword)).run t).2.arena.form? (some node) = some form :=
      (hadds t).1 _ _ hform
    rw [heq]
    refine (hadds.narrows t).trans (narrowsTo_replace (.inl ?_))
    rw [Arena.heads_of_form? hform₁, heads_withImpliedType hform']

/-! ## Copies -/

theorem namesApart_empty : BundleTree.NamesApart {} := by
  have hof : ∀ id, BundleTree.statementsOf {} id = [] := fun _ => rfl
  constructor
  · intro id s hs
    rw [hof] at hs
    cases hs
  · intro id s declarations d hs
    rw [hof] at hs
    cases hs
  · intro id s n hs
    rw [hof] at hs
    cases hs
  · intro id s hs
    rw [hof] at hs
    cases hs
  · intro id id' s s' n hs
    rw [hof] at hs
    cases hs

theorem namesApart_copySymbols (p : Project) (kept : List SymbolId) {t : BundleTree}
    (h : t.NamesApart) :
    ((kept.forM (copySymbol p)).run t).2.NamesApart := by
  induction kept generalizing t with
  | nil => exact h
  | cons id kept ih => exact ih (namesApart_copySymbol p id h)

/-- In the tree with everything that is kept, no node is a name of the statements of two symbols. -/
theorem namesApart_ofCollection (p : Project) (collection : Collection) :
    (BundleTree.ofCollection p collection).NamesApart := by
  have hcopied := namesApart_copySymbols p collection.kept namesApart_empty
  have hfilled : ∀ count : Nat,
      Narrows ((List.range count).forM fun index => implyType p ⟨index⟩) := fun count =>
    narrows_forM fun index _ => narrows_implyType p ⟨index⟩
  exact (hfilled _ _).namesApart hcopied

/-! ## Final names of references -/

theorem heads_of_isName {n : NodeId} {a : Arena} {form : Form Slot} (h : IsName n a)
    (hform : a.form? (some n) = some form) : form.heads = {} := by
  rcases h with ⟨text, h⟩ | ⟨left, right, h⟩
  · obtain rfl := Option.some.inj (hform.symm.trans h)
    rfl
  · obtain rfl := Option.some.inj (hform.symm.trans h)
    rfl

theorem narrows_setDottedName (node : NodeId) (text : String) :
    Narrows (setDottedName node text) := by
  intro t
  have hadds := adds_dottedName text
  obtain ⟨form, hform, heq⟩ := exists_form_setDottedName node text t
  rw [heq]
  exact (hadds.narrows t).trans
    (narrows_replace (heads_of_isName ((hadds t).2.2 _ (.refl _)) hform) _)

theorem narrows_nameImportType (node : NodeId) (text : String) (depth : Nat) :
    Narrows (nameImportType node text depth) := by
  unfold nameImportType
  refine narrows_bind (adds_get fun _ _ => trivial).narrows fun t => ?_
  dsimp only
  split
  · refine narrows_bind (adds_dottedName _).narrows fun name => narrows_replace ?_
    split <;> rfl
  · exact narrows_pure _

theorem narrows_nameReference (text : String) (r : Reference) : Narrows (nameReference text r) := by
  unfold nameReference
  refine narrows_bind (adds_get fun _ _ => trivial).narrows fun t => narrows_forM fun copy _ => ?_
  split
  · exact narrows_setDottedName copy text
  · exact narrows_setDottedName copy text
  · exact narrows_nameImportType copy text _

/-- Final names at references declare nothing. -/
theorem narrows_nameReferences (p : Project) (collection : Collection) (naming : Naming) :
    Narrows (nameReferences p collection naming) := by
  refine narrows_forM fun ⟨target, references⟩ _ => ?_
  dsimp only
  split
  · exact narrows_forM fun r _ => narrows_nameReference _ r
  · exact narrows_pure _

end DeclBundle.Build
