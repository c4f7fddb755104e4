import DeclBundle.Bundle.Tree
import DeclBundle.Proofs.Forms
import DeclBundle.Proofs.Traversal

/-!
# Copies stand by themselves

A declaration is copied into nodes that are new, one block of them after the other.
`Build.Makes first size m Q` says what a step does that builds part of the block from node `first`
on, when `size` nodes are there at least: nodes before the block keep their forms, the children of
nodes in the block are in the block, and the result satisfies `Q` for the number of nodes
afterwards. Every step of `Build.copyDeclaration` is such a step (`Build.makes_copyDeclaration`).
-/

set_option autoImplicit false

namespace DeclBundle

open Text (Span)

/-- The slot is empty or holds a node from `first` on, before `size`. -/
def InBlock (first size : Nat) (slot : Slot) : Prop :=
  ∀ n : NodeId, slot = some n → first ≤ n.index ∧ n.index < size

theorem inBlock_none (first size : Nat) : InBlock first size none := by
  intro n h
  cases h

theorem InBlock.mono {first size size' : Nat} {slot : Slot} (h : InBlock first size slot)
    (hle : size ≤ size') :
    InBlock first size' slot :=
  fun n hn => ⟨(h n hn).1, Nat.lt_of_lt_of_le (h n hn).2 hle⟩

/-- The children of every node from `first` on are such nodes themselves. -/
def Arena.ClosedFrom (a : Arena) (first : Nat) : Prop :=
  ∀ (n : NodeId) (form : Form Slot), first ≤ n.index → a.form? (some n) = some form →
    ∀ child ∈ form.children, InBlock first a.size child

/-- From one tree to the other only nodes from `first` on are new or changed. -/
structure BuildsFrom (first : Nat) (t t' : BundleTree) : Prop where
  size_le : t.arena.size ≤ t'.arena.size
  form?_eq : ∀ n : NodeId, n.index < first → t'.arena.form? (some n) = t.arena.form? (some n)
  statements_eq : t'.statements = t.statements
  closed : t.arena.ClosedFrom first → t'.arena.ClosedFrom first

namespace BuildsFrom

variable {first : Nat} {t t' t'' : BundleTree}

theorem refl (first : Nat) (t : BundleTree) : BuildsFrom first t t :=
  ⟨Nat.le_refl _, fun _ _ => rfl, rfl, id⟩

theorem trans (h : BuildsFrom first t t') (h' : BuildsFrom first t' t'') : BuildsFrom first t t'' :=
  ⟨Nat.le_trans h.size_le h'.size_le, fun n hn => (h'.form?_eq n hn).trans (h.form?_eq n hn),
    h'.statements_eq.trans h.statements_eq, h'.closed ∘ h.closed⟩

/-- Steps that change nothing but what is noted about the nodes. -/
theorem of_forms (hsize : t'.arena.size = t.arena.size)
    (hforms : ∀ slot, t'.arena.form? slot = t.arena.form? slot)
    (hstatements : t'.statements = t.statements) :
    BuildsFrom first t t' := by
  refine ⟨Nat.le_of_eq hsize.symm, fun n _ => hforms _, hstatements, ?_⟩
  intro hclosed n form hn hform child hchild
  rw [hsize]
  exact hclosed n form hn ((hforms _).symm.trans hform) child hchild

end BuildsFrom

namespace Build

variable {α β : Type}

theorem run_bind (m : Build α) (f : α → Build β) (t : BundleTree) :
    (m >>= f).run t = (f (m.run t).1).run (m.run t).2 := rfl

/-- The step builds in the block from `first` on, and what it gives satisfies `Q` for the number of
nodes then. -/
def Makes (first size : Nat) (m : Build α) (Q : α → Nat → Prop) : Prop :=
  ∀ t : BundleTree, first ≤ size → size ≤ t.arena.size → t.arena.ClosedFrom first →
    BuildsFrom first t (m.run t).2 ∧ Q (m.run t).1 (m.run t).2.arena.size

/-! ## Rules -/

variable {first size : Nat} {Q : α → Nat → Prop}

theorem makes_pure {a : α} (h : ∀ size', size ≤ size' → Q a size') : Makes first size (pure a) Q :=
  fun t _ hsize _ => ⟨.refl first t, h _ hsize⟩

theorem makes_bind {m : Build α} {f : α → Build β} {R : β → Nat → Prop} (hm : Makes first size m Q)
    (hf : ∀ a size', size ≤ size' → Q a size' → Makes first size' (f a) R) :
    Makes first size (m >>= f) R := by
  intro t hfirst hsize hclosed
  obtain ⟨hbuilds, hQ⟩ := hm t hfirst hsize hclosed
  have hsize' : size ≤ (m.run t).2.arena.size := Nat.le_trans hsize hbuilds.size_le
  obtain ⟨hbuilds', hR⟩ := hf _ _ hsize' hQ (m.run t).2 (Nat.le_trans hfirst hsize') (Nat.le_refl _)
    (hbuilds.closed hclosed)
  exact ⟨hbuilds.trans hbuilds', hR⟩

/-- A step for each element of a list. -/
theorem makes_mapM {γ : Type} {f : γ → Build α} {xs : List γ} (hQ : ∀ a m n, m ≤ n → Q a m → Q a n)
    (hf : ∀ x ∈ xs, ∀ size', size ≤ size' → Makes first size' (f x) Q) :
    Makes first size (xs.mapM f) fun ys size' => ∀ y ∈ ys, Q y size' := by
  induction xs generalizing size with
  | nil => exact makes_pure fun _ _ y hy => by cases hy
  | cons x xs ih =>
    rw [List.mapM_cons]
    refine makes_bind (hf x List.mem_cons_self size (Nat.le_refl _)) fun y size₁ h₁ hy => ?_
    have hrest : ∀ x' ∈ xs, ∀ size', size₁ ≤ size' → Makes first size' (f x') Q :=
      fun x' hx' size' h' =>
      hf x' (List.mem_cons_of_mem _ hx') size' (Nat.le_trans h₁ h')
    refine makes_bind (ih hrest) fun ys size₂ h₂ hys => makes_pure fun size₃ h₃ z hz => ?_
    rcases List.mem_cons.1 hz with rfl | hz
    · exact hQ _ _ _ (Nat.le_trans h₂ h₃) hy
    · exact hQ _ _ _ h₃ (hys z hz)

/-! ## Nodes -/

/-- What is built from the children of a new node is in the block. -/
theorem makes_addAt {form : Form Slot} {span : Span}
    (h : ∀ child ∈ form.children, InBlock first size child) :
    Makes first size (addAt span form) fun n size' => InBlock first size' (some n) := by
  intro t hfirst hsize _
  let t' : BundleTree := ((addAt span form).run t).2
  have hsize' : t'.arena.size = t.arena.size + 1 := t.arena.size_add form span
  have hnode : ((addAt span form).run t).1.index = t.arena.size := rfl
  refine ⟨⟨?_, ?_, rfl, ?_⟩, ?_⟩
  · exact Nat.le_of_lt (hsize' ▸ Nat.lt_succ_self _)
  · intro n hn
    exact Arena.form?_add_of_lt (Nat.lt_of_lt_of_le hn (Nat.le_trans hfirst hsize)) form span
  · intro hclosed n old hn hold child hchild
    show InBlock first t'.arena.size child
    rw [hsize']
    -- the node is one of those before, or the one that is added
    by_cases hlt : n.index < t.arena.size
    · have hold' : t.arena.form? (some n) = some old :=
        (Arena.form?_add_of_lt hlt form span).symm.trans hold
      exact (hclosed n old hn hold' child hchild).mono (Nat.le_succ _)
    · have hnew : n.index = t.arena.size := by
        have hlt' : n.index < t'.arena.size := Arena.lt_size_of_form? hold
        omega
      have hself : t'.arena.form? (some n) = some form := by
        obtain ⟨index⟩ := n
        obtain rfl : index = t.arena.size := hnew
        exact Arena.form?_add_self t.arena form span
      obtain rfl : form = old := Option.some.inj (hself.symm.trans hold)
      exact (h child hchild).mono (Nat.le_trans hsize (Nat.le_succ _))
  · intro n hn
    obtain rfl := Option.some.inj hn
    rw [hnode]
    exact ⟨Nat.le_trans hfirst hsize, hsize' ▸ Nat.lt_succ_self _⟩

theorem makes_add {form : Form Slot} (h : ∀ child ∈ form.children, InBlock first size child) :
    Makes first size (add form) fun n size' => InBlock first size' (some n) :=
  makes_addAt h

theorem makes_identifier (text : String) :
    Makes first size (identifier text) fun n size' => InBlock first size' (some n) :=
  makes_add fun _ h => by cases h

/-- A node of the block gets another form with children in the block. -/
theorem makes_replace {n : NodeId} {form : Form Slot} (hn : InBlock first size (some n))
    (h : ∀ child ∈ form.children, InBlock first size child) :
    Makes first size (replace n form) fun _ _ => True := by
  intro t _ hsize _
  have hlt : n.index < t.arena.size := Nat.lt_of_lt_of_le (hn n rfl).2 hsize
  refine ⟨⟨Nat.le_of_eq (t.arena.size_replace (some n) form).symm, ?_, rfl, ?_⟩, trivial⟩
  · intro m hm
    refine Arena.form?_replace_of_ne ?_ form
    rintro ⟨⟩
    exact Nat.not_le.2 hm (hn n rfl).1
  · intro hclosed m old hm hold child hchild
    show InBlock first (t.arena.replace (some n) form).size child
    rw [Arena.size_replace]
    have hold' := (Arena.form?_replace hlt form (some m)).symm.trans hold
    by_cases hmn : (some m : Slot) = some n
    · rw [if_pos hmn] at hold'
      obtain rfl := Option.some.inj hold'
      exact (h child hchild).mono hsize
    · rw [if_neg hmn] at hold'
      exact hclosed m old hm hold' child hchild

theorem form?_recordCopy (source : Arena) (origin : NodeRef) (copy : NodeId) (t : BundleTree)
    (slot : Slot) :
    ((recordCopy source origin copy).run t).2.arena.form? slot = t.arena.form? slot := by
  show ((source.doc? origin.node).elim t.arena (t.arena.setDoc (some copy))).form? slot = _
  cases source.doc? origin.node <;> rfl

theorem size_recordCopy (source : Arena) (origin : NodeRef) (copy : NodeId) (t : BundleTree) :
    ((recordCopy source origin copy).run t).2.arena.size = t.arena.size := by
  show ((source.doc? origin.node).elim t.arena (t.arena.setDoc (some copy))).size = _
  cases source.doc? origin.node <;> rfl

theorem makes_recordCopy (source : Arena) (origin : NodeRef) (copy : NodeId) :
    Makes first size (recordCopy source origin copy) fun _ _ => True :=
  fun t _ _ _ =>
    ⟨BuildsFrom.of_forms (size_recordCopy _ _ _ t) (form?_recordCopy _ _ _ t) rfl, trivial⟩

/-! ## Copies -/

/-- A form whose children are built in the block. -/
theorem makes_form {f : Slot → Build Slot} (form : Form Slot)
    (h : ∀ child size', size ≤ size' → Makes first size' (f child) fun slot size' =>
      InBlock first size' slot) :
    Makes first size (form.mapM f) fun form size' => ∀ child ∈ form.children,
      InBlock first size' child := by
  intro t hfirst hsize hclosed
  have hmapM : Makes first size (form.children.mapM f) fun slots size' =>
    ∀ slot ∈ slots, InBlock first size' slot :=
    makes_mapM (fun _ _ _ hle h => h.mono hle) fun child _ => h child
  obtain ⟨hbuilds, hall⟩ := hmapM t hfirst hsize hclosed
  rw [Form.state_run_mapM]
  refine ⟨hbuilds, fun child hchild => hall child ?_⟩
  rwa [Form.children_run_mapM] at hchild

/-- The copy of a node is in the block with all below it. -/
theorem makes_copyTo (source : Arena) (file : FileId) (depth : Nat) (node : Slot) :
    Makes first size (copyTo source file depth node) fun slot size' =>
      InBlock first size' slot := by
  induction depth generalizing size node with
  | zero => exact makes_pure fun _ _ => inBlock_none _ _
  | succ depth ih =>
    unfold copyTo
    cases source.get? node with
    | none => exact makes_pure fun _ _ => inBlock_none _ _
    | some found =>
      have hform : Makes first size (found.form.mapM (copyTo source file depth)) fun form size' =>
          ∀ child ∈ form.children, InBlock first size' child :=
            makes_form found.form fun child _ _ => ih child
      refine makes_bind hform fun form size₁ h₁ hchildren =>
        makes_bind (makes_addAt hchildren) fun n size₂ h₂ hn => ?_
      exact makes_bind (makes_recordCopy source ⟨file, node⟩ n) fun _ size₃ h₃ _ =>
        makes_pure fun size₄ h₄ => hn.mono (Nat.le_trans h₃ h₄)

theorem makes_copy (source : Arena) (ref : NodeRef) :
    Makes first size (copy source ref) fun slot size' => InBlock first size' slot :=
  makes_copyTo source ref.file _ ref.node

variable (p : Project)

theorem makes_copyType (type : NodeRef) :
    Makes first size (copyType p type) fun slot size' => InBlock first size' slot := by
  unfold copyType
  cases p.arena? type.file with
  | none => exact makes_pure fun _ _ => inBlock_none _ _
  | some source => exact makes_copy source type

theorem makes_partType {object : Slot} (h : InBlock first size object) (key : BindingKey) :
    Makes first size (partType object key) fun slot size' => InBlock first size' slot := by
  unfold partType
  refine makes_bind (Q := fun n size' => InBlock first size' (some n)) ?_
    fun literal size₁ h₁ hliteral => ?_
  · cases key <;> exact makes_add fun _ hchild => by cases hchild
  · refine makes_bind (makes_add ?_) fun index size₂ h₂ hindex => ?_
    · intro child hchild
      obtain rfl := List.mem_singleton.1 hchild
      exact hliteral
    · refine makes_bind (makes_add ?_) fun access size₃ h₃ haccess =>
        makes_pure fun size₄ h₄ => haccess.mono h₄
      intro child hchild
      rcases List.mem_cons.1 hchild with rfl | hchild
      · exact h.mono (Nat.le_trans h₁ h₂)
      · obtain rfl := List.mem_singleton.1 hchild
        exact hindex

theorem makes_declaredType (type : DeclaredType) :
    Makes first size (declaredType p type) fun slot size' => InBlock first size' slot := by
  cases type with
  | literal text =>
    refine makes_bind (makes_add fun _ h => by cases h) fun literal size₁ h₁ hliteral => ?_
    refine makes_bind (makes_add ?_) fun type size₂ h₂ htype => makes_pure fun _ h₃ => htype.mono h₃
    intro child hchild
    obtain rfl := List.mem_singleton.1 hchild
    exact hliteral
  | keyword keyword =>
    exact makes_bind (makes_add fun _ h => by cases h) fun type size₁ h₁ htype =>
      makes_pure fun _ h₂ => htype.mono h₂
  | written type => exact makes_copyType p type
  | part type path =>
    refine makes_bind (makes_copyType p type) fun object size₁ h₁ hobject => ?_
    clear h₁
    induction path generalizing object size₁ with
    | nil => exact makes_pure fun _ h => hobject.mono h
    | cons key path ih =>
      rw [List.foldlM_cons]
      exact makes_bind (makes_partType hobject key) fun inner size₂ h₂ hinner =>
        ih inner size₂ hinner
  | unknown => exact makes_pure fun _ _ => inBlock_none _ _

/-! ## Declarations -/

theorem makes_variableStatement (modifiers : Modifiers) (flavor : VariableFlavor)
    {declarator : Slot} (span : Span) (h : InBlock first size declarator) :
    Makes first size (variableStatement modifiers flavor declarator span) fun n size' =>
      InBlock first size' (some n) := by
  refine makes_addAt fun child hchild => ?_
  obtain rfl := List.mem_singleton.1 hchild
  exact h

theorem makes_copyVariable (source : Arena) (ref : NodeRef) :
    Makes first size (copyVariable source ref) fun slot size' => InBlock first size' slot := by
  unfold copyVariable
  dsimp only
  split
  · refine makes_bind (makes_copy source ref) fun declarator size₁ h₁ hdeclarator => ?_
    refine makes_bind (makes_variableStatement _ _ _ hdeclarator) fun made size₂ h₂ hmade => ?_
    exact makes_bind (makes_recordCopy _ _ _) fun _ size₃ h₃ _ => makes_pure fun _ h₄ =>
      hmade.mono (Nat.le_trans h₃ h₄)
  · exact makes_pure fun _ _ => inBlock_none _ _

theorem makes_copyBinding (source : Arena) (ref : NodeRef) (name : Slot) :
    Makes first size (copyBinding p source ref name) fun slot size' =>
      InBlock first size' slot := by
  unfold copyBinding
  dsimp only
  split
  · refine makes_bind (makes_copy source _) fun name size₁ h₁ hname => ?_
    refine makes_bind (makes_declaredType p _) fun type size₂ h₂ htype => ?_
    refine makes_bind (makes_addAt ?_) fun declarator size₃ h₃ hdeclarator => ?_
    · intro child hchild
      simp only [Form.children, List.mem_cons, List.not_mem_nil, or_false] at hchild
      rcases hchild with rfl | rfl | rfl
      · exact hname.mono h₂
      · exact htype
      · exact inBlock_none _ _
    · refine makes_bind (makes_variableStatement _ _ _ hdeclarator) fun made size₄ h₄ hmade => ?_
      exact makes_bind (makes_recordCopy _ _ _) fun _ size₅ h₅ _ =>
        makes_pure fun _ h₆ => hmade.mono (Nat.le_trans h₅ h₆)
  · exact makes_pure fun _ _ => inBlock_none _ _

theorem makes_copyDefaultValue (source : Arena) (ref : NodeRef) :
    Makes first size (copyDefaultValue p source ref) fun slot size' =>
      InBlock first size' slot := by
  unfold copyDefaultValue
  refine makes_bind (makes_declaredType p _) fun type size₁ h₁ htype => ?_
  cases type with
  | none => exact makes_pure fun _ _ => inBlock_none _ _
  | some type =>
    refine makes_bind (makes_identifier _) fun name size₂ h₂ hname => ?_
    refine makes_bind (makes_add ?_) fun declarator size₃ h₃ hdeclarator => ?_
    · intro child hchild
      simp only [Form.children, List.mem_cons, List.not_mem_nil, or_false] at hchild
      rcases hchild with rfl | rfl | rfl
      · exact hname
      · exact htype.mono h₂
      · exact inBlock_none _ _
    · refine makes_bind (makes_variableStatement _ _ _ hdeclarator) fun made size₄ h₄ hmade => ?_
      exact makes_bind (makes_recordCopy _ _ _) fun _ size₅ h₅ _ =>
        makes_pure fun _ h₆ => hmade.mono (Nat.le_trans h₅ h₆)

/-- The children of the named form are the new name and those that were there. -/
theorem makes_nameDefault {node : NodeId} (hnode : InBlock first size (some node)) :
    Makes first size (nameDefault node) fun _ _ => True := by
  refine makes_bind (makes_identifier "default") fun name size₁ h₁ hname t hfirst hsize hclosed =>
    ?_
  have hchildren : ∀ form, t.form? (some node) = some form → ∀ child ∈ form.children,
      InBlock first t.arena.size child := fun form hform =>
    hclosed node form (hnode node rfl).1 hform
  have hname' : InBlock first t.arena.size (some name) := hname.mono hsize
  have hnode' : InBlock first t.arena.size (some node) := hnode.mono (Nat.le_trans h₁ hsize)
  rw [run_bind]
  show BuildsFrom first t _ ∧ True
  split
  · next ms old s hasBody hform =>
    refine makes_replace hnode' (fun child hchild => ?_) t (Nat.le_trans hfirst hsize)
      (Nat.le_refl _) hclosed
    rcases List.mem_cons.1 hchild with rfl | hchild
    · exact hname'
    · exact hchildren _ hform child (List.mem_cons_of_mem _ hchild)
  · next ms old xs ys zs hform =>
    refine makes_replace hnode' (fun child hchild => ?_) t (Nat.le_trans hfirst hsize)
      (Nat.le_refl _) hclosed
    rcases List.mem_cons.1 hchild with rfl | hchild
    · exact hname'
    · exact hchildren _ hform child (List.mem_cons_of_mem _ hchild)
  · exact ⟨.refl first t, trivial⟩

theorem makes_copyAndName (source : Arena) (ref : NodeRef) :
    Makes first size (do
      let made ← copy source ref
      made.forM nameDefault
      return made) fun slot size' => InBlock first size' slot := by
  refine makes_bind (makes_copy source ref) fun made size₁ h₁ hmade => ?_
  cases made with
  | none => exact makes_pure fun _ _ => inBlock_none _ _
  | some n =>
    exact makes_bind (makes_nameDefault hmade) fun _ size₂ h₂ _ => makes_pure fun _ h₃ =>
      hmade.mono (Nat.le_trans h₂ h₃)

/-- A copied declaration is a block of nodes of its own. -/
theorem makes_copyDeclaration (ref : NodeRef) :
    Makes first size (copyDeclaration p ref) fun slot size' => InBlock first size' slot := by
  unfold copyDeclaration
  split
  · exact makes_pure fun _ _ => inBlock_none _ _
  · next source _ =>
    split
    · exact makes_pure fun _ _ => inBlock_none _ _
    · exact makes_copyVariable source ref
    · exact makes_copyBinding p source ref _
    · exact makes_copyDefaultValue p source ref
    · exact makes_copyAndName source ref
    · exact makes_copyAndName source ref
    · exact makes_copy source ref

end Build

end DeclBundle
