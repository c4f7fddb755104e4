import DeclBundle.Proofs.FinalNames

/-!
# Copied statements stand nowhere yet

The statements that declarations are copied to are roots: no node has one of them as a child, and no
two of them are the same (`BundleTree.StatementsApart`). Copying makes each of them last, so nothing
that it is made of can refer to it.

Later steps put names and modifiers into the copies. `Build.Spares first size m Q` says that such a
step gives no node before `first` a new place: every child is new, or was a child of the same node
before. So statements stand nowhere until they are laid out.
-/

set_option autoImplicit false

namespace DeclBundle

open Text (Span)

namespace Arena

theorem mem_children_iff {a : Arena} {parent n : NodeId} :
    n ∈ a.children (some parent) ↔ ∃ form, a.form? (some parent) = some form ∧
      some n ∈ form.children := by
  unfold children
  cases a.form? (some parent) with
  | none => simp
  | some form => simp

/-- No node has the node as a child. -/
def Unplaced (a : Arena) (n : NodeId) : Prop := ∀ parent, n ∉ a.children (some parent)

/-- The children of all nodes are in the arena. -/
theorem ClosedFrom.lt_size {a : Arena} (h : a.ClosedFrom 0) {parent n : NodeId}
    (hn : n ∈ a.children (some parent)) :
    n.index < a.size := by
  obtain ⟨form, hform, hchild⟩ := mem_children_iff.1 hn
  exact (h parent form (Nat.zero_le _) hform _ hchild n rfl).2

theorem ClosedFrom.unplaced {a : Arena} (h : a.ClosedFrom 0) {n : NodeId} (hn : a.size ≤ n.index) :
    a.Unplaced n :=
  fun _ hmem => Nat.not_lt.2 hn (h.lt_size hmem)

/-- A new node is nobody's child, when the children of the others and its own were there before. -/
theorem unplaced_add {a : Arena} (h : a.ClosedFrom 0) {form : Form Slot} (span : Span)
    (hform : ∀ child ∈ form.children, InBlock 0 a.size child) :
    (a.add form span).1.Unplaced (a.add form span).2 := by
  intro parent hmem
  obtain ⟨other, hother, hchild⟩ := mem_children_iff.1 hmem
  have hlt : parent.index < a.size + 1 := (a.size_add form span) ▸ lt_size_of_form? hother
  by_cases hparent : parent.index < a.size
  · rw [form?_add_of_lt hparent] at hother
    exact Nat.lt_irrefl _ (h parent other (Nat.zero_le _) hother _ hchild _ rfl).2
  · obtain rfl : parent = (a.add form span).2 :=
      congrArg NodeId.mk (by omega : parent.index = a.size)
    rw [form?_add_self] at hother
    obtain rfl := Option.some.inj hother
    exact Nat.lt_irrefl _ (hform _ hchild _ rfl).2

end Arena

theorem Form.children_withModifiers (ms : Modifiers) (form : Form Slot) :
    (form.withModifiers ms).children = form.children := by
  cases form <;> rfl

namespace Build

variable {α β : Type} {first size : Nat}

/-! ## Steps that give no old node a new place -/

/-- From one tree to the other no node before `first` becomes a child of a node that it was no child
of. -/
structure SparesTo (first : Nat) (t t' : BundleTree) : Prop where
  size_le : t.arena.size ≤ t'.arena.size
  statements_eq : t'.statements = t.statements
  closed : t.arena.ClosedFrom 0 → t'.arena.ClosedFrom 0
  mem_children : ∀ parent n : NodeId, n.index < first → n ∈ t'.arena.children (some parent) →
    n ∈ t.arena.children (some parent)

namespace SparesTo

variable {t t' t'' : BundleTree}

theorem refl (first : Nat) (t : BundleTree) : SparesTo first t t :=
  ⟨Nat.le_refl _, rfl, id, fun _ _ _ h => h⟩

theorem trans (h : SparesTo first t t') (h' : SparesTo first t' t'') : SparesTo first t t'' :=
  ⟨Nat.le_trans h.size_le h'.size_le, h'.statements_eq.trans h.statements_eq, h'.closed ∘ h.closed,
    fun parent n hn hmem => h.mem_children parent n hn (h'.mem_children parent n hn hmem)⟩

theorem mono {first' : Nat} (h : SparesTo first t t') (hle : first' ≤ first) :
    SparesTo first' t t' :=
  ⟨h.size_le, h.statements_eq, h.closed,
    fun parent n hn => h.mem_children parent n (Nat.lt_of_lt_of_le hn hle)⟩

theorem unplaced (h : SparesTo first t t') {n : NodeId} (hlt : n.index < first)
    (hn : t.arena.Unplaced n) :
    t'.arena.Unplaced n :=
  fun parent hmem => hn parent (h.mem_children parent n hlt hmem)

end SparesTo

/-- A block of nodes at the end refers to nothing before it. -/
theorem sparesTo_of_buildsFrom {t t' : BundleTree} (h : BuildsFrom t.arena.size t t') :
    SparesTo t.arena.size t t' := by
  have hnew : t'.arena.ClosedFrom t.arena.size := h.closed t.arena.closedFrom_size
  refine ⟨h.size_le, h.statements_eq, fun hclosed n form _ hform child hchild => ?_,
    fun parent n hn hmem => ?_⟩
  · by_cases hlt : n.index < t.arena.size
    · rw [h.form?_eq n hlt] at hform
      exact (hclosed n form (Nat.zero_le _) hform child hchild).mono h.size_le
    · exact fun m hm =>
        ⟨Nat.zero_le _, (hnew n form (Nat.le_of_not_lt hlt) hform child hchild m hm).2⟩
  · obtain ⟨form, hform, hchild⟩ := Arena.mem_children_iff.1 hmem
    by_cases hlt : parent.index < t.arena.size
    · rw [h.form?_eq parent hlt] at hform
      exact Arena.mem_children_iff.2 ⟨form, hform, hchild⟩
    · exact absurd (hnew parent form (Nat.le_of_not_lt hlt) hform _ hchild n rfl).1
        (Nat.not_le.2 hn)

/-- The step gives no node before `first` a new place. -/
def Spares (first : Nat) (m : Build α) : Prop :=
  ∀ t : BundleTree, first ≤ t.arena.size → t.arena.ClosedFrom 0 → SparesTo first t (m.run t).2

theorem spares_pure (x : α) : Spares first (pure x) := fun t _ _ => .refl first t

theorem spares_bind {m : Build α} {f : α → Build β} (hm : Spares first m)
    (hf : ∀ x, Spares first (f x)) :
    Spares first (m >>= f) := by
  intro t hfirst hclosed
  have h := hm t hfirst hclosed
  exact h.trans (hf _ _ (Nat.le_trans hfirst h.size_le) (h.closed hclosed))

theorem spares_get {f : BundleTree → Build α} (hf : ∀ t, Spares first (f t)) :
    Spares first (get >>= f) :=
  fun t hfirst hclosed => hf t t hfirst hclosed

theorem spares_forM {γ : Type} {f : γ → Build PUnit} (hf : ∀ x, Spares first (f x)) (xs : List γ) :
    Spares first (xs.forM f) := by
  induction xs with
  | nil => exact spares_pure _
  | cons x xs ih => exact spares_bind (hf x) fun _ => ih

/-- A node gets a form whose children are new or were its own. -/
theorem sparesTo_replace {n : NodeId} {form : Form Slot} {t : BundleTree}
    (h : ∀ child ∈ form.children, InBlock first t.arena.size child ∨
      ∃ old, t.arena.form? (some n) = some old ∧ child ∈ old.children) :
    SparesTo first t ((replace n form).run t).2 := by
  -- only one node has changed, and its form is the given one
  have hcases : ∀ m other, ((replace n form).run t).2.arena.form? (some m) = some other →
      t.arena.form? (some m) = some other ∨ m = n ∧ other = form := by
    intro m other hother
    by_cases hm : (some m : Slot) = some n
    · obtain rfl := Option.some.inj hm
      have hlt : m.index < t.arena.size := by
        rw [← t.arena.size_replace (some m) form]
        exact Arena.lt_size_of_form? hother
      have hform := (Arena.form?_replace hlt form (some m)).symm.trans hother
      rw [if_pos rfl] at hform
      exact .inr ⟨rfl, (Option.some.inj hform).symm⟩
    · exact .inl ((Arena.form?_replace_of_ne hm form).symm.trans hother)
  have hsize : ((replace n form).run t).2.arena.size = t.arena.size := t.arena.size_replace _ _
  refine ⟨Nat.le_of_eq hsize.symm, rfl, fun hclosed m other _ hother child hchild => ?_,
    fun parent m hm hmem => ?_⟩
  · rw [hsize]
    rcases hcases m other hother with hold | ⟨rfl, rfl⟩
    · exact hclosed m other (Nat.zero_le _) hold child hchild
    · rcases h child hchild with hblock | ⟨old, hold, hchild⟩
      · exact fun k hk => ⟨Nat.zero_le _, (hblock k hk).2⟩
      · exact hclosed m old (Nat.zero_le _) hold child hchild
  · obtain ⟨other, hother, hchild⟩ := Arena.mem_children_iff.1 hmem
    rcases hcases parent other hother with hold | ⟨rfl, rfl⟩
    · exact Arena.mem_children_iff.2 ⟨other, hold, hchild⟩
    · rcases h _ hchild with hblock | ⟨old, hold, hchild⟩
      · exact absurd (hblock m rfl).1 (Nat.not_le.2 hm)
      · exact Arena.mem_children_iff.2 ⟨old, hold, hchild⟩

/-! ## Types that are filled in -/

theorem mem_children_withImpliedType {type child : Slot} {form form' : Form Slot}
    (h : withImpliedType type form = some form') (hchild : child ∈ form'.children) :
    child = type ∨ child ∈ form.children := by
  unfold withImpliedType at h
  split at h
  all_goals
    cases h
    try
      simp only [Form.children, List.mem_cons, List.not_mem_nil, or_false] at hchild ⊢
      rcases hchild with rfl | rfl | rfl <;> simp

theorem spares_implyType (p : Project) (node : NodeId) : Spares first (implyType p node) := by
  intro t hfirst hclosed
  obtain ⟨-, heq⟩ | ⟨keyword, form, form', -, hform, hform', heq⟩ := implyType_cases p node t
  · rw [heq]
    exact .refl first t
  · have hmakes : Makes t.arena.size t.arena.size (add (.keywordType keyword)) fun n size' =>
        InBlock t.arena.size size' (some n) := makes_add fun _ hchild => by cases hchild
    obtain ⟨hbuilds, htype⟩ := hmakes t (Nat.le_refl _) (Nat.le_refl _) t.arena.closedFrom_size
    have hform₁ : ((add (.keywordType keyword)).run t).2.arena.form? (some node) = some form :=
      (hbuilds.form?_eq node (Arena.lt_size_of_form? hform)).trans hform
    rw [heq]
    refine ((sparesTo_of_buildsFrom hbuilds).mono hfirst).trans
      (sparesTo_replace fun child hchild => ?_)
    rcases mem_children_withImpliedType hform' hchild with rfl | hold
    · exact .inl fun n hn => ⟨Nat.le_trans hfirst (htype n hn).1, (htype n hn).2⟩
    · exact .inr ⟨form, hform₁, hold⟩

/-! ## Names -/

/-- A dotted name is a block of new nodes. -/
theorem makes_dottedName (text : String) :
    Makes first size (dottedName text) fun n size' => InBlock first size' (some n) := by
  have hparts : ∀ (parts : List String) (left : NodeId) (size : Nat),
    InBlock first size (some left) →
      Makes first size (parts.foldlM
        (fun left part => do add (.qualifiedName (some left) (some (← identifier part)))) left)
        fun n size' => InBlock first size' (some n) := by
    intro parts
    induction parts with
    | nil => exact fun left size hleft => makes_pure fun _ hle => hleft.mono hle
    | cons part parts ih =>
      intro left size hleft
      rw [List.foldlM_cons]
      refine makes_bind (Q := fun n size' => InBlock first size' (some n)) ?_ fun n size₁ _ hn =>
        ih n size₁ hn
      refine makes_bind (makes_identifier part) fun right size₁ h₁ hright => ?_
      refine makes_add fun child hchild => ?_
      rcases List.mem_cons.1 hchild with rfl | hchild
      · exact hleft.mono h₁
      · obtain rfl := List.mem_singleton.1 hchild
        exact hright
  unfold dottedName
  split
  · exact makes_identifier ""
  · next head rest _ =>
    exact makes_bind (makes_identifier head) fun n size₁ _ hn => hparts rest n size₁ hn

theorem spares_setDottedName (node : NodeId) (text : String) :
    Spares first (setDottedName node text) := by
  intro t hfirst hclosed
  obtain ⟨hbuilds, hname⟩ :=
    makes_dottedName text t (Nat.le_refl _) (Nat.le_refl _) t.arena.closedFrom_size
  let name : NodeId := ((dottedName text).run t).1
  obtain ⟨form, hform, heq⟩ := exists_form_setDottedName node text t
  rw [heq]
  refine ((sparesTo_of_buildsFrom hbuilds).mono hfirst).trans
    (sparesTo_replace fun child hchild => .inl fun n hn => ?_)
  have hblock :=
    hbuilds.closed t.arena.closedFrom_size name form (hname name rfl).1 hform child hchild n hn
  exact ⟨Nat.le_trans hfirst hblock.1, hblock.2⟩

theorem spares_nameImportType (node : NodeId) (text : String) (depth : Nat) :
    Spares first (nameImportType node text depth) := by
  intro t hfirst hclosed
  obtain heq | ⟨isTypeof, argument, qualifier, typeArguments, hform⟩ :=
    nameImportType_cases node text depth t
  · rw [heq]
    exact .refl first t
  · rw [run_nameImportType hform]
    generalize importTypeText t.arena qualifier text depth = full
    obtain ⟨hbuilds, hname⟩ :=
      makes_dottedName full t (Nat.le_refl _) (Nat.le_refl _) t.arena.closedFrom_size
    refine ((sparesTo_of_buildsFrom hbuilds).mono hfirst).trans
      (sparesTo_replace fun child hchild => ?_)
    have hold := (hbuilds.form?_eq node (Arena.lt_size_of_form? hform)).trans hform
    have hchild : child = some ((dottedName full).run t).1 ∨ child ∈ typeArguments := by
      split at hchild
      · exact List.mem_cons.1 hchild
      · exact List.mem_cons.1 hchild
    rcases hchild with rfl | hchild
    · exact .inl fun n hn => ⟨Nat.le_trans hfirst (hname n hn).1, (hname n hn).2⟩
    · exact .inr ⟨_, hold, List.mem_cons_of_mem _ (List.mem_cons_of_mem _ hchild)⟩

theorem spares_nameReferences (p : Project) (collection : Collection) (naming : Naming) :
    Spares first (nameReferences p collection naming) := by
  refine spares_forM (fun ⟨target, references⟩ => ?_) _
  dsimp only
  split
  · refine spares_forM (fun r => spares_get fun t => spares_forM (fun copy => ?_) _) _
    split
    · exact spares_setDottedName copy _
    · exact spares_setDottedName copy _
    · exact spares_nameImportType copy _ _
  · exact spares_pure _

theorem spares_nameIdentifier (name : String) (slot : Slot) :
    Spares first (nameIdentifier name slot) := by
  intro t _ _
  rw [run_nameIdentifier]
  split
  · exact sparesTo_replace fun _ hchild => by cases hchild
  · exact .refl first t

theorem spares_nameDeclarations (collection : Collection) (plan : Plan) (naming : Naming) :
    Spares first (nameDeclarations collection plan naming) := by
  refine spares_forM (fun id => ?_) _
  unfold nameSymbol
  split
  · exact spares_pure _
  · exact spares_get fun t =>
      spares_forM (fun s => spares_get fun t => spares_forM (spares_nameIdentifier _) _) _

/-! ## Modifiers -/

theorem sparesTo_withModifiers {node : NodeId} {form : Form Slot} {t : BundleTree}
    (hform : t.arena.form? (some node) = some form) (ms : Modifiers) :
    SparesTo first t ((replace node (form.withModifiers ms)).run t).2 := by
  refine sparesTo_replace fun child hchild => .inr ⟨form, hform, ?_⟩
  rwa [Form.children_withModifiers] at hchild

theorem spares_stripStatement (statement : Slot) : Spares first (stripStatement statement) := by
  intro t _ _
  obtain heq | ⟨node, form, hform, heq⟩ := stripStatement_cases statement t
  · rw [heq]
    exact .refl first t
  · rw [heq]
    exact sparesTo_withModifiers hform _

theorem spares_stripInner (depth : Nat) (node : Slot) : Spares first (stripInner depth node) := by
  induction depth generalizing node with
  | zero => exact spares_pure _
  | succ depth ih =>
    unfold stripInner
    refine spares_get fun t => ?_
    split
    · exact ih _
    · exact spares_forM (fun inner => spares_bind (spares_stripStatement inner) fun _ => ih inner) _
    · exact spares_pure _

theorem spares_modifyStatement (isMoved : Bool) (statement : NodeId) :
    Spares first (modifyStatement isMoved statement) := by
  intro t hfirst hclosed
  obtain heq | ⟨form, hform, heq⟩ := modifyStatement_cases isMoved statement t
  · rw [heq]
    exact .refl first t
  · have h : SparesTo first t _ := sparesTo_withModifiers hform (statementModifiers isMoved form)
    rw [heq]
    exact h.trans (spares_stripInner _ _ _ (Nat.le_trans hfirst h.size_le) (h.closed hclosed))

theorem spares_setModifiers (collection : Collection) (plan : Plan) :
    Spares first (setModifiers collection plan) :=
  spares_forM (fun _ => spares_get fun _ => spares_forM (spares_modifyStatement _) _) _

/-! ## Copies -/

variable (p : Project)

/-- What the step gives, if anything, is nobody's child. -/
def GivesRoot (size : Nat) (m : Build (Option NodeId)) : Prop :=
  ∀ t : BundleTree, size ≤ t.arena.size → t.arena.ClosedFrom 0 → ∀ s, (m.run t).1 = some s →
    (m.run t).2.arena.Unplaced s

theorem givesRoot_none : GivesRoot size (pure none) := by
  intro t _ _ s hs
  cases hs

theorem givesRoot_bind {m : Build α} {f : α → Build (Option NodeId)} {Q : α → Nat → Prop}
    (hm : Makes 0 size m Q) (hf : ∀ a size', size ≤ size' → Q a size' → GivesRoot size' (f a)) :
    GivesRoot size (m >>= f) := by
  intro t hsize hclosed s hs
  obtain ⟨hbuilds, hQ⟩ := hm t (Nat.zero_le _) hsize hclosed
  exact hf _ _ (Nat.le_trans hsize hbuilds.size_le) hQ _ (Nat.le_refl _)
    (hbuilds.closed hclosed) s hs

/-- A new node is nobody's child, also when it is noted as a copy. -/
theorem givesRoot_addAt (source : Arena) (origin : NodeRef) {form : Form Slot} (span : Span)
    (h : ∀ child ∈ form.children, InBlock 0 size child) :
    GivesRoot size do
      let made ← addAt span form
      recordCopy source origin made
      return some made := by
  intro t hsize hclosed s hs parent hmem
  obtain rfl := Option.some.inj hs
  refine Arena.unplaced_add hclosed span (fun child hchild => (h child hchild).mono hsize) parent ?_
  obtain ⟨other, hother, hchild⟩ := Arena.mem_children_iff.1 hmem
  exact Arena.mem_children_iff.2
    ⟨other, (form?_recordCopy source origin _ _ _).symm.trans hother, hchild⟩

theorem givesRoot_copyTo (source : Arena) (file : FileId) (depth : Nat) (node : Slot) :
    GivesRoot size (copyTo source file depth node) := by
  cases depth with
  | zero => exact givesRoot_none
  | succ depth =>
    unfold copyTo
    cases source.get? node with
    | none => exact givesRoot_none
    | some found =>
      refine givesRoot_bind
        (makes_form found.form fun child _ _ => makes_copyTo source file depth child) ?_
      exact fun form size' _ hform => givesRoot_addAt source ⟨file, node⟩ found.span hform

theorem makes_variableDeclaration {name type : Slot} (span : Span) (hname : InBlock 0 size name)
    (htype : InBlock 0 size type) :
    Makes 0 size (addAt span (.variableDeclaration name false type none)) fun n size' =>
      InBlock 0 size' (some n) := by
  refine makes_addAt fun child hchild => ?_
  simp only [Form.children, List.mem_cons, List.not_mem_nil, or_false] at hchild
  rcases hchild with rfl | rfl | rfl
  · exact hname
  · exact htype
  · exact inBlock_none _ _

theorem givesRoot_variableStatement (source : Arena) (origin : NodeRef) (ms : Modifiers)
    (flavor : VariableFlavor) {declarator : Slot} (span : Span) (h : InBlock 0 size declarator) :
    GivesRoot size do
      let made ← variableStatement ms flavor declarator span
      recordCopy source origin made
      return some made := by
  refine givesRoot_addAt source origin span fun child hchild => ?_
  obtain rfl := List.mem_singleton.1 hchild
  exact h

theorem givesRoot_copyVariable (source : Arena) (ref : NodeRef) :
    GivesRoot size (copyVariable source ref) := by
  unfold copyVariable
  dsimp only
  split
  · refine givesRoot_bind (makes_copy source ref) fun declarator size₁ _ hdeclarator => ?_
    exact givesRoot_variableStatement _ _ _ _ _ hdeclarator
  · exact givesRoot_none

theorem givesRoot_copyBinding (source : Arena) (ref : NodeRef) (name : Slot) :
    GivesRoot size (copyBinding p source ref name) := by
  unfold copyBinding
  dsimp only
  split
  · refine givesRoot_bind (makes_copy source _) fun name size₁ _ hname => ?_
    refine givesRoot_bind (makes_declaredType p _) fun type size₂ h₂ htype => ?_
    refine givesRoot_bind (makes_variableDeclaration _ (hname.mono h₂) htype)
      fun declarator size₃ _ hdeclarator => ?_
    exact givesRoot_variableStatement _ _ _ _ _ hdeclarator
  · exact givesRoot_none

theorem givesRoot_copyDefaultValue (source : Arena) (ref : NodeRef) :
    GivesRoot size (copyDefaultValue p source ref) := by
  unfold copyDefaultValue
  refine givesRoot_bind (makes_declaredType p _) fun type size₁ _ htype => ?_
  cases type with
  | none => exact givesRoot_none
  | some type =>
    refine givesRoot_bind (makes_identifier _) fun name size₂ h₂ hname => ?_
    refine givesRoot_bind (makes_variableDeclaration _ hname (htype.mono h₂))
      fun declarator size₃ _ hdeclarator => ?_
    exact givesRoot_variableStatement _ _ _ _ _ hdeclarator

theorem spares_nameDefault (node : NodeId) : Spares first (nameDefault node) := by
  intro t hfirst hclosed
  have hmakes : Makes t.arena.size t.arena.size (identifier "default") fun n size' =>
      InBlock t.arena.size size' (some n) := makes_identifier "default"
  obtain ⟨hbuilds, hname⟩ := hmakes t (Nat.le_refl _) (Nat.le_refl _) t.arena.closedFrom_size
  let name : NodeId := ((identifier "default").run t).1
  let t₁ : BundleTree := ((identifier "default").run t).2
  have hspares : SparesTo first t t₁ := (sparesTo_of_buildsFrom hbuilds).mono hfirst
  have hblock : InBlock first t₁.arena.size (some name) :=
    fun n hn => ⟨Nat.le_trans hfirst (hname n hn).1, (hname n hn).2⟩
  obtain heq | ⟨_, _, _, _, hform, heq⟩ | ⟨_, _, _, _, _, hform, heq⟩ := nameDefault_cases node t
  · rw [heq]
    exact hspares
  · rw [heq]
    refine hspares.trans (sparesTo_replace fun child hchild => ?_)
    rcases List.mem_cons.1 hchild with rfl | hchild
    · exact .inl hblock
    · exact .inr ⟨_, hform, List.mem_cons_of_mem _ hchild⟩
  · rw [heq]
    refine hspares.trans (sparesTo_replace fun child hchild => ?_)
    rcases List.mem_cons.1 hchild with rfl | hchild
    · exact .inl hblock
    · exact .inr ⟨_, hform, List.mem_cons_of_mem _ hchild⟩

theorem givesRoot_copyAndName (source : Arena) (ref : NodeRef) :
    GivesRoot size do
      let made ← copy source ref
      made.forM nameDefault
      return made := by
  intro t hsize hclosed s hs
  have hmade : ((copy source ref).run t).1 = some s := hs
  obtain ⟨hbuilds, hblock⟩ := makes_copy source ref t (Nat.zero_le _) hsize hclosed
  have hroot := givesRoot_copyTo source ref.file _ ref.node t hsize hclosed s hmade
  let t₁ : BundleTree := ((copy source ref).run t).2
  have hspares := spares_nameDefault s t₁ (Nat.le_refl _) (hbuilds.closed hclosed)
  rw [run_bind, hmade]
  exact hspares.unplaced (hblock s hmade).2 hroot

/-- The statement that a declaration is copied to is nobody's child. -/
theorem givesRoot_copyDeclaration (ref : NodeRef) : GivesRoot size (copyDeclaration p ref) := by
  unfold copyDeclaration
  split
  · exact givesRoot_none
  · next source _ =>
    split
    · exact givesRoot_none
    · exact givesRoot_copyVariable source ref
    · exact givesRoot_copyBinding p source ref _
    · exact givesRoot_copyDefaultValue p source ref
    · exact givesRoot_copyAndName source ref
    · exact givesRoot_copyAndName source ref
    · exact givesRoot_copyTo source ref.file _ ref.node

/-- The statements that declarations are copied to are all different and nobody's children. -/
theorem roots_copyDeclarations (refs : List NodeRef) {t : BundleTree}
    (hclosed : t.arena.ClosedFrom 0) :
    ((copyDeclarations p refs).run t).1.Nodup ∧
      ∀ s ∈ ((copyDeclarations p refs).run t).1,
        ((copyDeclarations p refs).run t).2.arena.Unplaced s := by
  induction refs generalizing t with
  | nil => exact ⟨List.nodup_nil, fun s hs => by cases hs⟩
  | cons ref refs ih =>
    obtain ⟨hbuilds, hblock⟩ :=
      makes_copyDeclaration p ref t (Nat.zero_le _) (Nat.le_refl _) hclosed
    have hroot := givesRoot_copyDeclaration p ref t (Nat.le_refl _) hclosed
    let t₁ : BundleTree := ((copyDeclaration p ref).run t).2
    have hclosed₁ : t₁.arena.ClosedFrom 0 := hbuilds.closed hclosed
    obtain ⟨hnodup, hrest⟩ := ih hclosed₁
    unfold copyDeclarations at hnodup hrest ⊢
    rw [List.filterMapM_cons, run_bind]
    cases hmade : ((copyDeclaration p ref).run t).1 with
    | none => exact ⟨hnodup, hrest⟩
    | some made =>
      -- the rest of the statements is a block behind this one
      obtain ⟨hbuilds₂, hblock₂⟩ :=
        makes_copyDeclarations p refs t₁ (Nat.le_refl _) (Nat.le_refl _) t₁.arena.closedFrom_size
      have hlt : made.index < t₁.arena.size := (hblock made hmade).2
      refine ⟨List.nodup_cons.2 ⟨fun hmem => ?_, hnodup⟩, fun s hs => ?_⟩
      · exact Nat.not_le.2 hlt (hblock₂ made hmem made rfl).1
      · rcases List.mem_cons.1 hs with rfl | hs
        · exact (sparesTo_of_buildsFrom hbuilds₂).unplaced hlt (hroot s hmade)
        · exact hrest s hs

end Build

/-! ## All statements -/

namespace BundleTree

/-- The statements of symbols are all different, and nobody's children. -/
structure StatementsApart (t : BundleTree) : Prop where
  closed : t.arena.ClosedFrom 0
  lt_size : ∀ id, ∀ s ∈ t.statementsOf id, s.index < t.arena.size
  unplaced : ∀ id, ∀ s ∈ t.statementsOf id, t.arena.Unplaced s
  nodup : ∀ id, (t.statementsOf id).Nodup
  apart : ∀ id id' s, s ∈ t.statementsOf id → s ∈ t.statementsOf id' → id = id'

theorem statementsApart_empty : StatementsApart {} where
  closed := fun _ _ _ h => by cases h
  lt_size := fun _ _ h => by cases h
  unplaced := fun _ _ h => by cases h
  nodup := fun _ => List.nodup_nil
  apart := fun _ _ _ h => by cases h

/-- Steps that place no statement keep statements apart. -/
theorem StatementsApart.spare {t t' : BundleTree} (h : t.StatementsApart)
    (hspares : Build.SparesTo t.arena.size t t') : t'.StatementsApart := by
  have hof : ∀ id, t'.statementsOf id = t.statementsOf id := fun id => by
    rw [statementsOf, statementsOf, hspares.statements_eq]
  constructor
  · exact hspares.closed h.closed
  · intro id s hs
    rw [hof] at hs
    exact Nat.lt_of_lt_of_le (h.lt_size id s hs) hspares.size_le
  · intro id s hs
    rw [hof] at hs
    exact hspares.unplaced (h.lt_size id s hs) (h.unplaced id s hs)
  · intro id
    rw [hof]
    exact h.nodup id
  · intro id id' s hs hs'
    rw [hof] at hs hs'
    exact h.apart id id' s hs hs'

end BundleTree

namespace Build

variable (p : Project)

/-- Copying one more symbol keeps statements apart. -/
theorem statementsApart_copySymbol (id : SymbolId) {t : BundleTree} (h : t.StatementsApart) :
    ((copySymbol p id).run t).2.StatementsApart := by
  let refs := p.writtenDeclarations id
  let made := ((copyDeclarations p refs).run t).1
  let t₁ : BundleTree := ((copyDeclarations p refs).run t).2
  obtain ⟨hbuilds, hblock⟩ :=
    makes_copyDeclarations p refs t (Nat.le_refl _) (Nat.le_refl _) t.arena.closedFrom_size
  obtain ⟨hnodup, hroots⟩ := roots_copyDeclarations p refs h.closed
  have h₁ : t₁.StatementsApart := h.spare (sparesTo_of_buildsFrom hbuilds)
  have hof₁ : ∀ id', t₁.statementsOf id' = t.statementsOf id' := fun id' => by
    rw [BundleTree.statementsOf, BundleTree.statementsOf, hbuilds.statements_eq]
  have hof : ∀ id', ((copySymbol p id).run t).2.statementsOf id' = if id = id' then made
      else t₁.statementsOf id' := by
    intro id'
    show ((t₁.statements.set id made).get? id').getD [] = _
    rw [Table.get?_set]
    split
    · rfl
    · rfl
  -- what is copied now lies behind all that was copied before
  have hnew : ∀ id' s, s ∈ made → s ∉ t₁.statementsOf id' := by
    intro id' s hs hold
    rw [hof₁] at hold
    exact Nat.not_le.2 (h.lt_size id' s hold) (hblock s hs s rfl).1
  constructor
  · exact h₁.closed
  · intro id' s hs
    rw [hof] at hs
    split at hs
    · exact (hblock s hs s rfl).2
    · exact h₁.lt_size id' s hs
  · intro id' s hs
    rw [hof] at hs
    split at hs
    · exact hroots s hs
    · exact h₁.unplaced id' s hs
  · intro id'
    rw [hof]
    split
    · exact hnodup
    · exact h₁.nodup id'
  · intro id₁ id₂ s hs₁ hs₂
    rw [hof] at hs₁ hs₂
    split at hs₁ <;> split at hs₂
    · next heq₁ heq₂ => exact heq₁.symm.trans heq₂
    · exact absurd hs₂ (hnew id₂ s hs₁)
    · exact absurd hs₁ (hnew id₁ s hs₂)
    · exact h₁.apart id₁ id₂ s hs₁ hs₂

/-- The statements of everything that is kept are apart. -/
theorem statementsApart_ofCollection (collection : Collection) :
    (BundleTree.ofCollection p collection).StatementsApart := by
  have hcopied : ∀ (kept : List SymbolId) (t : BundleTree), t.StatementsApart →
      ((kept.forM (copySymbol p)).run t).2.StatementsApart := by
    intro kept
    induction kept with
    | nil => exact fun t h => h
    | cons id kept ih => exact fun t h => ih _ (statementsApart_copySymbol p id h)
  have h := hcopied collection.kept {} BundleTree.statementsApart_empty
  let t : BundleTree := ((collection.kept.forM (copySymbol p)).run {}).2
  have hfilled :
      Spares t.arena.size ((List.range t.arena.size).forM fun index => implyType p ⟨index⟩) :=
    spares_forM (fun index => spares_implyType p ⟨index⟩) _
  exact h.spare (hfilled t (Nat.le_refl _) h.closed)

end Build

end DeclBundle
