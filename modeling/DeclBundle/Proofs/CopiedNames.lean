import DeclBundle.Proofs.DeclaredNames
import DeclBundle.Proofs.Replacing

/-!
# Copying keeps names apart

The statements of a symbol that is copied are new nodes, so their names are no names of statements
that were copied before (`Build.namesApart_copySymbol`). Types that are filled in afterwards change
no name.
-/

set_option autoImplicit false

namespace DeclBundle

namespace Arena

theorem closedFrom_size (a : Arena) : a.ClosedFrom a.size :=
  fun _ _ hn hform => absurd (lt_size_of_form? hform) (Nat.not_lt.2 hn)

/-- The variables of a statement in a closed block are in the block. -/
theorem ClosedFrom.inBlock_variable {a : Arena} {first : Nat} (h : a.ClosedFrom first) {s : NodeId}
    (hs : first ≤ s.index) {declarations : List Slot} {d : Slot}
    (hdecl : (a.heads (some s)).variables? = some declarations) (hd : d ∈ declarations) :
    InBlock first a.size d := by
  cases hform : a.form? (some s) with
  | none =>
    rw [heads, hform] at hdecl
    cases hdecl
  | some form =>
    rw [heads_of_form? hform] at hdecl
    exact h s form hs hform d (Form.variables_mem_children hdecl hd)

theorem ClosedFrom.inBlock_nameSlot {a : Arena} {first : Nat} (h : a.ClosedFrom first) {slot : Slot}
    (hslot : InBlock first a.size slot) : InBlock first a.size (a.nameSlot slot) := by
  unfold nameSlot
  cases slot with
  | none => exact inBlock_none _ _
  | some m =>
    cases hform : a.form? (some m) with
    | none => exact inBlock_none _ _
    | some form =>
      cases hname : form.name? with
      | none => simpa [hname] using inBlock_none _ _
      | some name =>
        simpa [hname] using h m form (hslot m rfl).1 hform name (Form.mem_children_of_name? hname)

/-- The names of a statement in a closed block are in the block. -/
theorem ClosedFrom.inBlock_nameSlots {a : Arena} {first : Nat} (h : a.ClosedFrom first) {s : NodeId}
    {slot : Slot} (hs : InBlock first a.size (some s)) (hslot : slot ∈ a.nameSlots (some s)) :
    InBlock first a.size slot := by
  rw [nameSlots_eq] at hslot
  cases hdecl : (a.heads (some s)).variables? with
  | none =>
    rw [hdecl] at hslot
    obtain rfl := List.mem_singleton.1 hslot
    exact h.inBlock_nameSlot hs
  | some declarations =>
    rw [hdecl] at hslot
    obtain ⟨d, hd, rfl⟩ := List.mem_map.1 hslot
    exact h.inBlock_nameSlot (h.inBlock_variable (hs s rfl).1 hdecl hd)

end Arena

namespace Build

/-! ## What a copied declaration is -/

/-- A copied node has the form of the node that it was copied from, with copies of its children. -/
theorem exists_form?_copyTo {source : Arena} (file : FileId) (depth : Nat) {node : Slot}
    {found : Node} (h : source.get? node = some found) (t : BundleTree) :
    ∃ (n : NodeId) (pairs : Form (Slot × Slot)),
      ((copyTo source file (depth + 1) node).run t).1 = some n ∧
      ((copyTo source file (depth + 1) node).run t).2.arena.form? (some n) =
        some (pairs.map Prod.snd) ∧
      pairs.map Prod.fst = found.form := by
  obtain ⟨pairs, hold, hnew, -⟩ := Form.exists_pairs (copyTo source file depth) found.form t
  let t₁ : BundleTree := ((found.form.mapM (copyTo source file depth)).run t).2
  refine ⟨(t₁.arena.add (pairs.map Prod.snd) found.span).2, pairs, ?_, ?_, hold⟩
  · rw [hnew]
    unfold copyTo
    rw [h]
    rfl
  · rw [hnew]
    unfold copyTo
    rw [h]
    exact (form?_recordCopy source ⟨file, node⟩ _ _ _).trans (t₁.arena.form?_add_self _ _)

/-- The node is a statement that declares something. -/
def IsDeclared (a : Arena) (s : NodeId) : Prop :=
  ∃ form, a.form? (some s) = some form ∧ form.isDeclaration = true

/-- What the step gives, if anything, is a statement that declares something. -/
def Declares (m : Build (Option NodeId)) : Prop :=
  ∀ (t : BundleTree) (s : NodeId), (m.run t).1 = some s → IsDeclared (m.run t).2.arena s

theorem declares_none : Declares (pure none) := by
  intro t s hs
  cases hs

theorem declares_bind {α : Type} {m : Build α} {f : α → Build (Option NodeId)}
    (h : ∀ x, Declares (f x)) :
    Declares (m >>= f) :=
  fun t s hs => h (m.run t).1 (m.run t).2 s hs

theorem declares_copy {source : Arena} {ref : NodeRef} {form : Form Slot}
    (hform : source.form? ref.node = some form) (hdecl : form.isDeclaration = true) :
    Declares (copy source ref) := by
  intro t s hs
  obtain ⟨found, hfound, rfl⟩ := Option.map_eq_some_iff.1 hform
  obtain ⟨n, pairs, hn, hcopied, hold⟩ := exists_form?_copyTo ref.file source.size hfound t
  obtain rfl := Option.some.inj (hn.symm.trans hs)
  refine ⟨_, hcopied, ?_⟩
  rw [← hold, Form.isDeclaration_map] at hdecl
  rw [Form.isDeclaration_map, hdecl]

/-- A statement with one variable that is noted as a copy. -/
theorem declares_variableStatement (source : Arena) (origin : NodeRef) (ms : Modifiers)
    (flavor : VariableFlavor) (declarator : Slot) (span : Text.Span) :
    Declares do
      let made ← variableStatement ms flavor declarator span
      recordCopy source origin made
      return some made := by
  intro t s hs
  obtain rfl := Option.some.inj hs
  exact ⟨.variableStatement ms flavor [declarator],
    (form?_recordCopy source origin _ _ _).trans (t.arena.form?_add_self _ span), rfl⟩

theorem declares_copyVariable (source : Arena) (ref : NodeRef) :
    Declares (copyVariable source ref) := by
  unfold copyVariable
  dsimp only
  split
  · exact declares_bind fun declarator => declares_variableStatement _ _ _ _ _ _
  · exact declares_none

variable (p : Project)

theorem declares_copyBinding (source : Arena) (ref : NodeRef) (name : Slot) :
    Declares (copyBinding p source ref name) := by
  unfold copyBinding
  dsimp only
  split
  · exact declares_bind fun name => declares_bind fun type => declares_bind fun declarator =>
      declares_variableStatement _ _ _ _ _ _
  · exact declares_none

theorem declares_copyDefaultValue (source : Arena) (ref : NodeRef) :
    Declares (copyDefaultValue p source ref) := by
  unfold copyDefaultValue
  refine declares_bind fun type => ?_
  cases type with
  | none => exact declares_none
  | some type =>
    exact declares_bind fun name => declares_bind fun declarator =>
      declares_variableStatement _ _ _ _ _ _

theorem declares_copyAndName {source : Arena} {ref : NodeRef} {form : Form Slot}
    (hform : source.form? ref.node = some form) (hdecl : form.isDeclaration = true) :
    Declares do
      let made ← copy source ref
      made.forM nameDefault
      return made := by
  intro t s hs
  have hmade : ((copy source ref).run t).1 = some s := hs
  obtain ⟨made, hcopied, hmadedecl⟩ := declares_copy hform hdecl t s hmade
  let t₁ : BundleTree := ((copy source ref).run t).2
  let t₂ : BundleTree := ((identifier "default").run t₁).2
  have hform₂ : t₂.arena.form? (some s) = some made :=
    (Arena.form?_add_of_lt (Arena.lt_size_of_form? hcopied) _ _).trans hcopied
  have hlt₂ : s.index < t₂.arena.size := Arena.lt_size_of_form? hform₂
  rw [run_bind, hmade]
  show IsDeclared ((nameDefault s).run t₁).2.arena s
  obtain heq | ⟨_, _, _, _, -, heq⟩ | ⟨_, _, _, _, _, -, heq⟩ := nameDefault_cases s t₁
  · exact heq ▸ ⟨made, hform₂, hmadedecl⟩
  · exact heq ▸ ⟨_, (Arena.form?_replace hlt₂ _ _).trans (if_pos rfl), rfl⟩
  · exact heq ▸ ⟨_, (Arena.form?_replace hlt₂ _ _).trans (if_pos rfl), rfl⟩

/-- What is copied of a written declaration is a statement that declares something. -/
theorem declares_copyDeclaration {ref : NodeRef} (h : p.isWritten ref = true) :
    Declares (copyDeclaration p ref) := by
  unfold copyDeclaration
  unfold Project.isWritten at h
  cases hsource : p.arena? ref.file with
  | none => exact declares_none
  | some source =>
    simp only [hsource] at h ⊢
    cases hform : source.form? ref.node with
    | none => exact declares_none
    | some form =>
      simp only [hform] at h ⊢
      split
      · next heq => cases heq
      · exact declares_copyVariable source ref
      · exact declares_copyBinding p source ref _
      · exact declares_copyDefaultValue p source ref
      · next heq =>
        obtain rfl := Option.some.inj heq
        exact declares_copyAndName hform rfl
      · next heq =>
        obtain rfl := Option.some.inj heq
        exact declares_copyAndName hform rfl
      · next other hvariable hbinding hassignment hfunction hclass heq =>
        obtain rfl := Option.some.inj heq
        refine declares_copy hform ?_
        -- the forms with copies of their own were split off above
        cases form with
        | functionDeclaration => rfl
        | variableDeclaration => exact absurd rfl (hvariable _ _ _ _)
        | bindingElement => exact absurd rfl (hbinding _ _ _ _)
        | exportAssignment => exact absurd rfl (hassignment _ _)
        | _ => exact h

/-! ## All statements of a symbol -/

theorem extends_copyDeclaration (ref : NodeRef) (t : BundleTree) :
    t.arena.Extends ((copyDeclaration p ref).run t).2.arena := by
  intro slot form hform
  cases slot with
  | none => cases hform
  | some n =>
    obtain ⟨hbuilds, -⟩ :=
      makes_copyDeclaration p ref t (Nat.le_refl _) (Nat.le_refl _) t.arena.closedFrom_size
    rw [hbuilds.form?_eq n (Arena.lt_size_of_form? hform), hform]

/-- What a symbol's declarations are copied to. -/
abbrev copyDeclarations (refs : List NodeRef) : Build (List NodeId) :=
  refs.filterMapM (copyDeclaration p)

theorem extends_copyDeclarations (refs : List NodeRef) (t : BundleTree) :
    t.arena.Extends ((copyDeclarations p refs).run t).2.arena := by
  induction refs generalizing t with
  | nil => exact .refl _
  | cons ref refs ih =>
    unfold copyDeclarations
    rw [List.filterMapM_cons, run_bind]
    refine (extends_copyDeclaration p ref t).trans ?_
    cases ((copyDeclaration p ref).run t).1 with
    | none => exact ih _
    | some made => exact ih _

variable {first size : Nat}

theorem makes_copyDeclarations (refs : List NodeRef) :
    Makes first size (copyDeclarations p refs) fun made size' =>
      ∀ s ∈ made, InBlock first size' (some s) := by
  induction refs generalizing size with
  | nil => exact makes_pure fun _ _ s hs => by cases hs
  | cons ref refs ih =>
    unfold copyDeclarations
    rw [List.filterMapM_cons]
    refine makes_bind (makes_copyDeclaration p ref) fun slot size₁ h₁ hslot => ?_
    cases slot with
    | none => exact ih
    | some made =>
      refine makes_bind ih fun rest size₂ h₂ hrest => makes_pure fun size₃ h₃ s hs => ?_
      rcases List.mem_cons.1 hs with rfl | hs
      · exact hslot.mono (Nat.le_trans h₂ h₃)
      · exact (hrest s hs).mono h₃

theorem isDeclared_copyDeclarations {refs : List NodeRef} (h : ∀ ref ∈ refs, p.isWritten ref = true)
    (t : BundleTree) {s : NodeId} (hs : s ∈ ((copyDeclarations p refs).run t).1) :
    IsDeclared ((copyDeclarations p refs).run t).2.arena s := by
  induction refs generalizing t with
  | nil => cases hs
  | cons ref refs ih =>
    have hrest : ∀ ref' ∈ refs, p.isWritten ref' = true := fun ref' h' =>
      h ref' (List.mem_cons_of_mem _ h')
    have hhead := declares_copyDeclaration p (h ref List.mem_cons_self) t
    unfold copyDeclarations at hs ⊢
    rw [List.filterMapM_cons, run_bind] at hs ⊢
    cases hmade : ((copyDeclaration p ref).run t).1 with
    | none =>
      rw [hmade] at hs
      exact ih hrest _ hs
    | some made =>
      rw [hmade] at hs
      rcases List.mem_cons.1 hs with rfl | hs
      · obtain ⟨form, hform, hdecl⟩ := hhead s hmade
        exact ⟨form, extends_copyDeclarations p refs _ _ _ hform, hdecl⟩
      · exact ih hrest _ hs

/-- The statements of a symbol are copied to nodes of their own. -/
theorem namesApart_copySymbol (id : SymbolId) {t : BundleTree} (h : t.NamesApart) :
    ((copySymbol p id).run t).2.NamesApart := by
  let refs := p.writtenDeclarations id
  let made := ((copyDeclarations p refs).run t).1
  let t₁ : BundleTree := ((copyDeclarations p refs).run t).2
  let t₂ : BundleTree := ((copySymbol p id).run t).2
  have ht₂ : t₂ = { t₁ with statements := t₁.statements.set id made } := rfl
  have hext : t.arena.Extends t₁.arena := extends_copyDeclarations p refs t
  obtain ⟨hbuilds, hblock⟩ :=
    makes_copyDeclarations p refs t (Nat.le_refl _) (Nat.le_refl _) t.arena.closedFrom_size
  have hclosed : t₁.arena.ClosedFrom t.arena.size := hbuilds.closed t.arena.closedFrom_size
  have hwritten : ∀ ref ∈ refs, p.isWritten ref = true := fun ref href => (List.mem_filter.1 href).2
  have hof : ∀ id', t₂.statementsOf id' = if id = id' then made else t.statementsOf id' := by
    intro id'
    rw [ht₂, BundleTree.statementsOf, Table.get?_set, hbuilds.statements_eq]
    split
    · rfl
    · rfl
  -- what was there keeps its names, and what is new has names in the new block only
  have hold : ∀ id' s n, s ∈ t.statementsOf id' → some n ∈ t₁.arena.nameSlots (some s) →
      some n ∈ t.arena.nameSlots (some s) := fun id' s n hs hn =>
    hext.narrows.mem_nameSlots (h.statement_lt id' s hs)
      (fun ds d => h.variable_lt id' s ds d hs) hn
  have hnew : ∀ s n, s ∈ made → some n ∈ t₁.arena.nameSlots (some s) →
      InBlock t.arena.size t₁.arena.size (some n) := fun s n hs hn =>
    hclosed.inBlock_nameSlots (hblock s hs) hn
  have hheads : ∀ id' s, s ∈ t.statementsOf id' →
      t₁.arena.heads (some s) = t.arena.heads (some s) := fun id' s hs =>
    hext.heads_eq (h.statement_lt id' s hs)
  have hle := hext.size_le
  show t₂.NamesApart
  constructor
  · intro id' s hs
    rw [hof] at hs
    split at hs
    · exact (hblock s hs s rfl).2
    · exact Nat.lt_of_lt_of_le (h.statement_lt id' s hs) hle
  · intro id' s declarations d hs hdecl hd
    rw [hof] at hs
    split at hs
    · exact (hclosed.inBlock_variable (hblock s hs s rfl).1 hdecl hd d rfl).2
    · have hdecl' : (t.arena.heads (some s)).variables? = some declarations :=
        hheads id' s hs ▸ hdecl
      exact Nat.lt_of_lt_of_le (h.variable_lt id' s declarations d hs hdecl' hd) hle
  · intro id' s n hs hn
    rw [hof] at hs
    split at hs
    · exact (hnew s n hs hn n rfl).2
    · exact Nat.lt_of_lt_of_le (h.name_lt id' s n hs (hold id' s n hs hn)) hle
  · intro id' s hs
    rw [hof] at hs
    split at hs
    · obtain ⟨form, hform, hdecl⟩ := isDeclared_copyDeclarations p hwritten t hs
      exact (congrArg Heads.clause? (Arena.heads_of_form? hform)).trans
        (Form.clause?_of_isDeclaration hdecl)
    · exact (congrArg Heads.clause? (hheads id' s hs)).trans (h.clause?_eq id' s hs)
  · intro id₁ id₂ s₁ s₂ n hs₁ hs₂ hn₁ hn₂
    rw [hof] at hs₁ hs₂
    -- each of the two statements is old or new
    split at hs₁ <;> split at hs₂
    · next h₁ h₂ => exact h₁.symm.trans h₂
    · have hlt := h.name_lt id₂ s₂ n hs₂ (hold id₂ s₂ n hs₂ hn₂)
      exact absurd (hnew s₁ n hs₁ hn₁ n rfl).1 (Nat.not_le.2 hlt)
    · have hlt := h.name_lt id₁ s₁ n hs₁ (hold id₁ s₁ n hs₁ hn₁)
      exact absurd (hnew s₂ n hs₂ hn₂ n rfl).1 (Nat.not_le.2 hlt)
    · exact h.apart id₁ id₂ s₁ s₂ n hs₁ hs₂ (hold id₁ s₁ n hs₁ hn₁) (hold id₂ s₂ n hs₂ hn₂)

end Build

end DeclBundle
