import DeclBundle.Proofs.Tracing

/-!
# What is noted about copies

The tree of a bundle notes for each copy where it comes from, and for each original which copies it
has. The two notes are inverse to each other, and no node is noted as a copy twice
(`BundleTree.IsTidy`). A step that copies notes only the node that it has just added, about which
nothing can have been noted, so every step of copying keeps the notes tidy (`Build.KeepsTidy`).
-/

set_option autoImplicit false

namespace DeclBundle

open Text (Span)

namespace Arena

theorem doc?_setDoc (a : Arena) (slot other : Slot) (text : String) :
    (a.setDoc slot text).doc? other = if slot = other then some text else a.doc? other := by
  show (a.docs.insert slot text)[other]? = _
  rw [Std.TreeMap.getElem?_insert]
  simp [doc?]

end Arena

/-! ## Tidy notes -/

namespace BundleTree

/-- What is noted about copies is consistent, and it is noted only for nodes that are there, as are
comments. -/
structure IsTidy (t : BundleTree) : Prop where
  origin_iff : ∀ w o, t.originOf? w = some o ↔ w ∈ t.copiesOf o
  nodup : ∀ o, (t.copiesOf o).Nodup
  origin_lt : ∀ w o, t.originOf? w = some o → w.index < t.arena.size
  doc_lt : ∀ w text, t.arena.doc? (some w) = some text → w.index < t.arena.size

/-- A node is among all copies at most once. -/
theorem IsTidy.nodup_copies {t : BundleTree} (h : t.IsTidy) :
    (t.copies.toList.flatMap Prod.snd).Nodup := by
  have hof : ∀ entry ∈ t.copies.toList, t.copiesOf entry.1 = entry.2 := fun entry hentry => by
    rw [copiesOf, Std.TreeMap.mem_toList_iff_getElem?_eq_some.1 hentry, Option.getD_some]
  refine List.nodup_flatMap.2 ⟨fun entry hentry => hof entry hentry ▸ h.nodup entry.1, ?_⟩
  -- a node in the lists of two entries has the keys of both as its origin
  refine (List.Pairwise.and_mem.1 Std.TreeMap.distinct_keys_toList).imp
    fun {entry entry'} hpair w hw hw' => ?_
  obtain ⟨hentry, hentry', hne⟩ := hpair
  rw [← hof entry hentry] at hw
  rw [← hof entry' hentry'] at hw'
  have horigin := ((h.origin_iff w entry.1).2 hw).symm.trans ((h.origin_iff w entry'.1).2 hw')
  exact hne (Std.LawfulEqOrd.compare_eq_iff_eq.2 (Option.some.inj horigin))

theorem isTidy_empty : IsTidy {} where
  origin_iff w o := by
    constructor
    · intro h
      cases h
    · intro h
      cases h
  nodup _ := .nil
  origin_lt w o h := by cases h
  doc_lt w text h := by cases h

/-- Nodes may be added, and have other forms. -/
theorem IsTidy.of_sameNotes {t t' : BundleTree} (ht : t.IsTidy) (hnotes : Build.SameNotes t t')
    (hdocs : t'.arena.docs = t.arena.docs) (hsize : t.arena.size ≤ t'.arena.size) : t'.IsTidy := by
  have horigin : ∀ w, t'.originOf? w = t.originOf? w := fun w => by
    rw [originOf?, hnotes.origins_eq, originOf?]
  have hcopies : ∀ o, t'.copiesOf o = t.copiesOf o := fun o => by
    rw [copiesOf, hnotes.copies_eq, copiesOf]
  refine ⟨fun w o => ?_, fun o => ?_, fun w o ho => ?_, fun w text hdoc => ?_⟩
  · rw [horigin, hcopies, ht.origin_iff]
  · rw [hcopies]
    exact ht.nodup o
  · exact Nat.lt_of_lt_of_le (ht.origin_lt w o ((horigin w).symm.trans ho)) hsize
  · rw [Arena.doc?, hdocs] at hdoc
    exact Nat.lt_of_lt_of_le (ht.doc_lt w text hdoc) hsize

end BundleTree

namespace Build

variable {α β γ : Type} {p : Project} {t : BundleTree}

/-- What is noted is still consistent after the step. -/
def KeepsTidy (m : Build α) : Prop := ∀ t : BundleTree, t.IsTidy → (m.run t).2.IsTidy

/-! ## Rules -/

theorem keepsTidy_pure (x : α) : KeepsTidy (pure x) := fun _ ht => ht

theorem keepsTidy_bind {m : Build α} {f : α → Build β} (hm : KeepsTidy m)
    (hf : ∀ x, KeepsTidy (f x)) :
    KeepsTidy (m >>= f) := fun t ht => hf _ _ (hm t ht)

theorem keepsTidy_mapM {f : γ → Build α} (h : ∀ x, KeepsTidy (f x)) (xs : List γ) :
    KeepsTidy (xs.mapM f) := by
  induction xs with
  | nil => exact keepsTidy_pure _
  | cons x xs ih =>
    rw [List.mapM_cons]
    exact keepsTidy_bind (h x) fun y => keepsTidy_bind ih fun ys => keepsTidy_pure _

theorem keepsTidy_filterMapM {f : γ → Build (Option α)} (h : ∀ x, KeepsTidy (f x)) (xs : List γ) :
    KeepsTidy (xs.filterMapM f) := by
  induction xs with
  | nil => exact keepsTidy_pure _
  | cons x xs ih =>
    rw [List.filterMapM_cons]
    refine keepsTidy_bind (h x) fun y => ?_
    cases y with
    | none => exact ih
    | some y => exact keepsTidy_bind ih fun ys => keepsTidy_pure _

theorem keepsTidy_foldlM {f : α → γ → Build α} (h : ∀ x y, KeepsTidy (f x y)) (x : α)
    (ys : List γ) :
    KeepsTidy (ys.foldlM f x) := by
  induction ys generalizing x with
  | nil => exact keepsTidy_pure _
  | cons y ys ih =>
    rw [List.foldlM_cons]
    exact keepsTidy_bind (h x y) ih

theorem keepsTidy_forM {f : γ → Build PUnit} (h : ∀ x, KeepsTidy (f x)) (xs : List γ) :
    KeepsTidy (xs.forM f) := by
  induction xs with
  | nil => exact keepsTidy_pure _
  | cons x xs ih => exact keepsTidy_bind (h x) fun _ => ih

theorem keepsTidy_form {f : α → Build Slot} (h : ∀ x, KeepsTidy (f x)) (form : Form α) :
    KeepsTidy (form.mapM f) := by
  intro t ht
  rw [Form.state_run_mapM]
  exact keepsTidy_mapM h form.children t ht

/-! ## Nodes -/

theorem keepsTidy_addAt (span : Span) (form : Form Slot) : KeepsTidy (addAt span form) :=
  fun t ht => ht.of_sameNotes ⟨rfl, rfl, rfl⟩ rfl (t.arena.size_add form span ▸ Nat.le_succ _)

theorem keepsTidy_add (form : Form Slot) : KeepsTidy (add form) := keepsTidy_addAt _ form

theorem keepsTidy_replace (node : NodeId) (form : Form Slot) : KeepsTidy (replace node form) :=
  fun t ht =>
    ht.of_sameNotes ⟨rfl, rfl, rfl⟩ rfl (Nat.le_of_eq (t.arena.size_replace (some node) form).symm)

theorem get?_recordCopy (source : Arena) (origin : NodeRef) (copy : NodeId) (t : BundleTree)
    (slot : Slot) :
    ((recordCopy source origin copy).run t).2.arena.get? slot = t.arena.get? slot := by
  show ((source.doc? origin.node).elim t.arena (t.arena.setDoc (some copy))).get? slot = _
  cases source.doc? origin.node <;> rfl

/-- A copy gets the comment of its origin. -/
theorem doc?_recordCopy (source : Arena) (origin : NodeRef) (copy n : NodeId) (t : BundleTree) :
    ((recordCopy source origin copy).run t).2.arena.doc? (some n) =
      if copy = n then (source.doc? origin.node).or (t.arena.doc? (some n))
        else t.arena.doc? (some n) := by
  show ((source.doc? origin.node).elim t.arena (t.arena.setDoc (some copy))).doc? (some n) = _
  cases source.doc? origin.node with
  | none => simp
  | some text =>
    show (t.arena.setDoc (some copy) text).doc? (some n) = _
    rw [Arena.doc?_setDoc]
    simp only [Option.some.injEq, Option.some_or]

/-- Nothing is noted about a node before it is added. -/
theorem keepsTidy_addCopy (source : Arena) (origin : NodeRef) (form : Form Slot) (span : Span) :
    KeepsTidy (do
      let copy ← addAt span form
      recordCopy source origin copy
      return some copy) := by
  intro t ht
  let n : NodeId := ⟨t.arena.size⟩
  let t₁ : BundleTree := ((addAt span form).run t).2
  let t' : BundleTree := ((recordCopy source origin n).run t₁).2
  have hsize : t'.arena.size = t.arena.size + 1 :=
    (size_recordCopy source origin n t₁).trans (t.arena.size_add form span)
  have horigin : ∀ w, t'.originOf? w = if n = w then some origin else t.originOf? w :=
    fun w => originOf?_recordCopy source origin n w t₁
  have hcopies : ∀ o, t'.copiesOf o =
      if origin = o then t.copiesOf origin ++ [n] else t.copiesOf o :=
    fun o => copiesOf_recordCopy source origin n o t₁
  -- the node is new, so it has no origin and is in no list of copies
  have hnone : ∀ o, t.originOf? n ≠ some o := fun o ho => Nat.lt_irrefl _ (ht.origin_lt n o ho)
  show t'.IsTidy
  refine ⟨fun w o => ?_, fun o => ?_, fun w o ho => ?_, fun w text hdoc => ?_⟩
  · have hmem : w ∈ t'.copiesOf o ↔ w ∈ t.copiesOf o ∨ w = n ∧ o = origin := mem_copiesOf_recordCopy
    rw [horigin, hmem, ← ht.origin_iff]
    split
    · next heq =>
      subst heq
      simp only [hnone, false_or, true_and, Option.some.injEq, eq_comm]
    · next hne => simp only [Ne.symm hne, false_and, or_false]
  · rw [hcopies]
    split
    · have hnew : n ∉ t.copiesOf origin := fun hmem =>
        hnone origin ((ht.origin_iff n origin).2 hmem)
      exact (List.nodup_append_comm).1 (List.nodup_cons.2 ⟨hnew, ht.nodup origin⟩)
    · exact ht.nodup o
  · rw [hsize]
    rw [horigin] at ho
    split at ho
    · next heq => exact heq ▸ Nat.lt_succ_self _
    · exact Nat.lt_succ_of_lt (ht.origin_lt w o ho)
  · rw [hsize]
    by_cases heq : n = w
    · exact heq ▸ Nat.lt_succ_self _
    · have hold := (doc?_recordCopy source origin n w t₁).symm.trans hdoc
      rw [if_neg heq] at hold
      exact Nat.lt_succ_of_lt (ht.doc_lt w text hold)

/-! ## Copies -/

theorem keepsTidy_copyTo (source : Arena) (file : FileId) (depth : Nat) (node : Slot) :
    KeepsTidy (copyTo source file depth node) := by
  induction depth generalizing node with
  | zero => exact keepsTidy_pure _
  | succ depth ih =>
    unfold copyTo
    split
    · exact keepsTidy_pure _
    · exact keepsTidy_bind (keepsTidy_form ih _) fun form => keepsTidy_addCopy source _ form _

theorem keepsTidy_copy (source : Arena) (ref : NodeRef) : KeepsTidy (copy source ref) :=
  keepsTidy_copyTo source _ _ _

theorem keepsTidy_copyType (type : NodeRef) : KeepsTidy (copyType p type) := by
  unfold copyType
  split
  · exact keepsTidy_copy _ _
  · exact keepsTidy_pure _

theorem keepsTidy_partType (object : Slot) (key : BindingKey) : KeepsTidy (partType object key) :=
  keepsTidy_bind (keepsTidy_add _) fun _ => keepsTidy_bind (keepsTidy_add _) fun _ =>
    keepsTidy_bind (keepsTidy_add _) fun _ => keepsTidy_pure _

theorem keepsTidy_declaredType (type : DeclaredType) : KeepsTidy (declaredType p type) := by
  cases type with
  | literal text =>
    exact keepsTidy_bind (keepsTidy_add _) fun _ =>
      keepsTidy_bind (keepsTidy_add _) fun _ => keepsTidy_pure _
  | keyword keyword => exact keepsTidy_bind (keepsTidy_add _) fun _ => keepsTidy_pure _
  | written type => exact keepsTidy_copyType type
  | part type path =>
    exact keepsTidy_bind (keepsTidy_copyType type) fun object =>
      keepsTidy_foldlM keepsTidy_partType object path
  | unknown => exact keepsTidy_pure _

theorem keepsTidy_copyVariable (source : Arena) (ref : NodeRef) :
    KeepsTidy (copyVariable source ref) := by
  unfold copyVariable
  dsimp only
  split
  · exact keepsTidy_bind (keepsTidy_copy source ref) fun declarator =>
      keepsTidy_addCopy source _ _ _
  · exact keepsTidy_pure _

theorem keepsTidy_copyBinding (source : Arena) (ref : NodeRef) (name : Slot) :
    KeepsTidy (copyBinding p source ref name) := by
  unfold copyBinding
  dsimp only
  split
  · refine keepsTidy_bind (keepsTidy_copy source _) fun name =>
      keepsTidy_bind (keepsTidy_declaredType _) fun type => ?_
    exact keepsTidy_bind (keepsTidy_addAt _ _) fun declarator => keepsTidy_addCopy source ref _ _
  · exact keepsTidy_pure _

theorem keepsTidy_copyDefaultValue (source : Arena) (ref : NodeRef) :
    KeepsTidy (copyDefaultValue p source ref) := by
  unfold copyDefaultValue
  refine keepsTidy_bind (keepsTidy_declaredType _) fun type => ?_
  cases type with
  | none => exact keepsTidy_pure _
  | some type =>
    refine keepsTidy_bind (keepsTidy_add _) fun name =>
      keepsTidy_bind (keepsTidy_add _) fun declarator => ?_
    exact keepsTidy_addCopy source ref _ _

theorem keepsTidy_nameDefault (node : NodeId) : KeepsTidy (nameDefault node) := by
  intro t ht
  have hnamed := keepsTidy_add (.identifier "default") t ht
  obtain heq | ⟨_, _, _, _, -, heq⟩ | ⟨_, _, _, _, _, -, heq⟩ := nameDefault_cases node t
  · exact heq ▸ hnamed
  · exact heq ▸ keepsTidy_replace node _ _ hnamed
  · exact heq ▸ keepsTidy_replace node _ _ hnamed

theorem keepsTidy_copyAndName (source : Arena) (ref : NodeRef) :
    KeepsTidy (do
      let made ← copy source ref
      made.forM nameDefault
      return made) := by
  refine keepsTidy_bind (keepsTidy_copy source ref) fun made => ?_
  cases made with
  | none => exact keepsTidy_pure _
  | some node => exact keepsTidy_bind (keepsTidy_nameDefault node) fun _ => keepsTidy_pure _

theorem keepsTidy_copyDeclaration (ref : NodeRef) : KeepsTidy (copyDeclaration p ref) := by
  unfold copyDeclaration
  split
  · exact keepsTidy_pure _
  · next source _ =>
    split
    · exact keepsTidy_pure _
    · exact keepsTidy_copyVariable source ref
    · exact keepsTidy_copyBinding source ref _
    · exact keepsTidy_copyDefaultValue source ref
    · exact keepsTidy_copyAndName source ref
    · exact keepsTidy_copyAndName source ref
    · exact keepsTidy_copy source ref

theorem keepsTidy_copySymbol (id : SymbolId) : KeepsTidy (copySymbol p id) := by
  intro t ht
  have hmade :=
    keepsTidy_filterMapM (keepsTidy_copyDeclaration (p := p)) (p.writtenDeclarations id) t ht
  -- the statements of a symbol are not among the notes
  exact ⟨hmade.origin_iff, hmade.nodup, hmade.origin_lt, hmade.doc_lt⟩

end Build

end DeclBundle
