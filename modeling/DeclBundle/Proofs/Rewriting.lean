import DeclBundle.Proofs.Collecting
import DeclBundle.Proofs.CopiedWords
import DeclBundle.Proofs.LoadedFiles
import DeclBundle.Proofs.Settling

/-!
# References are rewritten once

While a tree is settled, names are written into it in place, at copies of references and at names of
declarations. No node is both, because a part of a name that a walk reads is never declared; no node
is a copy of two references; and no copy of a part of the qualifier of an import type is either. So
a reference by name keeps the text that it gets (`Build.isWritten_of_steps`), and an import type is
rewritten once, when its qualifier still says what it says in the file
(`Build.isRewritten_of_steps`).
-/

set_option autoImplicit false

namespace DeclBundle

theorem Form.withModifiers_of_isWord {α : Type} {form : Form α} (h : form.isWord = true)
    (ms : Modifiers) :
    form.withModifiers ms = form := by
  cases form <;> first
    | rfl
    | cases h

theorem Form.isWord_withModifiers {α : Type} (form : Form α) (ms : Modifiers) :
    (form.withModifiers ms).isWord = form.isWord := by
  cases form <;> rfl

/-- A reference by name in the place of an import type. -/
def Form.reference {α : Type} (isTypeof : Bool) (name : α) (typeArguments : List α) : Form α :=
  if isTypeof then .typeQuery name typeArguments else .typeReference name typeArguments

theorem Arena.exists_of_mem_nameSlots {a : Arena} {statement : Slot} {n : NodeId}
    (h : some n ∈ a.nameSlots statement) :
    ∃ declaration form, a.form? declaration = some form ∧ form.name? = some (some n) := by
  have hslot : ∀ slot, a.nameSlot slot = some n → ∃ form, a.form? slot = some form ∧
      form.name? = some (some n) := by
    intro slot hname
    unfold nameSlot at hname
    cases hform : a.form? slot with
    | none => simp [hform] at hname
    | some form =>
      refine ⟨form, rfl, ?_⟩
      cases hdeclared : form.name? with
      | none => simp [hform, hdeclared] at hname
      | some name => simpa [hform, hdeclared] using hname
  rw [nameSlots_eq] at h
  cases hvariables : (a.heads statement).variables? with
  | none =>
    rw [hvariables] at h
    exact ⟨statement, hslot statement (List.mem_singleton.1 h).symm⟩
  | some declarations =>
    rw [hvariables] at h
    obtain ⟨d, -, hname⟩ := List.mem_map.1 h
    exact ⟨d, hslot d hname⟩

namespace Build

variable {p : Project} {exports_ : List ModuleExport} {collection : Collection} {plan : Plan}
  {naming : Naming} {copied t t' : BundleTree}

/-! ## What a step does at a node -/

theorem form?_setDottedName_of_ne {node m : NodeId} (text : String) (hm : m.index < t.arena.size)
    (hne : m ≠ node) :
    ((setDottedName node text).run t).2.arena.form? (some m) = t.arena.form? (some m) := by
  obtain ⟨form, -, heq⟩ := exists_form_setDottedName node text t
  rw [heq]
  exact (Arena.form?_replace_of_ne (fun h => hne (Option.some.inj h)) form).trans
    ((adds_dottedName text t).1.form?_eq hm)

theorem form?_nameImportType_of_ne {node m : NodeId} (text : String) (depth : Nat)
    (hm : m.index < t.arena.size) (hne : m ≠ node) :
    ((nameImportType node text depth).run t).2.arena.form? (some m) = t.arena.form? (some m) := by
  obtain heq | ⟨isTypeof, argument, qualifier, typeArguments, hform⟩ :=
    nameImportType_cases node text depth t
  · rw [heq]
  · rw [run_nameImportType hform]
    exact (Arena.form?_replace_of_ne (fun h => hne (Option.some.inj h)) _).trans
      ((adds_dottedName _ t).1.form?_eq hm)

theorem form?_nameCopy_of_ne {node m : NodeId} (text : String) (shape : ReferenceShape)
    (hm : m.index < t.arena.size) (hne : m ≠ node) :
    ((nameCopy text shape node).run t).2.arena.form? (some m) = t.arena.form? (some m) := by
  unfold nameCopy
  split
  · exact form?_setDottedName_of_ne text hm hne
  · exact form?_setDottedName_of_ne text hm hne
  · exact form?_nameImportType_of_ne text _ hm hne

/-- The node is a copy of a reference to a target with a text. -/
def IsReference (p : Project) (collection : Collection) (naming : Naming) (copied : BundleTree)
    (r : Reference) (text : String) (copy : NodeId) : Prop :=
  ∃ target references, (target, references) ∈ collection.references.entries ∧ r ∈ references ∧
    naming.textOf? p target = some text ∧ copy ∈ copied.copiesOf r.node

/-- A step leaves the form of a node, or it gives it other modifiers, or the node is a copy of a
reference and the step writes the text there, or it is an identifier that names a statement, and
stays one. -/
theorem SettleStep.form?_cases (h : SettleStep p collection plan naming copied t t') {m : NodeId}
    {form : Form Slot} (hform : t.arena.form? (some m) = some form) :
    t'.arena.form? (some m) = some form ∨
      (∃ ms, t'.arena.form? (some m) = some (form.withModifiers ms)) ∨
      (∃ r text, IsReference p collection naming copied r text m ∧
        t' = ((nameCopy text r.shape m).run t).2) ∨
      ∃ id s old, s ∈ copied.statementsOf id ∧ some m ∈ copied.arena.nameSlots (some s) ∧
        form = .identifier old ∧
        ∃ name, t'.arena.form? (some m) = some (.identifier name) := by
  have hlt := Arena.lt_size_of_form? hform
  cases h with
  | @name target references r text copy hentry hr htext hcopy =>
    by_cases hm : m = copy
    · subst hm
      exact .inr (.inr (.inl ⟨r, text, ⟨target, references, hentry, hr, htext, hcopy⟩, rfl⟩))
    · exact .inl ((form?_nameCopy_of_ne text r.shape hlt hm).trans hform)
  | @rename id s n old name hname hs hn hold =>
    by_cases hm : m = n
    · subst hm
      exact .inr (.inr (.inr ⟨id, s, old, hs, hn, Option.some.inj (hform.symm.trans hold), name,
        (Arena.form?_replace hlt _ _).trans (if_pos rfl)⟩))
    · exact .inl ((Arena.form?_replace_of_ne (fun heq => hm (Option.some.inj heq)) _).trans hform)
  | @modify n old hold ms =>
    by_cases hm : m = n
    · subst hm
      obtain rfl := Option.some.inj (hform.symm.trans hold)
      exact .inr (.inl ⟨ms, (Arena.form?_replace hlt _ _).trans (if_pos rfl)⟩)
    · exact .inl ((Arena.form?_replace_of_ne (fun heq => hm (Option.some.inj heq)) _).trans hform)

/-! ## Nodes that are not written at -/

/-- The tree of copies of a collection: copies are what they are noted to be, and names are kept
apart. -/
structure IsCopyTree (p : Project) (copied : BundleTree) : Prop where
  isTree : ∀ file a, p.arena? file = some a → a.IsTree
  isTraced : copied.IsTraced p
  namesApart : copied.NamesApart

theorem IsReference.origin (ht : copied.IsTraced p) {r : Reference} {text : String} {copy : NodeId}
    (h : IsReference p collection naming copied r text copy) :
    copied.originOf? copy = some r.node := by
  obtain ⟨_, _, _, _, _, hcopy⟩ := h
  exact ht.copies copy _ hcopy

/-- A node is a copy of one reference, to one target. -/
theorem IsReference.unique (ht : copied.IsTraced p) {r r' : Reference} {text text' : String}
    {copy : NodeId} (h : IsReference p (p.collect exports_) naming copied r text copy)
    (h' : IsReference p (p.collect exports_) naming copied r' text' copy) :
    r = r' ∧ text = text' := by
  have hnode : r.node = r'.node := Option.some.inj ((h.origin ht).symm.trans (h'.origin ht))
  obtain ⟨target, references, hentry, hr, htext, -⟩ := h
  obtain ⟨target', references', hentry', hr', htext', -⟩ := h'
  obtain ⟨rfl, rfl⟩ := Collecting.reference_unique hentry hr hentry' hr' hnode
  exact ⟨rfl, Option.some.inj (htext.symm.trans htext')⟩

theorem IsReference.isNoted {r : Reference} {text : String} {copy : NodeId}
    (h : IsReference p (p.collect exports_) naming copied r text copy) :
    ∃ target, r.IsNoted p target := by
  obtain ⟨target, references, hentry, hr, -, -⟩ := h
  exact ⟨target, Collecting.isNoted_of_mem_references hentry r hr⟩

namespace IsCopyTree

variable (h : IsCopyTree p copied)

include h

theorem declaresAt {s m : NodeId} {o : NodeRef} (hm : some m ∈ copied.arena.nameSlots (some s))
    (ho : copied.originOf? m = some o) : p.DeclaresAt o := by
  obtain ⟨declaration, form, hform, hname⟩ := Arena.exists_of_mem_nameSlots hm
  exact h.isTraced.name declaration form m o hform hname ho

theorem exists_node {m : NodeId} {o : NodeRef} (ho : copied.originOf? m = some o) :
    ∃ n, o.node = some n := by
  obtain ⟨a, found, -, -, hfound, -, -⟩ := h.isTraced.exists_form m o ho
  cases hnode : o.node with
  | none =>
    rw [hnode] at hfound
    cases hfound
  | some n => exact ⟨n, rfl⟩

/-- A copy of a reference by name is not the name of a statement. -/
theorem not_mem_nameSlots {r : Reference} {text : String} {copy s : NodeId}
    (href : IsReference p (p.collect exports_) naming copied r text copy)
    (hshape : ∀ depth, r.shape ≠ .importType depth) :
    some copy ∉ copied.arena.nameSlots (some s) := by
  intro hmem
  have horigin := href.origin h.isTraced
  obtain ⟨target, hnoted⟩ := href.isNoted
  obtain ⟨a, root, harena, hheld, hin⟩ := hnoted.standsInName hshape
  obtain ⟨a', declaration, form, harena', hform, hname⟩ := h.declaresAt hmem horigin
  obtain rfl := Option.some.inj (harena.symm.trans harena')
  obtain ⟨n, hn⟩ := h.exists_node horigin
  rw [hn] at hin hname
  exact (h.isTree _ _ harena).not_name_of_holdsName hheld hin hform hname

/-- New nodes keep the names that they are made with. -/
theorem form?_eq_of_new (hstep : SettleStep p collection plan naming copied t t') {m : NodeId}
    {form : Form Slot} (hm : copied.arena.size ≤ m.index) (hword : form.isWord = true)
    (hform : t.arena.form? (some m) = some form) :
    t'.arena.form? (some m) = some form := by
  obtain heq | ⟨ms, heq⟩ | ⟨r, text, href, -⟩ | ⟨id, s, old, hs, hname, -⟩ :=
    hstep.form?_cases hform
  · exact heq
  · rw [heq, Form.withModifiers_of_isWord hword]
  · exact absurd (h.isTraced.lt_size m _ (href.origin h.isTraced)) (Nat.not_lt.2 hm)
  · exact absurd (h.namesApart.name_lt id s m hs hname) (Nat.not_lt.2 hm)

theorem spells (hstep : SettleStep p collection plan naming copied t t') {n : NodeId}
    {parts : List String} (hspells : t.arena.Spells copied.arena.size n parts) :
    t'.arena.Spells copied.arena.size n parts :=
  hspells.mono fun _ _ hm hword hform => h.form?_eq_of_new hstep hm hword hform

end IsCopyTree

/-! ## References by name -/

/-- The text is written at a node: the node has the form of a new node that spells the text. -/
def IsWritten (copied t : BundleTree) (copy : NodeId) (text : String) : Prop :=
  ∃ n, t.arena.Spells copied.arena.size n (dottedParts text) ∧ t.arena.form? (some copy) =
    t.arena.form? (some n)

/-- What new nodes spell stays when an old node gets another form. -/
theorem spells_replace {a : Arena} {first : Nat} {n copy : NodeId} {parts : List String}
    (hspells : a.Spells first n parts) (hcopy : copy.index < first) (form : Form Slot) :
    (a.replace (some copy) form).Spells first n parts := by
  refine hspells.mono fun m _ hm _ hform => (Arena.form?_replace_of_ne ?_ form).trans hform
  rintro ⟨⟩
  exact Nat.not_lt.2 hm hcopy

theorem isWritten_setDottedName {copy : NodeId} (hcopy : copy.index < copied.arena.size)
    (hsize : copied.arena.size ≤ t.arena.size) (text : String) :
    IsWritten copied ((setDottedName copy text).run t).2 copy text := by
  have hspells := spells_dottedName text t hsize
  obtain ⟨form, hform, heq⟩ := exists_form_setDottedName copy text t
  have hlt : copy.index < ((dottedName text).run t).2.arena.size :=
    Nat.lt_of_lt_of_le hcopy (Nat.le_trans hsize (adds_dottedName text t).1.size_le)
  have hne : (some ((dottedName text).run t).1 : Slot) ≠ some copy := by
    rintro hname
    exact Nat.not_lt.2 hspells.exists_form.1 (Option.some.inj hname ▸ hcopy)
  rw [heq]
  refine ⟨_, spells_replace hspells hcopy form, ?_⟩
  refine ((Arena.form?_replace hlt form _).trans (if_pos rfl)).trans ?_
  exact ((Arena.form?_replace_of_ne hne form).trans hform).symm

theorem nameCopy_of_name {shape : ReferenceShape} (hshape : ∀ depth, shape ≠ .importType depth)
    (text : String) (copy : NodeId) : nameCopy text shape copy = setDottedName copy text := by
  unfold nameCopy
  split
  · rfl
  · rfl
  · exact absurd rfl (hshape _)

section Written

variable {r : Reference} {text : String} {copy : NodeId} (h : IsCopyTree p copied)
  (href : IsReference p (p.collect exports_) naming copied r text copy)
    (hshape : ∀ depth, r.shape ≠ .importType depth)

include h href hshape

theorem isWritten_nameCopy (ht : IsSettling copied t) :
    IsWritten copied ((nameCopy text r.shape copy).run t).2 copy text := by
  rw [nameCopy_of_name hshape]
  exact isWritten_setDottedName (h.isTraced.lt_size copy _ (href.origin h.isTraced))
    ht.narrows.arena.size_le text

/-- The text stays at a reference by name. -/
theorem isWritten_of_step (hstep : SettleStep p (p.collect exports_) plan naming copied t t')
    (ht : IsSettling copied t) (hwritten : IsWritten copied t copy text) :
    IsWritten copied t' copy text := by
  obtain ⟨n, hspells, hsame⟩ := hwritten
  obtain ⟨hn, form, hform, hword⟩ := hspells.exists_form
  have hnew := h.form?_eq_of_new hstep hn hword hform
  obtain heq | ⟨ms, heq⟩ | ⟨r', text', href', rfl⟩ | ⟨id, s, old, hs, hname, -⟩ :=
    hstep.form?_cases (hsame.trans hform)
  · exact ⟨n, h.spells hstep hspells, heq.trans hnew.symm⟩
  · rw [Form.withModifiers_of_isWord hword] at heq
    exact ⟨n, h.spells hstep hspells, heq.trans hnew.symm⟩
  · obtain ⟨rfl, rfl⟩ := href.unique h.isTraced href'
    exact isWritten_nameCopy h href hshape ht
  · exact absurd hname (h.not_mem_nameSlots href hshape)

theorem isWritten_of_steps (hsteps : SettleSteps p (p.collect exports_) plan naming copied t t')
    (ht : IsSettling copied t) (hwritten : IsWritten copied t copy text) :
    IsWritten copied t' copy text := by
  induction hsteps with
  | refl => exact hwritten
  | tail hsteps hstep ih =>
    exact isWritten_of_step h href hshape hstep (isSettling_of_steps hsteps ht) ih

end Written

/-! ## Import types -/

/-- An import type has become a reference by the text, with the given type arguments. -/
def IsRewritten (copied t : BundleTree) (copy : NodeId) (isTypeof : Bool)
    (typeArguments : List Slot) (text : String) :
    Prop :=
  ∃ name, t.arena.Spells copied.arena.size name (dottedParts text) ∧
    t.arena.form? (some copy) = some (.reference isTypeof (some name) typeArguments)

/-- The parts of a name are still named as they were copied. -/
def KeepsWords (copied t : BundleTree) (file : FileId) (a : Arena) (root : Slot) : Prop :=
  ∀ n origin, a.InName root origin → copied.originOf? n = some ⟨file, origin⟩ →
    t.arena.word? (some n) = copied.arena.word? (some n)

section ImportTypes

variable {file : FileId} {a : Arena} {node : Slot} {isTypeof : Bool} {argument qualifier : Slot}
  {typeArguments : List Slot} (h : IsCopyTree p copied) (harena : p.arena? file = some a)
  (hfound : a.form? node = some (.importType isTypeof argument qualifier typeArguments))

include h harena hfound

/-- Nothing is written at the parts of the qualifier of an import type. -/
theorem keepsWords_of_step (hstep : SettleStep p (p.collect exports_) plan naming copied t t')
    (ht : IsSettling copied t) (hwords : KeepsWords copied t file a qualifier) :
    KeepsWords copied t' file a qualifier := by
  intro m origin hin ho
  have hword := hwords m origin hin ho
  obtain ⟨n, rfl⟩ := h.exists_node ho
  have hlt := Nat.lt_of_lt_of_le (h.isTraced.lt_size m _ ho) ht.narrows.arena.size_le
  obtain ⟨form, hform⟩ := Option.isSome_iff_exists.1 (Arena.isSome_form?_iff.2 hlt)
  -- what a step can do to the form of a node: nothing, modifiers, a reference, the name of a
  -- declaration
  obtain heq | ⟨ms, heq⟩ | ⟨r, text, href, rfl⟩ | ⟨id, s, old, hs, hname, -⟩ :=
    hstep.form?_cases hform
  · rw [← hword, Arena.word?_of_form? heq, Arena.word?_of_form? hform]
  · rw [← hword, Arena.word?_of_form? heq, Arena.word?_of_form? hform, Form.isWord_withModifiers]
    split
    · next hisword => rw [Form.withModifiers_of_isWord hisword]
    · rfl
  · -- only another import type can be a reference there, and it is no word before or afterwards
    have hnode : r.node = ⟨file, some n⟩ := Option.some.inj ((href.origin h.isTraced).symm.trans ho)
    obtain ⟨target, hnoted⟩ := href.isNoted
    by_cases hshape : ∃ depth, r.shape = .importType depth
    · obtain ⟨isTypeof', argument', qualifier', typeArguments', hform'⟩ :=
        hnoted.importType_iff.1 hshape
      obtain ⟨depth, hshape⟩ := hshape
      have hforma :
          a.form? (some n) = some (.importType isTypeof' argument' qualifier' typeArguments') :=
        (Project.form?_eq ⟨file, some n⟩ harena).symm.trans (hnode ▸ hform')
      have hnone : copied.arena.word? (some m) = none := by
        obtain ⟨-, hnone⟩ | ⟨_, _, _, hold, _, _⟩ := h.isTraced.word_cases harena
          (show copied.IsCopy file a (some n) (some m) from ho)
        · exact hnone
        · rw [Arena.word?_of_not_isWord hforma rfl] at hold
          cases hold
      rw [hshape]
      show ((nameImportType m text depth).run t).2.arena.word? (some m) = _
      obtain heq | ⟨_, _, _, _, himport⟩ := nameImportType_cases m text depth t
      · rw [heq, hword]
      · rw [run_nameImportType himport, hnone]
        refine Arena.word?_of_not_isWord ((Arena.form?_replace ?_ _ _).trans (if_pos rfl)) (by
          split <;> rfl)
        exact Nat.lt_of_lt_of_le hlt (adds_dottedName _ t).1.size_le
    · obtain ⟨a', root, harena', hheld, hinside⟩ := hnoted.standsInName fun depth hdepth =>
        hshape ⟨depth, hdepth⟩
      rw [hnode] at harena' hinside
      obtain rfl := Option.some.inj (harena.symm.trans harena')
      exact absurd hin ((h.isTree _ _ harena).not_inName_qualifier hheld hinside hfound)
  · obtain ⟨a', declaration, form', harena', hform', hdeclared⟩ := h.declaresAt hname ho
    obtain rfl := Option.some.inj (harena.symm.trans harena')
    exact absurd hdeclared ((h.isTree _ _ harena).not_name_of_qualifier hfound hin hform')

theorem keepsWords_of_steps (hsteps : SettleSteps p (p.collect exports_) plan naming copied t t')
    (ht : IsSettling copied t) (hwords : KeepsWords copied t file a qualifier) :
    KeepsWords copied t' file a qualifier := by
  induction hsteps with
  | refl => exact hwords
  | tail hsteps hstep ih =>
    exact keepsWords_of_step h harena hfound hstep (isSettling_of_steps hsteps ht) ih

omit hfound in
/-- The text of a copied qualifier is the text of the qualifier. -/
theorem importTypeText_eq (ht : IsSettling copied t) (hwords : KeepsWords copied t file a qualifier)
    {slot : Slot} (hcopy : copied.IsCopy file a qualifier slot) (text : String) (depth : Nat) :
    importTypeText t.arena slot text depth = importTypeText a qualifier text depth := by
  have hparts := BundleTree.map_nameText?_entityParts h.isTraced harena hwords
    (h.isTree _ _ harena).isOrdered hcopy
    ht.narrows.arena.size_le
  have hrest : ∀ (b : Arena) (root : Slot),
    ((Project.entityParts b root).drop depth).filterMap b.nameText? =
      (((Project.entityParts b root).map b.nameText?).drop depth).filterMap id := fun b root => by
    rw [← List.map_drop, List.filterMap_map]
    rfl
  unfold importTypeText
  rw [hrest, hrest, hparts]

omit hfound in
/-- An import type that has not been rewritten gets its text. -/
theorem isRewritten_nameImportType {copy : NodeId} {argument' qualifier' : Slot}
    {typeArguments' : List Slot} (ht : IsSettling copied t)
    (hwords : KeepsWords copied t file a qualifier) (hcopy : copy.index < copied.arena.size)
    (hqualifier : copied.IsCopy file a qualifier qualifier')
    (hform : t.arena.form? (some copy) =
      some (.importType isTypeof argument' qualifier' typeArguments'))
    (text : String) (depth : Nat) :
    IsRewritten copied ((nameImportType copy text depth).run t).2 copy isTypeof typeArguments'
      (importTypeText a qualifier text depth) := by
  rw [run_nameImportType hform, importTypeText_eq h harena ht hwords hqualifier]
  have hspells :=
    spells_dottedName (importTypeText a qualifier text depth) t ht.narrows.arena.size_le
  refine ⟨_, spells_replace hspells hcopy _, (Arena.form?_replace ?_ _ _).trans (if_pos rfl)⟩
  exact Nat.lt_of_lt_of_le (Arena.lt_size_of_form? hform) (adds_dottedName _ t).1.size_le

end ImportTypes

/-- What has been rewritten stays. -/
theorem isRewritten_nameImportType_of_isRewritten {copy : NodeId} {isTypeof : Bool}
    {typeArguments : List Slot} {text : String}
    (hrewritten : IsRewritten copied t copy isTypeof typeArguments text) (other : String)
    (depth : Nat) :
    IsRewritten copied ((nameImportType copy other depth).run t).2 copy isTypeof
      typeArguments text := by
  obtain heq | ⟨_, _, _, _, hform⟩ := nameImportType_cases copy other depth t
  · rw [heq]
    exact hrewritten
  · obtain ⟨name, -, hreference⟩ := hrewritten
    rw [hform] at hreference
    cases isTypeof <;> cases hreference

theorem isRewritten_of_step (h : IsCopyTree p copied) {r : Reference} {text full : String}
    {copy : NodeId} {depth : Nat} {isTypeof : Bool} {typeArguments : List Slot}
    (href : IsReference p (p.collect exports_) naming copied r text copy)
    (hshape : r.shape = .importType depth)
    (hstep : SettleStep p (p.collect exports_) plan naming copied t t')
    (hrewritten : IsRewritten copied t copy isTypeof typeArguments full) :
    IsRewritten copied t' copy isTypeof typeArguments full := by
  obtain ⟨name, hspells, hreference⟩ := id hrewritten
  obtain heq | ⟨ms, heq⟩ | ⟨r', text', href', rfl⟩ | ⟨id, s, old, hs, hname, hidentifier, -⟩ :=
    hstep.form?_cases hreference
  · exact ⟨name, h.spells hstep hspells, heq⟩
  · exact ⟨name, h.spells hstep hspells, heq.trans (by cases isTypeof <;> rfl)⟩
  · obtain ⟨rfl, rfl⟩ := href.unique h.isTraced href'
    rw [hshape]
    exact isRewritten_nameImportType_of_isRewritten hrewritten text depth
  · cases isTypeof <;> cases hidentifier

theorem isRewritten_of_steps (h : IsCopyTree p copied) {r : Reference} {text full : String}
    {copy : NodeId} {depth : Nat} {isTypeof : Bool} {typeArguments : List Slot}
    (href : IsReference p (p.collect exports_) naming copied r text copy)
    (hshape : r.shape = .importType depth)
    (hsteps : SettleSteps p (p.collect exports_) plan naming copied t t')
    (hrewritten : IsRewritten copied t copy isTypeof typeArguments full) :
    IsRewritten copied t' copy isTypeof typeArguments full := by
  induction hsteps with
  | refl => exact hrewritten
  | tail _ hstep ih => exact isRewritten_of_step h href hshape hstep ih

/-- Until it is rewritten, an import type is what it was copied as. -/
theorem isRewritten_or_form?_eq (h : IsCopyTree p copied) {r : Reference} {text : String}
    {copy : NodeId} {depth : Nat} {a : Arena} {isTypeof : Bool}
    {argument qualifier argument' qualifier' : Slot} {typeArguments typeArguments' : List Slot}
    (href : IsReference p (p.collect exports_) naming copied r text copy)
    (hshape : r.shape = .importType depth) (harena : p.arena? r.node.file = some a)
    (hfound : a.form? r.node.node = some (.importType isTypeof argument qualifier typeArguments))
    (hcopied : copied.arena.form? (some copy) =
      some (.importType isTypeof argument' qualifier' typeArguments'))
    (hqualifier : copied.IsCopy r.node.file a qualifier qualifier')
    (hsteps : SettleSteps p (p.collect exports_) plan naming copied copied t) :
    IsRewritten copied t copy isTypeof typeArguments' (importTypeText a qualifier text depth) ∨
      t.arena.form? (some copy) =
        some (.importType isTypeof argument' qualifier' typeArguments') := by
  induction hsteps with
  | refl => exact .inr hcopied
  | tail hsteps hstep ih =>
    have ht := isSettling_of_steps hsteps (.refl copied)
    have hwords := keepsWords_of_steps h harena hfound hsteps (.refl copied) fun _ _ _ _ => rfl
    have hlt := h.isTraced.lt_size copy _ (href.origin h.isTraced)
    rcases ih with hrewritten | hform
    · exact .inl (isRewritten_of_step h href hshape hstep hrewritten)
    · -- of all steps only the naming of this very reference touches an import type
      obtain heq | ⟨ms, heq⟩ | ⟨r', text', href', rfl⟩ | ⟨id, s, old, hs, hname, hidentifier, -⟩ :=
        hstep.form?_cases hform
      · exact .inr heq
      · exact .inr heq
      · obtain ⟨rfl, rfl⟩ := href.unique h.isTraced href'
        rw [hshape]
        exact .inl (isRewritten_nameImportType h harena ht hwords hlt hqualifier hform text depth)
      · cases hidentifier

/-! ## All references -/

section Settled

variable {r : Reference} {text : String} {copy : NodeId} (h : IsCopyTree p copied)
  (href : IsReference p (p.collect exports_) naming copied r text copy)

include h href

/-- A copy of a reference by name has the text of its target in the settled tree. -/
theorem isWritten_settle (hshape : ∀ depth, r.shape ≠ .importType depth) :
    IsWritten copied ((settle p (p.collect exports_) plan naming).run copied).2 copy text := by
  obtain ⟨target, references, hentry, hr, htext, hcopy⟩ := id href
  obtain ⟨t, hto, hfrom⟩ := exists_steps_settle h.namesApart hentry hr htext hcopy
  have ht := isSettling_of_steps hto (.refl copied)
  have hstep : SettleStep p (p.collect exports_) plan naming copied t _ :=
    .name t hentry hr htext hcopy
  exact isWritten_of_steps h href hshape hfrom (hstep.isSettling ht)
    (isWritten_nameCopy h href hshape ht)

/-- A copy of an import type has become a reference by the text of its target, followed by the names
in the qualifier after those that lead to the target, with the copies of the type arguments. -/
theorem exists_isRewritten_settle {depth : Nat} (hshape : r.shape = .importType depth) :
    ∃ a isTypeof argument qualifier typeArguments typeArguments', p.arena? r.node.file = some a ∧
      a.form? r.node.node = some (.importType isTypeof argument qualifier typeArguments) ∧
      IsRewritten copied ((settle p (p.collect exports_) plan naming).run copied).2 copy isTypeof
        typeArguments'
        (importTypeText a qualifier text depth) ∧
      List.Forall₂ (copied.IsCopy r.node.file a) typeArguments typeArguments' := by
  obtain ⟨target, hnoted⟩ := href.isNoted
  obtain ⟨isTypeof, argument, qualifier, typeArguments, hform⟩ :=
    hnoted.importType_iff.1 ⟨depth, hshape⟩
  have horigin := href.origin h.isTraced
  obtain ⟨a, found, form, harena, hfound, hcopied, hmade⟩ := h.isTraced.exists_form copy _ horigin
  have hforma :
      a.form? r.node.node = some (.importType isTypeof argument qualifier typeArguments) :=
    (Project.form?_eq r.node harena).symm.trans hform
  obtain rfl := Option.some.inj (hfound.symm.trans hforma)
  obtain ⟨argument', qualifier', typeArguments', rfl, hqualifier, harguments⟩ :=
    BundleTree.IsCopied.importType (hmade.isCopied rfl)
  obtain ⟨target, references, hentry, hr, htext, hcopy⟩ := id href
  -- the run is split where this copy is named
  obtain ⟨t, hto, hfrom⟩ := exists_steps_settle h.namesApart hentry hr htext hcopy
  have hrewritten :
    IsRewritten copied ((nameCopy text r.shape copy).run t).2 copy isTypeof typeArguments'
      (importTypeText a qualifier text depth) := by
    rw [hshape]
    -- another entry may have named the copy before, with the same text
    rcases isRewritten_or_form?_eq h href hshape harena hforma hcopied hqualifier
      hto with hrewritten | hform
    · exact isRewritten_nameImportType_of_isRewritten hrewritten text depth
    · have hwords := keepsWords_of_steps h harena hforma hto (.refl copied) fun _ _ _ _ => rfl
      exact isRewritten_nameImportType h harena (isSettling_of_steps hto (.refl copied)) hwords
        (h.isTraced.lt_size copy _ horigin) hqualifier hform text depth
  exact ⟨a, isTypeof, argument, qualifier, typeArguments, typeArguments', harena, hforma,
    isRewritten_of_steps h href hshape hfrom hrewritten, harguments⟩

end Settled

end Build

end DeclBundle
