import DeclBundle.Proofs.FinalNames
import DeclBundle.Proofs.Standing
import Mathlib.Logic.Relation

/-!
# How copies are settled

Before anything is added to the copied declarations, they are changed in place. `Build.SettleStep`
says what is done in one step: a copy of a reference gets the text of its target, the name of a
statement that was copied gets the final name of its symbol, or a node gets other modifiers. All of
it is done in such steps (`Build.settles_settle`), and each of them keeps the notes about copies and
declares nothing new, so copies and names can be looked up in the tree of copies throughout.
-/

set_option autoImplicit false

namespace DeclBundle.Build

open Relation (ReflTransGen)

variable (p : Project) (collection : Collection) (plan : Plan) (naming : Naming)

/-- Writes a text at a copy of a reference. -/
def nameCopy (text : String) (shape : ReferenceShape) (copy : NodeId) : Build Unit :=
  match shape with
  | .identifier | .qualified => setDottedName copy text
  | .importType depth => nameImportType copy text depth

/-- Writes the text of a target at all copies of its references. -/
def nameTarget (entry : SymbolId × List Reference) : Build Unit :=
  match naming.textOf? p entry.1 with
  | some text => entry.2.forM (nameReference text)
  | none => pure ()

/-- One step of settling the tree of copies. -/
inductive SettleStep (copied : BundleTree) : BundleTree → BundleTree → Prop where
  /-- A copy of a reference gets the text of its target. -/
  | name (t : BundleTree) {target : SymbolId} {references : List Reference} {r : Reference}
    {text : String} {copy : NodeId} (hentry : (target, references) ∈ collection.references.entries)
    (hr : r ∈ references) (htext : naming.textOf? p target = some text)
    (hcopy : copy ∈ copied.copiesOf r.node) :
    SettleStep copied t ((nameCopy text r.shape copy).run t).2
  /-- A name of a statement gets the final name of its symbol. -/
  | rename (t : BundleTree) {id : SymbolId} {s n : NodeId} {old name : String}
    (hname : declaredName? plan naming id = some name) (hs : s ∈ copied.statementsOf id)
    (hn : some n ∈ copied.arena.nameSlots (some s))
    (hform : t.arena.form? (some n) = some (.identifier old)) :
    SettleStep copied t ((replace n (.identifier name)).run t).2
  /-- A node gets other modifiers. -/
  | modify (t : BundleTree) {n : NodeId} {form : Form Slot}
    (hform : t.arena.form? (some n) = some form) (ms : Modifiers) :
    SettleStep copied t ((replace n (form.withModifiers ms)).run t).2

/-- The tree was made from the tree of copies by changing it in place. -/
structure IsSettling (copied t : BundleTree) : Prop where
  narrows : NarrowsTo copied t
  notes : SameNotes copied t

theorem IsSettling.refl (copied : BundleTree) : IsSettling copied copied := ⟨.refl _, .refl _⟩

section Steps

variable {p collection plan naming} {copied t t' : BundleTree}

theorem nameTarget_of_text {target : SymbolId} {references : List Reference} {text : String}
    (h : naming.textOf? p target = some text) :
    nameTarget p naming (target, references) = references.forM (nameReference text) := by
  unfold nameTarget
  rw [h]

theorem narrows_nameCopy (text : String) (shape : ReferenceShape) (copy : NodeId) :
    Narrows (nameCopy text shape copy) := by
  unfold nameCopy
  split
  · exact narrows_setDottedName copy text
  · exact narrows_setDottedName copy text
  · exact narrows_nameImportType copy text _

/-- The step keeps the notes about nodes. -/
def KeepsNotes {α : Type} (m : Build α) : Prop := ∀ t : BundleTree, SameNotes t (m.run t).2

theorem keepsNotes_replace (n : NodeId) (form : Form Slot) : KeepsNotes (replace n form) :=
  fun _ => ⟨rfl, rfl, rfl⟩

theorem Adds.keepsNotes {α : Type} {m : Build α} {Q : α → Arena → Prop} (h : Adds m Q) :
    KeepsNotes m :=
  fun t => (h t).2.1

theorem keepsNotes_bind {α β : Type} {m : Build α} {f : α → Build β} (hm : KeepsNotes m)
    (hf : ∀ x, KeepsNotes (f x)) :
    KeepsNotes (m >>= f) :=
  fun t => (hm t).trans (hf (m.run t).1 (m.run t).2)

theorem keepsNotes_setDottedName (node : NodeId) (text : String) :
    KeepsNotes (setDottedName node text) := by
  unfold setDottedName
  refine keepsNotes_bind (adds_dottedName text).keepsNotes fun name => ?_
  refine keepsNotes_bind (adds_get fun _ _ => trivial).keepsNotes fun t => ?_
  split
  · exact keepsNotes_replace _ _
  · exact fun t => .refl t

theorem keepsNotes_nameImportType (node : NodeId) (text : String) (depth : Nat) :
    KeepsNotes (nameImportType node text depth) := by
  unfold nameImportType
  refine keepsNotes_bind (adds_get fun _ _ => trivial).keepsNotes fun t => ?_
  dsimp only
  split
  · exact keepsNotes_bind (adds_dottedName _).keepsNotes fun name => keepsNotes_replace _ _
  · exact fun t => .refl t

theorem keepsNotes_nameCopy (text : String) (shape : ReferenceShape) (copy : NodeId) :
    KeepsNotes (nameCopy text shape copy) := by
  unfold nameCopy
  split
  · exact keepsNotes_setDottedName copy text
  · exact keepsNotes_setDottedName copy text
  · exact keepsNotes_nameImportType copy text _

theorem SettleStep.isSettling (h : SettleStep p collection plan naming copied t t')
    (ht : IsSettling copied t) :
    IsSettling copied t' := by
  cases h with
  | name hentry hr htext hcopy =>
    exact ⟨ht.narrows.trans (narrows_nameCopy _ _ _ t),
      ht.notes.trans (keepsNotes_nameCopy _ _ _ t)⟩
  | rename hname hs hn hform =>
    refine ⟨ht.narrows.trans (narrowsTo_replace (.inl ?_)),
      ht.notes.trans (keepsNotes_replace _ _ t)⟩
    rw [Arena.heads_of_form? hform]
    rfl
  | modify hform ms =>
    refine ⟨ht.narrows.trans (narrowsTo_replace (.inl ?_)),
      ht.notes.trans (keepsNotes_replace _ _ t)⟩
    rw [Arena.heads_of_form? hform, Form.heads_withModifiers]

variable (p collection plan naming) in
/-- Settling goes on in steps. -/
abbrev SettleSteps (copied : BundleTree) : BundleTree → BundleTree → Prop :=
  ReflTransGen (SettleStep p collection plan naming copied)

theorem isSettling_of_steps (h : SettleSteps p collection plan naming copied t t')
    (ht : IsSettling copied t) :
    IsSettling copied t' := by
  induction h with
  | refl => exact ht
  | tail _ hstep ih => exact hstep.isSettling ih

end Steps

/-! ## Everything is done in steps -/

/-- The step is done in steps of settling. -/
def Settles (copied : BundleTree) (m : Build Unit) : Prop :=
  ∀ t : BundleTree, IsSettling copied t → SettleSteps p collection plan naming copied t (m.run t).2

variable {p collection plan naming} {copied : BundleTree}

theorem settles_pure : Settles p collection plan naming copied (pure ()) := fun _ _ => .refl

theorem settles_bind {m : Build Unit} {f : Unit → Build Unit}
    (hm : Settles p collection plan naming copied m)
    (hf : Settles p collection plan naming copied (f ())) :
    Settles p collection plan naming copied (m >>= f) :=
  fun t ht => (hm t ht).trans (hf (m.run t).2 (isSettling_of_steps (hm t ht) ht))

theorem settles_get {f : BundleTree → Build Unit}
    (h : ∀ t, IsSettling copied t → Settles p collection plan naming copied (f t)) :
    Settles p collection plan naming copied (get >>= f) :=
  fun t ht => h t ht t ht

theorem settles_forM {γ : Type} {f : γ → Build PUnit} {xs : List γ}
    (h : ∀ x ∈ xs, Settles p collection plan naming copied (f x)) :
    Settles p collection plan naming copied (xs.forM f) := by
  induction xs with
  | nil => exact settles_pure
  | cons x xs ih =>
    exact settles_bind (h x List.mem_cons_self) (ih fun y hy => h y (List.mem_cons_of_mem _ hy))

/-- A step for one element of a list is done between steps for the others. -/
theorem exists_steps_forM {γ : Type} {f : γ → Build PUnit} {xs : List γ}
    (h : ∀ x ∈ xs, Settles p collection plan naming copied (f x)) {x : γ} (hx : x ∈ xs)
    {t : BundleTree} (ht : IsSettling copied t) :
    ∃ t', SettleSteps p collection plan naming copied t t' ∧
      SettleSteps p collection plan naming copied ((f x).run t').2 ((xs.forM f).run t).2 := by
  induction xs generalizing t with
  | nil => cases hx
  | cons y ys ih =>
    have hy := h y List.mem_cons_self t ht
    have hrest : ∀ x ∈ ys, Settles p collection plan naming copied (f x) :=
      fun x hx => h x (List.mem_cons_of_mem _ hx)
    rcases List.mem_cons.1 hx with rfl | hx
    · exact ⟨t, .refl, settles_forM hrest _ (isSettling_of_steps hy ht)⟩
    · obtain ⟨t', hto, hfrom⟩ := ih hrest hx (isSettling_of_steps hy ht)
      exact ⟨t', hy.trans hto, hfrom⟩

section References

variable {target : SymbolId} {references : List Reference} {r : Reference} {text : String}
  (hentry : (target, references) ∈ collection.references.entries)

include hentry

theorem settles_nameCopy (hr : r ∈ references) (htext : naming.textOf? p target = some text)
    {copy : NodeId} (hcopy : copy ∈ copied.copiesOf r.node) :
    Settles p collection plan naming copied (nameCopy text r.shape copy) :=
  fun t _ => .single (.name t hentry hr htext hcopy)

theorem settles_nameReference (hr : r ∈ references) (htext : naming.textOf? p target = some text) :
    Settles p collection plan naming copied (nameReference text r) := by
  refine settles_get fun t ht => settles_forM fun copy hcopy => settles_nameCopy hentry hr htext ?_
  rw [BundleTree.copiesOf, ← ht.notes.copies_eq]
  exact hcopy

end References

theorem settles_nameTarget {entry : SymbolId × List Reference}
    (hentry : entry ∈ collection.references.entries) :
    Settles p collection plan naming copied (nameTarget p naming entry) := by
  unfold nameTarget
  split
  · next text htext => exact settles_forM fun r hr => settles_nameReference hentry hr htext
  · exact settles_pure

theorem settles_nameReferences :
    Settles p collection plan naming copied (nameReferences p collection naming) :=
  settles_forM fun _ hentry => settles_nameTarget hentry

theorem settles_nameDeclarations (hcopied : copied.NamesApart) :
    Settles p collection plan naming copied (nameDeclarations collection plan naming) := by
  refine settles_forM fun id _ => ?_
  unfold nameSymbol
  split
  · exact settles_pure
  · next name hname =>
    refine settles_get fun t ht => settles_forM fun s hs => settles_get fun t₁ ht₁ =>
      settles_forM fun slot hslot => ?_
    have hs : s ∈ copied.statementsOf id := by
      rw [BundleTree.statementsOf, ← ht.notes.statements_eq]
      exact hs
    intro t₂ ht₂
    rw [run_nameIdentifier]
    split
    · next node text hform =>
      have hn : some node ∈ copied.arena.nameSlots (some s) := ht₁.narrows.arena.mem_nameSlots
        (hcopied.statement_lt id s hs)
          (fun declarations d => hcopied.variable_lt id s declarations d hs) hslot
      exact .single (.rename t₂ hname hs hn hform)
    · exact .refl

theorem settles_stripStatement (statement : Slot) :
    Settles p collection plan naming copied (stripStatement statement) := by
  intro t _
  obtain heq | ⟨node, form, hform, heq⟩ := stripStatement_cases statement t
  · rw [heq]
  · rw [heq]
    exact .single (.modify t hform _)

theorem settles_stripInner (depth : Nat) (node : Slot) :
    Settles p collection plan naming copied (stripInner depth node) := by
  induction depth generalizing node with
  | zero => exact settles_pure
  | succ depth ih =>
    unfold stripInner
    refine settles_get fun t _ => ?_
    split
    · exact ih _
    · exact settles_forM fun inner _ => settles_bind (settles_stripStatement inner) (ih inner)
    · exact settles_pure

theorem settles_modifyStatement (isMoved : Bool) (statement : NodeId) :
    Settles p collection plan naming copied (modifyStatement isMoved statement) := by
  intro t ht
  obtain heq | ⟨form, hform, heq⟩ := modifyStatement_cases isMoved statement t
  · rw [heq]
  · rw [heq]
    have hstep : SettleStep p collection plan naming copied t _ :=
      .modify t hform (statementModifiers isMoved form)
    exact .head hstep (settles_stripInner _ _ _ (hstep.isSettling ht))

theorem settles_setModifiers :
    Settles p collection plan naming copied (setModifiers collection plan) :=
  settles_forM fun _ _ => settles_get fun _ _ => settles_forM fun s _ => settles_modifyStatement _ s

/-- Settling is done in steps from the tree of copies. -/
theorem settles_settle (hcopied : copied.NamesApart) :
    Settles p collection plan naming copied (settle p collection plan naming) :=
  settles_bind settles_nameReferences
    (settles_bind (settles_nameDeclarations hcopied) settles_setModifiers)

/-- While a tree is settled, every copy of a reference to a target with a text gets the text. -/
theorem exists_steps_settle (hcopied : copied.NamesApart) {target : SymbolId}
    {references : List Reference} {r : Reference} {text : String} {copy : NodeId}
    (hentry : (target, references) ∈ collection.references.entries) (hr : r ∈ references)
    (htext : naming.textOf? p target = some text) (hcopy : copy ∈ copied.copiesOf r.node) :
    ∃ t, SettleSteps p collection plan naming copied copied t ∧
      SettleSteps p collection plan naming copied ((nameCopy text r.shape copy).run t).2
        ((settle p collection plan naming).run copied).2 := by
  have hafter : Settles p collection plan naming copied (do
      nameDeclarations collection plan naming
      setModifiers collection plan) :=
        settles_bind (settles_nameDeclarations hcopied) settles_setModifiers
  have hnamed : SettleSteps p collection plan naming copied copied _ :=
    settles_nameReferences copied (.refl copied)
  have hrest := hafter _ (isSettling_of_steps hnamed (.refl copied))
  -- down to the target, to the reference and to the copy, with the steps behind each left over
  obtain ⟨t₁, hto₁, hfrom₁⟩ :=
    exists_steps_forM (fun _ hentry => settles_nameTarget hentry) hentry (.refl copied)
  rw [nameTarget_of_text htext] at hfrom₁
  have ht₁ := isSettling_of_steps hto₁ (.refl copied)
  obtain ⟨t₂, hto₂, hfrom₂⟩ :=
    exists_steps_forM (fun r hr => settles_nameReference hentry hr htext) hr ht₁
  have ht₂ := isSettling_of_steps hto₂ ht₁
  obtain ⟨t₃, hto₃, hfrom₃⟩ :=
    exists_steps_forM (fun _ hcopy => settles_nameCopy hentry hr htext hcopy) hcopy ht₂
  have hcopies : t₂.copiesOf r.node = copied.copiesOf r.node := by
    rw [BundleTree.copiesOf, BundleTree.copiesOf, ht₂.notes.copies_eq]
  have hreference : (nameReference text r).run t₂ =
      ((copied.copiesOf r.node).forM (nameCopy text r.shape)).run t₂ :=
    hcopies ▸ rfl
  rw [hreference] at hfrom₂
  exact ⟨t₃, hto₁.trans (hto₂.trans hto₃), hfrom₃.trans (hfrom₂.trans (hfrom₁.trans hrest))⟩

end DeclBundle.Build
