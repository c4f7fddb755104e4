import DeclBundle.Proofs.Adding
import DeclBundle.Proofs.DeclaredNames
import DeclBundle.Proofs.NormalPaths

/-!
# Dotted names are read as they were written

A text is split at its dots and becomes a node for each part, with the first identifier at the
bottom (`Build.dottedName`). `Arena.Spells` says what such nodes say, and the parts that are read
from them give the text again (`Build.adds_dottedName_text`).
-/

set_option autoImplicit false

namespace DeclBundle

/-! ## Splitting and joining -/

/-- The parts of a text between its dots. -/
def dottedParts (text : String) : List String := (Text.splitAt '.' text.toList).map String.ofList

theorem dottedParts_ne_nil (text : String) : dottedParts text ≠ [] := by
  rw [dottedParts, ne_eq, List.map_eq_nil_iff, Text.splitAt_eq_splitOn]
  exact List.splitOn_ne_nil _ _

theorem intercalate_dottedParts (text : String) : ".".intercalate (dottedParts text) = text := by
  apply String.toList_injective
  rw [String.toList_intercalate, dottedParts, List.map_map]
  have hsame : String.toList ∘ String.ofList = id := funext fun cs => String.toList_ofList
  rw [hsame, List.map_id, Text.splitAt_eq_splitOn]
  exact List.intercalate_splitOn '.'

/-! ## What nodes spell -/

/-- The form is a name or a part of one. -/
def Form.isWord {α : Type} : Form α → Bool
  | identifier _ | privateIdentifier _ | stringLiteral _ | numericLiteral _ | qualifiedName ..
  | propertyAccess .. => true
  | _ => false

namespace Arena

variable {a b : Arena}

/-- The node is an identifier or a dotted name with the given parts. All its nodes are from `first`
on, and parts of dotted names stand before them. -/
inductive Spells (a : Arena) (first : Nat) : NodeId → List String → Prop where
  | identifier {n : NodeId} {text : String} (hn : first ≤ n.index)
    (h : a.form? (some n) = some (.identifier text)) :
    Spells a first n [text]
  | dotted {n left right : NodeId} {parts : List String} {part : String} (hn : first ≤ n.index)
    (h : a.form? (some n) = some (.qualifiedName (some left) (some right)))
    (hlt : left.index < n.index) (hleft : Spells a first left parts) (hle : first ≤ right.index)
    (hright : a.form? (some right) = some (.identifier part)) : Spells a first n (parts ++ [part])

variable {first : Nat} {n : NodeId} {parts : List String}

/-- What is spelled stays when the nodes from `first` on keep their names. -/
theorem Spells.mono (h : a.Spells first n parts)
    (hforms : ∀ (m : NodeId) (form : Form Slot), first ≤ m.index →
    form.isWord = true → a.form? (some m) = some form → b.form? (some m) = some form) :
      b.Spells first n parts := by
  induction h with
  | identifier hn h => exact .identifier hn (hforms _ _ hn rfl h)
  | dotted hn h hlt _ hle hright ih =>
    exact .dotted hn (hforms _ _ hn rfl h) hlt ih hle (hforms _ _ hle rfl hright)

theorem Spells.extends (h : a.Spells first n parts) (hext : a.Extends b) : b.Spells first n parts :=
  h.mono fun _ _ _ _ hform => hext _ _ hform

theorem Spells.exists_form (h : a.Spells first n parts) :
    first ≤ n.index ∧ ∃ form, a.form? (some n) = some form ∧ form.isWord = true := by
  cases h with
  | identifier hn h => exact ⟨hn, _, h, rfl⟩
  | dotted hn h => exact ⟨hn, _, h, rfl⟩

theorem Spells.lt_size (h : a.Spells first n parts) : n.index < a.size := by
  obtain ⟨-, form, hform, -⟩ := h.exists_form
  exact lt_size_of_form? hform

/-- The texts of the parts of a dotted name. -/
def partTexts (a : Arena) (slot : Slot) : List String :=
  (Project.entityParts a slot).filterMap a.identifier?

/-- The text of a dotted name. -/
def dottedText (a : Arena) (slot : Slot) : String := ".".intercalate (a.partTexts slot)

/-- What a node spells is read from every node with its form. -/
theorem Spells.reversedPartsTo (h : a.Spells first n parts) {slot : Slot}
    (hslot : a.form? slot = a.form? (some n)) {depth : Nat} (hdepth : n.index < depth) :
    (Project.reversedPartsTo a depth slot).filterMap a.identifier? = parts.reverse := by
  induction h generalizing depth slot with
  | @identifier n text _ h =>
    cases depth with
    | zero => exact absurd hdepth (Nat.not_lt_zero _)
    | succ depth =>
      rw [Project.reversedPartsTo, hslot, h]
      show [slot].filterMap a.identifier? = [text]
      rw [List.filterMap_cons, identifier?_of_form? (hslot.trans h), List.filterMap_nil]
  | @dotted n left right parts part _ h hlt hleft _ hright ih =>
    cases depth with
    | zero => exact absurd hdepth (Nat.not_lt_zero _)
    | succ depth =>
      rw [Project.reversedPartsTo, hslot, h]
      show (some right :: Project.reversedPartsTo a depth (some left)).filterMap a.identifier? = _
      rw [List.filterMap_cons, identifier?_of_form? hright, ih rfl (by omega), List.reverse_append]
      rfl

theorem Spells.partTexts (h : a.Spells first n parts) {slot : Slot}
    (hslot : a.form? slot = a.form? (some n)) :
    a.partTexts slot = parts := by
  rw [Arena.partTexts, Project.entityParts, List.filterMap_reverse,
    h.reversedPartsTo hslot (Nat.lt_succ_of_lt h.lt_size), List.reverse_reverse]

/-- The text of a node that spells the parts of a text, and of every node with its form. -/
theorem Spells.dottedText {text : String} (h : a.Spells first n (dottedParts text)) {slot : Slot}
    (hslot : a.form? slot = a.form? (some n)) : a.dottedText slot = text := by
  rw [Arena.dottedText, h.partTexts hslot, intercalate_dottedParts]

end Arena

namespace Build

/-- Each further part is written to the right of what is spelled so far. -/
theorem spells_foldlM {first : Nat} (rest : List String) {left : NodeId} {done : List String}
    {t : BundleTree} (hfirst : first ≤ t.arena.size) (h : t.arena.Spells first left done) :
    ((rest.foldlM (fun left part => do
      add (.qualifiedName (some left) (some (← identifier part)))) left :
      Build NodeId).run t).2.arena.Spells first
    ((rest.foldlM (fun left part => do
      add (.qualifiedName (some left) (some (← identifier part)))) left :
      Build NodeId).run t).1 (done ++ rest) := by
  induction rest generalizing left done t with
  | nil =>
    rw [List.append_nil]
    exact h
  | cons part rest ih =>
    rw [List.foldlM_cons, List.append_cons]
    let t₁ : BundleTree := ((identifier part).run t).2
    let right : NodeId := ((identifier part).run t).1
    let form : Form Slot := .qualifiedName (some left) (some right)
    have hext : t.arena.Extends t₁.arena := t.arena.extends_add _ _
    have hright : t₁.arena.form? (some right) = some (.identifier part) :=
      t.arena.form?_add_self _ _
    have hext₁ : t₁.arena.Extends ((add form).run t₁).2.arena := t₁.arena.extends_add _ _
    have hnode : ((add form).run t₁).2.arena.form? (some ((add form).run t₁).1) = some form :=
      t₁.arena.form?_add_self _ _
    have hfirst₁ : first ≤ t₁.arena.size := Nat.le_trans hfirst hext.size_le
    have hlt : left.index < ((add form).run t₁).1.index :=
      Nat.lt_of_lt_of_le h.lt_size hext.size_le
    exact ih (Nat.le_trans hfirst₁ hext₁.size_le)
      (.dotted hfirst₁ hnode hlt ((h.extends hext).extends hext₁) hfirst (hext₁ _ _ hright))

/-- A dotted name spells the parts of its text with new nodes. -/
theorem spells_dottedName (text : String) {first : Nat} (t : BundleTree)
    (hfirst : first ≤ t.arena.size) :
    ((dottedName text).run t).2.arena.Spells first ((dottedName text).run t).1
      (dottedParts text) := by
  unfold dottedName
  have hne := dottedParts_ne_nil text
  unfold dottedParts at hne ⊢
  split
  · next hnil => exact absurd hnil hne
  · next head rest hcons =>
    rw [hcons]
    have hext := (adds_identifier head t).1
    exact spells_foldlM rest (Nat.le_trans hfirst hext.size_le)
      (.identifier hfirst (t.arena.form?_add_self _ _))

/-- The text of a dotted name is read from its node. -/
theorem adds_dottedName_text (text : String) : Adds (dottedName text) fun n a =>
  a.dottedText (some n) = text := by
  intro t
  refine ⟨(adds_dottedName text t).1, (adds_dottedName text t).2.1, fun a ha => ?_⟩
  exact ((spells_dottedName text t (Nat.zero_le _)).extends ha).dottedText rfl

end Build

end DeclBundle
