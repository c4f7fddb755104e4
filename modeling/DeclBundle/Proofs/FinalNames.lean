import DeclBundle.Proofs.NarrowingSteps

/-!
# Declarations get their final names

Naming the declarations of a symbol writes its name at their name slots and nowhere else
(`Build.Renames`). Because names are kept apart, no later symbol writes over them: afterwards every
kept symbol is declared by its final name (`Build.named_nameDeclarations`), and setting the
modifiers changes no name.
-/

set_option autoImplicit false

namespace DeclBundle

namespace Arena

theorem exists_of_identifier? {a : Arena} {slot : Slot} {text : String}
    (h : a.identifier? slot = some text) :
    ∃ node, slot = some node ∧ a.form? (some node) = some (.identifier text) := by
  unfold identifier? at h
  split at h
  · next other hform =>
    obtain rfl := Option.some.inj h
    cases slot with
    | none => cases hform
    | some node => exact ⟨node, rfl, hform⟩
  · cases h

/-- Names are read from what forms say about them. -/
theorem nameSlots_of_heads {a b : Arena} (h : ∀ slot, b.heads slot = a.heads slot)
    (statement : Slot) :
    b.nameSlots statement = a.nameSlots statement := by
  have hname : ∀ slot, b.nameSlot slot = a.nameSlot slot := fun slot => by
    rw [nameSlot_eq, nameSlot_eq, h]
  rw [nameSlots_eq, nameSlots_eq, h, hname, funext hname]

end Arena

namespace Build

/-- The identifiers in the given slots become `name`, and no other name changes. -/
structure Renames (name : String) (slots : List Slot) (t t' : BundleTree) : Prop where
  statements_eq : t'.statements = t.statements
  size_eq : t'.arena.size = t.arena.size
  heads_eq : ∀ slot, t'.arena.heads slot = t.arena.heads slot
  identifier?_eq : ∀ slot, t'.arena.identifier? slot =
    if slot ∈ slots then (t.arena.identifier? slot).map fun _ => name else t.arena.identifier? slot

namespace Renames

variable {name : String} {slots slots' : List Slot} {t t' t'' : BundleTree}

theorem refl (name : String) (t : BundleTree) : Renames name [] t t :=
  ⟨rfl, rfl, fun _ => rfl, fun _ => rfl⟩

theorem trans (h : Renames name slots t t') (h' : Renames name slots' t' t'') :
    Renames name (slots ++ slots') t t'' := by
  refine ⟨h'.statements_eq.trans h.statements_eq, h'.size_eq.trans h.size_eq,
    fun slot => (h'.heads_eq slot).trans (h.heads_eq slot), fun slot => ?_⟩
  rw [h'.identifier?_eq, h.identifier?_eq]
  by_cases hs : slot ∈ slots <;> by_cases hs' : slot ∈ slots' <;>
    simp [hs, hs', Option.map_map, Function.comp_def]

theorem narrowsTo (h : Renames name slots t t') : NarrowsTo t t' :=
  ⟨⟨Nat.le_of_eq h.size_eq.symm, fun _ _ => .inl (h.heads_eq _)⟩, h.statements_eq⟩

theorem statementsOf_eq (h : Renames name slots t t') (id : SymbolId) :
    t'.statementsOf id = t.statementsOf id := by
  rw [BundleTree.statementsOf, BundleTree.statementsOf, h.statements_eq]

end Renames

/-! ## Naming a statement -/

theorem run_nameIdentifier (name : String) (slot : Slot) (t : BundleTree) :
    (nameIdentifier name slot).run t = (match slot, t.arena.form? slot with
      | some node, some (.identifier _) => replace node (.identifier name)
      | _, _ => pure () : Build Unit).run t := rfl

theorem run_nameIdentifier_of_none {name : String} {slot : Slot} {t : BundleTree}
    (h : t.arena.identifier? slot = none) : ((nameIdentifier name slot).run t).2 = t := by
  rw [run_nameIdentifier]
  split
  · next node text hform =>
    rw [Arena.identifier?_of_form? hform] at h
    cases h
  · rfl

theorem run_nameIdentifier_of_form? {name text : String} {node : NodeId} {t : BundleTree}
    (h : t.arena.form? (some node) = some (.identifier text)) :
    ((nameIdentifier name (some node)).run t).2 =
      { t with arena := t.arena.replace (some node) (.identifier name) } := by
  rw [run_nameIdentifier, h]
  rfl

theorem renames_nameIdentifier (name : String) (slot : Slot) (t : BundleTree) :
    Renames name [slot] t ((nameIdentifier name slot).run t).2 := by
  cases htext : t.arena.identifier? slot with
  | none =>
    rw [run_nameIdentifier_of_none htext]
    refine ⟨rfl, rfl, fun _ => rfl, fun other => ?_⟩
    by_cases hother : other ∈ [slot]
    · obtain rfl := List.mem_singleton.1 hother
      rw [if_pos hother, htext]
      rfl
    · rw [if_neg hother]
  | some text =>
    obtain ⟨node, rfl, hform⟩ := Arena.exists_of_identifier? htext
    have hself : (t.arena.replace (some node) (.identifier name)).form? (some node) =
        some (.identifier name) :=
      (Arena.form?_replace (Arena.lt_size_of_form? hform) _ _).trans (if_pos rfl)
    rw [run_nameIdentifier_of_form? hform]
    refine ⟨rfl, t.arena.size_replace _ _, fun other => ?_, fun other => ?_⟩
    · by_cases hother : other = some node
      · subst hother
        rw [Arena.heads_of_form? hself, Arena.heads_of_form? hform]
        rfl
      · rw [Arena.heads, Arena.heads, Arena.form?_replace_of_ne hother]
    · by_cases hother : other = some node
      · subst hother
        rw [if_pos List.mem_cons_self, htext, Arena.identifier?_of_form? hself]
        rfl
      · rw [if_neg (by simpa using hother), Arena.identifier?, Arena.identifier?,
          Arena.form?_replace_of_ne hother]

theorem renames_nameStatement (name : String) (statement : NodeId) (t : BundleTree) :
    Renames name (t.arena.nameSlots (some statement)) t
      ((nameStatement name statement).run t).2 := by
  have hall : ∀ (slots : List Slot) (t : BundleTree),
      Renames name slots t ((slots.forM (nameIdentifier name)).run t).2 := by
    intro slots
    induction slots with
    | nil => exact fun t => .refl name t
    | cons slot slots ih => exact fun t => (renames_nameIdentifier name slot t).trans (ih _)
  exact hall _ t

theorem renames_nameStatements (name : String) (statements : List NodeId) (t : BundleTree) :
    Renames name (statements.flatMap fun s => t.arena.nameSlots (some s)) t
      ((statements.forM (nameStatement name)).run t).2 := by
  induction statements generalizing t with
  | nil => exact .refl name t
  | cons s statements ih =>
    have hfirst := renames_nameStatement name s t
    have hrest := ih ((nameStatement name s).run t).2
    simp only [Arena.nameSlots_of_heads hfirst.heads_eq] at hrest
    exact hfirst.trans hrest

/-! ## Naming all declarations -/

variable (plan : Plan) (naming : Naming)

/-- The declarations of the given symbols have the names that the symbols are declared with. -/
def Named (ids : List SymbolId) (t : BundleTree) : Prop :=
  ∀ id ∈ ids, ∀ name, declaredName? plan naming id = some name → ∀ s ∈ t.statementsOf id,
    ∀ slot ∈ t.arena.nameSlots (some s), ∀ text, t.arena.identifier? slot = some text → text = name

variable {plan naming}

/-- A declaration that is moved is written with its name in the namespace. -/
theorem declaredName?_of_moved {id module : SymbolId} {name : String}
    (h : plan.moved.get? id = some (module, name)) : declaredName? plan naming id = some name := by
  rw [declaredName?, h]
  rfl

/-- Any other declaration is written with its final name. -/
theorem declaredName?_of_unmoved {id : SymbolId} (h : plan.isMoved id = false) :
    declaredName? plan naming id = naming.nameOf? id := by
  rw [declaredName?, Table.contains_eq_false_iff.1 h]
  rfl

/-- Names of further symbols do not change the names that were written. -/
theorem Named.cons {ids : List SymbolId} {id : SymbolId} {name : String} {t t' : BundleTree}
    (h : Named plan naming ids t) (hapart : t.NamesApart)
    (hname : declaredName? plan naming id = some name)
    (hrenames : Renames name
      ((t.statementsOf id).flatMap fun s => t.arena.nameSlots (some s)) t t') :
    Named plan naming (id :: ids) t' := by
  intro id' hid' name' hname' s hs slot hslot text htext
  rw [hrenames.statementsOf_eq] at hs
  rw [Arena.nameSlots_of_heads hrenames.heads_eq] at hslot
  rw [hrenames.identifier?_eq] at htext
  split at htext
  · next hrenamed =>
    obtain ⟨s₁, hs₁, hslot₁⟩ := List.mem_flatMap.1 hrenamed
    obtain ⟨old, hold, rfl⟩ := Option.map_eq_some_iff.1 htext
    cases slot with
    | none => cases hold
    | some n =>
      obtain rfl := hapart.apart id id' s₁ s n hs₁ hs hslot₁ hslot
      exact Option.some.inj (hname.symm.trans hname')
  · next hother =>
    rcases List.mem_cons.1 hid' with rfl | hid'
    · exact absurd (List.mem_flatMap.2 ⟨s, hs, hslot⟩) hother
    · exact h id' hid' name' hname' s hs slot hslot text htext

/-- Naming one more symbol keeps the names of the symbols before it. -/
theorem named_nameSymbol {ids : List SymbolId} (id : SymbolId) {t : BundleTree} (ht : t.NamesApart)
    (h : Named plan naming ids t) :
    NarrowsTo t ((nameSymbol plan naming id).run t).2 ∧
      Named plan naming (id :: ids) ((nameSymbol plan naming id).run t).2 := by
  unfold nameSymbol
  cases hname : declaredName? plan naming id with
  | none =>
    refine ⟨.refl t, fun id' hid' name' hname' => ?_⟩
    rcases List.mem_cons.1 hid' with rfl | hid'
    · rw [hname] at hname'
      cases hname'
    · exact h id' hid' name' hname'
  | some name =>
    have hrenames := renames_nameStatements name (t.statementsOf id) t
    exact ⟨hrenames.narrowsTo, h.cons ht hname hrenames⟩

/-- Every kept symbol is declared by its final name. -/
theorem named_nameDeclarations (collection : Collection) {t : BundleTree} (ht : t.NamesApart) :
    NarrowsTo t ((nameDeclarations collection plan naming).run t).2 ∧
      Named plan naming collection.kept ((nameDeclarations collection plan naming).run t).2 := by
  have hall : ∀ (ids done : List SymbolId) (t : BundleTree), t.NamesApart →
    Named plan naming done t →
      NarrowsTo t ((ids.forM (nameSymbol plan naming)).run t).2 ∧
        Named plan naming (ids.reverse ++ done) ((ids.forM (nameSymbol plan naming)).run t).2 := by
    intro ids
    induction ids with
    | nil => exact fun done t _ hdone => ⟨.refl t, hdone⟩
    | cons id ids ih =>
      intro done t ht hdone
      obtain ⟨hnarrow, hnamed⟩ := named_nameSymbol id ht hdone
      obtain ⟨hnarrow', hnamed'⟩ := ih (id :: done) _ (hnarrow.namesApart ht) hnamed
      rw [List.reverse_cons, List.append_assoc, List.singleton_append]
      exact ⟨hnarrow.trans hnarrow', hnamed'⟩
  obtain ⟨hnarrow, hnamed⟩ := hall collection.kept [] t ht fun _ h => by cases h
  refine ⟨hnarrow, fun id hid => hnamed id ?_⟩
  exact List.mem_append_left _ (List.mem_reverse.2 hid)

/-! ## Modifiers -/

/-- The step changes no name and nothing that is said about names. -/
def KeepsNames (m : Build Unit) : Prop :=
  ∀ (name : String) (t : BundleTree), Renames name [] t (m.run t).2

theorem keepsNames_pure : KeepsNames (pure ()) := fun name t => .refl name t

theorem keepsNames_bind {m : Build Unit} {f : Unit → Build Unit} (hm : KeepsNames m)
    (hf : KeepsNames (f ())) :
    KeepsNames (m >>= f) :=
  fun name t => (hm name t).trans (hf name _)

theorem keepsNames_get {f : BundleTree → Build Unit} (h : ∀ t, KeepsNames (f t)) :
    KeepsNames (get >>= f) :=
  fun name t => h t name t

theorem keepsNames_forM {γ : Type} {f : γ → Build PUnit} (h : ∀ x, KeepsNames (f x)) (xs : List γ) :
    KeepsNames (xs.forM f) := by
  induction xs with
  | nil => exact keepsNames_pure
  | cons x xs ih => exact keepsNames_bind (h x) ih

/-- A node gets other modifiers. -/
theorem renames_withModifiers {node : NodeId} {form : Form Slot} {t : BundleTree}
    (hform : t.form? (some node) = some form) (ms : Modifiers) (name : String) :
    Renames name [] t ((replace node (form.withModifiers ms)).run t).2 := by
  have hlt := Arena.lt_size_of_form? hform
  have hself : (t.arena.replace (some node) (form.withModifiers ms)).form? (some node) =
      some (form.withModifiers ms) := (Arena.form?_replace hlt _ _).trans (if_pos rfl)
  refine ⟨rfl, t.arena.size_replace _ _, fun slot => ?_, fun slot => ?_⟩
  · show (t.arena.replace (some node) (form.withModifiers ms)).heads slot = t.arena.heads slot
    by_cases hslot : slot = some node
    · subst hslot
      rw [Arena.heads_of_form? hself, Arena.heads_of_form? hform, Form.heads_withModifiers]
    · rw [Arena.heads, Arena.heads, Arena.form?_replace_of_ne hslot]
  · rw [if_neg List.not_mem_nil]
    show (t.arena.replace (some node) (form.withModifiers ms)).identifier? slot =
      t.arena.identifier? slot
    by_cases hslot : slot = some node
    · subst hslot
      rw [Arena.identifier?, Arena.identifier?, hself,
        show t.arena.form? (some node) = some form from hform]
      cases form <;> rfl
    · rw [Arena.identifier?, Arena.identifier?, Arena.form?_replace_of_ne hslot]

theorem keepsNames_stripStatement (statement : Slot) : KeepsNames (stripStatement statement) := by
  intro name t
  obtain heq | ⟨node, form, hform, heq⟩ := stripStatement_cases statement t
  · rw [heq]
    exact .refl name t
  · rw [heq]
    exact renames_withModifiers hform _ name

theorem keepsNames_stripInner (depth : Nat) (node : Slot) : KeepsNames (stripInner depth node) := by
  induction depth generalizing node with
  | zero => exact keepsNames_pure
  | succ depth ih =>
    unfold stripInner
    refine keepsNames_get fun t => ?_
    split
    · exact ih _
    · exact keepsNames_forM
        (fun inner => keepsNames_bind (keepsNames_stripStatement inner) (ih inner)) _
    · exact keepsNames_pure

theorem keepsNames_modifyStatement (isMoved : Bool) (statement : NodeId) :
    KeepsNames (modifyStatement isMoved statement) := by
  intro name t
  obtain heq | ⟨form, hform, heq⟩ := modifyStatement_cases isMoved statement t
  · rw [heq]
    exact .refl name t
  · rw [heq]
    exact (renames_withModifiers hform _ name).trans (keepsNames_stripInner _ _ name _)

theorem keepsNames_setModifiers (collection : Collection) (plan : Plan) :
    KeepsNames (setModifiers collection plan) :=
  keepsNames_forM
    (fun _ => keepsNames_get fun _ => keepsNames_forM (keepsNames_modifyStatement _) _) _

end Build

end DeclBundle
