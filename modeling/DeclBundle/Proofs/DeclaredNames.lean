import DeclBundle.Proofs.Adding
import DeclBundle.Proofs.Blocks

/-!
# The names of copied statements

A statement declares the names in its name slots (`Arena.nameSlots`). In the tree of a bundle no
node is a name of the statements of two symbols (`BundleTree.NamesApart`). Copying establishes this,
since the statements of one symbol are a block of nodes of their own
(`BundleTree.namesApart_ofCollection`), and every step that only narrows the arena keeps it: a node
that has another form afterwards declares what it declared, or nothing (`Arena.Narrows`).
-/

set_option autoImplicit false

namespace DeclBundle

/-! ## What a form declares -/

/-- What a form says about names: the variables of a statement, the name of a declaration, the
clause of an import. -/
structure Heads where
  variables? : Option (List Slot) := none
  name? : Option Slot := none
  clause? : Option Slot := none

/-- What a form says about names. -/
def Form.heads (form : Form Slot) : Heads where
  variables? := match form with
    | .variableStatement _ _ declarations => some declarations
    | _ => none
  name? := form.name?
  clause? := match form with
    | .importDeclaration clause _ => some clause
    | _ => none

theorem Form.heads_withModifiers (form : Form Slot) (ms : Modifiers) :
    (form.withModifiers ms).heads = form.heads := by
  cases form <;> rfl

theorem Form.clause?_of_isDeclaration {form : Form Slot} (h : form.isDeclaration = true) :
    form.heads.clause? = none := by
  cases form <;> first
    | rfl
    | cases h

theorem Form.variables_mem_children {form : Form Slot} {declarations : List Slot} {d : Slot}
    (h : form.heads.variables? = some declarations) (hd : d ∈ declarations) :
    d ∈ form.children := by
  cases form with
  | variableStatement ms flavor xs =>
    obtain rfl := Option.some.inj h
    exact hd
  | _ => cases h

namespace Arena

/-- What the node in a slot says about names. -/
def heads (a : Arena) (slot : Slot) : Heads := (a.form? slot).elim {} Form.heads

theorem heads_of_form? {a : Arena} {slot : Slot} {form : Form Slot} (h : a.form? slot = some form) :
    a.heads slot = form.heads := by
  rw [heads, h]
  rfl

theorem nameSlot_eq (a : Arena) (slot : Slot) :
    a.nameSlot slot = (a.heads slot).name?.getD none := by
  unfold nameSlot heads
  cases a.form? slot <;> rfl

theorem nameSlots_eq (a : Arena) (statement : Slot) :
    a.nameSlots statement =
      (a.heads statement).variables?.elim [a.nameSlot statement] fun declarations =>
        declarations.map a.nameSlot := by
  unfold nameSlots heads
  cases hf : a.form? statement with
  | none => rfl
  | some form => cases form <;> rfl

/-- The text of an identifier. -/
def identifier? (a : Arena) (slot : Slot) : Option String :=
  match a.form? slot with
  | some (.identifier text) => some text
  | _ => none

theorem identifier?_of_form? {a : Arena} {slot : Slot} {text : String}
    (h : a.form? slot = some (.identifier text)) :
    a.identifier? slot = some text := by
  rw [identifier?, h]

/-! ## Arenas that declare less -/

/-- Every node declares in the second arena what it declares in the first one, or nothing. -/
structure Narrows (a b : Arena) : Prop where
  size_le : a.size ≤ b.size
  heads_eq : ∀ n : NodeId, n.index < a.size → b.heads (some n) = a.heads (some n) ∨
    b.heads (some n) = {}

theorem Narrows.refl (a : Arena) : a.Narrows a := ⟨Nat.le_refl _, fun _ _ => .inl rfl⟩

theorem Narrows.trans {a b c : Arena} (hab : a.Narrows b) (hbc : b.Narrows c) : a.Narrows c := by
  refine ⟨Nat.le_trans hab.size_le hbc.size_le, fun n hn => ?_⟩
  rcases hbc.heads_eq n (Nat.lt_of_lt_of_le hn hab.size_le) with h | h
  · rw [h]
    exact hab.heads_eq n hn
  · exact .inr h

theorem Extends.heads_eq {a b : Arena} (h : a.Extends b) {n : NodeId} (hn : n.index < a.size) :
    b.heads (some n) = a.heads (some n) := by
  rw [heads, heads, h.form?_eq hn]

theorem Extends.narrows {a b : Arena} (h : a.Extends b) : a.Narrows b :=
  ⟨h.size_le, fun _ hn => .inl (h.heads_eq hn)⟩

/-- A node gets a form that declares what it declared, or nothing. -/
theorem narrows_replace (a : Arena) (n : NodeId) {form : Form Slot}
    (h : form.heads = a.heads (some n) ∨ form.heads = {}) :
    a.Narrows (a.replace (some n) form) := by
  refine ⟨Nat.le_of_eq (a.size_replace (some n) form).symm, fun m hm => ?_⟩
  by_cases hmn : (some m : Slot) = some n
  · obtain rfl := Option.some.inj hmn
    have hself : (a.replace (some m) form).form? (some m) = some form := by
      rw [form?_replace hm, if_pos rfl]
    rw [heads_of_form? hself]
    exact h
  · left
    rw [heads, heads, form?_replace_of_ne hmn]

end Arena

/-! ## Names of several symbols -/

/-- The nodes of the copied statements are there, the statements are no imports, and no node is a
name of the statements of two symbols. -/
structure BundleTree.NamesApart (t : BundleTree) : Prop where
  statement_lt : ∀ id s, s ∈ t.statementsOf id → s.index < t.arena.size
  variable_lt : ∀ id s declarations d, s ∈ t.statementsOf id →
    (t.arena.heads (some s)).variables? = some declarations → some d ∈ declarations →
      d.index < t.arena.size
  name_lt : ∀ id s n, s ∈ t.statementsOf id → some n ∈ t.arena.nameSlots (some s) →
    n.index < t.arena.size
  clause?_eq : ∀ id s, s ∈ t.statementsOf id → (t.arena.heads (some s)).clause? = none
  apart : ∀ id id' s s' n, s ∈ t.statementsOf id → s' ∈ t.statementsOf id' →
    some n ∈ t.arena.nameSlots (some s) → some n ∈ t.arena.nameSlots (some s') → id = id'

namespace Arena

/-- A name of a node in the narrower arena is its name in the wider one. -/
theorem Narrows.nameSlot_eq {a b : Arena} (h : a.Narrows b) {slot : Slot} {n : NodeId}
    (hslot : ∀ m : NodeId, slot = some m → m.index < a.size) (hn : b.nameSlot slot = some n) :
    a.nameSlot slot = some n := by
  cases slot with
  | none => cases hn
  | some m =>
    rw [Arena.nameSlot_eq] at hn ⊢
    rcases h.heads_eq m (hslot m rfl) with heq | heq
    · rw [← heq, hn]
    · rw [heq] at hn
      cases hn

/-- The names of a statement in the narrower arena are among its names in the wider one. -/
theorem Narrows.mem_nameSlots {a b : Arena} (h : a.Narrows b) {s n : NodeId} (hs : s.index < a.size)
    (hvariables : ∀ declarations d, (a.heads (some s)).variables? = some declarations →
      some d ∈ declarations →
      d.index < a.size)
    (hn : some n ∈ b.nameSlots (some s)) : some n ∈ a.nameSlots (some s) := by
  rw [nameSlots_eq] at hn ⊢
  rcases h.heads_eq s hs with heq | heq
  · rw [heq] at hn
    cases hdecl : (a.heads (some s)).variables? with
    | none =>
      rw [hdecl] at hn
      have hname := List.mem_singleton.1 hn
      exact List.mem_singleton.2
        (h.nameSlot_eq (fun m hm => by obtain rfl := Option.some.inj hm; exact hs) hname.symm).symm
    | some declarations =>
      rw [hdecl] at hn
      obtain ⟨d, hd, hname⟩ := List.mem_map.1 hn
      refine List.mem_map.2 ⟨d, hd, h.nameSlot_eq ?_ hname⟩
      rintro m rfl
      exact hvariables declarations m hdecl hd
  · rw [heq] at hn
    have hname := List.mem_singleton.1 hn
    rw [Arena.nameSlot_eq, heq] at hname
    cases hname

end Arena

namespace BundleTree

/-- Steps that narrow the arena and keep the statements keep the names of symbols apart. -/
theorem NamesApart.narrow {t t' : BundleTree} (h : t.NamesApart)
    (hnarrow : t.arena.Narrows t'.arena) (hstatements : t'.statements = t.statements) :
    t'.NamesApart := by
  have hof : ∀ id, t'.statementsOf id = t.statementsOf id := fun id => by
    rw [statementsOf, statementsOf, hstatements]
  have hmem : ∀ id s n, s ∈ t.statementsOf id → some n ∈ t'.arena.nameSlots (some s) →
      some n ∈ t.arena.nameSlots (some s) := fun id s n hs hn =>
    hnarrow.mem_nameSlots (h.statement_lt id s hs) (fun ds d => h.variable_lt id s ds d hs) hn
  constructor
  · intro id s hs
    exact Nat.lt_of_lt_of_le (h.statement_lt id s (hof id ▸ hs)) hnarrow.size_le
  · intro id s declarations d hs hdecl hd
    rw [hof] at hs
    -- a statement keeps its heads or has none anymore
    rcases hnarrow.heads_eq s (h.statement_lt id s hs) with heq | heq
    · rw [heq] at hdecl
      exact Nat.lt_of_lt_of_le (h.variable_lt id s declarations d hs hdecl hd) hnarrow.size_le
    · rw [heq] at hdecl
      cases hdecl
  · intro id s n hs hn
    rw [hof] at hs
    exact Nat.lt_of_lt_of_le (h.name_lt id s n hs (hmem id s n hs hn)) hnarrow.size_le
  · intro id s hs
    rw [hof] at hs
    rcases hnarrow.heads_eq s (h.statement_lt id s hs) with heq | heq
    · rw [heq]
      exact h.clause?_eq id s hs
    · rw [heq]
  · intro id id' s s' n hs hs' hn hn'
    rw [hof] at hs hs'
    exact h.apart id id' s s' n hs hs' (hmem id s n hs hn) (hmem id' s' n hs' hn')

end BundleTree

end DeclBundle
