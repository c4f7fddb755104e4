import DeclBundle.Bundle.Layout
import DeclBundle.Proofs.Forms
import Mathlib.Data.List.Forall2

/-!
# Steps that only add nodes

Everything that a bundle has beside its declarations is added to the arena, and what was there is
left alone. `Build.Adds m Q` says that `m` is such a step and that its result satisfies `Q` in every
arena that extends the one that the step leaves. Since later steps only add nodes as well, what is
known of the parts of a statement is known of them in the finished bundle.
-/

set_option autoImplicit false

namespace DeclBundle.Build

open Text (Span)

variable {α β γ : Type}

/-- Two trees note the same about their nodes. -/
structure SameNotes (t t' : BundleTree) : Prop where
  origins_eq : t'.origins = t.origins
  copies_eq : t'.copies = t.copies
  statements_eq : t'.statements = t.statements

theorem SameNotes.refl (t : BundleTree) : SameNotes t t := ⟨rfl, rfl, rfl⟩

theorem SameNotes.trans {t t' t'' : BundleTree} (h : SameNotes t t') (h' : SameNotes t' t'') :
    SameNotes t t'' :=
  ⟨h'.origins_eq.trans h.origins_eq, h'.copies_eq.trans h.copies_eq,
    h'.statements_eq.trans h.statements_eq⟩

/-- The step adds nodes and changes nothing else; what it gives satisfies `Q` in all arenas that
extend the new one. -/
def Adds (m : Build α) (Q : α → Arena → Prop) : Prop :=
  ∀ t : BundleTree, t.arena.Extends (m.run t).2.arena ∧ SameNotes t (m.run t).2 ∧
    ∀ a, (m.run t).2.arena.Extends a → Q (m.run t).1 a

/-! ## Rules -/

variable {Q : α → Arena → Prop} {R : β → Arena → Prop}

theorem Adds.imp {m : Build α} {Q' : α → Arena → Prop} (h : Adds m Q)
    (himp : ∀ x a, Q x a → Q' x a) : Adds m Q' :=
  fun t => ⟨(h t).1, (h t).2.1, fun a ha => himp _ _ ((h t).2.2 a ha)⟩

theorem adds_pure {x : α} (h : ∀ a, Q x a) : Adds (pure x) Q :=
  fun t => ⟨.refl _, .refl t, fun a _ => h a⟩

theorem adds_get {Q : BundleTree → Arena → Prop} (h : ∀ t a, Q t a) : Adds get Q :=
  fun t => ⟨.refl _, .refl t, fun a _ => h t a⟩

/-- What is known after the first step is still known after the second one. -/
theorem adds_bind {m : Build α} {f : α → Build β} (hm : Adds m Q)
    (hf : ∀ x, Adds (f x) fun y a => Q x a → R y a) : Adds (m >>= f) R := by
  intro t
  obtain ⟨hext, hrest, hQ⟩ := hm t
  obtain ⟨hext', hrest', hR⟩ := hf (m.run t).1 (m.run t).2
  exact ⟨hext.trans hext', hrest.trans hrest', fun a ha => hR a ha (hQ a (hext'.trans ha))⟩

theorem adds_map {m : Build α} {f : α → β} (h : Adds m fun x a => R (f x) a) : Adds (f <$> m) R :=
  fun t => ⟨(h t).1, (h t).2.1, (h t).2.2⟩

/-- What is related to an element of a list is among what all elements are related to. -/
theorem exists_of_forall₂ {R : α → β → Prop} {xs : List α} {ys : List β}
    (h : List.Forall₂ R xs ys) {x : α} (hx : x ∈ xs) : ∃ y ∈ ys, R x y := by
  induction h with
  | nil => cases hx
  | cons hhead _ ih =>
    rcases List.mem_cons.1 hx with rfl | hx
    · exact ⟨_, List.mem_cons_self, hhead⟩
    · obtain ⟨y, hy, hxy⟩ := ih hx
      exact ⟨y, List.mem_cons_of_mem _ hy, hxy⟩

/-- A step for each element of a list. -/
theorem adds_mapM {f : γ → Build α} {S : γ → α → Arena → Prop} {xs : List γ}
    (h : ∀ x ∈ xs, Adds (f x) (S x)) :
    Adds (xs.mapM f) fun ys a => List.Forall₂ (fun x y => S x y a) xs ys := by
  induction xs with
  | nil => exact adds_pure fun _ => .nil
  | cons x xs ih =>
    rw [List.mapM_cons]
    refine adds_bind (h x List.mem_cons_self) fun y => ?_
    refine adds_bind (ih fun x' hx' => h x' (List.mem_cons_of_mem _ hx')) fun ys => ?_
    exact adds_pure fun a hys hy => .cons hy hys

/-- A step for each element of a list, some of which give nothing. -/
theorem adds_filterMapM {f : γ → Build (Option α)} {S : γ → Option α → Arena → Prop} {xs : List γ}
    (h : ∀ x ∈ xs, Adds (f x) (S x)) :
    Adds (xs.filterMapM f) fun ys a =>
      ∃ made, List.Forall₂ (fun x y => S x y a) xs made ∧ ys = made.filterMap id := by
  induction xs with
  | nil => exact adds_pure fun _ => ⟨[], .nil, rfl⟩
  | cons x xs ih =>
    rw [List.filterMapM_cons]
    refine adds_bind (h x List.mem_cons_self) fun y => ?_
    have hrest := ih fun x' hx' => h x' (List.mem_cons_of_mem _ hx')
    cases y with
    | none =>
      refine hrest.imp fun ys a => ?_
      rintro ⟨made, hmade, rfl⟩ hy
      exact ⟨none :: made, .cons hy hmade, rfl⟩
    | some y =>
      refine adds_bind hrest fun ys => adds_pure fun a => ?_
      rintro ⟨made, hmade, rfl⟩ hy
      exact ⟨some y :: made, .cons hy hmade, rfl⟩

/-! ## Nodes and names -/

theorem adds_addAt (span : Span) (form : Form Slot) :
    Adds (addAt span form) fun n a => a.form? (some n) = some form :=
  fun t => ⟨t.arena.extends_add form span, ⟨rfl, rfl, rfl⟩,
    fun _ ha => ha _ _ (t.arena.form?_add_self form span)⟩

theorem adds_add (form : Form Slot) : Adds (add form) fun n a => a.form? (some n) = some form :=
  adds_addAt _ form

theorem adds_identifier (text : String) :
    Adds (identifier text) fun n a => a.form? (some n) = some (.identifier text) :=
  adds_add _

/-- The node is an identifier or a dotted name. -/
def IsName (n : NodeId) (a : Arena) : Prop :=
  (∃ text, a.form? (some n) = some (.identifier text)) ∨
    ∃ left right, a.form? (some n) = some (.qualifiedName left right)

theorem adds_dottedName (text : String) : Adds (dottedName text) IsName := by
  have hparts : ∀ (parts : List String) (left : NodeId) (Q : Prop),
      Adds (parts.foldlM
        (fun left part => do add (.qualifiedName (some left) (some (← identifier part)))) left)
        fun n a => IsName left a → IsName n a := by
    intro parts
    induction parts with
    | nil => intro left _; exact adds_pure fun _ h => h
    | cons part parts ih =>
      intro left Q
      rw [List.foldlM_cons]
      refine adds_bind (Q := IsName) ?_ fun n => (ih n Q).imp fun m a hm hn _ => hm hn
      refine adds_bind (adds_identifier part) fun right => ?_
      exact (adds_add _).imp fun n a hn _ => .inr ⟨_, _, hn⟩
  unfold dottedName
  split
  · exact (adds_identifier "").imp fun n a hn => .inl ⟨_, hn⟩
  · next first rest _ =>
    refine adds_bind (adds_identifier first) fun n => ?_
    exact (hparts rest n True).imp fun m a hm hn => hm (.inl ⟨_, hn⟩)

end DeclBundle.Build
