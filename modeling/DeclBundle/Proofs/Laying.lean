import DeclBundle.Proofs.Adding
import DeclBundle.Proofs.Nesting
import Mathlib.Algebra.BigOperators.Group.Finset.Basic
import Mathlib.Algebra.Order.BigOperators.Group.Finset

/-!
# Laying out uses every node once

`Arena.places` counts the slots in which a node is a child. `Build.Lays tab uses m gives Q` says of
a step that only adds nodes that it uses each of the nodes in `uses` and each of its new nodes once:
in one slot of a new node, or among what it gives back. `tab` has the statements of the symbols,
which some steps look up, and `Q` is what is known of the result in all later arenas.

Imports and exports use nothing. The namespace for a module uses the statements that are moved into
it and into the namespaces inside (`Plan.statementsBelow`), and holds all of them at their places
(`Build.Holds`).
-/

set_option autoImplicit false

namespace DeclBundle

open Text (Span)

namespace Arena

/-- The number of slots in which a node is a child. -/
def places (a : Arena) (n : NodeId) : Nat :=
  ∑ i ∈ Finset.range a.size, (a.children (some ⟨i⟩)).count n

theorem children_of_le {a : Arena} {n : NodeId} (h : a.size ≤ n.index) :
    a.children (some n) = [] := by
  rw [children, form?_eq_none_of_le h]
  rfl

theorem count_children_le (a : Arena) (parent n : NodeId) :
    (a.children (some parent)).count n ≤ a.places n := by
  by_cases h : parent.index < a.size
  · exact Finset.single_le_sum (f := fun i => (a.children (some ⟨i⟩)).count n)
      (fun _ _ => Nat.zero_le _)
      (Finset.mem_range.2 h)
  · rw [children_of_le (Nat.le_of_not_lt h)]
    exact Nat.zero_le _

/-- Slots in two different nodes are different slots. -/
theorem count_add_count_le {a : Arena} {parent parent' : NodeId} (hne : parent ≠ parent')
    (n : NodeId) :
    (a.children (some parent)).count n + (a.children (some parent')).count n ≤ a.places n := by
  by_cases h : parent.index < a.size
  · by_cases h' : parent'.index < a.size
    · refine Finset.add_le_sum (f := fun i => (a.children (some ⟨i⟩)).count n)
        (fun _ _ => Nat.zero_le _)
        (Finset.mem_range.2 h) (Finset.mem_range.2 h') fun heq => hne ?_
      exact congrArg NodeId.mk heq
    · rw [children_of_le (Nat.le_of_not_lt h')]
      exact a.count_children_le parent n
  · rw [children_of_le (Nat.le_of_not_lt h), List.count_nil, Nat.zero_add]
    exact a.count_children_le parent' n

theorem places_eq_zero {a : Arena} {n : NodeId} (h : ∀ parent, n ∉ a.children (some parent)) :
    a.places n = 0 :=
  Finset.sum_eq_zero fun _ _ => List.count_eq_zero.2 (h _)

/-- A node without places is nobody's child. -/
theorem isChildOf_none {a : Arena} {n : NodeId} (h : a.places n = 0) :
    IsChildOf (fun m => a.children (some m)) none n := by
  intro parent
  have hle := a.count_children_le parent n
  simp only [reduceCtorEq, if_false]
  omega

/-- A node with one place at most is the child of one node, once. -/
theorem isChildOf_some {a : Arena} {parent n : NodeId} (h : a.places n ≤ 1)
    (hn : n ∈ a.children (some parent)) :
    IsChildOf (fun m => a.children (some m)) (some parent) n := by
  intro other
  show (a.children (some other)).count n = _
  have hpos : 0 < (a.children (some parent)).count n := List.count_pos_iff.2 hn
  by_cases heq : parent = other
  · subst heq
    have hle := a.count_children_le parent n
    rw [if_pos rfl]
    omega
  · have hle := count_add_count_le (a := a) heq n
    rw [if_neg fun hsome => heq (Option.some.inj hsome)]
    omega

theorem places_add (a : Arena) (form : Form Slot) (span : Span) (n : NodeId) :
    (a.add form span).1.places n = a.places n + (form.children.filterMap id).count n := by
  rw [places, size_add, Finset.sum_range_succ]
  congr 1
  · refine Finset.sum_congr rfl fun i hi => ?_
    rw [children, form?_add_of_lt (n := ⟨i⟩) (Finset.mem_range.1 hi)]
    rfl
  · rw [children, show (⟨a.size⟩ : NodeId) = (a.add form span).2 from rfl, form?_add_self]
    rfl

end Arena

namespace Build

variable {α β γ : Type} {tab : Table SymbolId (List NodeId)}

/-- Each node that is used is given back or stands in one slot more, and so does each new node. -/
def UsesOnce (uses gives : List NodeId) (t t' : BundleTree) : Prop :=
  ∀ n : NodeId, t'.arena.places n + gives.count n ≤
    t.arena.places n + uses.count n + if t.arena.size ≤ n.index ∧
      n.index < t'.arena.size then 1 else 0

theorem UsesOnce.trans {uses gives uses' gives' : List NodeId} {t t' t'' : BundleTree}
    (h : UsesOnce uses gives t t') (h' : UsesOnce (gives ++ uses') gives' t' t'')
    (hle : t.arena.size ≤ t'.arena.size) (hle' : t'.arena.size ≤ t''.arena.size) :
    UsesOnce (uses ++ uses') gives' t t'' := by
  intro n
  have hn := h n
  have hn' := h' n
  rw [List.count_append] at hn' ⊢
  split at hn <;> split at hn' <;> split <;> omega

/-- The step only adds nodes, in trees with the given statements. It uses each node of `uses` once
and gives back the nodes of `gives`; what it gives satisfies `Q` in all arenas that extend the new
one. -/
def Lays (tab : Table SymbolId (List NodeId)) (uses : List NodeId) (m : Build α)
    (gives : α → List NodeId) (Q : α → Arena → Prop) : Prop :=
  ∀ t : BundleTree, t.statements = tab → t.arena.Extends (m.run t).2.arena ∧
    (m.run t).2.statements = tab ∧
    UsesOnce uses (gives (m.run t).1) t (m.run t).2 ∧ ∀ a, (m.run t).2.arena.Extends a →
      Q (m.run t).1 a

/-! ## Rules -/

variable {uses uses' : List NodeId} {gives gives' : α → List NodeId} {Q Q' : α → Arena → Prop}
  {givesNext : β → List NodeId} {R : β → Arena → Prop}

theorem Lays.weaken {m : Build α} (h : Lays tab uses m gives Q)
    (huses : ∀ n, uses.count n ≤ uses'.count n)
    (hgives : ∀ x n, (gives' x).count n ≤ (gives x).count n) (himp : ∀ x a, Q x a → Q' x a) :
    Lays tab uses' m gives' Q' := by
  intro t ht
  obtain ⟨hext, hstatements, hcount, hQ⟩ := h t ht
  refine ⟨hext, hstatements, fun n => ?_, fun a ha => himp _ _ (hQ a ha)⟩
  have hn := hcount n
  have hu := huses n
  have hg := hgives (m.run t).1 n
  omega

theorem Lays.imp {m : Build α} (h : Lays tab uses m gives Q) (himp : ∀ x a, Q x a → Q' x a) :
    Lays tab uses m gives Q' :=
  h.weaken (fun _ => Nat.le_refl _) (fun _ _ => Nat.le_refl _) himp

theorem lays_pure {x : α} (hcount : ∀ n, (gives x).count n ≤ uses.count n) (hQ : ∀ a, Q x a) :
    Lays tab uses (pure x) gives Q := by
  intro t ht
  refine ⟨.refl _, ht, fun n => ?_, fun a _ => hQ a⟩
  have hn := hcount n
  show t.arena.places n + (gives x).count n ≤ _
  omega

/-- The second step may use what the first one gives, and what was left over. -/
theorem lays_bind {m : Build α} {f : α → Build β} (hm : Lays tab uses m gives Q)
    (hf : ∀ x, Lays tab (gives x ++ uses') (f x) givesNext fun y a => Q x a → R y a) :
    Lays tab (uses ++ uses') (m >>= f) givesNext R := by
  intro t ht
  obtain ⟨hext, hstatements, hcount, hQ⟩ := hm t ht
  obtain ⟨hext', hstatements', hcount', hR⟩ := hf (m.run t).1 (m.run t).2 hstatements
  exact ⟨hext.trans hext', hstatements', hcount.trans hcount' hext.size_le hext'.size_le,
    fun a ha => hR a ha (hQ a (hext'.trans ha))⟩

/-- The second step uses only what the first one gives. -/
theorem lays_seq {m : Build α} {f : α → Build β} (hm : Lays tab uses m gives Q)
    (hf : ∀ x, Lays tab (gives x) (f x) givesNext fun y a => Q x a → R y a) : Lays tab uses
      (m >>= f) givesNext R := by
  have h : Lays tab (uses ++ []) (m >>= f) givesNext R := lays_bind hm fun x => by
    rw [List.append_nil]
    exact hf x
  rwa [List.append_nil] at h

/-- The first step uses nothing. -/
theorem lays_then {m : Build α} {f : α → Build β} (hm : Lays tab [] m gives Q)
    (hf : ∀ x, Lays tab (gives x ++ uses') (f x) givesNext fun y a => Q x a → R y a) :
    Lays tab uses' (m >>= f) givesNext R :=
  lays_bind hm hf

theorem lays_map {m : Build α} {f : α → β}
    (h : Lays tab uses m (givesNext ∘ f) fun x a => R (f x) a) :
    Lays tab uses (f <$> m) givesNext R := h

/-- A step for each element of a list. -/
theorem lays_mapM {f : γ → Build α} {used : γ → List NodeId} {S : γ → α → Arena → Prop}
    {xs : List γ} (h : ∀ x ∈ xs, Lays tab (used x) (f x) gives (S x)) :
    Lays tab (xs.flatMap used) (xs.mapM f) (fun ys => ys.flatMap gives) fun ys a =>
      List.Forall₂ (fun x y => S x y a) xs ys := by
  induction xs with
  | nil => exact lays_pure (fun _ => Nat.le_refl _) fun _ => .nil
  | cons x xs ih =>
    rw [List.mapM_cons, List.flatMap_cons]
    refine lays_bind (h x List.mem_cons_self) fun y => ?_
    have htail := ih fun x' hx' => h x' (List.mem_cons_of_mem _ hx')
    have hframe : Lays tab (xs.flatMap used ++ gives y) (xs.mapM f >>= fun ys => pure (y :: ys))
        (fun ys => ys.flatMap gives) fun ys a =>
          S x y a → List.Forall₂ (fun x y => S x y a) (x :: xs) ys := by
      refine lays_bind htail fun ys => lays_pure (fun n => ?_) fun a hys hy => .cons hy hys
      rw [List.flatMap_cons, List.count_append, List.count_append]
      omega
    refine hframe.weaken (fun n => ?_) (fun _ _ => Nat.le_refl _) fun _ _ => id
    rw [List.count_append, List.count_append]
    omega

/-- Steps that use nothing and give one node each. -/
theorem lays_mapM_nodes {f : γ → Build NodeId} {S : γ → NodeId → Arena → Prop} {xs : List γ}
    (h : ∀ x ∈ xs, Lays tab [] (f x) (fun n => [n]) (S x)) :
    Lays tab [] (xs.mapM f) id fun ys a => List.Forall₂ (fun x y => S x y a) xs ys := by
  have hall := lays_mapM h
  rw [List.flatMap_eq_nil_iff.2 fun _ _ => rfl] at hall
  refine hall.weaken (fun _ => Nat.le_refl _) (fun ys n => ?_) fun _ _ => id
  rw [List.flatMap_singleton']
  exact Nat.le_refl _

theorem lays_filterMapM {f : γ → Build (Option NodeId)} {used : γ → List NodeId}
    {S : γ → Option NodeId → Arena → Prop} {xs : List γ}
    (h : ∀ x ∈ xs, Lays tab (used x) (f x) Option.toList (S x)) :
    Lays tab (xs.flatMap used) (xs.filterMapM f) id fun ys a =>
      ∃ made, List.Forall₂ (fun x y => S x y a) xs made ∧ ys = made.filterMap id := by
  induction xs with
  | nil => exact lays_pure (fun _ => Nat.le_refl _) fun _ => ⟨[], .nil, rfl⟩
  | cons x xs ih =>
    rw [List.filterMapM_cons, List.flatMap_cons]
    refine lays_bind (h x List.mem_cons_self) fun y => ?_
    have htail := ih fun x' hx' => h x' (List.mem_cons_of_mem _ hx')
    cases y with
    | none =>
      refine htail.weaken (fun n => Nat.le_refl _) (fun _ _ => Nat.le_refl _) fun ys a hys hy => ?_
      obtain ⟨made, hmade, rfl⟩ := hys
      exact ⟨none :: made, .cons hy hmade, rfl⟩
    | some y =>
      -- what the rest makes comes behind the first node, so the first is held back meanwhile
      have hframe :
        Lays tab (xs.flatMap used ++ [y]) (xs.filterMapM f >>= fun ys => pure (y :: ys)) id
          fun ys a => S x (some y) a → ∃ made, List.Forall₂ (fun x y => S x y a) (x :: xs) made ∧
            ys = made.filterMap id := by
        refine lays_bind htail fun ys => lays_pure (fun n => ?_) fun a hys hy => ?_
        · show (y :: ys).count n ≤ (ys ++ [y]).count n
          rw [List.count_append, List.count_cons, List.count_singleton]
        · obtain ⟨made, hmade, rfl⟩ := hys
          exact ⟨some y :: made, .cons hy hmade, rfl⟩
      refine hframe.weaken (fun n => ?_) (fun _ _ => Nat.le_refl _) fun _ _ => id
      rw [List.count_append, List.count_append]
      exact Nat.le_of_eq (Nat.add_comm _ _)

/-- A new node uses its children. -/
theorem lays_add (form : Form Slot) :
    Lays tab (form.children.filterMap id) (add form) (fun n => [n]) fun n a =>
      a.form? (some n) = some form := by
  intro t ht
  refine ⟨t.arena.extends_add form .none, ht, fun n => ?_,
    fun _ ha => ha _ _ (t.arena.form?_add_self form .none)⟩
  have hplaces : ((add form).run t).2.arena.places n =
      t.arena.places n + (form.children.filterMap id).count n :=
    t.arena.places_add form .none n
  have hsize : ((add form).run t).2.arena.size = t.arena.size + 1 := t.arena.size_add form .none
  have hnode : ((add form).run t).1 = ⟨t.arena.size⟩ := rfl
  rw [hplaces, hsize, hnode, List.count_singleton]
  have hnew : ((⟨t.arena.size⟩ : NodeId) == n) =
      decide (t.arena.size ≤ n.index ∧ n.index < t.arena.size + 1) := by
    rw [Bool.eq_iff_iff, beq_iff_eq, decide_eq_true_iff]
    constructor
    · rintro rfl
      exact ⟨Nat.le_refl _, Nat.lt_succ_self _⟩
    · intro h
      exact congrArg NodeId.mk (by omega : t.arena.size = n.index)
  rw [hnew]
  simp only [decide_eq_true_eq]
  omega

/-! ## Names and specifiers -/

theorem lays_identifier (text : String) :
    Lays tab [] (identifier text) (fun n => [n]) fun n a =>
      a.form? (some n) = some (.identifier text) :=
  lays_add _

theorem lays_dottedName (text : String) :
    Lays tab [] (dottedName text) (fun n => [n]) fun _ _ => True := by
  have hparts : ∀ (parts : List String) (left : NodeId), Lays tab [left] (parts.foldlM
      (fun left part => do add (.qualifiedName (some left) (some (← identifier part)))) left)
        (fun n => [n])
      fun _ _ => True := by
    intro parts
    induction parts with
    | nil => exact fun left => lays_pure (fun _ => Nat.le_refl _) fun _ => trivial
    | cons part parts ih =>
      intro left
      rw [List.foldlM_cons]
      have hpart : Lays tab [left] (do add (.qualifiedName (some left) (some (← identifier part))))
        (fun n => [n])
          fun _ _ => True := by
        refine lays_then (lays_identifier part) fun right =>
          (lays_add _).weaken (fun n => ?_) (fun _ _ => Nat.le_refl _)
          fun _ _ _ _ => trivial
        simp only [Form.children, List.filterMap_cons, id_eq, List.filterMap_nil, List.count_append,
          List.count_cons, List.count_nil]
        omega
      exact lays_seq hpart fun n => (ih n).imp fun _ _ _ _ => trivial
  unfold dottedName
  split
  · exact (lays_identifier "").imp fun _ _ _ => trivial
  · next head rest _ =>
    exact lays_seq (lays_identifier head) fun n => (hparts rest n).imp fun _ _ _ _ => trivial

theorem lays_frontName (front back : String) :
    Lays tab [] (frontName front back) Option.toList fun _ _ => True := by
  unfold frontName
  split
  · exact lays_pure (fun _ => Nat.le_refl _) fun _ => trivial
  · exact lays_map ((lays_identifier front).imp fun _ _ _ => trivial)

/-- A specifier uses its names. -/
theorem lays_specifier {form : Slot → NodeId → Form Slot}
    (hform : ∀ propertyName name, (form propertyName name).children = [propertyName, some name])
    (front back : String) :
    Lays tab [] (do
      let propertyName ← frontName front back
      let name ← identifier back
      add (form propertyName name)) (fun n => [n]) fun _ _ => True := by
  refine lays_then (lays_frontName front back) fun propertyName => ?_
  refine lays_then (lays_identifier back) fun name => ?_
  refine (lays_add _).weaken (fun n => ?_) (fun _ _ => Nat.le_refl _) fun _ _ _ _ _ => trivial
  rw [hform]
  cases propertyName with
  | none => simp
  | some m =>
    simp only [List.filterMap_cons, id_eq, List.filterMap_nil, Option.toList_some, List.append_nil,
      List.count_append, List.count_cons, List.count_nil]
    omega

theorem lays_importSpecifier (imported localName : String) :
    Lays tab [] (importSpecifier imported localName) (fun n => [n]) fun _ _ => True :=
  lays_specifier (fun _ _ => rfl) imported localName

theorem lays_exportSpecifier (localName exported : String) :
    Lays tab [] (exportSpecifier localName exported) (fun n => [n]) fun _ _ => True :=
  lays_specifier (fun _ _ => rfl) localName exported

theorem filterMap_map_some (nodes : List NodeId) : (nodes.map some).filterMap id = nodes := by
  rw [List.filterMap_map]
  exact List.filterMap_some

theorem lays_exportList (specifiers : List NodeId) :
    Lays tab specifiers (exportList specifiers) (fun n => [n]) fun _ _ => True := by
  have hclause : Lays tab specifiers (add (.namedExports (specifiers.map some)))
      (fun n => [n]) fun _ _ => True :=
    (lays_add _).weaken (fun n => by rw [Form.children, filterMap_map_some])
      (fun _ _ => Nat.le_refl _)
      fun _ _ _ => trivial
  exact lays_seq hclause fun clause => (lays_add _).imp fun _ _ _ _ => trivial

theorem lays_exportedAlias (name text : String) :
    Lays tab [] (exportedAlias name text) (fun n => [n]) fun _ _ => True := by
  refine lays_then (lays_identifier name) fun nameNode =>
    lays_then (lays_dottedName text) fun reference => ?_
  refine (lays_add _).weaken (fun n => ?_) (fun _ _ => Nat.le_refl _) fun _ _ _ _ _ => trivial
  simp only [Form.children, List.filterMap_cons, id_eq, List.filterMap_nil, List.count_append,
    List.count_cons, List.count_nil]
  omega

/-! ## Imports -/

theorem lays_importStatement (specifier : String) (name bindings : Slot) :
    Lays tab (name.toList ++ bindings.toList) (importStatement specifier name bindings)
      (fun n => [n])
      fun _ _ => True := by
  have hclause : Lays tab (name.toList ++ bindings.toList) (add (.importClause false name bindings))
    (fun n => [n])
      fun _ _ => True := by
    refine (lays_add _).weaken (fun n => Nat.le_of_eq ?_) (fun _ _ => Nat.le_refl _) fun _ _ _ =>
      trivial
    cases name <;> cases bindings <;> rfl
  refine lays_seq hclause fun clause =>
    lays_then (lays_add (.stringLiteral specifier)) fun specifierNode => ?_
  refine (lays_add _).weaken (fun n => ?_) (fun _ _ => Nat.le_refl _) fun _ _ _ _ _ => trivial
  simp only [Form.children, List.filterMap_cons, id_eq, List.filterMap_nil, List.count_append,
    List.count_cons, List.count_nil]
  omega

theorem lays_namedBindings (named : List NodeId) :
    Lays tab named (namedBindings named) Option.toList fun _ _ => True := by
  unfold namedBindings
  split
  · exact lays_pure (fun _ => Nat.zero_le _) fun _ => trivial
  · exact lays_map ((lays_add _).weaken (fun n => by rw [Form.children, filterMap_map_some])
      (fun _ _ => Nat.le_refl _)
      fun _ _ _ => trivial)

theorem lays_namedImport (specifier : String) (default : Slot) (named : List NodeId) :
    Lays tab (named ++ default.toList) (namedImport specifier default named) id fun _ _ =>
      True := by
  unfold namedImport
  split
  · refine lays_bind (lays_namedBindings named) fun bindings => ?_
    have hstatement :
      Lays tab (bindings.toList ++ default.toList) (importStatement specifier default bindings)
        (fun n => [n]) fun _ _ => True := by
      refine (lays_importStatement specifier default bindings).weaken (fun n => ?_)
        (fun _ _ => Nat.le_refl _)
        fun _ _ => id
      rw [List.count_append, List.count_append, Nat.add_comm]
    exact lays_seq hstatement fun s => lays_pure (fun _ => Nat.le_refl _) fun _ _ _ => trivial
  · exact lays_pure (fun _ => Nat.zero_le _) fun _ => trivial

theorem lays_moduleImport (specifier localName : String) :
    Lays tab [] (moduleImport specifier localName) (fun n => [n]) fun _ _ => True := by
  have hbindings : ∀ name,
      Lays tab [name] (add (.namespaceImport (some name))) (fun n => [n]) fun _ _ => True :=
    fun name => (lays_add _).imp fun _ _ _ => trivial
  refine lays_seq (lays_identifier localName) fun name => ?_
  refine (lays_seq (hbindings name) fun bindings => ?_).imp fun _ _ h _ => h
  exact (lays_importStatement specifier none (some bindings)).imp fun _ _ _ _ => trivial

theorem lays_default (default : Option String) :
    Lays tab [] (default.mapM identifier) Option.toList fun _ _ => True := by
  cases default with
  | none => exact lays_pure (fun _ => Nat.le_refl _) fun _ => trivial
  | some text =>
    have hidentifier : Lays tab [] (identifier text) (Option.toList ∘ some) fun _ _ => True :=
      (lays_identifier text).imp fun _ _ _ => trivial
    exact lays_map hidentifier

theorem lays_importStatements (g : ImportGroup) :
    Lays tab [] (importStatements g) id fun _ _ => True := by
  refine lays_seq (lays_default g.default) fun default => ?_
  refine lays_then (lays_mapM_nodes fun names _ => lays_importSpecifier names.1 names.2)
    fun named => ?_
  refine lays_seq (lays_namedImport g.specifier default named) fun first => ?_
  refine lays_then (lays_mapM_nodes fun name _ => lays_moduleImport g.specifier name) fun others =>
    ?_
  refine lays_pure (fun n => ?_) fun _ _ _ _ _ => trivial
  show (first ++ others).count n ≤ (others ++ first).count n
  rw [List.count_append, List.count_append, Nat.add_comm]

variable (p : Project) (collection : Collection) (plan : Plan) (naming : Naming)

theorem lays_imports : Lays tab [] (imports collection naming) id fun _ _ => True := by
  have hgroup : ∀ g ∈ importGroups collection naming, Lays tab [] (importStatements g) id fun _ _ =>
    True :=
    fun g _ => lays_importStatements g
  have hgroups := lays_mapM hgroup
  rw [List.flatMap_eq_nil_iff.2 fun _ _ => rfl] at hgroups
  refine lays_seq hgroups fun groups => lays_pure (fun n => ?_) fun _ _ => trivial
  rw [List.flatMap_id]
  exact Nat.le_refl _

/-! ## Exports -/

/-- The statements and specifiers of exports. -/
def ExportStatements.nodes (e : ExportStatements) : List NodeId :=
  e.specifiers ++ e.statements ++ e.whole.toList

theorem lays_exportStatement (e : ExportStatements) (name text : String) :
    Lays tab e.nodes (exportStatement e name text) ExportStatements.nodes fun _ _ => True := by
  have hassign : ∀ isEquals value,
    Lays tab [value] (add (.exportAssignment isEquals (some value))) (fun n => [n])
      fun _ _ => True := fun isEquals value => (lays_add _).imp fun _ _ _ => trivial
  unfold exportStatement
  split
  · refine lays_then (lays_dottedName text) fun value =>
      (lays_bind (hassign true value) fun s => ?_).imp fun _ _ h _ => h
    refine lays_pure (fun n => ?_) fun _ _ => trivial
    simp only [ExportStatements.nodes, List.count_append, Option.toList_some]
    omega
  · split
    · refine lays_then (lays_exportSpecifier text name) fun s =>
        lays_pure (fun n => ?_) fun _ _ => trivial
      simp only [ExportStatements.nodes, List.count_append]
      omega
    · split
      · refine lays_then (lays_dottedName text) fun value =>
          (lays_bind (hassign false value) fun s => ?_).imp fun _ _ h _ => h
        refine lays_pure (fun n => ?_) fun _ _ => trivial
        simp only [ExportStatements.nodes, List.count_append]
        omega
      · refine lays_then (lays_exportedAlias name text) fun s =>
          lays_pure (fun n => ?_) fun _ _ => trivial
        simp only [ExportStatements.nodes, List.count_append]
        omega

theorem lays_plannedExports (planned : List PlannedExport) (e : ExportStatements) :
    Lays tab e.nodes (planned.foldlM (plannedExport p naming) e) ExportStatements.nodes fun _ _ =>
      True := by
  induction planned generalizing e with
  | nil => exact lays_pure (fun _ => Nat.le_refl _) fun _ => trivial
  | cons first rest ih =>
    rw [List.foldlM_cons]
    have hfirst : Lays tab e.nodes (plannedExport p naming e first) ExportStatements.nodes
        fun _ _ => True := by
      unfold plannedExport
      split
      · exact lays_exportStatement e first.name _
      · exact lays_pure (fun _ => Nat.le_refl _) fun _ => trivial
    exact lays_seq hfirst fun e₁ => (ih e₁).imp fun _ _ _ _ => trivial

theorem lays_exportStatements : Lays tab [] (exportStatements p plan naming) id fun _ _ =>
  True := by
  refine lays_seq (lays_plannedExports p naming plan.exports_ {}) fun e => ?_
  have hlist : Lays tab e.specifiers (exportListOf e) id fun _ _ => True := by
    unfold exportListOf
    split
    · exact lays_seq (lays_exportList e.specifiers) fun s =>
        lays_pure (fun _ => Nat.le_refl _) fun _ _ => trivial
    · exact lays_pure (fun _ => Nat.zero_le _) fun _ => trivial
  rw [ExportStatements.nodes, List.append_assoc]
  refine lays_bind hlist fun list => lays_pure (fun n => ?_) fun _ _ _ => trivial
  rw [id_eq, id_eq, List.append_assoc]

end Build

/-! ## Namespaces -/

namespace Plan

/-- The statements that are declared in the namespace for a module and in those inside it, down to
`depth` levels. -/
def statementsBelow (plan : Plan) (statementsOf : SymbolId → List NodeId) :
    (depth : Nat) → SymbolId → List NodeId
  | 0, _ => []
  | depth + 1, module => (plan.membersOf module).flatMap fun member =>
    match member.2 with
    | .moved id => statementsOf id
    | .nested inner => statementsBelow plan statementsOf depth inner
    | _ => []

end Plan

namespace Arena

/-- The node declares a namespace with a name, and the given nodes are its body. -/
def IsNamespace (a : Arena) (n : NodeId) (name : String) (body : List NodeId) : Prop :=
  ∃ modifiers nameNode block, a.form? (some n) =
    some (.moduleDeclaration modifiers .namespace_ (some nameNode) (some block)) ∧
    a.form? (some nameNode) = some (.identifier name) ∧
      a.form? (some block) = some (.moduleBlock (body.map some))

end Arena

namespace Build

variable (p : Project) (plan : Plan) (naming : Naming)

/-- The node declares the namespace for a module: the statements of what is moved there are in its
body, and so are the namespaces that are nested there, down to `depth` levels. -/
def Holds (statementsOf : SymbolId → List NodeId) (a : Arena) : (depth : Nat) → (name : String) →
    SymbolId → NodeId → Prop
  | 0, _, _, _ => False
  | depth + 1, name, module, n => ∃ body, a.IsNamespace n name body ∧
    (∀ member id, (member, .moved id) ∈ plan.membersOf module → ∀ s ∈ statementsOf id, s ∈ body) ∧
    ∀ member inner, (member, .nested inner) ∈ plan.membersOf module → depth ≠ 0 →
      plan.namespaces.contains inner = true → ∃ n' ∈ body,
        Holds statementsOf a depth member inner n'

/-- The statements of a symbol in a table. -/
def statementsIn (tab : Table SymbolId (List NodeId)) (id : SymbolId) : List NodeId :=
  (tab.get? id).getD []

variable {tab : Table SymbolId (List NodeId)}

/-- What is known of the statements for a member. -/
def MemberHolds (tab : Table SymbolId (List NodeId))
    (inner : String → SymbolId → Option NodeId → Arena → Prop) (name : String)
    (member : NamespaceMember) (statements : List NodeId) (a : Arena) : Prop :=
  match member with
  | .moved id => statements = statementsIn tab id
  | .nested module => ∃ statement : Option NodeId, statements = statement.toList ∧
    inner name module statement a
  | _ => True

theorem lays_memberStatements {inner : String → SymbolId → Build (Option NodeId)}
    {used : SymbolId → List NodeId} {Q : String → SymbolId → Option NodeId → Arena → Prop}
    (h : ∀ name module, Lays tab (used module) (inner name module) Option.toList (Q name module))
    (name : String) (member : NamespaceMember) :
    Lays tab (match member with
      | .moved id => statementsIn tab id
      | .nested module => used module
      | _ => []) (memberStatements p naming inner name member) id
        (MemberHolds tab Q name member) := by
  cases member with
  | moved id =>
    intro t ht
    -- the statements of a moved symbol are looked up, and nothing is made
    have hrun : ((memberStatements p naming inner name (.moved id)).run t).1 =
        statementsIn tab id := by
      rw [← ht]
      rfl
    refine ⟨.refl _, ht, fun n => ?_, fun a _ => hrun⟩
    rw [hrun]
    show t.arena.places n + (statementsIn tab id).count n ≤
      t.arena.places n + (statementsIn tab id).count n + _
    omega
  | reexposed id => exact lays_pure (fun _ => Nat.le_refl _) fun _ => trivial
  | qualified id =>
    have halias : Lays tab [] ((naming.textOf? p id).mapM (exportedAlias name)) Option.toList
        fun _ _ => True := by
      cases naming.textOf? p id with
      | none => exact lays_pure (fun _ => Nat.le_refl _) fun _ => trivial
      | some text =>
        have hsome : Lays tab [] (exportedAlias name text) (Option.toList ∘ some) fun _ _ => True :=
          lays_exportedAlias name text
        exact lays_map hsome
    exact lays_seq halias fun _ => lays_pure (fun _ => Nat.le_refl _) fun _ _ => trivial
  | nested module =>
    exact lays_seq (h name module) fun statement =>
      lays_pure (fun _ => Nat.le_refl _) fun a hstatement =>
      ⟨statement, rfl, hstatement⟩

theorem lays_memberSpecifier? (name : String) (member : NamespaceMember) :
    Lays tab [] (memberSpecifier? p naming name member) Option.toList fun _ _ => True := by
  unfold memberSpecifier?
  split
  · next id =>
    cases naming.textOf? p id with
    | none => exact lays_pure (fun _ => Nat.le_refl _) fun _ => trivial
    | some text =>
      have hsome : Lays tab [] (exportSpecifier text name) (Option.toList ∘ some) fun _ _ => True :=
        lays_exportSpecifier text name
      exact lays_map hsome
  · exact lays_pure (fun _ => Nat.le_refl _) fun _ => trivial

theorem lays_memberList (specifiers : List NodeId) :
    Lays tab specifiers (memberList specifiers) id fun _ _ => True := by
  unfold memberList
  split
  · exact lays_pure (fun _ => Nat.zero_le _) fun _ => trivial
  · exact lays_seq (lays_exportList specifiers) fun s =>
      lays_pure (fun _ => Nat.le_refl _) fun _ _ => trivial

/-- The declaration of a namespace uses its body. -/
theorem lays_namespaceDeclaration (modifiers : Modifiers) (name : String) (body : List NodeId) :
    Lays tab body (do
      let nameNode ← identifier name
      let block ← add (.moduleBlock (body.map some))
      return some (← add (.moduleDeclaration modifiers .namespace_ (some nameNode) (some block))))
        Option.toList
      fun statement a => ∃ n, statement = some n ∧ a.IsNamespace n name body := by
  have hblock : Lays tab body (add (.moduleBlock (body.map some))) (fun n => [n]) fun n a =>
      a.form? (some n) = some (.moduleBlock (body.map some)) :=
    (lays_add _).weaken (fun n => by rw [Form.children, filterMap_map_some])
      (fun _ _ => Nat.le_refl _) fun _ _ => id
  have hdeclaration : ∀ nameNode block : NodeId, Lays tab [block, nameNode]
      (add (.moduleDeclaration modifiers .namespace_ (some nameNode) (some block)))
          (fun n => [n]) fun n a =>
        a.form? (some n) =
            some (.moduleDeclaration modifiers .namespace_ (some nameNode) (some block)) := by
    refine fun nameNode block =>
      (lays_add _).weaken (fun n => ?_) (fun _ _ => Nat.le_refl _) fun _ _ => id
    simp only [Form.children, List.filterMap_cons, id_eq, List.filterMap_nil, List.count_cons,
      List.count_nil]
    omega
  refine lays_then (lays_identifier name) fun nameNode => ?_
  -- the name is made first and is not used before the end
  have hrest : Lays tab (body ++ [nameNode]) (do
      let block ← add (.moduleBlock (body.map some))
      return some (← add (.moduleDeclaration modifiers .namespace_ (some nameNode) (some block))))
        Option.toList
      fun statement a => a.form? (some nameNode) = some (.identifier name) →
        ∃ n, statement = some n ∧ a.IsNamespace n name body := by
    refine lays_bind hblock fun block => lays_seq (hdeclaration nameNode block) fun n => ?_
    exact lays_pure (fun _ => Nat.le_refl _) fun a hn hblock hname =>
      ⟨n, rfl, modifiers, nameNode, block, hn, hname, hblock⟩
  refine hrest.weaken (fun n => ?_) (fun _ _ => Nat.le_refl _) fun _ _ => id
  rw [List.count_append, List.count_append, Nat.add_comm]

/-- A namespace uses the statements below it and holds them. -/
theorem lays_namespaceStatement (depth : Nat) (isTop : Bool) (name : String) (module : SymbolId) :
    Lays tab (plan.statementsBelow (statementsIn tab) depth module)
      (namespaceStatement p plan naming depth isTop name module) Option.toList fun statement a =>
        depth ≠ 0 → plan.namespaces.contains module = true →
          ∃ n, statement = some n ∧ Holds plan (statementsIn tab) a depth name module n := by
  induction depth generalizing isTop name module with
  | zero => exact lays_pure (fun _ => Nat.le_refl _) fun _ h => absurd rfl h
  | succ depth ih =>
    unfold namespaceStatement
    cases hn : plan.namespaces.get? module with
    | none =>
      refine lays_pure (fun _ => Nat.zero_le _) fun _ _ hcontains => ?_
      rw [Table.contains_eq_false_iff.2 hn] at hcontains
      cases hcontains
    | some planned =>
      have hmembers : plan.membersOf module = planned.members := by rw [Plan.membersOf, hn]; rfl
      -- the bodies use the statements below the namespace, all that comes behind them uses none
      have hbodies := lays_mapM fun m (_ : m ∈ planned.members) =>
        lays_memberStatements p naming (ih false) m.1 m.2
      have hspecifier : ∀ m ∈ planned.members,
          Lays tab [] (memberSpecifier? p naming m.1 m.2) Option.toList fun _ _ => True :=
        fun m _ => lays_memberSpecifier? p naming m.1 m.2
      have hreexposed := lays_filterMapM hspecifier
      rw [List.flatMap_eq_nil_iff.2 fun _ _ => rfl] at hreexposed
      have huses : planned.members.flatMap (fun m => match m.2 with
          | .moved id => statementsIn tab id
          | .nested module => plan.statementsBelow (statementsIn tab) depth module
          | _ => []) = plan.statementsBelow (statementsIn tab) (depth + 1) module := by
        rw [Plan.statementsBelow, hmembers]
      rw [huses] at hbodies
      refine lays_seq hbodies fun bodies => lays_then hreexposed fun reexposed => ?_
      refine lays_bind (lays_memberList reexposed) fun list => ?_
      refine (lays_namespaceDeclaration _ name (bodies.flatten ++ list)).weaken (fun n => ?_)
        (fun _ _ => Nat.le_refl _)
        fun statement a hdeclared _ _ hbodies _ _ => ?_
      · rw [id_eq, List.flatMap_id, List.count_append, List.count_append, Nat.add_comm]
      · obtain ⟨s, rfl, hnamespace⟩ := hdeclared
        refine ⟨s, rfl, _, hnamespace, fun member id hmember x hx => ?_,
          fun member inner hmember hdepth hinner => ?_⟩
        · rw [hmembers] at hmember
          obtain ⟨body, hbody, hholds⟩ := exists_of_forall₂ hbodies hmember
          obtain rfl : body = statementsIn tab id := hholds
          exact List.mem_append_left _ (List.mem_flatten.2 ⟨_, hbody, hx⟩)
        · rw [hmembers] at hmember
          obtain ⟨body, hbody, statement, rfl, hholds⟩ := exists_of_forall₂ hbodies hmember
          obtain ⟨n', rfl, hinside⟩ := hholds hdepth hinner
          exact ⟨n', List.mem_append_left _
            (List.mem_flatten.2 ⟨_, hbody, List.mem_singleton_self _⟩), hinside⟩

/-- The namespaces at the top level use all statements that are moved. -/
theorem lays_namespaceStatements (hplan : ∀ n ∈ plan.topNamespaces,
    plan.namespaces.contains n.module = true) :
    Lays tab (plan.topNamespaces.flatMap fun n =>
        plan.statementsBelow (statementsIn tab) (plan.namespaces.size + 1) n.module)
      (namespaceStatements p plan naming) id fun statements a =>
        ∀ n ∈ plan.topNamespaces, ∀ name, naming.nameOf? n.module = some name → ∃ s ∈ statements,
          Holds plan (statementsIn tab) a (plan.namespaces.size + 1) name n.module s := by
  have htop : ∀ n ∈ plan.topNamespaces, Lays tab
      (plan.statementsBelow (statementsIn tab) (plan.namespaces.size + 1) n.module)
        (topNamespace? p plan naming n)
      Option.toList fun statement a => ∀ name, naming.nameOf? n.module = some name → ∃ s,
        statement = some s ∧
        Holds plan (statementsIn tab) a (plan.namespaces.size + 1) name n.module s := by
    intro n hn
    unfold topNamespace?
    cases naming.nameOf? n.module with
    | none => exact lays_pure (fun _ => Nat.zero_le _) fun _ _ hname => by cases hname
    | some name =>
      refine (lays_namespaceStatement p plan naming _ true name n.module).imp
        fun statement a h name' hname => ?_
      obtain rfl := Option.some.inj hname
      exact h (Nat.succ_ne_zero _) (hplan n hn)
  refine (lays_filterMapM htop).imp fun statements a hmade n hn name hname => ?_
  obtain ⟨made, hmade, rfl⟩ := hmade
  obtain ⟨statement, hstatement, hholds⟩ := exists_of_forall₂ hmade hn
  obtain ⟨s, rfl, hdeclared⟩ := hholds name hname
  exact ⟨s, List.mem_filterMap.2 ⟨_, hstatement, rfl⟩, hdeclared⟩

end Build

end DeclBundle
