import DeclBundle.Proofs.DottedNames
import DeclBundle.Proofs.NamePlaces
import DeclBundle.Proofs.Replacing

/-!
# Copies are traced to their sources

Every copied node is noted with the node that it was copied from, and it says the same: a copy of a
name, of a part of one or of an import type has the form of its source, with copies in the places of
the children, and a copy of anything else is nothing of the kind. A copy that a declaration of the
bundle is named by comes from a name that is declared in the project. All this holds of the tree of
copies (`Build.traced_ofCollection`), because each step of copying keeps it.
-/

set_option autoImplicit false

namespace DeclBundle

open Text (Span)

namespace Form

variable {α β : Type}

/-- The form is read when references get their final names: it is a name, a part of one or an import
type. -/
def isRead : Form α → Bool
  | importType .. => true
  | form => form.isWord

theorem isRead_map (f : α → β) (form : Form α) : (form.map f).isRead = form.isRead := by
  cases form <;> rfl

theorem isWord_map (f : α → β) (form : Form α) : (form.map f).isWord = form.isWord := by
  cases form <;> rfl

theorem map_importType (f : α → β) (isTypeof : Bool) (argument qualifier : α)
    (typeArguments : List α) :
    (importType isTypeof argument qualifier typeArguments).map f =
      .importType isTypeof (f argument) (f qualifier) (typeArguments.map f) := by
  simp only [map, mapM, List.mapM_pure, pure_bind, Id.run_pure]

/-- The parameters of something that is called. -/
def parameters? : Form α → Option (List α)
  | functionDeclaration _ _ s _ | methodDeclaration _ _ _ s _ | methodSignature _ _ s
  | callSignature s | constructSignature s
  | functionType s | constructorType _ s => some s.parameters
  | constructorDeclaration _ parameters _ | setAccessor _ _ parameters => some parameters
  | _ => none

theorem parameters?_map (f : α → β) (form : Form α) :
    (form.map f).parameters? = form.parameters?.map (List.map f) := by
  cases form <;> simp only [map, mapM, Signature.mapM, List.mapM_pure, pure_bind, Id.run_pure,
    parameters?, Option.map_some,
    Option.map_none]

theorem mem_children_of_parameters? {form : Form α} {parameters : List α}
    (h : form.parameters? = some parameters) {x : α} (hx : x ∈ parameters) : x ∈ form.children := by
  cases form <;> cases h <;> simp [children, Signature.children, hx]

theorem mem_children_map (f : α → β) {form : Form α} {x : α} (h : x ∈ form.children) :
    f x ∈ (form.map f).children := by
  rw [children_map]
  exact List.mem_map_of_mem h

/-- What is written at a parameter besides its name and its type: three dots and a question mark. -/
structure Marks where
  isRest : Bool
  isOptional : Bool
  deriving DecidableEq, Repr

/-- The marks of a parameter. One with a default can be left out. -/
def marks? : Form Slot → Option Marks
  | parameter _ isRest _ optional _ initializer =>
    some ⟨isRest, optional || (initializer.isSome && !isRest)⟩
  | _ => none

/-- A parameter is marked as before when it still has a default, or none. -/
theorem marks?_map (f g : α → Slot) (form : Form α)
    (h : ∀ x ∈ form.children, (f x).isSome = (g x).isSome) :
    (form.map f).marks? = (form.map g).marks? := by
  cases form with
  | parameter _ isRest _ optional _ initializer =>
    simp only [map, mapM, pure_bind, Id.run_pure, marks?, h initializer (by simp [children])]
  | _ => rfl

theorem isRead_of_isWord {form : Form α} (h : form.isWord = true) : form.isRead = true := by
  cases form <;> first
    | rfl
    | cases h

theorem isWord_of_isRead {form : Form α} (h : form.isRead = false) : form.isWord = false :=
  Bool.eq_false_iff.2 fun hword => by rw [isRead_of_isWord hword] at h; cases h

end Form

/-- A declaration of the project is named by the node. -/
def Project.DeclaresAt (p : Project) (name : NodeRef) : Prop :=
  ∃ a declaration form, p.arena? name.file = some a ∧ a.form? declaration = some form ∧
    form.name? = some name.node

namespace BundleTree

/-- The slot holds a copy of what is in the slot of a file, or nothing when nothing is there. -/
def IsCopy (t : BundleTree) (file : FileId) (a : Arena) (origin slot : Slot) : Prop :=
  slot.elim (a.form? origin = none) fun copy => t.originOf? copy = some ⟨file, origin⟩

/-- The form of node `n` is made after a form of a file: they are the halves of one form of pairs,
whose children are pairs of slots and older copies of them. -/
def IsCopied (t : BundleTree) (file : FileId) (a : Arena) (n : NodeId)
    (found form : Form Slot) : Prop :=
  ∃ pairs : Form (Slot × Slot), pairs.map Prod.fst = found ∧ pairs.map Prod.snd = form ∧
    ∀ pair ∈ pairs.children, t.IsCopy file a pair.1 pair.2 ∧ ∀ c : NodeId, pair.2 = some c →
      c.index < n.index

/-- A copy of an import type has copies of the type arguments, among others. -/
theorem IsCopied.importType {t : BundleTree} {file : FileId} {a : Arena} {n : NodeId}
    {form : Form Slot} {isTypeof : Bool} {argument qualifier : Slot} {typeArguments : List Slot}
    (h : t.IsCopied file a n (.importType isTypeof argument qualifier typeArguments) form) :
    ∃ argument' qualifier' typeArguments',
      form = .importType isTypeof argument' qualifier' typeArguments' ∧
      t.IsCopy file a qualifier qualifier' ∧
        List.Forall₂ (t.IsCopy file a) typeArguments typeArguments' := by
  obtain ⟨pairs, hold, rfl, hpairs⟩ := h
  cases pairs with
  | importType isTypeof' argument' qualifier' pairs =>
    rw [Form.map_importType] at hold ⊢
    obtain ⟨rfl, rfl, rfl, rfl⟩ := Form.importType.inj hold
    refine ⟨_, _, _, rfl, (hpairs qualifier' (List.mem_cons_of_mem _ List.mem_cons_self)).1, ?_⟩
    rw [List.forall₂_map_left_iff, List.forall₂_map_right_iff, List.forall₂_same]
    exact fun pair hpair => (hpairs pair (List.mem_cons_of_mem _ (List.mem_cons_of_mem _ hpair))).1
  | _ => cases hold

/-- A form has copies of the parameters of a form of a file, and is marked like it. -/
def KeepsParameters (t : BundleTree) (file : FileId) (a : Arena) (found form : Form Slot) : Prop :=
  (∀ parameters, found.parameters? = some parameters → ∃ parameters',
    form.parameters? = some parameters' ∧
    List.Forall₂ (t.IsCopy file a) parameters parameters') ∧ form.marks? = found.marks?

theorem keepsParameters_of_none {t : BundleTree} {file : FileId} {a : Arena}
    {found form : Form Slot} (hparameters : found.parameters? = none)
    (hmarks : form.marks? = found.marks?) : t.KeepsParameters file a found form :=
  ⟨fun _ h => absurd (hparameters.symm.trans h) nofun, hmarks⟩

theorem keepsParameters_of_pairs {t : BundleTree} {file : FileId} {a : Arena}
    {pairs : Form (Slot × Slot)} (hcopies : ∀ pair ∈ pairs.children, t.IsCopy file a pair.1 pair.2)
    (hsome : ∀ pair ∈ pairs.children, pair.2.isSome = pair.1.isSome) :
    t.KeepsParameters file a (pairs.map Prod.fst) (pairs.map Prod.snd) := by
  refine ⟨fun parameters h => ?_, Form.marks?_map _ _ _ hsome⟩
  rw [Form.parameters?_map] at h ⊢
  obtain ⟨parameterPairs, hpairs, rfl⟩ := Option.map_eq_some_iff.1 h
  refine ⟨_, by rw [hpairs]; rfl, ?_⟩
  rw [List.forall₂_map_left_iff, List.forall₂_map_right_iff, List.forall₂_same]
  exact fun pair hpair => hcopies pair (Form.mem_children_of_parameters? hpairs hpair)

/-- The form of node `n` is a copy of a form that is read, or it is not read, like the form that it
is made after, and keeps the parameters of that one. -/
def IsMadeAfter (t : BundleTree) (file : FileId) (a : Arena) (n : NodeId)
    (found form : Form Slot) : Prop :=
  found.isRead = true ∧ t.IsCopied file a n found form ∨
    found.isRead = false ∧ form.isRead = false ∧ t.KeepsParameters file a found form

theorem IsMadeAfter.isCopied {t : BundleTree} {file : FileId} {a : Arena} {n : NodeId}
    {found form : Form Slot} (h : t.IsMadeAfter file a n found form) (hread : found.isRead = true) :
    t.IsCopied file a n found form := by
  rcases h with h | h
  · exact h.2
  · exact absurd (h.1.symm.trans hread) Bool.false_ne_true

theorem IsMadeAfter.keeps {t : BundleTree} {file : FileId} {a : Arena} {n : NodeId}
    {found form : Form Slot} (h : t.IsMadeAfter file a n found form)
    (hread : found.isRead = false) :
    form.isRead = false ∧ t.KeepsParameters file a found form := by
  rcases h with h | h
  · exact absurd (hread.symm.trans h.1) Bool.false_ne_true
  · exact h.2

/-- Copies are what they are noted to be copies of. -/
structure IsTraced (p : Project) (t : BundleTree) : Prop where
  lt_size : ∀ n o, t.originOf? n = some o → n.index < t.arena.size
  copies : ∀ n o, n ∈ t.copiesOf o → t.originOf? n = some o
  exists_form : ∀ n o, t.originOf? n = some o → ∃ a found form, p.arena? o.file = some a ∧
    a.form? o.node = some found ∧ t.arena.form? (some n) = some form ∧
      t.IsMadeAfter o.file a n found form
  name_lt : ∀ m form n, t.arena.form? m = some form → form.name? = some (some n) →
    n.index < t.arena.size
  name : ∀ m form n o, t.arena.form? m = some form → form.name? = some (some n) →
    t.originOf? n = some o → p.DeclaresAt o

/-- A node can be named by what is in the slot: it is there, and if it is a copy, it is copied from
a declared name. -/
def MayName (p : Project) (t : BundleTree) (name : Option Slot) : Prop :=
  ∀ n : NodeId, name = some (some n) → n.index < t.arena.size ∧ ∀ o, t.originOf? n = some o →
    p.DeclaresAt o

theorem mayName_none (p : Project) (t : BundleTree) : t.MayName p none := fun _ h => by cases h

theorem IsTraced.mayName {p : Project} {t : BundleTree} (h : t.IsTraced p) {m : Slot}
    {form : Form Slot} (hform : t.arena.form? m = some form) : t.MayName p form.name? :=
  fun n hn => ⟨h.name_lt m form n hform hn, fun o ho => h.name m form n o hform hn ho⟩

theorem isTraced_empty (p : Project) : IsTraced p {} := by
  have horigin : ∀ n, BundleTree.originOf? {} n = none := fun _ => rfl
  constructor
  · intro n o h
    rw [horigin] at h
    cases h
  · intro n o h
    cases h
  · intro n o h
    rw [horigin] at h
    cases h
  · intro m form n h
    cases m <;> cases h
  · intro m form n o _ _ h
    rw [horigin] at h
    cases h

/-- Nothing else is noted about the nodes that were there. -/
structure Follows (t t' : BundleTree) : Prop where
  size_le : t.arena.size ≤ t'.arena.size
  origin_eq : ∀ n : NodeId, n.index < t.arena.size → t'.originOf? n = t.originOf? n

theorem Follows.refl (t : BundleTree) : t.Follows t := ⟨Nat.le_refl _, fun _ _ => rfl⟩

theorem Follows.trans {t t' t'' : BundleTree} (h : t.Follows t') (h' : t'.Follows t'') :
    t.Follows t'' :=
  ⟨Nat.le_trans h.size_le h'.size_le, fun n hn =>
    (h'.origin_eq n (Nat.lt_of_lt_of_le hn h.size_le)).trans (h.origin_eq n hn)⟩

variable {p : Project} {t t' : BundleTree} {file : FileId} {a : Arena}

theorem Follows.isCopy (h : t.Follows t') (ht : t.IsTraced p) {origin slot : Slot}
    (hcopy : t.IsCopy file a origin slot) :
    t'.IsCopy file a origin slot := by
  cases slot with
  | none => exact hcopy
  | some n => exact (h.origin_eq n (ht.lt_size n _ hcopy)).trans hcopy

theorem Follows.isCopied (h : t.Follows t') (ht : t.IsTraced p) {n : NodeId}
    {found form : Form Slot} (hcopied : t.IsCopied file a n found form) :
    t'.IsCopied file a n found form := by
  obtain ⟨pairs, hold, hnew, hpairs⟩ := hcopied
  exact ⟨pairs, hold, hnew,
    fun pair hpair => ⟨h.isCopy ht (hpairs pair hpair).1, (hpairs pair hpair).2⟩⟩

theorem Follows.keepsParameters (h : t.Follows t') (ht : t.IsTraced p) {found form : Form Slot}
    (hkeeps : t.KeepsParameters file a found form) : t'.KeepsParameters file a found form :=
  ⟨fun parameters hparameters => (hkeeps.1 parameters hparameters).imp fun _ hcopies =>
    ⟨hcopies.1, hcopies.2.imp fun _ _ => h.isCopy ht⟩, hkeeps.2⟩

theorem Follows.isMadeAfter (h : t.Follows t') (ht : t.IsTraced p) {n : NodeId}
    {found form : Form Slot} (hmade : t.IsMadeAfter file a n found form) :
    t'.IsMadeAfter file a n found form :=
  hmade.imp (fun hcopied => ⟨hcopied.1, h.isCopied ht hcopied.2⟩) fun hkept =>
    ⟨hkept.1, hkept.2.1, h.keepsParameters ht hkept.2.2⟩

theorem Follows.mayName (h : t.Follows t') {name : Option Slot} (hname : t.MayName p name) :
    t'.MayName p name :=
  fun n hn => ⟨Nat.lt_of_lt_of_le (hname n hn).1 h.size_le, fun o ho =>
    (hname n hn).2 o ((h.origin_eq n (hname n hn).1).symm.trans ho)⟩

/-- What changes about the nodes and their forms is in keeping with what is noted about them. -/
theorem IsTraced.of_forms (ht : t.IsTraced p) (h : t.Follows t')
    (hcopies : ∀ n o, n ∈ t'.copiesOf o → t'.originOf? n = some o)
    (hforms : ∀ n o, t'.originOf? n = some o → t.arena.form? (some n) = t'.arena.form? (some n) ∧
      n.index < t.arena.size ∨
      ∃ a found form, p.arena? o.file = some a ∧ a.form? o.node = some found ∧
        t'.arena.form? (some n) = some form ∧
        t'.IsMadeAfter o.file a n found form)
    (hnames : ∀ m form, t'.arena.form? m = some form → t.arena.form? m = some form ∨
      t'.MayName p form.name?) :
    t'.IsTraced p := by
  have hexists : ∀ n o, t'.originOf? n = some o → ∃ a found form, p.arena? o.file = some a ∧
      a.form? o.node = some found ∧ t'.arena.form? (some n) = some form ∧
        t'.IsMadeAfter o.file a n found form := by
    intro n o ho
    rcases hforms n o ho with ⟨heq, hlt⟩ | hnew
    · obtain ⟨a, found, form, ha, hfound, hform, hmade⟩ :=
        ht.exists_form n o ((h.origin_eq n hlt).symm.trans ho)
      exact ⟨a, found, form, ha, hfound, heq ▸ hform, h.isMadeAfter ht hmade⟩
    · exact hnew
  have hmay : ∀ m form, t'.arena.form? m = some form → t'.MayName p form.name? := by
    intro m form hform
    rcases hnames m form hform with hold | hnew
    · exact h.mayName (ht.mayName hold)
    · exact hnew
  refine ⟨fun n o ho => ?_, hcopies, hexists, fun m form n hform hn => (hmay m form hform n hn).1,
    fun m form n o hform hn => (hmay m form hform n hn).2 o⟩
  obtain ⟨_, _, _, _, _, hform, _⟩ := hexists n o ho
  exact Arena.lt_size_of_form? hform

end BundleTree

namespace Build

variable {α β γ : Type} (p : Project)

/-- When `P` holds of a traced tree, the step leaves a traced tree that follows it, and `Q` holds of
what the step gives. -/
def Traces (P : BundleTree → Prop) (m : Build α) (Q : α → BundleTree → Prop) : Prop :=
  ∀ t : BundleTree, t.IsTraced p → P t → (m.run t).2.IsTraced p ∧ t.Follows (m.run t).2 ∧
    Q (m.run t).1 (m.run t).2

/-- What holds of a traced tree holds of the trees that follow it. -/
def Lasts (P : BundleTree → Prop) : Prop :=
  ∀ t t' : BundleTree, t.IsTraced p → t.Follows t' → P t → P t'

/-! ## Rules -/

variable {p} {P P' : BundleTree → Prop} {Q : α → BundleTree → Prop} {R : β → BundleTree → Prop}

theorem lasts_isCopy (file : FileId) (a : Arena) (origin slot : Slot) : Lasts p fun t =>
  t.IsCopy file a origin slot :=
  fun _ _ ht h hcopy => h.isCopy ht hcopy

theorem lasts_mayName (name : Option Slot) : Lasts p fun t => t.MayName p name :=
  fun _ _ _ h hname => h.mayName hname

theorem traces_pure {x : α} (h : ∀ t, P t → Q x t) : Traces p P (pure x) Q :=
  fun t ht hP => ⟨ht, .refl t, h t hP⟩

theorem traces_bind {m : Build α} {f : α → Build β} (hm : Traces p P m Q)
    (hf : ∀ x, Traces p (Q x) (f x) R) :
    Traces p P (m >>= f) R := by
  intro t ht hP
  obtain ⟨ht', hfollows, hQ⟩ := hm t ht hP
  obtain ⟨ht'', hfollows', hR⟩ := hf _ _ ht' hQ
  exact ⟨ht'', hfollows.trans hfollows', hR⟩

theorem Traces.imp {Q' : α → BundleTree → Prop} {m : Build α} (h : Traces p P m Q)
    (hP : ∀ t, P' t → P t) (hQ : ∀ x t, Q x t → Q' x t) : Traces p P' m Q' :=
  fun t ht hP' => ⟨(h t ht (hP t hP')).1, (h t ht (hP t hP')).2.1, hQ _ _ (h t ht (hP t hP')).2.2⟩

/-- What lasts still holds after the step. -/
theorem Traces.keep {m : Build α} (h : Traces p P m Q) (hlasts : Lasts p P') :
    Traces p (fun t => P t ∧ P' t) m fun x t => Q x t ∧ P' t :=
  fun t ht hP =>
    ⟨(h t ht hP.1).1, (h t ht hP.1).2.1, (h t ht hP.1).2.2, hlasts t _ ht (h t ht hP.1).2.1 hP.2⟩

theorem traces_mapM {f : γ → Build α} {S : γ → α → BundleTree → Prop}
    (hlasts : ∀ x y, Lasts p (S x y)) {xs : List γ}
    (h : ∀ x ∈ xs, Traces p (fun _ => True) (f x) (S x)) :
    Traces p (fun _ => True) (xs.mapM f) fun ys t => List.Forall₂ (fun x y => S x y t) xs ys := by
  induction xs with
  | nil => exact traces_pure fun _ _ => .nil
  | cons x xs ih =>
    rw [List.mapM_cons]
    refine traces_bind (h x List.mem_cons_self) fun y => ?_
    have hrest := (ih fun x' hx' => h x' (List.mem_cons_of_mem _ hx')).keep (hlasts x y)
    refine traces_bind (hrest.imp (fun t hy => ⟨trivial, hy⟩) fun _ _ => id) fun ys => ?_
    exact traces_pure fun t hys => .cons hys.2 hys.1

theorem traces_filterMapM {f : γ → Build (Option α)}
    (h : ∀ x, Traces p (fun _ => True) (f x) fun _ _ => True)
    (xs : List γ) : Traces p (fun _ => True) (xs.filterMapM f) fun _ _ => True := by
  induction xs with
  | nil => exact traces_pure fun _ _ => trivial
  | cons x xs ih =>
    rw [List.filterMapM_cons]
    refine traces_bind (h x) fun y => ?_
    cases y with
    | none => exact ih
    | some y => exact traces_bind ih fun ys => traces_pure fun _ _ => trivial

theorem traces_forM {f : γ → Build PUnit} (h : ∀ x, Traces p (fun _ => True) (f x) fun _ _ => True)
    (xs : List γ) :
    Traces p (fun _ => True) (xs.forM f) fun _ _ => True := by
  induction xs with
  | nil => exact traces_pure fun _ _ => trivial
  | cons x xs ih => exact traces_bind (h x) fun _ => ih

/-! ## Nodes -/

theorem form?_add_cases {a : Arena} {form other : Form Slot} {span : Span} {m : Slot}
    (h : (a.add form span).1.form? m = some other) :
    a.form? m = some other ∨ m = some (a.add form span).2 ∧ other = form := by
  cases m with
  | none => cases h
  | some m =>
    by_cases hlt : m.index < a.size
    · exact .inl ((Arena.form?_add_of_lt hlt form span).symm.trans h)
    · have hsize := Arena.lt_size_of_form? h
      rw [Arena.size_add] at hsize
      have hm : m = (a.add form span).2 := congrArg NodeId.mk (show m.index = a.size by omega)
      rw [hm, Arena.form?_add_self] at h
      exact .inr ⟨congrArg some hm, (Option.some.inj h).symm⟩

/-- A node is added that is no copy. -/
theorem traces_addAt (span : Span) (form : Form Slot) :
    Traces p (fun t => t.MayName p form.name?) (addAt span form) fun n t =>
      t.MayName p (some (some n)) := by
  intro t ht hname
  let t' : BundleTree := ((addAt span form).run t).2
  have horigin : t'.originOf? = t.originOf? := rfl
  have hsize : t'.arena.size = t.arena.size + 1 := t.arena.size_add form span
  have hfollows : t.Follows t' := ⟨hsize ▸ Nat.le_succ _, fun _ _ => rfl⟩
  refine ⟨ht.of_forms hfollows ht.copies (fun n o ho => ?_) (fun m other hother => ?_), hfollows,
    fun n hn => ?_⟩
  · have hlt := ht.lt_size n o ho
    exact .inl ⟨(Arena.form?_add_of_lt hlt form span).symm, hlt⟩
  · rcases form?_add_cases hother with hold | ⟨-, rfl⟩
    · exact .inl hold
    · exact .inr (hfollows.mayName hname)
  · obtain rfl := Option.some.inj (Option.some.inj hn)
    refine ⟨hsize ▸ Nat.lt_succ_self _, fun o ho => ?_⟩
    exact absurd (ht.lt_size _ o ho) (Nat.lt_irrefl _)

theorem traces_add (form : Form Slot) :
    Traces p (fun t => t.MayName p form.name?) (add form) fun n t => t.MayName p (some (some n)) :=
  traces_addAt _ form

theorem originOf?_recordCopy (source : Arena) (origin : NodeRef) (copy n : NodeId)
    (t : BundleTree) :
    ((recordCopy source origin copy).run t).2.originOf? n = if copy = n then some origin
      else t.originOf? n := by
  show (t.origins.insert copy origin)[n]? = _
  rw [Std.TreeMap.getElem?_insert]
  simp [BundleTree.originOf?]

theorem copiesOf_recordCopy (source : Arena) (origin : NodeRef) (copy : NodeId) (o : NodeRef)
    (t : BundleTree) :
    ((recordCopy source origin copy).run t).2.copiesOf o =
      if origin = o then t.copiesOf origin ++ [copy] else t.copiesOf o := by
  show ((t.copies.insert origin (t.copiesOf origin ++ [copy]))[o]?).getD [] = _
  rw [Std.TreeMap.getElem?_insert]
  by_cases heq : origin = o
  · simp [heq]
  · simp [heq, BundleTree.copiesOf]

theorem mem_copiesOf_recordCopy {source : Arena} {origin o : NodeRef} {copy n : NodeId}
    {t : BundleTree} :
    n ∈ ((recordCopy source origin copy).run t).2.copiesOf o ↔
      n ∈ t.copiesOf o ∨ n = copy ∧ o = origin := by
  rw [copiesOf_recordCopy]
  split
  · next heq =>
    subst heq
    simp only [List.mem_append, List.mem_singleton, and_true]
  · next hne => simp only [Ne.symm hne, and_false, or_false]

/-- A node is added and noted as a copy of what it is made after. -/
theorem traces_addCopy {source : Arena} (origin : NodeRef) {found : Form Slot} (form : Form Slot)
    (span : Span) (harena : p.arena? origin.file = some source)
    (hfound : source.form? origin.node = some found)
    (hP : ∀ t, t.IsTraced p → P t → t.MayName p form.name? ∧
      t.IsMadeAfter origin.file source ⟨t.arena.size⟩ found form) :
    Traces p P (do
      let copy ← addAt span form
      recordCopy source origin copy
      return some copy) fun slot t => t.IsCopy origin.file source origin.node slot := by
  intro t ht hPt
  obtain ⟨hname, hmade⟩ := hP t ht hPt
  let n : NodeId := ⟨t.arena.size⟩
  let t₁ : BundleTree := ((addAt span form).run t).2
  let t' : BundleTree := ((recordCopy source origin n).run t₁).2
  -- noting a copy changes no form, so all that is new is the node that was added
  have hforms : ∀ slot, t'.arena.form? slot = (t.arena.add form span).1.form? slot :=
    form?_recordCopy source origin n t₁
  have hsize : t'.arena.size = t.arena.size + 1 :=
    (size_recordCopy source origin n t₁).trans (t.arena.size_add form span)
  have horigin : ∀ m, t'.originOf? m = if n = m then some origin else t.originOf? m :=
    fun m => originOf?_recordCopy source origin n m t₁
  have hself : t'.originOf? n = some origin := (horigin n).trans (if_pos rfl)
  have hfollows : t.Follows t' := by
    refine ⟨hsize ▸ Nat.le_succ _, fun m hm => (horigin m).trans (if_neg ?_)⟩
    rintro rfl
    exact Nat.lt_irrefl _ hm
  have htraced : t'.IsTraced p := by
    refine ht.of_forms hfollows (fun m o hm => ?_) (fun m o ho => ?_) (fun m other hother => ?_)
    · rcases mem_copiesOf_recordCopy.1 hm with hm | ⟨rfl, rfl⟩
      · have hold := ht.copies m o hm
        exact (hfollows.origin_eq m (ht.lt_size m o hold)).trans hold
      · exact hself
    · rw [horigin] at ho
      split at ho
      · next heq =>
        obtain rfl := Option.some.inj ho
        subst heq
        exact .inr ⟨source, found, form, harena, hfound,
          (hforms _).trans (t.arena.form?_add_self form span),
          hfollows.isMadeAfter ht hmade⟩
      · have hlt := ht.lt_size m o ho
        exact .inl ⟨((hforms _).trans (Arena.form?_add_of_lt hlt form span)).symm, hlt⟩
    · rcases form?_add_cases ((hforms m).symm.trans hother) with hold | ⟨-, rfl⟩
      · exact .inl hold
      · exact .inr (hfollows.mayName hname)
  exact ⟨htraced, hfollows, hself⟩

/-- A node that is not read gets another form that is not read and keeps what is written in
parentheses. -/
theorem traces_replace (node : NodeId) (old form : Form Slot) (hform : form.isRead = false)
    (hparameters : form.parameters? = old.parameters?) (hmarks : form.marks? = old.marks?) :
    Traces p (fun t => (t.arena.form? (some node) = some old ∧ old.isRead = false) ∧
      t.MayName p form.name?)
      (replace node form) fun _ _ => True := by
  rintro t ht ⟨⟨hold, hread⟩, hname⟩
  let t' : BundleTree := ((replace node form).run t).2
  have hlt := Arena.lt_size_of_form? hold
  have hforms : ∀ slot, t'.arena.form? slot = if slot = some node then some form
      else t.arena.form? slot :=
    fun slot => Arena.form?_replace hlt form slot
  have hfollows : t.Follows t' :=
    ⟨Nat.le_of_eq (t.arena.size_replace (some node) form).symm, fun _ _ => rfl⟩
  refine ⟨ht.of_forms hfollows ht.copies (fun n o ho => ?_) (fun m other hother => ?_),
    hfollows, trivial⟩
  · by_cases hn : n = node
    · subst hn
      obtain ⟨a, found, copied, ha, hfound, hcopied, hmade⟩ := ht.exists_form n o ho
      obtain rfl := Option.some.inj (hold.symm.trans hcopied)
      refine .inr ⟨a, found, form, ha, hfound, (hforms _).trans (if_pos rfl),
        hfollows.isMadeAfter ht ?_⟩
      -- a form that is copied as it is would be read, and this one is not
      rcases hmade with ⟨hfoundread, pairs, rfl, rfl, -⟩ | ⟨hfoundread, -, hkeeps⟩
      · rw [Form.isRead_map] at hread hfoundread
        rw [hread] at hfoundread
        cases hfoundread
      · exact .inr ⟨hfoundread, hform, hparameters ▸ hkeeps.1, hmarks.trans hkeeps.2⟩
    · exact .inl ⟨((hforms _).trans (if_neg fun heq => hn (Option.some.inj heq))).symm,
        ht.lt_size n o ho⟩
  · have hother := (hforms m).symm.trans hother
    split at hother
    · obtain rfl := Option.some.inj hother
      exact .inr (hfollows.mayName hname)
    · exact .inl hother

/-! ## Copies -/

/-- The children of a form are copied. -/
theorem traces_form {source : Arena} {file : FileId} {f : Slot → Build Slot} {form : Form Slot}
    (h : ∀ child ∈ form.children, Traces p (fun _ => True) (f child) fun slot t =>
      t.IsCopy file source child slot) :
    Traces p (fun _ => True) (form.mapM f) fun new t => ∃ pairs : Form (Slot × Slot),
      pairs.map Prod.fst = form ∧
      pairs.map Prod.snd = new ∧ ∀ pair ∈ pairs.children, t.IsCopy file source pair.1 pair.2 := by
  intro t ht _
  obtain ⟨pairs, hold, hnew, hchildren⟩ := Form.exists_pairs f form t
  have hpairs :
      Traces p (fun _ => True) (form.children.mapM fun a => (fun b => (a, b)) <$> f a) fun ys t =>
      List.Forall₂ (fun _ pair => t.IsCopy file source pair.1 pair.2) form.children ys := by
    refine traces_mapM (fun _ (pair : Slot × Slot) => lasts_isCopy file source pair.1 pair.2)
      fun child hchild => ?_
    exact h child hchild
  obtain ⟨ht', hfollows, hall⟩ := hpairs t ht trivial
  have hstate : ((form.mapM f).run t).2 =
      ((form.children.mapM fun a => (fun b => (a, b)) <$> f a).run t).2 := by
    rw [Form.state_run_mapM]
    exact congrArg (fun m => (StateT.run m t).2)
      (map_mapM_list (fun a => (fun b => (a, b)) <$> f a : Slot → Build (Slot × Slot)) Prod.snd
        form.children).symm
  rw [hstate]
  refine ⟨ht', hfollows, pairs, hold, hnew, fun pair hpair => ?_⟩
  rw [hchildren] at hpair
  obtain ⟨_, _, hcopy⟩ := exists_of_forall₂ hall.flip hpair
  exact hcopy

/-- A copy is made of every child that is there, because the children of a node are in the file. -/
theorem isSome_of_isCopy {source : Arena} {file : FileId} {t : BundleTree} (ht : t.IsTraced p)
    (hordered : source.IsOrdered) {node child slot : Slot} {form : Form Slot}
    (hform : source.form? node = some form) (hchild : child ∈ form.children)
    (hcopy : t.IsCopy file source child slot) : slot.isSome = child.isSome := by
  cases slot with
  | some n =>
    obtain ⟨_, _, _, _, hfound, -⟩ := ht.exists_form n _ hcopy
    cases child with
    | none => cases hfound
    | some c => rfl
  | none =>
    cases child with
    | none => rfl
    | some c =>
      cases node with
      | none => cases hform
      | some n =>
        have hlt := Nat.lt_trans (hordered n form c hform hchild) (Arena.lt_size_of_form? hform)
        have hsome := Arena.isSome_form?_iff.2 hlt
        rw [show source.form? (some c) = none from hcopy] at hsome
        cases hsome

theorem traces_copyTo {source : Arena} {file : FileId} (harena : p.arena? file = some source)
    (hordered : source.IsOrdered) (depth : Nat) (node : Slot)
    (hdepth : ∀ n form, node = some n → source.form? (some n) = some form → n.index < depth) :
    Traces p (fun _ => True) (copyTo source file depth node) fun slot t =>
      t.IsCopy file source node slot := by
  induction depth generalizing node with
  | zero =>
    refine traces_pure fun t _ => ?_
    show source.form? node = none
    cases node with
    | none => rfl
    | some n =>
      cases hform : source.form? (some n) with
      | none => rfl
      | some form => exact absurd (hdepth n form rfl hform) (Nat.not_lt_zero _)
  | succ depth ih =>
    unfold copyTo
    split
    · next hnone =>
      refine traces_pure fun t _ => ?_
      show source.form? node = none
      rw [Arena.form?, hnone]
      rfl
    · next found hfound =>
      have hform : source.form? node = some found.form := by rw [Arena.form?, hfound]; rfl
      -- children come before their parent in the source, so the bound holds of them too
      have hchildren : ∀ child ∈ found.form.children,
        Traces p (fun _ => True) (copyTo source file depth child)
          fun slot t => t.IsCopy file source child slot := by
        refine fun child hchild => ih child fun c _ hc _ => ?_
        subst hc
        cases node with
        | none => cases hform
        | some n =>
          have hlt := hordered n found.form c hform hchild
          have hn := hdepth n found.form rfl hform
          omega
      refine traces_bind (traces_form hchildren) fun form =>
        traces_addCopy ⟨file, node⟩ form found.span harena hform fun t ht hpairs => ?_
      obtain ⟨pairs, hold, hnew, hcopies⟩ := hpairs
      refine ⟨fun n hn => ?_, ?_⟩
      · -- a name is the copy of a name
        rw [← hnew, Form.name?_map] at hn
        obtain ⟨⟨origin, slot⟩, hpair, hslot⟩ := Option.map_eq_some_iff.1 hn
        obtain rfl : slot = some n := hslot
        have hcopy : t.originOf? n = some ⟨file, origin⟩ :=
          hcopies _ (Form.mem_children_of_name? hpair)
        refine ⟨ht.lt_size n _ hcopy, fun o ho => ?_⟩
        obtain rfl := Option.some.inj (hcopy.symm.trans ho)
        exact ⟨source, node, found.form, harena, hform, by rw [← hold, Form.name?_map, hpair]; rfl⟩
      · -- a form that is read is mirrored child by child; of any other only the parameters matter
        cases hread : found.form.isRead with
        | true =>
          refine .inl
            ⟨hread, pairs, hold, hnew, fun pair hpair => ⟨hcopies pair hpair, fun c hc => ?_⟩⟩
          have hcopy := hcopies pair hpair
          rw [hc] at hcopy
          exact ht.lt_size c _ hcopy
        | false =>
          have hnewread : form.isRead = false := by
            rw [← hnew, Form.isRead_map, ← Form.isRead_map Prod.fst, hold, hread]
          refine .inr ⟨hread, hnewread, ?_⟩
          rw [← hold, ← hnew]
          exact BundleTree.keepsParameters_of_pairs hcopies fun pair hpair =>
            isSome_of_isCopy ht hordered hform (hold ▸ Form.mem_children_map Prod.fst hpair)
              (hcopies pair hpair)

section Project

variable (hordered : ∀ file a, p.arena? file = some a → a.IsOrdered)

include hordered

theorem traces_copy {source : Arena} {ref : NodeRef} (harena : p.arena? ref.file = some source) :
    Traces p (fun _ => True) (copy source ref) fun slot t =>
      t.IsCopy ref.file source ref.node slot :=
  traces_copyTo harena (hordered _ _ harena) _ _ fun _ _ _ hform =>
    Nat.lt_succ_of_lt (Arena.lt_size_of_form? hform)

theorem traces_copyType (type : NodeRef) :
    Traces p (fun _ => True) (copyType p type) fun _ _ => True := by
  unfold copyType
  split
  · next source harena => exact (traces_copy hordered harena).imp (fun _ => id) fun _ _ _ => trivial
  · exact traces_pure fun _ _ => trivial

omit hordered in
/-- A type that no declaration is named by is added. -/
theorem traces_addType (form : Form Slot) (h : form.name? = none) :
    Traces p (fun _ => True) (add form) fun _ _ => True :=
  (traces_add form).imp (fun t _ => h ▸ t.mayName_none p) fun _ _ _ => trivial

omit hordered in
theorem traces_partType (object : Slot) (key : BindingKey) :
    Traces p (fun _ => True) (partType object key) fun _ _ => True := by
  refine traces_bind (Q := fun _ _ => True) ?_ fun literal => ?_
  · cases key
    · exact traces_addType _ rfl
    · exact traces_addType _ rfl
  · refine traces_bind (traces_addType _ rfl) fun index => ?_
    exact traces_bind (traces_addType _ rfl) fun access => traces_pure fun _ _ => trivial

theorem traces_declaredType (type : DeclaredType) :
    Traces p (fun _ => True) (declaredType p type) fun _ _ => True := by
  cases type with
  | literal text =>
    refine traces_bind (traces_addType _ rfl) fun literal => ?_
    exact traces_bind (traces_addType _ rfl) fun type => traces_pure fun _ _ => trivial
  | keyword keyword =>
    exact traces_bind (traces_addType _ rfl) fun type => traces_pure fun _ _ => trivial
  | written type => exact traces_copyType hordered type
  | part type path =>
    refine traces_bind (traces_copyType hordered type) fun object => ?_
    induction path generalizing object with
    | nil => exact traces_pure fun _ _ => trivial
    | cons key path ih =>
      rw [List.foldlM_cons]
      exact traces_bind (traces_partType object key) fun inner => ih inner
  | unknown => exact traces_pure fun _ _ => trivial

/-! ## Declarations -/

omit hordered in
/-- A statement with one variable is noted as a copy of a node that is not read. -/
theorem traces_copyStatement {source : Arena} (origin : NodeRef) {found : Form Slot}
    (harena : p.arena? origin.file = some source) (hfound : source.form? origin.node = some found)
    (hread : found.isRead = false) (hkeeps : found.parameters? = none ∧ found.marks? = none)
    (ms : Modifiers) (flavor : VariableFlavor) (declarator : Slot) (span : Span) :
    Traces p (fun _ => True) (do
      let made ← variableStatement ms flavor declarator span
      recordCopy source origin made
      return some made) fun _ _ => True := by
  refine (traces_addCopy origin (.variableStatement ms flavor [declarator]) span harena hfound
    fun t _ _ => ⟨t.mayName_none p, .inr ⟨hread, rfl, ?_⟩⟩).imp (fun _ => id) fun _ _ _ => trivial
  exact BundleTree.keepsParameters_of_none hkeeps.1 hkeeps.2.symm

theorem traces_copyVariable {source : Arena} {ref : NodeRef}
    (harena : p.arena? ref.file = some source) :
    Traces p (fun _ => True) (copyVariable source ref) fun _ _ => True := by
  unfold copyVariable
  dsimp only
  split
  · next ms flavor _ hfound =>
    refine traces_bind (traces_copy hordered harena) fun declarator => ?_
    exact (traces_copyStatement ⟨ref.file, source.parent ref.node⟩ harena hfound rfl
      ⟨rfl, rfl⟩ ms flavor declarator _).imp
      (fun _ _ => trivial) fun _ _ => id
  · exact traces_pure fun _ _ => trivial

theorem traces_copyBinding {source : Arena} {ref : NodeRef}
    (harena : p.arena? ref.file = some source) {isRest : Bool}
    {propertyName name initializer : Slot}
    (hfound : source.form? ref.node = some (.bindingElement isRest propertyName name initializer)) :
    Traces p (fun _ => True) (copyBinding p source ref name) fun _ _ => True := by
  unfold copyBinding
  dsimp only
  split
  · have hname : Traces p (fun _ => True) (copy source ⟨ref.file, name⟩) fun slot t =>
      t.MayName p (some slot) := by
      intro t ht _
      have harena : p.arena? (NodeRef.mk ref.file name).file = some source := harena
      obtain ⟨ht', hfollows, hcopy⟩ := traces_copy hordered harena t ht trivial
      refine ⟨ht', hfollows, fun n hn => ?_⟩
      obtain hslot := Option.some.inj hn
      rw [hslot] at hcopy
      refine ⟨ht'.lt_size n _ hcopy, fun o ho => ?_⟩
      obtain rfl := Option.some.inj (hcopy.symm.trans ho)
      exact ⟨source, ref.node, _, harena, hfound, rfl⟩
    refine traces_bind hname fun name => ?_
    have htype := (traces_declaredType hordered (p.typeOf ref)).keep (lasts_mayName (some name))
    refine traces_bind (htype.imp (fun t hname => ⟨trivial, hname⟩) fun _ _ => id) fun type => ?_
    refine traces_bind
      ((traces_addAt _ (.variableDeclaration name false type none)).imp (fun t h => h.2)
      fun _ _ => id) fun declarator => ?_
    exact (traces_copyStatement ref harena hfound rfl ⟨rfl, rfl⟩ _ _ _ _).imp
      (fun _ _ => trivial) fun _ _ => id
  · exact traces_pure fun _ _ => trivial

theorem traces_copyDefaultValue {source : Arena} {ref : NodeRef}
    (harena : p.arena? ref.file = some source) {isEquals : Bool} {expression : Slot}
    (hfound : source.form? ref.node = some (.exportAssignment isEquals expression)) :
    Traces p (fun _ => True) (copyDefaultValue p source ref) fun _ _ => True := by
  unfold copyDefaultValue
  refine traces_bind (traces_declaredType hordered (p.typeOf ref)) fun type => ?_
  cases type with
  | none => exact traces_pure fun _ _ => trivial
  | some type =>
    refine traces_bind
      ((traces_add (.identifier "default")).imp (fun t _ => t.mayName_none p) fun _ _ => id)
      fun name => ?_
    refine traces_bind (traces_add (.variableDeclaration (some name) false (some type) none))
      fun declarator => ?_
    exact (traces_copyStatement ref harena hfound rfl ⟨rfl, rfl⟩ _ _ _ _).imp
      (fun _ _ => trivial) fun _ _ => id

omit hordered in
theorem traces_nameDefault (node : NodeId) :
    Traces p (fun _ => True) (nameDefault node) fun _ _ => True := by
  intro t ht _
  have hidentifier : Traces p (fun _ => True) (identifier "default") fun n t =>
    t.MayName p (some (some n)) :=
    (traces_add (.identifier "default")).imp (fun t _ => t.mayName_none p) fun _ _ => id
  obtain ⟨ht₁, hfollows, hname⟩ := hidentifier t ht trivial
  obtain heq | ⟨ms, old, s, hasBody, hform, heq⟩ | ⟨ms, old, xs, ys, zs, hform, heq⟩ :=
    nameDefault_cases node t
  · rw [heq]
    exact ⟨ht₁, hfollows, trivial⟩
  · rw [heq]
    obtain ⟨ht₂, hfollows₂, -⟩ := traces_replace node (.functionDeclaration ms old s hasBody)
      (.functionDeclaration ms (some _) s hasBody) rfl rfl rfl _ ht₁
      ⟨⟨hform, rfl⟩, hname⟩
    exact ⟨ht₂, hfollows.trans hfollows₂, trivial⟩
  · rw [heq]
    obtain ⟨ht₂, hfollows₂, -⟩ := traces_replace node (.classDeclaration ms old xs ys zs)
      (.classDeclaration ms (some _) xs ys zs) rfl rfl rfl _ ht₁
      ⟨⟨hform, rfl⟩, hname⟩
    exact ⟨ht₂, hfollows.trans hfollows₂, trivial⟩

theorem traces_copyAndName {source : Arena} {ref : NodeRef}
    (harena : p.arena? ref.file = some source) :
    Traces p (fun _ => True) (do
      let made ← copy source ref
      made.forM nameDefault
      return made) fun _ _ => True := by
  refine traces_bind ((traces_copy hordered harena).imp (fun _ => id) fun _ _ _ => trivial)
    fun made => ?_
  cases made with
  | none => exact traces_pure fun _ _ => trivial
  | some node => exact traces_bind (traces_nameDefault node) fun _ => traces_pure fun _ _ => trivial

theorem traces_copyDeclaration (ref : NodeRef) :
    Traces p (fun _ => True) (copyDeclaration p ref) fun _ _ => True := by
  unfold copyDeclaration
  split
  · exact traces_pure fun _ _ => trivial
  · next source harena =>
    split
    · exact traces_pure fun _ _ => trivial
    · exact traces_copyVariable hordered harena
    · next hfound => exact traces_copyBinding hordered harena hfound
    · next hfound => exact traces_copyDefaultValue hordered harena hfound
    · exact traces_copyAndName hordered harena
    · exact traces_copyAndName hordered harena
    · exact (traces_copy hordered harena).imp (fun _ => id) fun _ _ _ => trivial

/-! ## The whole tree -/

theorem traces_copySymbol (id : SymbolId) :
    Traces p (fun _ => True) (copySymbol p id) fun _ _ => True := by
  intro t ht _
  obtain ⟨ht', hfollows, -⟩ :=
    traces_filterMapM (traces_copyDeclaration hordered) (p.writtenDeclarations id) t ht trivial
  -- the statements of a symbol are not among what is traced
  exact ⟨⟨ht'.lt_size, ht'.copies, ht'.exists_form, ht'.name_lt, ht'.name⟩,
    ⟨hfollows.size_le, hfollows.origin_eq⟩, trivial⟩

omit hordered in
/-- A type in place of a value changes no name, and a parameter stays optional, or takes the rest,
as before. -/
theorem kept_withImpliedType {type : Slot} {form form' : Form Slot}
    (h : withImpliedType type form = some form') :
    form'.name? = form.name? ∧ form'.isRead = false ∧ form.isRead = false ∧
      form'.parameters? = form.parameters? ∧
      form'.marks? = form.marks? := by
  unfold withImpliedType at h
  split at h <;> cases h
  · exact ⟨rfl, rfl, rfl, rfl, by simp [Form.marks?]⟩
  · exact ⟨rfl, rfl, rfl, rfl, rfl⟩
  · exact ⟨rfl, rfl, rfl, rfl, rfl⟩

omit hordered in
theorem traces_implyType (node : NodeId) :
    Traces p (fun _ => True) (implyType p node) fun _ _ => True := by
  intro t ht _
  obtain ⟨-, heq⟩ | ⟨keyword, form, form', -, hform, hform', heq⟩ := implyType_cases p node t
  · rw [heq]
    exact ⟨ht, .refl t, trivial⟩
  · obtain ⟨ht₁, hfollows, -⟩ := traces_addType (.keywordType keyword) rfl t ht trivial
    have hform₁ : ((add (.keywordType keyword)).run t).2.arena.form? (some node) = some form :=
      (adds_add (.keywordType keyword) t).1 _ _ hform
    obtain ⟨hname, hread', hread, hparameters, hmarks⟩ := kept_withImpliedType hform'
    obtain ⟨ht₂, hfollows₂, -⟩ := traces_replace node form form' hread' hparameters hmarks _ ht₁
      ⟨⟨hform₁, hread⟩, hname ▸ ht₁.mayName hform₁⟩
    rw [heq]
    exact ⟨ht₂, hfollows.trans hfollows₂, trivial⟩

/-- In the tree of copies, every copy is what it is noted to be a copy of. -/
theorem traced_ofCollection (collection : Collection) :
    (BundleTree.ofCollection p collection).IsTraced p := by
  have hcopied := traces_forM (traces_copySymbol hordered) collection.kept
  have hall : Traces p (fun _ => True) (copyAll p collection.kept) fun _ _ => True := by
    refine traces_bind hcopied fun _ t ht _ => ?_
    exact traces_forM (fun index => traces_implyType ⟨index⟩) _ t ht trivial
  exact (hall {} (BundleTree.isTraced_empty p) trivial).1

end Project

end Build

end DeclBundle
