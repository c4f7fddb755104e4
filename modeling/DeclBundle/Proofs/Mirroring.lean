import DeclBundle.Proofs.Descent
import DeclBundle.Proofs.LoadedFiles
import DeclBundle.Proofs.SingleFiles
import DeclBundle.Proofs.TidyNotes

/-!
# Copies mirror their originals

The tree of a bundle notes for each copy where it comes from and for each original which copies it
has. The two notes are inverse to each other, and no node is noted as a copy twice
(`BundleTree.IsTidy`): a step that copies notes only the node that it has just added, so every step
keeps the notes tidy (`Build.KeepsTidy`).

Copying a node of a file adds a tree of new nodes and leaves everything else alone. The tree is the
original again (`BundleTree.Mirrors`), and each new node stands in it once, because the nodes are
added in the order in which a walk leaves them (`Arena.IsPostorder`). The types that values imply
are filled in afterwards, node by node, and only at declarations that have a value of such a type
and no type yet (`Build.FillsTo`).
-/

set_option autoImplicit false

namespace DeclBundle

open Text (Span)

/-! ## Nodes that stay -/

namespace Arena

theorem lt_size_of_get? {a : Arena} {n : NodeId} {node : Node} (h : a.get? (some n) = some node) :
    n.index < a.size := by
  have hform : a.form? (some n) = some node.form := by rw [form?, h]; rfl
  exact lt_size_of_form? hform

theorem get?_add_self (a : Arena) (form : Form Slot) (span : Span) :
    (a.add form span).1.get? (some (a.add form span).2) = some ⟨form, span, none⟩ := by
  show (a.nodes.push _)[a.nodes.size]? = _
  rw [Array.getElem?_push_size]

theorem get?_add_of_lt {a : Arena} {n : NodeId} (h : n.index < a.size) (form : Form Slot)
    (span : Span) :
    (a.add form span).1.get? (some n) = a.get? (some n) := by
  have hlt : n.index < a.nodes.size := h
  simp [get?, add, Array.getElem?_push, Nat.ne_of_lt hlt]

/-- Giving a node another form changes nothing else about it. -/
theorem get?_replace_self {a : Arena} {n : NodeId} {node : Node} (h : a.get? (some n) = some node)
    (form : Form Slot) :
    (a.replace (some n) form).get? (some n) = some { node with form } := by
  have hnode : a.nodes[n.index]? = some node := h
  show (a.nodes.modify n.index _)[n.index]? = _
  rw [Array.getElem?_modify, if_pos rfl, hnode]
  rfl

theorem get?_replace_of_ne {a : Arena} {m n : NodeId} (h : m ≠ n) (form : Form Slot) :
    (a.replace (some n) form).get? (some m) = a.get? (some m) := by
  show (a.nodes.modify n.index _)[m.index]? = _
  rw [Array.getElem?_modify, if_neg fun heq => h (congrArg NodeId.mk heq.symm)]
  rfl

/-! ## Trees of new nodes -/

/-- A walk through the trees below the slots that leaves each node after its children leaves the
nodes `first`, `first + 1` and so on up to `last`, without `last`. -/
inductive IsPostorder (a : Arena) : (first : Nat) → List Slot → (last : Nat) → Prop
  | nil (first : Nat) : IsPostorder a first [] first
  | skip {first last : Nat} {slots : List Slot} (rest : IsPostorder a first slots last) :
      IsPostorder a first (none :: slots) last
  | node {first last : Nat} {slots : List Slot} {n : NodeId} {form : Form Slot}
    (hform : a.form? (some n) = some form)
      (below : IsPostorder a first form.children n.index)
      (rest : IsPostorder a (n.index + 1) slots last) :
      IsPostorder a first (some n :: slots) last

namespace IsPostorder

variable {a b : Arena} {first middle last : Nat} {slots slots' : List Slot}

theorem append (h : IsPostorder a first slots middle) (h' : IsPostorder a middle slots' last) :
    IsPostorder a first (slots ++ slots') last := by
  induction h with
  | nil => exact h'
  | skip _ ih => exact .skip (ih h')
  | node hform below _ _ ih => exact .node hform below (ih h')

theorem mono (h : IsPostorder a first slots last) (hab : a.Extends b) :
    IsPostorder b first slots last := by
  induction h with
  | nil => exact .nil _
  | skip _ ih => exact .skip ih
  | node hform _ _ ihbelow ihrest => exact .node (hab _ _ hform) ihbelow ihrest

theorem le (h : IsPostorder a first slots last) : first ≤ last := by
  induction h with
  | nil => exact Nat.le_refl _
  | skip _ ih => exact ih
  | node _ _ _ ihbelow ihrest => omega

/-- The nodes are those that a walk meets that goes deep enough. -/
theorem perm (h : IsPostorder a first slots last) (depth : Nat) (hdepth : last - first ≤ depth) :
    ((slots.filterMap id).flatMap (descendantsTo (fun n => a.children (some n)) depth)).Perm
      ((List.range' first (last - first)).map NodeId.mk) := by
  induction h generalizing depth with
  | nil first => simp
  | skip _ ih => exact ih depth hdepth
  | @node first last slots n form hform below rest ihbelow ihrest =>
    have hfirst := below.le
    have hlast := rest.le
    obtain ⟨depth, rfl⟩ : ∃ d, depth = d + 1 := ⟨depth - 1, by omega⟩
    have hchildren : a.children (some n) = form.children.filterMap id := by
      rw [children, hform]; rfl
    -- the walk lists the root first, and its number is the last one of its tree
    have hroot : (descendantsTo (fun n => a.children (some n)) (depth + 1) n).Perm
        ((List.range' first (n.index - first)).map NodeId.mk ++ [n]) := by
      rw [descendantsTo, hchildren]
      exact ((ihbelow depth (by omega)).cons n).trans (List.perm_append_singleton n _).symm
    have hrange : (List.range' first (last - first)).map NodeId.mk =
        ((List.range' first (n.index - first)).map NodeId.mk ++ [n]) ++
          (List.range' (n.index + 1) (last - (n.index + 1))).map NodeId.mk := by
      have hcount : last - first = n.index - first + (1 + (last - (n.index + 1))) := by omega
      rw [hcount, ← List.range'_append_1, ← List.range'_append_1, Nat.add_sub_cancel' hfirst]
      simp
    have hslots : (some n :: slots).filterMap id = n :: slots.filterMap id := rfl
    rw [hrange, hslots, List.flatMap_cons]
    exact hroot.append (ihrest (depth + 1) (by omega))

end IsPostorder

/-- All nodes from one number on hang below one root, each of them once. -/
theorem perm_preorder {a : Arena} {root : NodeId} {first : Nat}
    (h : IsPostorder a first [some root] a.size) :
    (a.preorder root).Perm ((List.range' first (a.size - first)).map NodeId.mk) := by
  rw [preorder, preorderTo_eq, List.append_nil]
  have hperm := h.perm (a.size + 1) (by omega)
  simpa using hperm

end Arena

namespace BundleTree

/-! ## Mirrors -/

/-- In the slot of the tree is again what is in the slot of the file. Both are empty, or the node of
the tree has the form of the other one, with mirrors in the places of the children, its place and
its comment, and is noted as a copy of it. -/
inductive Mirrors (t : BundleTree) (source : Arena) (file : FileId) : Slot → Slot → Prop
  | empty : Mirrors t source file none none
  | node {n m : NodeId} {found made : Node} (pairs : Form (Slot × Slot))
    (hfound : source.get? (some n) = some found)
      (hmade : t.arena.get? (some m) = some made) (hold : pairs.map Prod.fst = found.form)
      (hnew : pairs.map Prod.snd = made.form) (hspan : made.span = found.span)
      (hdoc : t.arena.doc? (some m) = source.doc? (some n))
      (horigin : t.originOf? m = some ⟨file, some n⟩)
      (children : ∀ pair ∈ pairs.children, Mirrors t source file pair.1 pair.2) :
      Mirrors t source file (some n) (some m)

/-- Nodes are added, and all that is known of the others is kept. -/
structure Precedes (t t' : BundleTree) : Prop extends Follows t t' where
  get?_eq : ∀ n : NodeId, n.index < t.arena.size → t'.arena.get? (some n) = t.arena.get? (some n)
  doc?_eq : ∀ n : NodeId, n.index < t.arena.size → t'.arena.doc? (some n) = t.arena.doc? (some n)
  statements_eq : t'.statements = t.statements

variable {t t' t'' : BundleTree} {source : Arena} {file : FileId}

theorem Precedes.refl (t : BundleTree) : t.Precedes t :=
  ⟨.refl t, fun _ _ => rfl, fun _ _ => rfl, rfl⟩

theorem Precedes.trans (h : t.Precedes t') (h' : t'.Precedes t'') : t.Precedes t'' where
  toFollows := h.toFollows.trans h'.toFollows
  get?_eq n hn := (h'.get?_eq n (Nat.lt_of_lt_of_le hn h.size_le)).trans (h.get?_eq n hn)
  doc?_eq n hn := (h'.doc?_eq n (Nat.lt_of_lt_of_le hn h.size_le)).trans (h.doc?_eq n hn)
  statements_eq := h'.statements_eq.trans h.statements_eq

theorem Precedes.extends_arena (h : t.Precedes t') : t.arena.Extends t'.arena := by
  intro slot form hform
  cases slot with
  | none => cases hform
  | some n => rw [Arena.form?, h.get?_eq n (Arena.lt_size_of_form? hform), ← Arena.form?, hform]

theorem Mirrors.mono {origin slot : Slot} (hmirrors : t.Mirrors source file origin slot)
    (h : t.Precedes t') :
    t'.Mirrors source file origin slot := by
  induction hmirrors with
  | empty => exact .empty
  | node pairs hfound hmade hold hnew hspan hdoc horigin _ ih =>
    have hlt := Arena.lt_size_of_get? hmade
    exact .node pairs hfound ((h.get?_eq _ hlt).trans hmade) hold hnew hspan
      ((h.doc?_eq _ hlt).trans hdoc)
      ((h.origin_eq _ hlt).trans horigin) ih

/-- The slots are filled with mirrors of nodes of a file, and nothing else is added to the tree or
changed in it. -/
structure CopiesNodes (source : Arena) (file : FileId) (nodes slots : List Slot)
    (t t' : BundleTree) : Prop where
  isTidy : t'.IsTidy
  precedes : t.Precedes t'
  mirrors : List.Forall₂ (t'.Mirrors source file) nodes slots
  isPostorder : t'.arena.IsPostorder t.arena.size slots t'.arena.size

theorem CopiesNodes.cons {node slot : Slot} {nodes slots : List Slot}
    (h : CopiesNodes source file [node] [slot] t t')
    (h' : CopiesNodes source file nodes slots t' t'') :
    CopiesNodes source file (node :: nodes) (slot :: slots) t t'' where
  isTidy := h'.isTidy
  precedes := h.precedes.trans h'.precedes
  mirrors := by
    cases h.mirrors with
    | cons hmirrors _ => exact .cons (hmirrors.mono h'.precedes) h'.mirrors
  isPostorder := (h.isPostorder.mono h'.precedes.extends_arena).append h'.isPostorder

theorem copiesNodes_nil (ht : t.IsTidy) : CopiesNodes source file [] [] t t :=
  ⟨ht, .refl t, .nil, .nil _⟩

theorem copiesNodes_empty (ht : t.IsTidy) : CopiesNodes source file [none] [none] t t :=
  ⟨ht, .refl t, .cons .empty .nil, .skip (.nil _)⟩

end BundleTree

namespace Build

open BundleTree (CopiesNodes)

variable {p : Project} {t t₁ : BundleTree} {source : Arena} {file : FileId}

/-! ## Copies -/

theorem copiesNodes_mapM {f : Slot → Build Slot} {nodes : List Slot} (ht : t.IsTidy)
    (h : ∀ node ∈ nodes, ∀ t : BundleTree, t.IsTidy →
      CopiesNodes source file [node] [((f node).run t).1] t ((f node).run t).2) :
    CopiesNodes source file nodes ((nodes.mapM f).run t).1 t ((nodes.mapM f).run t).2 := by
  induction nodes generalizing t with
  | nil => exact BundleTree.copiesNodes_nil ht
  | cons node nodes ih =>
    have hfirst := h node List.mem_cons_self t ht
    rw [List.mapM_cons]
    exact hfirst.cons (ih hfirst.isTidy fun other hother => h other (List.mem_cons_of_mem _ hother))

theorem precedes_addCopy (source : Arena) (origin : NodeRef) (form : Form Slot) (span : Span)
    (t : BundleTree) :
    t.Precedes ((do
      let copy ← addAt span form
      recordCopy source origin copy
      return some copy : Build Slot).run t).2 := by
  let n : NodeId := ⟨t.arena.size⟩
  let t₁ : BundleTree := ((addAt span form).run t).2
  have hne : ∀ m : NodeId, m.index < t.arena.size → n ≠ m := fun m hm heq =>
    Nat.lt_irrefl _ (heq ▸ hm)
  refine ⟨⟨?_, fun m hm => ?_⟩, fun m hm => ?_, fun m hm => ?_, rfl⟩
  · exact ((size_recordCopy source origin n t₁).trans (t.arena.size_add form span)) ▸ Nat.le_succ _
  · exact (originOf?_recordCopy source origin n m t₁).trans (if_neg (hne m hm))
  · exact (get?_recordCopy source origin n t₁ (some m)).trans (Arena.get?_add_of_lt hm form span)
  · exact (doc?_recordCopy source origin n m t₁).trans (if_neg (hne m hm))

/-- A node is added above the mirrors of the children of its original. -/
theorem copiesNodes_addCopy {n : NodeId} {found : Node} {form : Form Slot}
    {pairs : Form (Slot × Slot)} (hfound : source.get? (some n) = some found)
    (hold : pairs.map Prod.fst = found.form) (hnew : pairs.map Prod.snd = form)
    (h : CopiesNodes source file found.form.children form.children t t₁) :
    let copied : Build Slot := do
      let copy ← addAt found.span form
      recordCopy source ⟨file, some n⟩ copy
      return some copy
    CopiesNodes source file [some n] [(copied.run t₁).1] t (copied.run t₁).2 := by
  intro copied
  let m : NodeId := ⟨t₁.arena.size⟩
  let t₂ : BundleTree := ((addAt found.span form).run t₁).2
  let t' : BundleTree := (copied.run t₁).2
  have htidy : t'.IsTidy := keepsTidy_addCopy source ⟨file, some n⟩ form found.span t₁ h.isTidy
  have hprecedes : t₁.Precedes t' := precedes_addCopy source ⟨file, some n⟩ form found.span t₁
  have hsize : t'.arena.size = m.index + 1 :=
    (size_recordCopy source ⟨file, some n⟩ m t₂).trans (t₁.arena.size_add form found.span)
  have hmade : t'.arena.get? (some m) = some ⟨form, found.span, none⟩ :=
    (get?_recordCopy source ⟨file, some n⟩ m t₂ (some m)).trans
      (t₁.arena.get?_add_self form found.span)
  have hdoc : t'.arena.doc? (some m) = source.doc? (some n) := by
    -- no comment can be left over from before, since the node is new
    have hnone : t₁.arena.doc? (some m) = none :=
      Option.eq_none_iff_forall_ne_some.2 fun text htext =>
        Nat.lt_irrefl _ (h.isTidy.doc_lt m text htext)
    refine (doc?_recordCopy source ⟨file, some n⟩ m m t₂).trans ((if_pos rfl).trans ?_)
    rw [show t₂.arena.doc? (some m) = none from hnone, Option.or_none]
  have horigin : t'.originOf? m = some ⟨file, some n⟩ :=
    (originOf?_recordCopy source ⟨file, some n⟩ m m t₂).trans (if_pos rfl)
  have hchildren : ∀ pair ∈ pairs.children, t'.Mirrors source file pair.1 pair.2 := by
    have hmirrors := h.mirrors
    rw [← hold, ← hnew, Form.children_map, Form.children_map, List.forall₂_map_left_iff,
      List.forall₂_map_right_iff, List.forall₂_same] at hmirrors
    exact fun pair hpair => (hmirrors pair hpair).mono hprecedes
  refine ⟨htidy, h.precedes.trans hprecedes, ?_, ?_⟩
  · exact .cons (.node pairs hfound hmade hold hnew rfl hdoc horigin hchildren) .nil
  · have hform : t'.arena.form? (some m) = some form := by rw [Arena.form?, hmade]; rfl
    have hbelow := h.isPostorder.mono hprecedes.extends_arena
    show t'.arena.IsPostorder t.arena.size [some m] t'.arena.size
    rw [hsize]
    exact .node hform hbelow (.nil _)

/-- By induction on the levels that are copied: the children are copied, then the node above them is
added. -/
theorem copiesNodes_copyTo (hordered : source.IsOrdered) (depth : Nat) (node : Slot)
    (hnode : ∀ n : NodeId, node = some n → n.index < depth ∧ n.index < source.size)
    (ht : t.IsTidy) :
    CopiesNodes source file [node] [((copyTo source file depth node).run t).1] t
      ((copyTo source file depth node).run t).2 := by
  induction depth generalizing node t with
  | zero =>
    cases node with
    | none => exact BundleTree.copiesNodes_empty ht
    | some n => exact absurd (hnode n rfl).1 (Nat.not_lt_zero _)
  | succ depth ih =>
    unfold copyTo
    cases node with
    | none => exact BundleTree.copiesNodes_empty ht
    | some n =>
      obtain ⟨hdepth, hlt⟩ := hnode n rfl
      split
      · next hnone =>
        have hsome := Arena.isSome_form?_iff.2 hlt
        rw [Arena.form?, hnone] at hsome
        cases hsome
      · next found hfound =>
        have hform : source.form? (some n) = some found.form := by rw [Arena.form?, hfound]; rfl
        have hchildren : ∀ child ∈ found.form.children, ∀ t : BundleTree, t.IsTidy →
            CopiesNodes source file [child] [((copyTo source file depth child).run t).1] t
              ((copyTo source file depth child).run t).2 := by
          refine fun child hchild t ht => ih child (fun c hc => ?_) ht
          subst hc
          have hbelow := hordered n found.form c hform hchild
          exact ⟨by omega, Nat.lt_trans hbelow hlt⟩
        have hcopied := copiesNodes_mapM ht hchildren
        rw [← Form.state_run_mapM, ← Form.children_run_mapM] at hcopied
        obtain ⟨pairs, hold, hnew, -⟩ := Form.exists_pairs (copyTo source file depth) found.form t
        rw [run_bind]
        exact copiesNodes_addCopy hfound hold hnew hcopied

/-- A node is copied with all that is below it. -/
structure CopiesTree (source : Arena) (file : FileId) (n m : NodeId)
    (t t' : BundleTree) : Prop where
  isTidy : t'.IsTidy
  precedes : t.Precedes t'
  mirrors : t'.Mirrors source file (some n) (some m)
  /-- The new nodes are those of the tree below the copy. -/
  perm : (t'.arena.preorder m).Perm
    ((List.range' t.arena.size (t'.arena.size - t.arena.size)).map NodeId.mk)

theorem copiesTree_copy (hordered : source.IsOrdered) {n : NodeId} (hn : n.index < source.size)
    (ht : t.IsTidy) :
    ∃ m, ((copy source ⟨file, some n⟩).run t).1 = some m ∧
      CopiesTree source file n m t ((copy source ⟨file, some n⟩).run t).2 := by
  have hcopied : CopiesNodes source file [some n] [((copy source ⟨file, some n⟩).run t).1] t
      ((copy source ⟨file, some n⟩).run t).2 :=
    copiesNodes_copyTo hordered (source.size + 1) (some n)
      (fun _ h => Option.some.inj h ▸ ⟨Nat.lt_succ_of_lt hn, hn⟩) ht
  have hmirrors := (List.forall₂_cons.1 hcopied.mirrors).1
  have hpostorder := hcopied.isPostorder
  cases hslot : ((copy source ⟨file, some n⟩).run t).1 with
  | none =>
    rw [hslot] at hmirrors
    cases hmirrors
  | some m =>
    rw [hslot] at hmirrors hpostorder
    exact ⟨m, rfl, hcopied.isTidy, hcopied.precedes, hmirrors, Arena.perm_preorder hpostorder⟩

/-! ## Types that values imply -/

/-- Copies the declarations of symbols. -/
def copySymbols (p : Project) (kept : List SymbolId) : Build Unit := kept.forM (copySymbol p)

/-- Fills in the types that values imply, at all nodes that are there. -/
def implyTypes (p : Project) : Build Unit := do
  let count := (← get).arena.size
  (List.range count).forM fun index => implyType p ⟨index⟩

theorem copyAll_eq (p : Project) (kept : List SymbolId) :
    copyAll p kept = (do copySymbols p kept; implyTypes p) := rfl

theorem keepsTidy_copySymbols (kept : List SymbolId) : KeepsTidy (copySymbols p kept) :=
  keepsTidy_forM keepsTidy_copySymbol kept

theorem AwaitsType.unique {n : NodeId} {keyword other : KeywordType} (h : AwaitsType p t n keyword)
    (h' : AwaitsType p t n other) : keyword = other := by
  obtain ⟨origin, _, horigin, htype, -, -⟩ := h
  obtain ⟨origin', _, horigin', htype', -, -⟩ := h'
  obtain rfl := Option.some.inj (horigin.symm.trans horigin')
  exact DeclaredType.keyword.inj (htype.symm.trans htype')

/-- Node `n` of the first tree has a new node with the keyword as its type, instead of a value. -/
def IsTyped (t t' : BundleTree) (n : NodeId) (keyword : KeywordType) : Prop :=
  ∃ node form type, t.arena.get? (some n) = some node ∧
    withImpliedType (some type) node.form = some form ∧
    t'.arena.get? (some n) = some { node with form } ∧ t.arena.size ≤ type.index ∧
    t'.arena.form? (some type) = some (.keywordType keyword)

/-- Of the first `count` nodes those have got a type that awaited one. Apart from these nothing has
changed, and only types are added. -/
structure FillsTo (p : Project) (t : BundleTree) (count : Nat) (t' : BundleTree) : Prop where
  size_le : t.arena.size ≤ t'.arena.size
  sameNotes : SameNotes t t'
  docs_eq : t'.arena.docs = t.arena.docs
  get?_eq : ∀ n : NodeId, n.index < t.arena.size →
    (n.index < count → ∀ keyword, ¬ AwaitsType p t n keyword) →
    t'.arena.get? (some n) = t.arena.get? (some n)
  isTyped : ∀ (n : NodeId) (keyword : KeywordType), n.index < count → AwaitsType p t n keyword →
    IsTyped t t' n keyword
  isType : ∀ n : NodeId, t.arena.size ≤ n.index → n.index < t'.arena.size →
    ∃ keyword, t'.arena.form? (some n) = some (.keywordType keyword)

theorem fillsTo_zero (p : Project) (t : BundleTree) : FillsTo p t 0 t where
  size_le := Nat.le_refl _
  sameNotes := .refl t
  docs_eq := rfl
  get?_eq _ _ _ := rfl
  isTyped _ _ hn := absurd hn (Nat.not_lt_zero _)
  isType _ hle hlt := absurd hlt (Nat.not_lt.2 hle)

/-- A node that is not reached yet awaits the same type as at first. -/
theorem FillsTo.awaitsType_iff {t' : BundleTree} {n : NodeId} {keyword : KeywordType}
    (h : FillsTo p t n.index t') (hn : n.index < t.arena.size) : AwaitsType p t' n keyword ↔
      AwaitsType p t n keyword := by
  have horigin : t'.originOf? n = t.originOf? n := by
    rw [BundleTree.originOf?, h.sameNotes.origins_eq, BundleTree.originOf?]
  have hget := h.get?_eq n hn fun hlt => absurd hlt (Nat.lt_irrefl _)
  have hform : t'.arena.form? (some n) = t.arena.form? (some n) := by
    rw [Arena.form?, hget, Arena.form?]
  rw [AwaitsType, AwaitsType, horigin, hform]

/-- The next node gets a type. -/
theorem FillsTo.replace {t' : BundleTree} {n : NodeId} {keyword : KeywordType}
    (h : FillsTo p t n.index t') (hn : n.index < t.arena.size) (hawaits : AwaitsType p t n keyword)
    {form form' : Form Slot} (hform : t'.arena.form? (some n) = some form)
    (hform' : withImpliedType (some ((add (.keywordType keyword)).run t').1) form = some form') :
    FillsTo p t (n.index + 1)
      ((replace n form').run ((add (.keywordType keyword)).run t').2).2 := by
  let type : NodeId := ⟨t'.arena.size⟩
  let t₁ : BundleTree := ((add (.keywordType keyword)).run t').2
  let t₂ : BundleTree := ((Build.replace n form').run t₁).2
  have hsize : t₂.arena.size = t'.arena.size + 1 :=
    (t₁.arena.size_replace (some n) form').trans (t'.arena.size_add (.keywordType keyword) .none)
  have hother : ∀ m : NodeId, m ≠ n → m.index < t'.arena.size →
      t₂.arena.get? (some m) = t'.arena.get? (some m) :=
    fun m hne hlt => (Arena.get?_replace_of_ne hne form').trans
      (Arena.get?_add_of_lt hlt (.keywordType keyword) .none)
  -- the type comes behind all nodes that the loop visits, so it is not what is replaced
  have hnew : t₂.arena.form? (some type) = some (.keywordType keyword) := by
    have hne : (some type : Slot) ≠ some n := by
      intro heq
      have hle : t.arena.size ≤ type.index := h.size_le
      rw [Option.some.inj heq] at hle
      exact absurd hn (Nat.not_lt.2 hle)
    exact (Arena.form?_replace_of_ne hne form').trans
      (t'.arena.form?_add_self (.keywordType keyword) .none)
  have holdform : ∀ m : NodeId, t.arena.size ≤ m.index → m.index < t'.arena.size →
      t₂.arena.form? (some m) = t'.arena.form? (some m) := fun m hle hlt => by
    have hne : m ≠ n := fun heq => absurd (heq ▸ hn) (Nat.not_lt.2 hle)
    rw [Arena.form?, hother m hne hlt, Arena.form?]
  refine ⟨hsize ▸ Nat.le_succ_of_le h.size_le, h.sameNotes.trans ⟨rfl, rfl, rfl⟩, h.docs_eq,
    fun m hm hawaited => ?_,
    fun m other hm hother' => ?_, fun m hle hlt => ?_⟩
  · have hne : m ≠ n := by
      rintro rfl
      exact hawaited (Nat.lt_succ_self _) keyword hawaits
    exact (hother m hne (Nat.lt_of_lt_of_le hm h.size_le)).trans
      (h.get?_eq m hm fun hlt => hawaited (Nat.lt_succ_of_lt hlt))
  · by_cases heq : m = n
    · subst heq
      obtain rfl := hawaits.unique hother'
      -- until now the node is as it was
      have hget := h.get?_eq m hn fun hlt => absurd hlt (Nat.lt_irrefl _)
      obtain ⟨node, hnode, rfl⟩ := Option.map_eq_some_iff.1 hform
      have hadded : t₁.arena.get? (some m) = some node :=
        (Arena.get?_add_of_lt (Arena.lt_size_of_get? hnode) (.keywordType keyword) .none).trans
          hnode
      exact ⟨node, form', type, hget.symm.trans hnode, hform', Arena.get?_replace_self hadded form',
        h.size_le, hnew⟩
    · have hlt : m.index < n.index :=
        Nat.lt_of_le_of_ne (Nat.le_of_lt_succ hm) fun hindex => heq (congrArg NodeId.mk hindex)
      obtain ⟨node, form₀, type₀, hnode, himplied, hmade, hle, htype⟩ :=
        h.isTyped m other hlt hother'
      exact ⟨node, form₀, type₀, hnode, himplied,
        (hother m heq (Arena.lt_size_of_get? hmade)).trans hmade, hle,
        (holdform type₀ hle (Arena.lt_size_of_form? htype)).trans htype⟩
  · by_cases hold : m.index < t'.arena.size
    · obtain ⟨other, hform⟩ := h.isType m hle hold
      exact ⟨other, (holdform m hle hold).trans hform⟩
    · have hlast : m = type := congrArg NodeId.mk (show m.index = t'.arena.size by
        have hlt : m.index < t'.arena.size + 1 := hsize ▸ hlt
        omega)
      exact ⟨keyword, hlast ▸ hnew⟩

/-- One round of the loop. -/
theorem FillsTo.step {t' : BundleTree} {count : Nat} (h : FillsTo p t count t')
    (hcount : count < t.arena.size) :
    FillsTo p t (count + 1) ((implyType p ⟨count⟩).run t').2 := by
  let n : NodeId := ⟨count⟩
  have h : FillsTo p t n.index t' := h
  obtain ⟨hnone, heq⟩ | ⟨keyword, form, form', hawaits, hform, hform', heq⟩ :=
    implyType_cases p n t'
  · have hawaits : ∀ keyword, ¬ AwaitsType p t n keyword := fun keyword hn =>
      hnone keyword ((h.awaitsType_iff hcount).2 hn)
    rw [heq]
    refine ⟨h.size_le, h.sameNotes, h.docs_eq, fun m hm hm' => h.get?_eq m hm fun hlt =>
      hm' (Nat.lt_succ_of_lt hlt),
      fun m keyword hm hm' => ?_, h.isType⟩
    have hne : m.index ≠ n.index := by
      intro hindex
      have hmn : m = n := congrArg NodeId.mk hindex
      exact hawaits keyword (hmn ▸ hm')
    exact h.isTyped m keyword (Nat.lt_of_le_of_ne (Nat.le_of_lt_succ hm) hne) hm'
  · rw [heq]
    exact h.replace hcount ((h.awaitsType_iff hcount).1 hawaits) hform hform'

/-- The loop reaches all nodes of the tree that it starts with. -/
theorem fillsTo_implyTypes (p : Project) (t : BundleTree) :
    FillsTo p t t.arena.size ((implyTypes p).run t).2 := by
  have hloop : ∀ count ≤ t.arena.size,
      FillsTo p t count
        (((List.range count).forM fun index => implyType p ⟨index⟩ : Build PUnit).run t).2 := by
    intro count
    induction count with
    | zero => exact fun _ => fillsTo_zero p t
    | succ count ih =>
      intro hle
      have hforM : (List.range (count + 1)).forM (fun index => implyType p ⟨index⟩) =
          ((do (List.range count).forM fun index =>
            implyType p ⟨index⟩; implyType p ⟨count⟩) : Build PUnit) := by
        rw [List.range_succ]
        exact List.forM_append
      rw [hforM]
      exact (ih (Nat.le_of_succ_le hle)).step hle
  exact hloop t.arena.size (Nat.le_refl _)

end Build

namespace Project

variable {entry : String} {options : ProjectOptions} {host : Host} {p : Project}

/-- The tree with copies of everything that is kept mirrors the files that the copies come from. -/
structure IsMirrored (p : Project) (collection : Collection) : Prop where
  /-- A node has an origin exactly when it is among the copies of that. -/
  origin_iff : ∀ w o, (BundleTree.ofCollection p collection).originOf? w = some o ↔
    w ∈ (BundleTree.ofCollection p collection).copiesOf o
  nodup_copies : ((BundleTree.ofCollection p collection).copies.toList.flatMap Prod.snd).Nodup
  /-- Each node of a file can be copied, whatever has been copied before. -/
  copies : ∀ (file : FileId) (source : Arena) (n : NodeId) (t : BundleTree),
    p.arena? file = some source →
    n.index < source.size → t.IsTidy → ∃ m, ((Build.copy source ⟨file, some n⟩).run t).1 = some m ∧
      Build.CopiesTree source file n m t ((Build.copy source ⟨file, some n⟩).run t).2
  isTidy : ∀ kept, ((Build.copySymbols p kept).run {}).2.IsTidy
  /-- After everything is copied, the declarations that await a type get it, and only they
  change. -/
  fillsTo : Build.FillsTo p ((Build.copySymbols p collection.kept).run {}).2
    ((Build.copySymbols p collection.kept).run {}).2.arena.size
      (BundleTree.ofCollection p collection)

theorem isMirrored (hload : load entry options host = .ok p) (collection : Collection) :
    p.IsMirrored collection := by
  have hcopied := Build.keepsTidy_copySymbols (p := p) collection.kept {} BundleTree.isTidy_empty
  have hfills : Build.FillsTo p ((Build.copySymbols p collection.kept).run {}).2
      ((Build.copySymbols p collection.kept).run {}).2.arena.size
          (BundleTree.ofCollection p collection) := by
    rw [BundleTree.ofCollection, Build.copyAll_eq, Build.run_bind]
    exact Build.fillsTo_implyTypes p _
  have htidy : (BundleTree.ofCollection p collection).IsTidy :=
    hcopied.of_sameNotes hfills.sameNotes hfills.docs_eq hfills.size_le
  refine ⟨htidy.origin_iff, htidy.nodup_copies, fun file source n t harena hn ht => ?_,
    fun kept => ?_, hfills⟩
  · exact Build.copiesTree_copy (isTree_of_load hload harena).isOrdered hn ht
  · exact Build.keepsTidy_copySymbols kept {} BundleTree.isTidy_empty

/-- Two variables whose type is written once, and a property that has a value for its type. -/
def sharingModule : String :=
  "export declare const \x7b a, b \x7d: F;\ninterface F \x7b\x7d\nexport class C \x7b x = 1 \x7d\n"

/-- Everything that the module declares. -/
def sharingCollection : Collection := { kept := [⟨1⟩, ⟨3⟩, ⟨2⟩, ⟨4⟩] }

set_option maxRecDepth 1000000 in
theorem copies_sharingModule :
    ((Project.ofFiles "/a.ts" [("/a.ts", sharingModule)]).toOption.map fun p =>
      ((BundleTree.ofCollection p sharingCollection).copiesOf ⟨⟨0⟩, some ⟨6⟩⟩,
        ((Build.copySymbols p sharingCollection.kept).run {}).2.arena.size,
        (BundleTree.ofCollection p sharingCollection).arena.size)) =
          some ([⟨2⟩, ⟨12⟩], 23, 24) :=
  Project.map_ofFiles (by decide) String.toList_ofList (by decide +kernel)

/-- The type of the variables is copied twice, and the property gets a type. -/
theorem isMirrored_sharingModule :
    ∃ p, Project.ofFiles "/a.ts" [("/a.ts", sharingModule)] = .ok p ∧
      (BundleTree.ofCollection p sharingCollection).copiesOf ⟨⟨0⟩, some ⟨6⟩⟩ = [⟨2⟩, ⟨12⟩] ∧
      ((Build.copySymbols p sharingCollection.kept).run {}).2.arena.size <
        (BundleTree.ofCollection p sharingCollection).arena.size ∧
      p.IsMirrored sharingCollection := by
  have h := copies_sharingModule
  cases hp : Project.ofFiles "/a.ts" [("/a.ts", sharingModule)] with
  | error e => simp [hp, Except.toOption] at h
  | ok p =>
    simp only [hp, Except.toOption, Option.map_some, Option.some.injEq, Prod.mk.injEq] at h
    obtain ⟨hcopies, hbefore, hafter⟩ := h
    exact ⟨p, rfl, hcopies, by omega, isMirrored hp sharingCollection⟩

end Project

end DeclBundle
