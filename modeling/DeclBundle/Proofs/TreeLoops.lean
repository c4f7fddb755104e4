import DeclBundle.Proofs.ParsingFiles

/-!
# Loops over the nodes of a file

Parents are set by a loop with a stack, and names and patterns are followed by loops from node to
node. None of these counts its rounds. Each is given here by what one round does, and `Ends` says
that it stops, and with which answer. Where children are older than the nodes above them
(`Arena.IsOrdered`), and so are nodes below their parents (`Arena.KnowsParents`), all of them end,
with the answers of the functions of `Arena`.

In a file that has been read the nodes form a tree below the node of the whole file, and each of
them knows the one above it (`isWellLinked_parseFile`).
-/

set_option autoImplicit false

namespace DeclBundle

/-! ## Loops -/

section Loops

variable {σ ρ : Type}

/-- A loop that is started in a state ends with an answer. A round leads to another state or to the
answer. -/
inductive Ends (round : σ → σ ⊕ ρ) : σ → ρ → Prop
  | answer {s : σ} {r : ρ} (h : round s = .inr r) : Ends round s r
  | again {s t : σ} {r : ρ} (h : round s = .inl t) (hrest : Ends round t r) : Ends round s r

/-- A loop has one answer at most. -/
theorem Ends.unique {round : σ → σ ⊕ ρ} {s : σ} {r r' : ρ} (h : Ends round s r)
    (h' : Ends round s r') : r = r' := by
  induction h with
  | answer hround =>
    cases h' with
    | answer hround' => exact Sum.inr.inj (hround.symm.trans hround')
    | again hround' _ => cases hround.symm.trans hround'
  | again hround _ ih =>
    cases h' with
    | answer hround' => cases hround.symm.trans hround'
    | again hround' hrest' =>
      cases Sum.inl.inj (hround.symm.trans hround')
      exact ih hrest'

end Loops

namespace Arena

/-! ## The loops over an arena -/

/-- One round of setting parents: the nodes on the stack still have to be looked at. -/
def setParentsRound : Arena × List NodeId → (Arena × List NodeId) ⊕ Arena
  | (a, []) => .inr a
  | (a, n :: stack) =>
    .inl (a.adopt n (a.children (some n)), (a.children (some n)).reverse ++ stack)

variable (a : Arena)

/-- One round of the way to the first identifier of a name. -/
def leftmostRound (slot : Slot) : Slot ⊕ Slot :=
  match a.form? slot with
  | some (.qualifiedName left _) | some (.propertyAccess left _) => .inl left
  | some (.identifier _) => .inr slot
  | _ => .inr none

/-- One round of the way up through a pattern. -/
def patternRootRound (slot : Slot) : Slot ⊕ Slot :=
  match a.form? slot with
  | some (.objectPattern _) | some (.arrayPattern _) | some (.bindingElement ..) =>
    .inl (a.parent slot)
  | some (.variableDeclaration ..) => .inr slot
  | _ => .inr none

/-- One round of the way up that collects the steps to a binding element. -/
def bindingPathRound : Slot × List BindingKey → (Slot × List BindingKey) ⊕ Option (List BindingKey)
  | (slot, rest) =>
    match a.form? slot with
    | some (.bindingElement isRest propertyName name _) =>
      if isRest then .inr none
      else
        match a.bindingKey? slot propertyName name with
        | some key => .inl (a.parent (a.parent slot), key :: rest)
        | none => .inr none
    | _ => .inr (some rest)

end Arena

namespace Arena

variable {a b : Arena}

theorem children_congr (h : ∀ slot, b.form? slot = a.form? slot) (slot : Slot) :
    b.children slot = a.children slot := by
  rw [children, children, h]

theorem IsOrdered.congr (hordered : a.IsOrdered) (h : ∀ slot, b.form? slot = a.form? slot) :
    b.IsOrdered :=
  fun n form child hn => hordered n form child ((h _).symm.trans hn)

theorem IsOrdered.lt_of_mem_children (h : a.IsOrdered) {n child : NodeId}
    (hchild : child ∈ a.children (some n)) :
    child.index < n.index := by
  obtain ⟨form, hform, hmem⟩ := mem_children_iff.1 hchild
  exact h n form child hform hmem

/-! ## Setting parents -/

theorem size_adopt (n : NodeId) (nodes : List NodeId) : (a.adopt n nodes).size = a.size := by
  unfold adopt
  induction nodes generalizing a with
  | nil => rfl
  | cons child nodes ih => rw [List.foldl_cons, ih, size_modify]

theorem parent_modify (m parent child : NodeId) :
    (a.modify (some m) fun node => { node with parent := some parent }).parent (some child) =
      if child = m ∧ child.index < a.size then some parent else a.parent (some child) := by
  change (a.nodes.modify m.index _)[child.index]?.bind Node.parent =
    if child = m ∧ child.index < a.nodes.size then some parent
      else a.nodes[child.index]?.bind Node.parent
  rw [Array.getElem?_modify]
  by_cases hm : m.index = child.index
  · obtain rfl : m = child := congrArg NodeId.mk hm
    by_cases hlt : m.index < a.nodes.size
    · simp [hlt]
    · simp [hlt]
  · have hne : child ≠ m := fun h => hm (congrArg NodeId.index h.symm)
    simp [hm, hne]

/-- The adopted nodes that are there have the new parent, and the others keep theirs. -/
theorem parent_adopt (n : NodeId) (nodes : List NodeId) (child : NodeId) :
    (a.adopt n nodes).parent (some child) =
      if child ∈ nodes ∧ child.index < a.size then some n else a.parent (some child) := by
  unfold adopt
  induction nodes generalizing a with
  | nil => simp
  | cons first nodes ih =>
    rw [List.foldl_cons, ih, size_modify, parent_modify]
    by_cases hmem : child ∈ nodes
    · by_cases hlt : child.index < a.size <;> simp [hmem, hlt]
    · by_cases hfirst : child = first
      · subst hfirst
        simp [hmem]
      · simp [hmem, hfirst]

/-- The loop goes through the nodes below a node as `setParentsTo` does, and comes back to the rest
of the stack. -/
theorem ends_setParentsTo (hordered : a.IsOrdered) {depth : Nat} {n : NodeId} (hn : n.index < depth)
    {stack : List NodeId} {r : Arena} (h : Ends setParentsRound (setParentsTo depth a n, stack) r) :
    Ends setParentsRound (a, n :: stack) r := by
  induction depth generalizing a n stack with
  | zero => exact absurd hn (Nat.not_lt_zero _)
  | succ depth ih =>
    have hall : ∀ (nodes : List NodeId) (b : Arena), b.IsOrdered → (∀ m ∈ nodes, m.index < depth) →
        Ends setParentsRound (nodes.foldl (setParentsTo depth) b, stack) r →
        Ends setParentsRound (b, nodes ++ stack) r := by
      intro nodes
      induction nodes with
      | nil => exact fun _ _ _ hrest => hrest
      | cons m nodes ihnodes =>
        intro b hb hlt hrest
        refine ih hb (hlt m List.mem_cons_self)
          (ihnodes _ ?_ (fun k hk => hlt k (List.mem_cons_of_mem _ hk)) hrest)
        exact hb.congr (form?_setParentsTo depth b m)
    refine .again rfl (hall _ _ (hordered.congr (form?_adopt a n _)) (fun m hm => ?_) h)
    have hchild := hordered.lt_of_mem_children (List.mem_reverse.1 hm)
    omega

theorem ends_setParents (hordered : a.IsOrdered) (root : Slot) :
    Ends setParentsRound (a, root.toList) (a.setParents root) := by
  cases root with
  | none => exact .answer rfl
  | some n =>
    by_cases hn : n.index < a.size
    · exact ends_setParentsTo hordered (Nat.lt_succ_of_lt hn) (.answer rfl)
    · have hnone : a.children (some n) = [] := children_of_le (Nat.le_of_not_lt hn)
      have hsame : a.setParents (some n) = a.adopt n (a.children (some n)) := by
        rw [setParents, Option.elim_some, setParentsTo, hnone]
        rfl
      refine .again rfl (.answer ?_)
      rw [hsame, hnone]
      rfl

/-- Every parent that a node knows has the node as a child. -/
def KnowsParents (a : Arena) : Prop :=
  ∀ n parent, a.parent (some n) = some parent → n ∈ a.children (some parent)

theorem IsOrdered.lt_parent (hordered : a.IsOrdered) (hknows : a.KnowsParents) {n parent : NodeId}
    (h : a.parent (some n) = some parent) : n.index < parent.index :=
  hordered.lt_of_mem_children (hknows n parent h)

theorem IsRaw.knowsParents (h : a.IsRaw) : a.KnowsParents := by
  intro n parent hn
  cases (h.parent_eq (some n)).symm.trans hn

/-- A node is below another one: its child, the child of one of its children, and so on. -/
abbrev Below (a : Arena) (root n : NodeId) : Prop :=
  Relation.ReflTransGen (fun parent child => child ∈ a.children (some parent)) root n

/-- What holds between two rounds of setting parents below `root` in `a`: nothing but parents has
changed, and each node either is known by its children as their parent or is still below a node of
the stack. -/
structure SettingParents (a : Arena) (root : NodeId) (b : Arena) (stack : List NodeId) : Prop where
  form_eq : ∀ slot, b.form? slot = a.form? slot
  size_eq : b.size = a.size
  knows : b.KnowsParents
  linked : ∀ n, a.Below root n →
    (∀ child ∈ a.children (some n), b.parent (some child) = some n) ∨ ∃ m ∈ stack, a.Below m n

theorem SettingParents.step (htree : a.IsTree) {root n : NodeId} {stack : List NodeId}
    (h : SettingParents a root b (n :: stack)) :
    SettingParents a root (b.adopt n (b.children (some n)))
      ((b.children (some n)).reverse ++ stack) := by
  have hchildren : ∀ slot, b.children slot = a.children slot := children_congr h.form_eq
  have hsize : ∀ m child, child ∈ a.children (some m) → child.index < b.size := by
    intro m child hchild
    obtain ⟨form, hform, -⟩ := mem_children_iff.1 hchild
    have hlt := htree.isOrdered.lt_of_mem_children hchild
    have hm := lt_size_of_form? hform
    rw [h.size_eq]
    omega
  -- a child of another node is no child of this one, so that its parent stays
  have hkeeps : ∀ m child, child ∈ a.children (some m) → b.parent (some child) = some m ∨ m = n →
      (b.adopt n (b.children (some n))).parent (some child) = some m := by
    intro m child hchild hparent
    rw [parent_adopt, hchildren]
    split
    · next hadopted =>
      have huses := isChildOf_some (htree.places_le child) hadopted.1
      exact congrArg some
        (Hangs.parent_unique huses (isChildOf_some (htree.places_le child) hchild))
    · next hnot =>
      refine hparent.resolve_right fun hm => hnot ⟨hm ▸ hchild, hsize m child hchild⟩
  refine ⟨fun slot => (form?_adopt b n _ slot).trans (h.form_eq slot),
    (size_adopt n _).trans h.size_eq, ?_, ?_⟩
  · intro child parent hparent
    rw [children_congr (form?_adopt b n _)]
    rw [parent_adopt] at hparent
    split at hparent
    · next hadopted =>
      cases hparent
      exact hadopted.1
    · exact h.knows child parent hparent
  · intro m hm
    rcases h.linked m hm with hlinked | ⟨above, habove, hbelow⟩
    · exact .inl fun child hchild => hkeeps m child hchild (.inl (hlinked child hchild))
    · rcases List.mem_cons.1 habove with rfl | hstack
      · rcases hbelow.cases_head with rfl | ⟨child, hchild, hrest⟩
        · exact .inl fun child hchild => hkeeps above child hchild (.inr rfl)
        · exact .inr
            ⟨child, List.mem_append_left _ (List.mem_reverse.2 (hchildren _ ▸ hchild)), hrest⟩
      · exact .inr ⟨above, List.mem_append_right _ hstack, hbelow⟩

/-- When the stack is empty all is done. -/
theorem SettingParents.done (htree : a.IsTree) {root : NodeId} {stack : List NodeId} {r : Arena}
    (h : SettingParents a root b stack) (hends : Ends setParentsRound (b, stack) r) :
    SettingParents a root r [] := by
  generalize hs : (b, stack) = s at hends
  induction hends generalizing b stack with
  | answer hround =>
    subst hs
    cases stack with
    | nil =>
      cases Sum.inr.inj hround
      exact h
    | cons n stack => cases hround
  | again hround _ ih =>
    subst hs
    cases stack with
    | nil => cases hround
    | cons n stack =>
      cases Sum.inl.inj hround
      exact ih (h.step htree) rfl

/-- Parents are set once for all nodes below the root. -/
theorem settingParents_setParents (htree : a.IsTree) (hknows : a.KnowsParents) (root : NodeId) :
    SettingParents a root (a.setParents (some root)) [] :=
  SettingParents.done htree
    ⟨fun _ => rfl, rfl, hknows, fun _ hn => .inr ⟨root, List.mem_singleton.2 rfl, hn⟩⟩
    (ends_setParents htree.isOrdered (some root))

/-! ## Following names and patterns -/

theorem ends_leftmostTo (hordered : a.IsOrdered) {depth : Nat} {slot : Slot}
    (hslot : ∀ n, slot = some n → n.index < depth ∨ a.size ≤ n.index) :
    Ends a.leftmostRound slot (leftmostTo depth a slot) := by
  induction depth generalizing slot with
  | zero =>
    have hnone : a.form? slot = none := by
      cases slot with
      | none => rfl
      | some n => exact form?_eq_none_of_le ((hslot n rfl).resolve_left (Nat.not_lt_zero _))
    refine .answer ?_
    rw [leftmostRound, hnone]
    rfl
  | succ depth ih =>
    -- a child has a smaller number than its parent
    have hbefore : ∀ form child, a.form? slot = some form → child ∈ form.children →
        Ends a.leftmostRound child (leftmostTo depth a child) := by
      intro form child hform hchild
      refine ih fun m hm => ?_
      obtain ⟨n, rfl⟩ : ∃ n, slot = some n := Option.ne_none_iff_exists'.1 fun h => by
        simp [h] at hform
      have hlt := hordered n form m hform (hm ▸ hchild)
      have hsize := lt_size_of_form? hform
      rcases hslot n rfl with h | h <;> omega
    rw [leftmostTo]
    cases hform : a.form? slot with
    | none => exact .answer (by rw [leftmostRound, hform])
    | some form =>
      cases form
      case qualifiedName left right =>
        exact .again (by rw [leftmostRound, hform]) (hbefore _ left hform (by simp [Form.children]))
      case propertyAccess left right =>
        exact .again (by rw [leftmostRound, hform]) (hbefore _ left hform (by simp [Form.children]))
      all_goals exact .answer (by rw [leftmostRound, hform])

theorem ends_leftmost (hordered : a.IsOrdered) (slot : Slot) :
    Ends a.leftmostRound slot (a.leftmost slot) :=
  ends_leftmostTo hordered fun n _ => by omega

theorem ends_patternRootTo (hordered : a.IsOrdered) (hknows : a.KnowsParents) {depth : Nat}
    {slot : Slot} (hslot : ∀ n, slot = some n → a.size ≤ depth + n.index) :
    Ends a.patternRootRound slot (patternRootTo depth a slot) := by
  induction depth generalizing slot with
  | zero =>
    have hnone : a.form? slot = none := by
      cases slot with
      | none => rfl
      | some n => exact form?_eq_none_of_le (by have := hslot n rfl; omega)
    refine .answer ?_
    rw [patternRootRound, hnone]
    rfl
  | succ depth ih =>
    -- a parent has a greater number than its child
    have habove :
        Ends a.patternRootRound (a.parent slot) (patternRootTo depth a (a.parent slot)) := by
      refine ih fun m hm => ?_
      cases slot with
      | none => cases hm
      | some n =>
        have hlt := hordered.lt_parent hknows hm
        have hle := hslot n rfl
        omega
    rw [patternRootTo]
    cases hform : a.form? slot with
    | none => exact .answer (by rw [patternRootRound, hform])
    | some form =>
      cases form
      case objectPattern elements => exact .again (by rw [patternRootRound, hform]) habove
      case arrayPattern elements => exact .again (by rw [patternRootRound, hform]) habove
      case bindingElement isRest key name initializer =>
        exact .again (by rw [patternRootRound, hform]) habove
      all_goals exact .answer (by rw [patternRootRound, hform])

theorem ends_bindingRoot (hordered : a.IsOrdered) (hknows : a.KnowsParents) (element : Slot) :
    Ends a.patternRootRound (a.parent element) (a.bindingRoot element) :=
  ends_patternRootTo hordered hknows fun n _ => by omega

theorem ends_bindingPathTo (hordered : a.IsOrdered) (hknows : a.KnowsParents) {depth : Nat}
    {slot : Slot} (hdepth : 0 < depth) (hslot : ∀ n, slot = some n → a.size ≤ depth + n.index)
    (rest : List BindingKey) :
    Ends a.bindingPathRound (slot, rest) (bindingPathTo depth a slot rest) := by
  induction depth generalizing slot rest with
  | zero => exact absurd hdepth (Nat.lt_irrefl _)
  | succ depth ih =>
    rw [bindingPathTo]
    cases hform : a.form? slot with
    | none => exact .answer (by rw [bindingPathRound, hform])
    | some form =>
      cases form
      case bindingElement isRest propertyName name initializer =>
        cases isRest with
        | true => exact .answer (by rw [bindingPathRound, hform]; rfl)
        | false =>
          cases hkey : a.bindingKey? slot propertyName name with
          | none => exact .answer (by simp only [bindingPathRound, hform, hkey]; rfl)
          | some key =>
            -- the element has a pattern above it, and two more levels are left
            obtain ⟨n, rfl⟩ : ∃ n, slot = some n := Option.ne_none_iff_exists'.1 fun h => by
              simp [h] at hform
            have hpattern : ∃ m form, a.parent (some n) = some m ∧
                a.form? (some m) = some form := by
              cases hparent : a.parent (some n) with
              | none => simp [bindingKey?, hparent] at hkey
              | some m =>
                cases hm : a.form? (some m) with
                | none => simp [bindingKey?, hparent, hm] at hkey
                | some form => exact ⟨m, form, rfl, hm⟩
            obtain ⟨m, form, hparent, hm⟩ := hpattern
            have hle := hslot n rfl
            have hlt := hordered.lt_parent hknows hparent
            have hsize := lt_size_of_form? hm
            refine .again (t := (a.parent (a.parent (some n)), key :: rest))
              (by simp only [bindingPathRound, hform, hkey]; rfl) ?_
            simp only [hkey]
            refine ih (by omega) (fun k hk => ?_) _
            rw [hparent] at hk
            have hlt' := hordered.lt_parent hknows hk
            omega
      all_goals exact .answer (by rw [bindingPathRound, hform])

theorem ends_bindingPath (hordered : a.IsOrdered) (hknows : a.KnowsParents) (element : Slot) :
    Ends a.bindingPathRound (element, []) (a.bindingPath? element) :=
  ends_bindingPathTo hordered hknows (Nat.succ_pos _) (fun n _ => by omega) []

end Arena

/-! ## Files -/

/-- The nodes of a file hang together: they are numbered upwards, each is a child of one other node
at most and once, the last one is the file, and all below it know the nodes above them. Every loop
that follows children or parents ends, with the answer of the function of the same name. -/
structure ParsedFile.IsWellLinked (p : ParsedFile) : Prop where
  child_lt : ∀ n child, child ∈ p.arena.children (some n) → child.index < n.index
  places_le : ∀ n, p.arena.places n ≤ 1
  root_last : p.root.index + 1 = p.arena.size
  parent_eq : ∀ n child, p.arena.Below p.root n → child ∈ p.arena.children (some n) →
    p.arena.parent (some child) = some n
  setParents_ends : ∀ root,
    Ends Arena.setParentsRound (p.arena, root.toList) (p.arena.setParents root)
  leftmost_ends : ∀ slot, Ends p.arena.leftmostRound slot (p.arena.leftmost slot)
  bindingRoot_ends : ∀ element,
    Ends p.arena.patternRootRound (p.arena.parent element) (p.arena.bindingRoot element)
  bindingPath_ends : ∀ element,
    Ends p.arena.bindingPathRound (element, []) (p.arena.bindingPath? element)

theorem isRaw_addedFile (file text : String) : (addedFile file text).1.IsRaw := by
  refine (spends_readStatements file text).2.add ?_ _
  exact (spends_readStatements file text).1

/-- The parents of a file are set. -/
theorem settingParents_parseFile (file text : String) :
    Arena.SettingParents (addedFile file text).1 (parseFile file text).root
      (parseFile file text).arena [] := by
  have hset := Arena.settingParents_setParents (isTree_addedFile file text)
    (isRaw_addedFile file text).knowsParents
    (parseFile file text).root
  rwa [← arena_parseFile] at hset

/-- Whatever the text of a file is, its nodes are well linked, and setting their parents has come to
an end. -/
theorem isWellLinked_parseFile (file text : String) :
    (parseFile file text).IsWellLinked ∧
      Ends Arena.setParentsRound ((addedFile file text).1, [(parseFile file text).root])
        (parseFile file text).arena := by
  have htree := isTree_parseFile file text
  have hadded := isTree_addedFile file text
  have hset := settingParents_parseFile file text
  have hchildren := Arena.children_congr hset.form_eq
  have hlast : (addedFile file text).2.index + 1 = (addedFile file text).1.size := by
    rw [addedFile, Arena.index_add, Arena.size_add]
  refine ⟨?_, ?_⟩
  · exact {
      child_lt := fun n child hchild => htree.isOrdered.lt_of_mem_children hchild
      places_le := htree.places_le
      root_last := by rw [root_parseFile, hlast, hset.size_eq]
      parent_eq := fun n child hbelow hchild => by
        rw [hchildren] at hchild
        have hbelow' : (addedFile file text).1.Below (parseFile file text).root n := by
          simpa only [Arena.Below, hchildren] using hbelow
        rcases hset.linked n hbelow' with hlinked | ⟨_, hnone, _⟩
        · exact hlinked child hchild
        · cases hnone
      setParents_ends := Arena.ends_setParents htree.isOrdered
      leftmost_ends := Arena.ends_leftmost htree.isOrdered
      bindingRoot_ends := Arena.ends_bindingRoot htree.isOrdered hset.knows
      bindingPath_ends := Arena.ends_bindingPath htree.isOrdered hset.knows }
  · rw [arena_parseFile]
    exact Arena.ends_setParents hadded.isOrdered (some _)

end DeclBundle
