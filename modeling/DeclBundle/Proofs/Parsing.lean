import DeclBundle.Proofs.Reading

/-!
# Parsers use every node once

What a parser is given it puts into one slot of a new node, gives back, or gives up, and so it does
with each node that it adds. When all that it is given is there already, the nodes that it adds are
younger than their children, and none of them knows the node above it (`Grammar.Spends`). What is
read ahead of the current token stays in the arena, given up.
-/

set_option autoImplicit false
set_option mvcgen.warning false

namespace DeclBundle

open Std.Do

namespace Arena

/-- How often a node is taken: the number of slots that it stands in. A node that does not exist yet
counts once more, for the one slot that it can still be put in. -/
def taken (a : Arena) (n : NodeId) : Nat := a.places n + if n.index < a.size then 0 else 1

theorem places_le_taken (a : Arena) (n : NodeId) : a.places n ≤ a.taken n := Nat.le_add_right _ _

@[grind =] theorem taken_setDoc (a : Arena) (slot : Slot) (text : String) (n : NodeId) :
    (a.setDoc slot text).taken n = a.taken n := rfl

/-- A new node takes its children, and can be taken once itself. -/
theorem taken_add (a : Arena) (form : Form Slot) (span : Text.Span) (n : NodeId) :
    (a.add form span).1.taken n + [some (a.add form span).2].count (some n) =
      a.taken n + form.children.count (some n) := by
  have hchildren : (form.children.filterMap id).count n = form.children.count (some n) := by
    rw [List.count_filterMap]
    exact List.countP_congr fun slot _ => by cases slot <;> simp
  have hself : [some (a.add form span).2].count (some n) = if n.index = a.size then 1 else 0 := by
    have hiff : (some (a.add form span).2 == some n) = true ↔ n.index = a.size := by
      rw [beq_iff_eq, Option.some.injEq]
      exact ⟨fun h => by rw [← h, index_add], fun h => congrArg NodeId.mk h.symm⟩
    rw [List.count_singleton]
    exact if_congr hiff rfl rfl
  unfold taken
  rw [places_add, size_add, hchildren, hself]
  split <;> split <;> split <;> omega

/-- Every node is younger than its children. -/
def IsOrdered (a : Arena) : Prop :=
  ∀ n form child, a.form? (some n) = some form → some child ∈ form.children → child.index < n.index

/-- What can still be taken is there, so a new node is younger than its children. -/
theorem IsOrdered.add {a : Arena} (h : a.IsOrdered) {form : Form Slot}
    (hfree : ∀ n, a.taken n + form.children.count (some n) ≤ 1) (span : Text.Span) :
    (a.add form span).1.IsOrdered := by
  intro n found child hfound hchild
  by_cases hn : n.index < a.size
  · rw [form?_add_of_lt hn] at hfound
    exact h n found child hfound hchild
  · have hlt := lt_size_of_form? hfound
    rw [size_add] at hlt
    have hindex : n.index = a.size := by omega
    have hself : n = (a.add form span).2 := congrArg NodeId.mk hindex
    rw [hself, form?_add_self] at hfound
    obtain rfl := Option.some.inj hfound
    have hcount := List.count_pos_iff.2 hchild
    have hle := hfree child
    unfold taken at hle
    split at hle <;> omega

/-- The nodes as a parser leaves them: in order, and without the nodes above them. -/
structure IsRaw (a : Arena) : Prop where
  isOrdered : a.IsOrdered
  parent_eq : ∀ slot, a.parent slot = none

theorem isRaw_empty : empty.IsRaw where
  isOrdered _ _ _ hform := by cases hform
  parent_eq slot := by cases slot <;> rfl

@[grind =] theorem isRaw_setDoc (a : Arena) (slot : Slot) (text : String) :
    (a.setDoc slot text).IsRaw ↔ a.IsRaw :=
  ⟨fun h => ⟨h.isOrdered, h.parent_eq⟩, fun h => ⟨h.isOrdered, h.parent_eq⟩⟩

theorem IsRaw.add {a : Arena} (h : a.IsRaw) {form : Form Slot}
    (hfree : ∀ n, a.taken n + form.children.count (some n) ≤ 1) (span : Text.Span) :
    (a.add form span).1.IsRaw where
  isOrdered := h.isOrdered.add hfree span
  parent_eq slot := by
    cases slot with
    | none => rfl
    | some n =>
      have hold : a.nodes[n.index]?.bind Node.parent = none := h.parent_eq (some n)
      change (a.nodes.push ⟨form, span, none⟩)[n.index]?.bind Node.parent = none
      rw [Array.getElem?_push]
      split
      · rfl
      · exact hold

end Arena

namespace Grammar

open Text (Cursor)

/-- The parser takes what it is given, and each new node, at most once, where what it gives back can
still be taken. It keeps the arena raw. -/
abbrev Spends {α : Type} (uses : List Slot) (a : Arena) (gives : α → List Slot) :
    PostCond α (.arg State .pure) :=
  ⇓ r s => ⌜(∀ n, s.arena.taken n + (gives r).count (some n) ≤ a.taken n + uses.count (some n)) ∧
    ((∀ n, a.taken n + uses.count (some n) ≤ 1) → a.IsRaw → s.arena.IsRaw)⌝

/-- The parser makes a node. -/
abbrev Makes (a : Arena) : PostCond Slot (.arg State .pure) := Spends [] a fun r => [r]

/-- The parser makes several nodes. -/
abbrev MakesAll (a : Arena) : PostCond (List Slot) (.arg State .pure) := Spends [] a id

variable (a : Arena)

/-- A parser that gives up nodes on the way takes less than it could. The bound is stated by itself,
as what comes after such a node starts on another arena than the parser. -/
theorem spends_of_le {α : Type} {m : Parser α} {uses : List Slot} {gives : α → List Slot}
    (h : ∀ before : NodeId → Nat, (∀ n, a.taken n ≤ before n) → ⦃StartsOn a⦄ m
      ⦃⇓ r s =>
        ⌜(∀ n, s.arena.taken n + (gives r).count (some n) ≤ before n + uses.count (some n)) ∧
        ((∀ n, before n + uses.count (some n) ≤ 1) → a.IsRaw → s.arena.IsRaw)⌝⦄) :
    ⦃StartsOn a⦄ m ⦃Spends uses a gives⦄ :=
  h a.taken fun _ => Nat.le_refl _

/-! ## Putting parsers together -/

section Composition

variable {α β : Type} {a} {uses uses' : List Slot} {gives : β → List Slot}

/-- A parser need not take all that it is given. -/
theorem spends_mono {x : Parser β} (hx : ⦃StartsOn a⦄ x ⦃Spends uses' a gives⦄)
    (hle : ∀ n : NodeId, uses'.count (some n) ≤ uses.count (some n)) :
    ⦃StartsOn a⦄ x ⦃Spends uses a gives⦄ := by
  intro s hs
  obtain ⟨hgiven, hraw⟩ := hx s hs
  have hcount : ∀ n, a.taken n + uses'.count (some n) ≤ a.taken n + uses.count (some n) := fun n =>
    Nat.add_le_add_left (hle n) _
  exact ⟨fun n => (hgiven n).trans (hcount n), fun hfree => hraw fun n =>
    (hcount n).trans (hfree n)⟩

/-- What is given back is part of what was given. -/
theorem spends_pure {r : β} (hle : ∀ n : NodeId, (gives r).count (some n) ≤ uses.count (some n)) :
    ⦃StartsOn a⦄ (pure r : Parser β) ⦃Spends uses a gives⦄ := by
  intro s hs
  obtain rfl : s.arena = a := hs
  exact ⟨fun n => Nat.add_le_add_left (hle n) _, fun _ hraw => hraw⟩

/-- The parser behind another one can take what that one leaves and gives. -/
theorem spends_bind (rest : List Slot) {x : Parser α} {f : α → Parser β} {taken : List Slot}
    {made : α → List Slot} (hx : ⦃StartsOn a⦄ x ⦃Spends taken a made⦄)
    (hle : ∀ n : NodeId, (taken ++ rest).count (some n) ≤ uses.count (some n))
    (hf : ∀ r a, ⦃StartsOn a⦄ f r ⦃Spends (made r ++ rest) a gives⦄) :
    ⦃StartsOn a⦄ (x >>= f) ⦃Spends uses a gives⦄ := by
  intro s hs
  obtain ⟨hmade, hraw⟩ := hx s hs
  obtain ⟨hgiven, hraw'⟩ := hf (x.run s).1 _ (x.run s).2 rfl
  have hcount : ∀ n, a.taken n + taken.count (some n) + rest.count (some n) ≤
      a.taken n + uses.count (some n) := by
    intro n
    rw [Nat.add_assoc, ← List.count_append]
    exact Nat.add_le_add_left (hle n) _
  have hcount' : ∀ n, (x.run s).2.arena.taken n + (made (x.run s).1 ++ rest).count (some n) ≤
      a.taken n + uses.count (some n) := by
    intro n
    rw [List.count_append, ← Nat.add_assoc]
    exact (Nat.add_le_add_right (hmade n) _).trans (hcount n)
  refine ⟨fun n => (hgiven n).trans (hcount' n), fun hfree hstart => ?_⟩
  have hraw := hraw (fun n => (Nat.le_add_right _ _).trans ((hcount n).trans (hfree n))) hstart
  exact hraw' (fun n => (hcount' n).trans (hfree n)) hraw

/-- What a parser makes is given to the parser behind it. -/
theorem gives_bind {x : Parser α} {f : α → Parser β} {made : α → List Slot}
    (hx : ⦃StartsOn a⦄ x ⦃Spends [] a made⦄)
    (hf : ∀ r a, ⦃StartsOn a⦄ f r ⦃Spends (made r ++ uses) a gives⦄) :
    ⦃StartsOn a⦄ (x >>= f) ⦃Spends uses a gives⦄ :=
  spends_bind uses hx (fun _ => Nat.le_refl _) hf

/-- A node that is not always made is an empty slot otherwise. -/
theorem optional_bind {c : Bool} {x : Parser Slot} {f : Slot → Parser β}
    (hx : ⦃StartsOn a⦄ x ⦃Makes a⦄) (hf : ∀ r a, ⦃StartsOn a⦄ f r ⦃Spends (r :: uses) a gives⦄) :
    ⦃StartsOn a⦄ (if c then x >>= f else pure none >>= f) ⦃Spends uses a gives⦄ := by
  cases c with
  | true => exact gives_bind hx hf
  | false =>
    have hnone : ⦃StartsOn a⦄ (pure none : Parser Slot) ⦃Makes a⦄ := spends_pure fun n =>
      Nat.le_refl _
    exact gives_bind hnone hf

/-- What a parser makes is given up with its result. -/
theorem gives_discard {x : Parser α} {made : α → List Slot}
    (hx : ⦃StartsOn a⦄ x ⦃Spends [] a made⦄) :
    ⦃StartsOn a⦄ discard x ⦃Spends [] a fun _ => []⦄ := by
  rw [discard_eq]
  exact gives_bind hx fun _ _ => spends_pure fun _ => Nat.zero_le _

end Composition

/-! ## Nodes -/

@[spec] theorem finish_spec (form : Form Slot) (start : Nat) :
    ⦃StartsOn a⦄ finish form start ⦃Spends form.children a fun r => [r]⦄ := by
  intro s hs
  obtain rfl : s.arena = a := hs
  exact ⟨fun n => (Arena.taken_add _ _ _ n).le, fun hfree hraw => hraw.add hfree _⟩

/-- The children of a node are part of what was given. -/
theorem finish_spends {form : Form Slot} {uses : List Slot} (start : Nat)
    (hle : ∀ n : NodeId, form.children.count (some n) ≤ uses.count (some n)) :
    ⦃StartsOn a⦄ finish form start ⦃Spends uses a fun r => [r]⦄ :=
  spends_mono (finish_spec a form start) hle

@[spec] theorem finishEmpty_spec (form : Form Slot) :
    ⦃StartsOn a⦄ finishEmpty form ⦃Spends form.children a fun r => [r]⦄ := by
  intro s hs
  obtain rfl : s.arena = a := hs
  exact ⟨fun n => (Arena.taken_add _ _ _ n).le, fun hfree hraw => hraw.add hfree _⟩

@[spec] theorem attachDoc_spec (node : Slot) (doc : Option Text.Excerpt) :
    ⦃StartsOn a⦄ attachDoc node doc ⦃Spends [] a fun _ => []⦄ := by
  mvcgen [attachDoc] with grind

@[spec] theorem finishVerbatim_spec (start : Cursor) :
    ⦃StartsOn a⦄ finishVerbatim start ⦃Makes a⦄ := by
  mvcgen [finishVerbatim] with grind [Form.children]

-- triples are put together without looking into what a parser does to its state
attribute [local irreducible] kind value offset isAt advance optional nextKind report expect? finish
  finishEmpty limit mark rewind giveUp

@[spec] theorem itemsUntil_spec (close : Punctuation) {item : Parser Slot}
    (hitem : ∀ a, ⦃StartsOn a⦄ item ⦃Makes a⦄) (rounds : Nat) (done : List Slot) :
    ⦃StartsOn a⦄ itemsUntil close item rounds done ⦃Spends done a id⦄ := by
  induction rounds generalizing a done with
  | zero =>
    mvcgen [itemsUntil]
    grind
  | succ rounds ih => mvcgen [itemsUntil, hitem, ih] <;> grind

@[spec] theorem commaList_spec (close : Punctuation) {item : Parser Slot}
    (hitem : ∀ a, ⦃StartsOn a⦄ item ⦃Makes a⦄) :
    ⦃StartsOn a⦄ commaList close item ⦃MakesAll a⦄ := by
  mvcgen [commaList, hitem] with grind

/-! ## Names -/

@[spec] theorem identifierName_spec : ⦃StartsOn a⦄ identifierName ⦃Makes a⦄ := by
  mvcgen [identifierName] with grind [Form.children]

@[spec] theorem bindingIdentifier_spec : ⦃StartsOn a⦄ bindingIdentifier ⦃Makes a⦄ := by
  mvcgen [bindingIdentifier] with grind [Form.children]

@[spec] theorem stringLiteral_spec : ⦃StartsOn a⦄ stringLiteral ⦃Makes a⦄ := by
  mvcgen [stringLiteral] with grind [Form.children]

@[spec] theorem exportName_spec : ⦃StartsOn a⦄ exportName ⦃Makes a⦄ := by
  mvcgen [exportName] with grind

@[spec] theorem dottedRest_spec (start rounds : Nat) (entity : Slot) :
    ⦃StartsOn a⦄ dottedRest start rounds entity ⦃Spends [entity] a fun r => [r]⦄ := by
  induction rounds generalizing a entity with
  | zero =>
    mvcgen [dottedRest]
    grind
  | succ rounds ih =>
    unfold dottedRest
    refine keeps_bind (atMark_spec a _) fun atDot => ?_
    split
    · refine keeps_bind (nextKind_spec a) fun next => ?_
      split
      · refine keeps_bind (advance_spec a) fun _ => ?_
        refine gives_bind (identifierName_spec a) fun right a => ?_
        refine spends_bind [] (finish_spec a _ start) (by grind [Form.children]) fun longer a => ?_
        exact ih a longer
      · exact spends_pure fun n => Nat.le_refl _
    · exact spends_pure fun n => Nat.le_refl _

@[spec] theorem entityName_spec : ⦃StartsOn a⦄ entityName ⦃Makes a⦄ := by
  mvcgen [entityName] with grind

@[spec] theorem bindingEntityName_spec : ⦃StartsOn a⦄ bindingEntityName ⦃Makes a⦄ := by
  mvcgen [bindingEntityName] with grind

/-! ## Expressions -/

@[spec] theorem accessChain_spec (start rounds : Nat) (expression : Slot) :
    ⦃StartsOn a⦄ accessChain start rounds expression ⦃Spends [expression] a fun r => [r]⦄ := by
  induction rounds generalizing a expression with
  | zero =>
    mvcgen [accessChain]
    grind
  | succ rounds ih =>
    unfold accessChain
    refine keeps_bind (atMark_spec a _) fun atDot => ?_
    split
    · refine keeps_bind (advance_spec a) fun _ => ?_
      refine keeps_bind (atName_spec a) fun atName => ?_
      split
      · refine gives_bind (identifierName_spec a) fun name a => ?_
        refine spends_bind [] (finish_spec a _ start) (by grind [Form.children]) fun longer a => ?_
        exact ih a longer
      · exact spends_pure fun n => Nat.zero_le _
    · exact spends_pure fun n => Nat.le_refl _

/-- The form of a literal that is made of one token has no children. -/
abbrev GivesLeaf (a : Arena) : PostCond (Option (Form Slot)) (.arg State .pure) :=
  ⇓ r s => ⌜s.arena = a ∧ ∀ form ∈ r, form.children = []⌝

@[spec] theorem tokenLiteral?_spec : ⦃StartsOn a⦄ tokenLiteral? ⦃GivesLeaf a⦄ := by
  mvcgen [tokenLiteral?] with grind [Form.children]

@[spec] theorem negativeLiteral?_spec : ⦃StartsOn a⦄ negativeLiteral? ⦃GivesLeaf a⦄ := by
  mvcgen [negativeLiteral?] with grind [Form.children]

@[spec] theorem simpleExpression_spec : ⦃StartsOn a⦄ simpleExpression ⦃Makes a⦄ := by
  mvcgen [simpleExpression] with grind

@[spec] theorem expression_spec : ⦃StartsOn a⦄ expression ⦃Makes a⦄ := by
  refine spends_of_le a fun before hbefore => ?_
  mvcgen [expression, readsSimpleExpression, lookAhead] with grind

@[spec] theorem propertyName_spec : ⦃StartsOn a⦄ propertyName ⦃Makes a⦄ := by
  mvcgen [propertyName] with grind [Form.children]

@[spec] theorem optionalInitializer_spec : ⦃StartsOn a⦄ optionalInitializer ⦃Makes a⦄ := by
  mvcgen [optionalInitializer] with grind

section Rules

variable {sub : Rules} (hsub : ∀ a notion, ⦃StartsOn a⦄ sub notion ⦃Makes a⦄)

include hsub

/-! ## Object and array literals -/

@[spec] theorem literalProperties_spec (rounds : Nat) (done : List Slot) :
    ⦃StartsOn a⦄ literalProperties sub rounds done ⦃Spends done a (·.getD [])⦄ := by
  induction rounds generalizing a done with
  | zero =>
    mvcgen [literalProperties]
    grind
  | succ rounds ih =>
    unfold literalProperties
    refine keeps_bind (atMark_spec a _) fun atClose => ?_
    split
    · exact spends_pure fun n => List.count_reverse.le
    refine keeps_bind (kind_spec a) fun k => ?_
    extract_lets go
    have hgo : ∀ isName, ⦃StartsOn a⦄ go isName ⦃Spends done a (·.getD [])⦄ := by
      intro isName
      unfold go
      split
      · refine keeps_bind (offset_spec a) fun start => ?_
        refine gives_bind (propertyName_spec a) fun name a => ?_
        refine keeps_bind (optionalMark_spec a _) fun hasValue => ?_
        extract_lets add
        have hadd : ∀ value a,
            ⦃StartsOn a⦄ add value ⦃Spends ([value.join] ++ ([name] ++ done)) a (·.getD [])⦄ := by
          intro value a
          unfold add
          split
          · exact spends_pure fun n => Nat.zero_le _
          refine spends_bind done (finish_spec a _ start) (by
            grind [Form.children]) fun property a => ?_
          refine keeps_bind (optionalMark_spec a _) fun hasNext => ?_
          split
          · exact ih a _
          · exact spends_pure fun n => List.count_reverse.le
        clear_value add
        split
        · refine gives_bind (hsub a .literalValue) fun value a => ?_
          split
          · exact hadd (some (some _)) a
          · exact spends_mono (hadd none a) (by grind)
        · exact spends_mono (hadd (some none) a) (by grind)
      · exact spends_pure fun n => Nat.zero_le _
    clear_value go
    split <;> exact hgo _

@[spec] theorem objectLiteral_spec : ⦃StartsOn a⦄ objectLiteral sub ⦃Makes a⦄ := by
  mvcgen [objectLiteral, hsub] with grind [Form.children]

@[spec] theorem literalElements_spec (rounds : Nat) (done : List Slot) :
    ⦃StartsOn a⦄ literalElements sub rounds done ⦃Spends done a (·.getD [])⦄ := by
  induction rounds generalizing a done with
  | zero =>
    mvcgen [literalElements]
    grind
  | succ rounds ih =>
    unfold literalElements
    refine keeps_bind (atMark_spec a _) fun atClose => ?_
    split
    · exact spends_pure fun n => List.count_reverse.le
    refine keeps_bind (optionalMark_spec a _) fun isHole => ?_
    split
    · exact spends_mono (ih a (none :: done)) (by grind)
    refine gives_bind (hsub a .literalValue) fun value a => ?_
    split
    · exact spends_pure fun n => Nat.zero_le _
    refine keeps_bind (optionalMark_spec a _) fun hasNext => ?_
    split
    · exact ih a _
    · exact spends_pure fun n => List.count_reverse.le

@[spec] theorem arrayLiteral_spec : ⦃StartsOn a⦄ arrayLiteral sub ⦃Makes a⦄ := by
  mvcgen [arrayLiteral, hsub] with grind [Form.children]

@[spec] theorem literalValue_spec : ⦃StartsOn a⦄ literalValue sub ⦃Makes a⦄ := by
  mvcgen [literalValue, hsub] with grind

@[spec] theorem variableInitializer_spec : ⦃StartsOn a⦄ variableInitializer sub ⦃Makes a⦄ := by
  unfold variableInitializer
  refine keeps_bind (atMark_spec a _) fun atBrace => ?_
  refine keeps_bind (atMark_spec a _) fun atBracket => ?_
  extract_lets go
  have hgo : ∀ u a, ⦃StartsOn a⦄ go u ⦃Makes a⦄ := fun _ a => expression_spec a
  clear_value go
  split
  · have hreads : ⦃StartsOn a⦄ lookAhead (readsLiteralValue sub) ⦃Spends [] a fun _ => []⦄ := by
      mvcgen [readsLiteralValue, lookAhead, hsub] with grind
    refine gives_bind hreads fun isLiteral a => ?_
    split
    · refine gives_bind (literalValue_spec a hsub) fun value a => ?_
      split
      · exact spends_pure fun n => Nat.le_refl _
      · exact spends_mono (hgo () a) fun n => Nat.zero_le _
    · exact hgo () a
  · exact hgo () a

/-! ## Binding patterns -/

@[spec] theorem objectPatternElement_spec : ⦃StartsOn a⦄ objectPatternElement sub ⦃Makes a⦄ := by
  unfold objectPatternElement
  refine keeps_bind (offset_spec a) fun start => ?_
  refine keeps_bind (optionalMark_spec a _) fun isRest => ?_
  extract_lets go
  have hgo : ∀ names a, ⦃StartsOn a⦄ go names ⦃Spends [names.2, names.1] a fun r => [r]⦄ := by
    intro names a
    refine gives_bind (optionalInitializer_spec a) fun initializer a => ?_
    exact finish_spends a start (by grind [Form.children])
  clear_value go
  split
  · refine gives_bind (bindingIdentifier_spec a) fun name a => ?_
    rw [pure_bind]
    exact spends_mono (hgo (none, name) a) (by grind)
  refine gives_bind (propertyName_spec a) fun first a => ?_
  refine keeps_bind (optionalMark_spec a _) fun hasColon => ?_
  split
  · refine gives_bind (hsub a .bindingName) fun name a => ?_
    rw [pure_bind]
    exact hgo (first, name) a
  · rw [pure_bind]
    exact spends_mono (hgo (none, first) a) (by grind)

@[spec] theorem objectPattern_spec : ⦃StartsOn a⦄ objectPattern sub ⦃Makes a⦄ := by
  mvcgen [objectPattern, hsub] with grind [Form.children]

@[spec] theorem arrayPatternElements_spec (rounds : Nat) (done : List Slot) :
    ⦃StartsOn a⦄ arrayPatternElements sub rounds done ⦃Spends done a id⦄ := by
  induction rounds generalizing a done with
  | zero =>
    mvcgen [arrayPatternElements]
    grind
  | succ rounds ih =>
    unfold arrayPatternElements
    refine keeps_bind (atMark_spec a _) fun atClose => ?_
    refine keeps_bind (atEnd_spec a) fun atEnd => ?_
    split
    · exact spends_pure fun n => List.count_reverse.le
    refine keeps_bind (offset_spec a) fun start => ?_
    refine keeps_bind (optionalMark_spec a _) fun isHole => ?_
    split
    · refine spends_bind done (finish_spec a _ start) (by grind [Form.children]) fun hole a => ?_
      exact ih a _
    refine keeps_bind (optionalMark_spec a _) fun isRest => ?_
    refine gives_bind (hsub a .bindingName) fun name a => ?_
    refine gives_bind (optionalInitializer_spec a) fun initializer a => ?_
    refine spends_bind done (finish_spec a _ start) (by grind [Form.children]) fun element a => ?_
    refine keeps_bind (optionalMark_spec a _) fun hasNext => ?_
    split
    · exact ih a _
    · exact spends_pure fun n => List.count_reverse.le

@[spec] theorem arrayPattern_spec : ⦃StartsOn a⦄ arrayPattern sub ⦃Makes a⦄ := by
  mvcgen [arrayPattern, hsub] with grind [Form.children]

@[spec] theorem bindingName_spec : ⦃StartsOn a⦄ bindingName sub ⦃Makes a⦄ := by
  mvcgen [bindingName, hsub] with grind

end Rules

end Grammar

end DeclBundle
