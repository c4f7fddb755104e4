import DeclBundle.Proofs.Adding
import DeclBundle.Proofs.Blocks

/-!
# What steps replace

A step that changes a copied node gives it another form, after it has added the nodes that the new
form needs, or it leaves the tree alone. For each such step one lemma says all that it can do, so
that what the step keeps follows from what replacing one form keeps.
-/

set_option autoImplicit false

namespace DeclBundle.Build

theorem run_get (t : BundleTree) : (get : Build BundleTree).run t = (t, t) := rfl

/-! ## Copies -/

/-- A copy without a name gets the name `default`. -/
theorem nameDefault_cases (node : NodeId) (t : BundleTree) :
    let name := ((identifier "default").run t).1
    let t₁ := ((identifier "default").run t).2
    ((nameDefault node).run t).2 = t₁ ∨
      (∃ ms old s hasBody,
        t₁.arena.form? (some node) = some (.functionDeclaration ms old s hasBody) ∧
        ((nameDefault node).run t).2 =
          ((replace node (.functionDeclaration ms (some name) s hasBody)).run t₁).2) ∨
      ∃ ms old xs ys zs, t₁.arena.form? (some node) = some (.classDeclaration ms old xs ys zs) ∧
        ((nameDefault node).run t).2 =
          ((replace node (.classDeclaration ms (some name) xs ys zs)).run t₁).2 := by
  intro name t₁
  unfold nameDefault
  rw [run_bind, run_bind, run_get]
  split
  · next ms old s hasBody hform => exact .inr (.inl ⟨ms, old, s, hasBody, hform, rfl⟩)
  · next ms old xs ys zs hform => exact .inr (.inr ⟨ms, old, xs, ys, zs, hform, rfl⟩)
  · exact .inl rfl

/-- The form of a parameter, a property or a variable that has a value and no type. -/
inductive NeedsType : Form Slot → Prop
  | parameter (ms : Modifiers) (isRest : Bool) (name : Slot) (optional : Bool) (value : NodeId) :
      NeedsType (.parameter ms isRest name optional none (some value))
  | propertyDeclaration (ms : Modifiers) (name : Slot) (optional definite : Bool) (value : NodeId) :
      NeedsType (.propertyDeclaration ms name optional definite none (some value))
  | variableDeclaration (name : Slot) (definite : Bool) (value : NodeId) :
      NeedsType (.variableDeclaration name definite none (some value))

theorem isSome_withImpliedType_iff (type : Slot) {form : Form Slot} :
    (withImpliedType type form).isSome = true ↔ NeedsType form := by
  constructor
  · intro h
    unfold withImpliedType at h
    split at h
    · exact .parameter ..
    · exact .propertyDeclaration ..
    · exact .variableDeclaration ..
    · cases h
  · rintro (_ | _ | _) <;> rfl

/-- The node is the copy of a declaration whose value has a keyword as its type; it still has a
value and no type. -/
def AwaitsType (p : Project) (t : BundleTree) (node : NodeId) (keyword : KeywordType) : Prop :=
  ∃ origin form, t.originOf? node = some origin ∧ p.typeOf origin = .keyword keyword ∧
    t.arena.form? (some node) = some form ∧ NeedsType form

/-- A copied declaration gets the keyword that its value implies as its type, and nothing else
changes. -/
theorem implyType_cases (p : Project) (node : NodeId) (t : BundleTree) :
    (∀ keyword, ¬ AwaitsType p t node keyword) ∧ ((implyType p node).run t).2 = t ∨
      ∃ keyword form form', AwaitsType p t node keyword ∧ t.arena.form? (some node) = some form ∧
        withImpliedType (some ((add (.keywordType keyword)).run t).1) form = some form' ∧
        ((implyType p node).run t).2 =
          ((replace node form').run ((add (.keywordType keyword)).run t).2).2 := by
  unfold implyType
  rw [run_bind, run_get]
  split
  · next origin form horigin hform =>
    split
    · next hsome =>
      have hneeds : NeedsType form := (isSome_withImpliedType_iff none).1 hsome
      split
      · next keyword htype =>
        rw [run_bind]
        split
        · next form' hform' =>
          exact .inr ⟨keyword, form, form', ⟨origin, form, horigin, htype, hform, hneeds⟩, hform,
            hform', rfl⟩
        · next hnone =>
          have hsome' :=
            (isSome_withImpliedType_iff (some ((add (.keywordType keyword)).run t).1)).2 hneeds
          -- whether a type can be put in does not depend on the type
          exact absurd (hsome'.symm.trans (congrArg Option.isSome hnone)) nofun
      · next hother =>
        refine .inl ⟨fun keyword => ?_, rfl⟩
        rintro ⟨origin', _, horigin', htype, -, -⟩
        obtain rfl := Option.some.inj (horigin.symm.trans horigin')
        exact hother keyword htype
    · next hnot =>
      refine .inl ⟨fun keyword => ?_, rfl⟩
      rintro ⟨_, form', -, -, hform', hneeds⟩
      obtain rfl := Option.some.inj (hform.symm.trans hform')
      exact hnot ((isSome_withImpliedType_iff none).2 hneeds)
  · next hnone =>
    refine .inl ⟨fun keyword => ?_, rfl⟩
    rintro ⟨origin, form, horigin, -, hform, -⟩
    exact hnone origin form horigin hform

/-! ## Names -/

/-- The node gets the form of the name that was made of the text. -/
theorem exists_form_setDottedName (node : NodeId) (text : String) (t : BundleTree) :
    let name := ((dottedName text).run t).1
    let t₁ := ((dottedName text).run t).2
    ∃ form, t₁.arena.form? (some name) = some form ∧
      ((setDottedName node text).run t).2 = ((replace node form).run t₁).2 := by
  intro name t₁
  unfold setDottedName
  rw [run_bind, run_bind, run_get]
  split
  · next form hform => exact ⟨form, hform, rfl⟩
  · next hnone =>
    have hname : IsName name t₁.arena := (adds_dottedName text t).2.2 _ (.refl _)
    rcases hname with ⟨text', h⟩ | ⟨left, right, h⟩
    · cases hnone.symm.trans h
    · cases hnone.symm.trans h

/-- The text that takes the place of an import type: what the target is called, and the names that
the import type adds to those that lead there. -/
def importTypeText (a : Arena) (qualifier : Slot) (text : String) (depth : Nat) : String :=
  (((Project.entityParts a qualifier).drop depth).filterMap a.nameText?).foldl
    (fun text part => text ++ "." ++ part) text

/-- An import type becomes a reference by name. -/
theorem run_nameImportType {node : NodeId} {t : BundleTree} {isTypeof : Bool}
    {argument qualifier : Slot} {typeArguments : List Slot}
    (h : t.arena.form? (some node) = some (.importType isTypeof argument qualifier typeArguments))
    (text : String) (depth : Nat) :
    let full := importTypeText t.arena qualifier text depth
    let name := ((dottedName full).run t).1
    ((nameImportType node text depth).run t).2 = ((replace node
      (if isTypeof then .typeQuery (some name) typeArguments
        else .typeReference (some name) typeArguments)).run
        ((dottedName full).run t).2).2 := by
  unfold nameImportType
  rw [run_bind, run_get]
  dsimp only
  rw [h]
  rfl

/-- Nothing but import types becomes a reference by name. -/
theorem nameImportType_cases (node : NodeId) (text : String) (depth : Nat) (t : BundleTree) :
    ((nameImportType node text depth).run t).2 = t ∨
      ∃ isTypeof argument qualifier typeArguments,
        t.arena.form? (some node) =
          some (.importType isTypeof argument qualifier typeArguments) := by
  unfold nameImportType
  rw [run_bind, run_get]
  dsimp only
  split
  · next isTypeof argument qualifier typeArguments hform => exact .inr ⟨_, _, _, _, hform⟩
  · exact .inl rfl

/-! ## Modifiers -/

/-- A statement loses `declare`. -/
theorem stripStatement_cases (statement : Slot) (t : BundleTree) :
    ((stripStatement statement).run t).2 = t ∨
      ∃ node form, t.arena.form? (some node) = some form ∧ ((stripStatement statement).run t).2 =
        ((replace node (form.withModifiers (form.modifiers.erase .declare))).run t).2 := by
  unfold stripStatement
  rw [run_bind, run_get]
  split
  · next node form hform => exact .inr ⟨node, form, hform, rfl⟩
  · exact .inl rfl

/-- A statement gets its modifiers, and then everything inside it. -/
theorem modifyStatement_cases (isMoved : Bool) (statement : NodeId) (t : BundleTree) :
    ((modifyStatement isMoved statement).run t).2 = t ∨
      ∃ form, t.arena.form? (some statement) = some form ∧
        ((modifyStatement isMoved statement).run t).2 =
        ((stripInner (t.arena.size + 1) (some statement)).run
          ((replace statement (form.withModifiers (statementModifiers isMoved form))).run
            t).2).2 := by
  unfold modifyStatement
  rw [run_bind, run_get]
  split
  · exact .inl rfl
  · next form hform => exact .inr ⟨form, hform, rfl⟩

end DeclBundle.Build
