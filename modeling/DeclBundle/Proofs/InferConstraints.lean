import DeclBundle.Proofs.KeepingTypes
import DeclBundle.Proofs.Proceeding

/-!
# Constraints of `infer` types

A constraint after `infer` is given up where no conditional type may start and a question mark
stands behind it. This is just how a constraint stands in the type after the `extends` of a
conditional type, so what remains is that it never stands there: when a type has been read without
an error, the operand of its `extends` is no `infer` type with a constraint (`Grammar.gives_rules`).
-/

set_option autoImplicit false
-- one instance of `Gives` is put together from as many others as its parser has ends
set_option synthInstance.maxSize 20000

namespace DeclBundle

/-! ## Types without constraints -/

/-- The form is that of a type which is neither conditional nor an `infer` type. -/
def Form.isPlain {α : Type} : Form α → Bool
  | inferType _ | conditionalType .. => false
  | _ => true

namespace Arena

variable {a b : Arena} {slot : Slot}

/-- The node is an `infer` type with a constraint. -/
def IsConstrainedInfer (a : Arena) (slot : Slot) : Prop :=
  ∃ parameter ms name bound default, a.form? slot = some (.inferType parameter) ∧
    a.form? parameter = some (.typeParameter ms name (some bound) default)

/-- The node is a conditional type, and an `infer` type with a constraint stands after its
`extends`. -/
def HasConstrainedOperand (a : Arena) (slot : Slot) : Prop :=
  ∃ check extended whenTrue whenFalse,
    a.form? slot = some (.conditionalType check extended whenTrue whenFalse) ∧
    a.IsConstrainedInfer extended

/-- There is no node, or one with a plain form. -/
def IsPlain (a : Arena) (slot : Slot) : Prop :=
  slot = none ∨ ∃ form, a.form? slot = some form ∧ form.isPlain = true

/-- The node is no conditional type. -/
inductive IsSingle (a : Arena) (slot : Slot) : Prop
  | plain (h : a.IsPlain slot)
  | infer {parameter : Slot} (h : a.form? slot = some (.inferType parameter))

/-- The node is no conditional type, and no `infer` type with a constraint. -/
inductive IsOperand (a : Arena) (slot : Slot) : Prop
  | plain (h : a.IsPlain slot)
  | infer {parameter name default : Slot} {ms : Modifiers}
    (h : a.form? slot = some (.inferType parameter))
      (hparameter : a.form? parameter = some (.typeParameter ms name none default))

/-- The node is no conditional type, or one without a constraint after its `extends`. -/
inductive IsSoundType (a : Arena) (slot : Slot) : Prop
  | single (h : a.IsSingle slot)
  | conditional {check extended whenTrue whenFalse : Slot}
      (h : a.form? slot = some (.conditionalType check extended whenTrue whenFalse))
      (hextended : a.IsOperand extended)

theorem IsPlain.mono (h : a.IsPlain slot) (hext : a.Extends b) : b.IsPlain slot :=
  h.imp_right fun ⟨form, hform, hplain⟩ => ⟨form, hext _ _ hform, hplain⟩

theorem IsOperand.mono (h : a.IsOperand slot) (hext : a.Extends b) : b.IsOperand slot := by
  cases h with
  | plain h => exact .plain (h.mono hext)
  | infer h hparameter => exact .infer (hext _ _ h) (hext _ _ hparameter)

theorem IsSoundType.mono (h : a.IsSoundType slot) (hext : a.Extends b) : b.IsSoundType slot := by
  rcases h with (h | h) | ⟨h, hextended⟩
  · exact .single (.plain (h.mono hext))
  · exact .single (.infer (hext _ _ h))
  · exact .conditional (hext _ _ h) (hextended.mono hext)

/-- What is plain has no other form. -/
theorem IsPlain.isPlain_of_form? (h : a.IsPlain slot) {form : Form Slot}
    (hform : a.form? slot = some form) :
    form.isPlain = true := by
  rcases h with rfl | ⟨form', hform', hplain⟩
  · cases hform
  · rwa [Option.some.inj (hform.symm.trans hform')]

theorem IsOperand.not_isConstrainedInfer (h : a.IsOperand slot) : ¬a.IsConstrainedInfer slot := by
  rintro ⟨parameter, ms, name, bound, default, hform, hbound⟩
  cases h with
  | plain h => cases h.isPlain_of_form? hform
  | infer h hparameter =>
    -- A node has one form only, so both speak of one parameter.
    obtain rfl := Form.inferType.inj (Option.some.inj (h.symm.trans hform))
    cases hparameter.symm.trans hbound

theorem IsSoundType.not_hasConstrainedOperand (h : a.IsSoundType slot) :
    ¬a.HasConstrainedOperand slot := by
  rintro ⟨check, extended, whenTrue, whenFalse, hform, hconstrained⟩
  rcases h with (h | h) | ⟨h, hextended⟩
  · cases h.isPlain_of_form? hform
  · cases h.symm.trans hform
  · obtain ⟨-, rfl, -, -⟩ := Form.conditionalType.inj (Option.some.inj (h.symm.trans hform))
    exact hextended.not_isConstrainedInfer hconstrained

theorem HasConstrainedOperand.mono (h : a.HasConstrainedOperand slot) (hext : a.Extends b) :
    b.HasConstrainedOperand slot := by
  obtain ⟨check, extended, whenTrue, whenFalse, hform, parameter, ms, name, bound, default, hinfer,
    hparameter⟩ := h
  refine ⟨check, extended, whenTrue, whenFalse, hext _ _ hform, parameter, ms, name, bound,
    default, ?_, ?_⟩
  · exact hext _ _ hinfer
  · exact hext _ _ hparameter

end Arena

namespace Grammar

variable {α : Type}

/-! ## What parsers give -/

/-- Wherever a parser starts, `q` holds of the state in which it ends and of the node that it
returns. -/
class Gives (q : State → Slot → Prop) (m : Parser Slot) : Prop where
  gives : ∀ s, q (m s).2 (m s).1

section Giving

variable {q q' : State → Slot → Prop} {f : α → Parser Slot} {g : Slot → Parser Slot} {m : Parser α}
  {x y : Parser Slot}

instance [hf : ∀ a, Gives q (f a)] : Gives q (m >>= f) := ⟨fun s => (hf (m s).1).gives (m s).2⟩

instance (c : Prop) [Decidable c] [Gives q x] [Gives q y] : Gives q (if c then x else y) := by
  split <;> assumption

theorem Gives.andThen (hf : ∀ a, Gives q (f a)) : Gives q (m >>= f) := inferInstance

theorem Gives.weaken (hx : Gives q x) (himp : ∀ s slot, q s slot → q' s slot) : Gives q' x :=
  ⟨fun s => himp _ _ (hx.gives s)⟩

/-- The second parser is told what the first one has given. -/
theorem Gives.bind (hx : Gives q x) (hg : ∀ s slot, q s slot → q' (g slot s).2 (g slot s).1) :
    Gives q' (x >>= g) :=
  ⟨fun s => hg _ _ (hx.gives s)⟩

/-- A parser that is asked when another one has found nothing. -/
theorem Gives.orElse (hx : Gives q x) (hy : Gives q y) : Gives q (do
    if let some node ← x then
      return some node
    y) where
  gives s := by
    have hfound := hx.gives s
    have hother := hy.gives (x s).2
    change q ((match (x s).1 with
      | some node => pure (some node)
      | _ => y : Parser Slot) (x s).2).2 ((match (x s).1 with
      | some node => pure (some node)
      | _ => y : Parser Slot) (x s).2).1
    generalize x s = run at hfound hother ⊢
    obtain ⟨_ | node, t⟩ := run
    · exact hother
    · exact hfound

end Giving

/-! ## Plain types -/

/-- The node is a plain one. -/
abbrev IsPlainAt (s : State) (slot : Slot) : Prop := s.arena.IsPlain slot

theorem form?_finish (form : Form Slot) (start : Nat) (s : State) :
    (finish form start s).2.arena.form? (finish form start s).1 = some form :=
  Arena.form?_add_self _ _ _

theorem gives_finish (form : Form Slot) (h : form.isPlain = true) (start : Nat) :
    Gives IsPlainAt (finish form start) :=
  ⟨fun s => .inr ⟨form, form?_finish form start s, h⟩⟩

instance : Gives IsPlainAt (pure none) := ⟨fun _ => .inl rfl⟩

instance : Gives IsPlainAt missingType := ⟨fun _ => .inr ⟨_, Arena.form?_add_self _ _ _, rfl⟩⟩

instance : Gives IsPlainAt reportMissingType := by unfold reportMissingType; infer_instance

instance (form : Form Slot) (start : Nat) : Gives IsPlainAt (finishLiteralType form start) := by
  unfold finishLiteralType
  exact .andThen fun literal => gives_finish _ rfl start

instance (start : Nat) : Gives IsPlainAt (numericType start) := by
  have hliteral : ∀ text, Gives IsPlainAt (do
      match ← kind with
      | .bigIntLiteral =>
        advance
        finishLiteralType (.bigIntLiteral text) start
      | .numericLiteral =>
        advance
        finishLiteralType (.numericLiteral text) start
      | _ => reportMissingType) := fun text => .andThen fun k => by split <;> infer_instance
  unfold numericType
  infer_instance

variable {sub : Rules}

instance (start : Nat) (isTypeof : Bool) : Gives IsPlainAt (importType sub start isTypeof) := by
  have hlast := fun argument qualifier arguments =>
    gives_finish (.importType isTypeof argument qualifier arguments) rfl start
  unfold importType
  infer_instance

instance (start : Nat) : Gives IsPlainAt (templateType sub start) := by
  unfold templateType
  exact .andThen fun head => .andThen fun _ => .andThen fun rounds => .andThen fun spans =>
    gives_finish _ rfl start

instance (start : Nat) : Gives IsPlainAt (mappedType sub start) := by
  have hlast := fun readonly parameter nameType question type =>
    gives_finish (.mappedType readonly parameter nameType question type) rfl start
  unfold mappedType
  infer_instance

instance (start : Nat) : Gives IsPlainAt (tupleType sub start) := by
  unfold tupleType
  exact .andThen fun _ => .andThen fun rounds => .andThen fun elements => gives_finish _ rfl start

instance (start : Nat) : Gives IsPlainAt (typeReference sub start) := by
  unfold typeReference
  exact .andThen fun name => .andThen fun arguments => gives_finish _ rfl start

instance (start : Nat) : Gives IsPlainAt (otherPrimaryType sub start) := by
  have hthis := gives_finish .thisType rfl start
  have hliteral := fun literal => gives_finish (.literalType literal) rfl start
  have hquery := fun name arguments => gives_finish (.typeQuery name arguments) rfl start
  have hmembers := fun members => gives_finish (.typeLiteral members) rfl start
  have hparenthesized := fun type => gives_finish (.parenthesizedType type) rfl start
  unfold otherPrimaryType
  refine .andThen fun k => ?_
  split <;> infer_instance

instance : Gives IsPlainAt (primaryType sub) := by
  have hkeyword := fun start keyword => gives_finish (.keywordType keyword) rfl start
  unfold primaryType
  refine .andThen fun start => .andThen fun k => ?_
  split <;> infer_instance

/-- Brackets make a new type, or there are none and the type stays what it is. -/
theorem isPlainAt_bracketsAfter (start rounds : Nat) (s : State) (type : Slot)
    (h : IsPlainAt s type) :
    IsPlainAt (bracketsAfter sub start rounds type s).2
      (bracketsAfter sub start rounds type s).1 := by
  induction rounds generalizing s type with
  | zero => exact h
  | succ rounds ih =>
    have hnext (form : Form Slot) (hform : form.isPlain = true) :
        Gives IsPlainAt (finish form start >>= bracketsAfter sub start rounds) :=
      (gives_finish form hform start).bind fun t slot hslot => ih t slot hslot
    have harray := hnext (.arrayType type) rfl
    have hindexed := fun index => hnext (.indexedAccess type index) rfl
    unfold bracketsAfter
    change IsPlainAt ((if _ then pure type else _ : Parser Slot) s).2
      ((if _ then pure type else _ : Parser Slot) s).1
    split
    · exact h
    · refine @Gives.gives _ _ ?_ s
      infer_instance

instance : Gives IsPlainAt (bracketedType sub) := by
  have hprimary : Gives IsPlainAt (primaryType sub) := inferInstance
  unfold bracketedType
  exact .andThen fun start => .andThen fun rounds =>
    hprimary.bind fun s type h => isPlainAt_bracketsAfter start rounds s type h

instance : Gives IsPlainAt (functionType? sub) := by
  have hfunction := fun signature start => gives_finish (.functionType signature) rfl start
  have hconstructor := fun isAbstract signature start =>
    gives_finish (.constructorType isAbstract signature) rfl start
  unfold functionType?
  infer_instance

/-! ## Operands -/

/-- Where the current token is a question mark, and no conditional type may start. -/
def State.EndsOperand (s : State) : Prop :=
  s.noConditional = true ∧ s.lexer.token.kind = .punctuation .question

/-- The node is no conditional type, and no `infer` type with a constraint where it would be the
operand of one. -/
structure IsOperandAt (s : State) (slot : Slot) : Prop where
  single : s.arena.IsSingle slot
  operand : s.EndsOperand → s.arena.IsOperand slot

theorem IsOperandAt.of_plain {s : State} {slot : Slot} (h : IsPlainAt s slot) :
    IsOperandAt s slot :=
  ⟨.plain h, fun _ => .plain h⟩

theorem gives_operand {m : Parser Slot} [h : Gives IsPlainAt m] : Gives IsOperandAt m :=
  h.weaken fun _ _ => .of_plain

/-- A constraint is given up where it would stand in an operand. -/
theorem gives_inferConstraint :
    Gives (fun s bound => s.EndsOperand → bound = none) (inferConstraint sub) where
  gives s := by
    rw [inferConstraint_eq]
    dsimp only
    split
    · exact fun _ => rfl
    · next hkept =>
      -- It was kept, so the flag was off or no question mark follows.
      rintro ⟨hflag, hkind⟩
      refine absurd ?_ hkept
      rw [Bool.and_eq_true, beq_iff_eq]
      exact ⟨hflag, hkind⟩

/-- The node is a type parameter, without a constraint where it would stand in an operand. -/
def IsParameterAt (s : State) (slot : Slot) : Prop :=
  ∃ ms name bound default, s.arena.form? slot = some (.typeParameter ms name bound default) ∧
    (s.EndsOperand → bound = none)

instance : Gives IsParameterAt (inferParameter sub) := by
  have hfinish (start : Nat) (name : Slot) (s : State) (bound : Slot)
    (h : s.EndsOperand → bound = none) :
      IsParameterAt (finish (.typeParameter .empty name bound none) start s).2
        (finish (.typeParameter .empty name bound none) start s).1 :=
    ⟨_, _, _, _, form?_finish _ start s, h⟩
  unfold inferParameter
  refine .andThen fun start => .andThen fun name => .andThen fun isBound => ?_
  dsimp only
  split
  · exact gives_inferConstraint.bind fun s bound h => hfinish start name s bound h
  · exact ⟨fun s => hfinish start name s none fun _ => rfl⟩

variable (sub) in
/-- An `infer` type has what its parameter has. -/
theorem gives_inferType (start : Nat) : Gives IsOperandAt (do
    let parameter ← inferParameter sub
    finish (.inferType parameter) start) := by
  have hparameter : Gives IsParameterAt (inferParameter sub) := inferInstance
  refine hparameter.bind fun s parameter ⟨ms, name, bound, default, hform, hbound⟩ => ?_
  have hinfer := form?_finish (.inferType parameter) start s
  refine ⟨.infer hinfer, fun hends => ?_⟩
  obtain rfl : bound = none := hbound hends
  -- The parameter is still there after one more node.
  exact .infer hinfer (Arena.extends_add _ _ _ _ _ hform)

instance : Gives IsOperandAt (operatorType sub) := by
  have hinfer := fun start => gives_inferType sub start
  have hoperator : ∀ start operator, Gives IsOperandAt (do
      let type ← sub .operatorType
      finish (.typeOperator operator type) start) := fun start operator =>
    .andThen fun type => (gives_finish _ rfl start).weaken fun _ _ => .of_plain
  have hbracketed : Gives IsOperandAt (bracketedType sub) := gives_operand
  unfold operatorType
  refine .andThen fun start => .orElse gives_operand (.andThen fun k => ?_)
  split <;> infer_instance

/-- An operand stays what it is while the current token is looked at. -/
theorem isOperandAt_ask {s : State} {first : Slot} (h : IsOperandAt s first) {p : Punctuation}
    {g : Bool → Parser Slot} (hg : ∀ b, g b = pure first ∨ Gives IsOperandAt (g b)) :
    IsOperandAt ((atMark p >>= g) s).2 ((atMark p >>= g) s).1 := by
  change IsOperandAt (g (s.lexer.token.kind == .punctuation p) s).2
    (g (s.lexer.token.kind == .punctuation p) s).1
  rcases hg (s.lexer.token.kind == .punctuation p) with heq | hgives
  · rw [heq]
    exact h
  · exact hgives.gives s

instance : Gives IsOperandAt (intersectionType sub) := by
  have hfirst : Gives IsOperandAt (operatorType sub) := inferInstance
  unfold intersectionType
  refine .andThen fun start => .andThen fun _ => hfirst.bind fun s first h =>
    isOperandAt_ask h fun more => ?_
  split
  · exact .inr (.andThen fun rounds => .andThen fun types =>
      (gives_finish _ rfl start).weaken fun _ _ => .of_plain)
  · exact .inl rfl

instance : Gives IsOperandAt (unionType sub) := by
  have hfirst : Gives IsOperandAt (intersectionType sub) := inferInstance
  unfold unionType
  refine .andThen fun start => .andThen fun leading => hfirst.bind fun s first h =>
    isOperandAt_ask h fun more => ?_
  split
  · exact .inl rfl
  · exact .inr (.andThen fun rounds => .andThen fun types =>
      (gives_finish _ rfl start).weaken fun _ _ => .of_plain)

/-- A plain type, or an operand that is read where no conditional type may start. -/
theorem isOperand_inside {p q : Parser Slot} [hp : Gives IsPlainAt p] [hq : Gives IsOperandAt q]
    [hkeeps : Keeps false p] [hkeeps' : Keeps false q] {s : State} (hs : s.noConditional = true) :
    let found := match (p s).1 with
      | some node => (some node, (p s).2)
      | none => q (p s).2
    found.2.lexer.token.kind = .punctuation .question → found.2.arena.IsOperand found.1 := by
  have hplain := hp.gives s
  have hflag := (hkeeps.continues s).noConditional_eq.trans hs
  generalize p s = function at hplain hflag ⊢
  obtain ⟨_ | node, t⟩ := function
  · -- The first parser has found nothing, and has left the flag on.
    intro found hkind
    exact (hq.gives t).operand ⟨(hkeeps'.continues t).noConditional_eq.trans hflag, hkind⟩
  · exact fun _ => .plain hplain

variable [KeepingRules false sub]

/-- What stands after the `extends` of a conditional type has no constraint when a question mark
follows. -/
theorem gives_extendedType :
    Gives (fun s extended => s.lexer.token.kind = .punctuation .question →
      s.arena.IsOperand extended) (extendedType sub) where
  gives s := by
    rw [extendedType_eq]
    exact isOperand_inside rfl

/-! ## Types -/

/-- A type without an error is a sound one. -/
abbrev IsSoundAt (s : State) (slot : Slot) : Prop := s.errors = [] → s.arena.IsSoundType slot

theorem IsSoundAt.of_plain {s : State} {slot : Slot} (h : IsPlainAt s slot) : IsSoundAt s slot :=
  fun _ => .single (.plain h)

instance (start : Nat) : Gives IsPlainAt (typePredicate? sub start) := by
  have hlast := fun asserts subject type =>
    gives_finish (.typePredicate asserts subject type) rfl start
  unfold typePredicate?
  infer_instance

omit [KeepingRules false sub] in
/-- To report something is to have an error. -/
theorem report_errors_ne_nil (problem : Problem) (s : State) :
    (report problem s).2.errors ≠ [] := by
  unfold report
  dsimp only [modify, modifyGet, MonadStateOf.modifyGet, StateT.modifyGet]
  split
  · next hsame =>
    rintro (hnil : s.errors = [])
    rw [hnil] at hsame
    cases hsame
  · exact List.cons_ne_nil _ _

theorem kind_of_expectMark {p : Punctuation} {s : State} (h : (expectMark p s).2.errors = []) :
    s.lexer.token.kind = .punctuation p := by
  by_contra hne
  refine report_errors_ne_nil (.expected (TokenKind.punctuation p).description) s ?_
  rw [← h]
  exact congrArg (·.2.errors) (expect?_of_ne hne).symm

variable (sub) in
/-- The rest of a conditional type, from behind its `extends`. -/
theorem gives_conditionalRest (start : Nat) (check : Slot) : Gives IsSoundAt (do
    let extended ← extendedType sub
    expectMark .question
    let whenTrue ← sub .type
    expectMark .colon
    let whenFalse ← sub .type
    finish (.conditionalType check extended whenTrue whenFalse) start) := by
  refine gives_extendedType.bind fun s extended h herrors => ?_
  have hmark : Keeps false (expectMark .question) := inferInstance
  have hbranches : Keeps false (do
    let _ ← sub .type
    expectMark .colon
    sub .type) := inferInstance
  have hquestion := hmark.continues s
  have hrest := hbranches.continues (expectMark .question s).2
  -- Errors only become more, so there was none at the question mark.
  have hkind : s.lexer.token.kind = .punctuation .question :=
    kind_of_expectMark (List.suffix_nil.1 (herrors ▸ hrest.errors))
  have hextended := ((h hkind).mono hquestion.arena).mono hrest.arena
  exact .conditional (form?_finish _ start _) (hextended.mono (Arena.extends_add _ _ _))

instance : Gives IsSoundAt (openType sub) := by
  have hpredicate : ∀ start, Gives IsSoundAt (typePredicate? sub start) := fun start =>
    (inferInstance : Gives IsPlainAt (typePredicate? sub start)).weaken fun _ _ => .of_plain
  have hfunction : Gives IsSoundAt (functionType? sub) :=
    (inferInstance : Gives IsPlainAt (functionType? sub)).weaken fun _ _ => .of_plain
  have hcheck : Gives IsOperandAt (unionType sub) := inferInstance
  unfold openType
  refine .andThen fun start => .orElse (hpredicate start) (.orElse hfunction ?_)
  refine hcheck.bind fun s check h => ?_
  change IsSoundAt ((if _ then pure check else _ : Parser Slot) s).2
    ((if _ then pure check else _ : Parser Slot) s).1
  split
  · -- Without an `extends` the type is the one that would have been checked.
    exact fun _ => .single h.single
  · have hrest := gives_conditionalRest sub start check
    refine @Gives.gives _ _ ?_ s
    infer_instance

instance : Gives IsSoundAt (type sub) := by
  have hopen : Gives IsSoundAt (openType sub) := inferInstance
  -- One level deeper conditional types may start again, whatever the flag was.
  have hinside : Gives IsSoundAt (do
      let saved := (← get).noConditional
      modify fun s => { s with depth := s.depth + 1, noConditional := false }
      let found ← openType sub
      modify fun s => { s with depth := s.depth - 1, noConditional := saved }
      return found) :=
    ⟨fun s => hopen.gives { s with depth := s.depth + 1, noConditional := false }⟩
  have hmissing : Gives IsSoundAt missingType :=
    (inferInstance : Gives IsPlainAt missingType).weaken fun _ _ => .of_plain
  unfold type
  infer_instance

/-- Whatever the depth to which rules may call each other, a type that they read without an error is
sound. -/
theorem gives_rules (depth : Nat) : Gives IsSoundAt (rules depth .type) := by
  cases depth with
  | zero => exact ⟨fun s _ => .single (.plain (.inl rfl))⟩
  | succ depth =>
    have := keepingRules_rules false depth
    exact inferInstanceAs (Gives IsSoundAt (type (rules depth)))

end Grammar

end DeclBundle
