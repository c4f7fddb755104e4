import DeclBundle.Proofs.Keeping

/-!
# Parsers of types keep what was there before them
-/

set_option autoImplicit false
-- one instance of `Keeps` is put together from as many others as its parser has parts
set_option synthInstance.maxSize 20000

namespace DeclBundle.Grammar

variable {quiet : Bool} {sub : Rules} [KeepingRules quiet sub]

instance : Keeps quiet missingType := by unfold missingType; infer_instance

instance : Keeps quiet reportMissingType := by unfold reportMissingType; infer_instance

instance (form : Form Slot) (start : Nat) : Keeps quiet (finishLiteralType form start) := by
  unfold finishLiteralType
  infer_instance

instance (start : Nat) : Keeps quiet (numericType start) := by
  have hliteral : ∀ text, Keeps quiet (do
      match ← kind with
      | .bigIntLiteral =>
        advance
        finishLiteralType (.bigIntLiteral text) start
      | .numericLiteral =>
        advance
        finishLiteralType (.numericLiteral text) start
      | _ => reportMissingType) := fun text => .andThen fun k => by split <;> infer_instance
  unfold numericType
  infer_instance

instance (start : Nat) (isTypeof : Bool) : Keeps quiet (importType sub start isTypeof) := by
  unfold importType
  infer_instance

instance (rounds : Nat) (done : List Slot) : Keeps quiet (templateSpans sub rounds done) := by
  induction rounds generalizing done with
  | zero => unfold templateSpans; infer_instance
  | succ rounds ih => unfold templateSpans; infer_instance

instance (start : Nat) : Keeps quiet (templateType sub start) := by
  unfold templateType; infer_instance

instance : Keeps quiet readsMappedType := by unfold readsMappedType; infer_instance

instance : Keeps quiet atMappedType := by unfold atMappedType; infer_instance

instance : Keeps quiet leadingSign := by unfold leadingSign; infer_instance

instance (word : TokenKind) : Keeps quiet (mappedSign word) := by unfold mappedSign; infer_instance

instance (start : Nat) : Keeps quiet (mappedType sub start) := by unfold mappedType; infer_instance

instance : Keeps quiet readsNamedElement := by unfold readsNamedElement; infer_instance

instance : Keeps quiet atNamedElement := by unfold atNamedElement; infer_instance

instance : Keeps quiet (tupleElement sub) := by unfold tupleElement; infer_instance

instance (start : Nat) : Keeps quiet (tupleType sub start) := by unfold tupleType; infer_instance

instance (start : Nat) : Keeps quiet (typeReference sub start) := by
  unfold typeReference; infer_instance

instance (start : Nat) : Keeps quiet (otherPrimaryType sub start) := by
  unfold otherPrimaryType
  refine .andThen fun k => ?_
  split <;> infer_instance

instance : Keeps quiet (primaryType sub) := by
  unfold primaryType
  refine .andThen fun start => .andThen fun k => ?_
  split <;> infer_instance

instance (start rounds : Nat) (type : Slot) :
    Keeps quiet (bracketsAfter sub start rounds type) := by
  induction rounds generalizing type with
  | zero => unfold bracketsAfter; infer_instance
  | succ rounds ih => unfold bracketsAfter; infer_instance

instance : Keeps quiet (bracketedType sub) := by unfold bracketedType; infer_instance

instance : Keeps quiet skipParameterStart := by
  have hname : Keeps quiet (do
      match ← kind with
      | .punctuation .openBrace =>
        skipBlock
        return true
      | .punctuation .openBracket =>
        skipBalanced .openBracket .closeBracket
        return true
      | k =>
        unless k.isName do
          return false
        advance
        return true) := .andThen fun k => by split <;> infer_instance
  unfold skipParameterStart
  infer_instance

instance : Keeps quiet readsFunctionType := by
  have hafter : Keeps quiet (do
      match ← kind with
      | .punctuation .colon | .punctuation .comma | .punctuation .question
      | .punctuation .equals => return true
      | .punctuation .closeParen =>
        advance
        atMark .arrow
      | _ => return false) := .andThen fun k => by split <;> infer_instance
  unfold readsFunctionType
  infer_instance

instance : Keeps quiet atFunctionType := by unfold atFunctionType; infer_instance

instance : Keeps quiet (arrowSignature sub) := by unfold arrowSignature; infer_instance

instance : Keeps quiet (functionType? sub) := by unfold functionType?; infer_instance

omit [KeepingRules quiet sub] in
/-- The constraint of an `infer` type is read where no conditional type may start. It is given up
when a question mark stands behind it and none might start before it either. -/
theorem inferConstraint_eq (s : State) :
    let there := (advance s).2
    let found := sub .unionType { there with noConditional := true }
    let back : State := { found.2 with noConditional := there.noConditional }
    inferConstraint sub s =
      if (there.noConditional && back.lexer.token.kind == .punctuation .question) = true then
        (none, (rewind (mark s).1 back).2)
      else (found.1, back) := by
  intro there found back
  change (if (there.noConditional && back.lexer.token.kind == .punctuation .question) = true then
    (rewind (mark s).1 >>= fun _ => pure none : Parser Slot) else pure found.1) back = _
  split <;> rfl

instance : Keeps quiet (inferConstraint sub) where
  continues s := by
    have hadvance : s.Continues quiet (advance s).2 := Keeps.continues s
    have hread : Keeps quiet (sub .unionType) := inferInstance
    have hfound := hread.continues { (advance s).2 with noConditional := true }
    have hback : (advance s).2.Continues quiet
        { (sub .unionType { (advance s).2 with noConditional := true }).2 with
          noConditional := (advance s).2.noConditional } :=
      ⟨hfound.lexer, hfound.errors, hfound.arena, hfound.depth_eq, hfound.isModule_eq, rfl⟩
    rw [inferConstraint_eq]
    dsimp only
    split
    · -- The constraint is given up, and with it all errors in it.
      exact (hadvance.trans hback).rewound
    · exact hadvance.trans hback

instance : Keeps quiet (inferParameter sub) := by unfold inferParameter; infer_instance

instance : Keeps quiet (operatorType sub) := by
  unfold operatorType
  refine .andThen fun start => .andThen fun function => ?_
  split
  · infer_instance
  refine .andThen fun k => ?_
  split <;> infer_instance

instance (p : Punctuation) {operand : Parser Slot} [Keeps quiet operand] (rounds : Nat)
    (done : List Slot) :
    Keeps quiet (operandsAfter p operand rounds done) := by
  induction rounds generalizing done with
  | zero => unfold operandsAfter; infer_instance
  | succ rounds ih => unfold operandsAfter; infer_instance

instance : Keeps quiet (intersectionType sub) := by unfold intersectionType; infer_instance

instance : Keeps quiet (unionType sub) := by unfold unionType; infer_instance

instance (start : Nat) : Keeps quiet (typePredicate? sub start) := by
  unfold typePredicate?; infer_instance

/-- One of two parsers, one level deeper and where no conditional type may start. -/
theorem inside_eq (p q : Parser Slot) (s : State) :
    let first := p { s with depth := s.depth + 1, noConditional := true }
    let found := match first.1 with
      | some node => (some node, first.2)
      | none => q first.2
    (do
      let saved := (← get).noConditional
      modify fun s => { s with depth := s.depth + 1, noConditional := true }
      let type ← match ← p with
        | some node => pure (some node)
        | none => q
      modify fun s => { s with depth := s.depth - 1, noConditional := saved }
      return type : Parser Slot) s =
      (found.1, { found.2 with depth := found.2.depth - 1, noConditional := s.noConditional }) := by
  intro first
  obtain ⟨answer, t, hfirst⟩ : ∃ answer t, first = (answer, t) := ⟨_, _, rfl⟩
  change (match first.1 with
    | some node => (pure (some node) >>= _ : Parser Slot)
    | none => q >>= _) first.2 = _
  rw [hfirst]
  cases answer <;> rfl

omit [KeepingRules quiet sub] in
/-- The type after the `extends` of a conditional type is a function type or a union. -/
theorem extendedType_eq (s : State) :
    let function := functionType? sub { s with depth := s.depth + 1, noConditional := true }
    let found := match function.1 with
      | some node => (some node, function.2)
      | none => unionType sub function.2
    extendedType sub s =
        (found.1, { found.2 with depth := found.2.depth - 1, noConditional := s.noConditional }) :=
  inside_eq (functionType? sub) (unionType sub) s

/-- What a level keeps is kept when it is left again. -/
theorem State.Continues.leave {s t : State} {noConditional : Bool}
    (h : State.Continues quiet { s with depth := s.depth + 1, noConditional } t) :
    s.Continues quiet { t with depth := t.depth - 1, noConditional := s.noConditional } where
  lexer := h.lexer
  errors := h.errors
  arena := h.arena
  depth_eq := congrArg (· - 1) h.depth_eq
  isModule_eq := h.isModule_eq
  noConditional_eq := rfl

instance : Keeps quiet (extendedType sub) where
  continues s := by
    have hfunction : Keeps quiet (functionType? sub) := inferInstance
    have hunion : Keeps quiet (unionType sub) := inferInstance
    have hinside := hfunction.continues { s with depth := s.depth + 1, noConditional := true }
    rw [extendedType_eq]
    generalize functionType? sub { s with depth := s.depth + 1, noConditional := true } =
      function at hinside ⊢
    obtain ⟨_ | node, t⟩ := function
    · -- The union starts where the search for a function type has ended.
      have hthere := hunion.continues t
      dsimp only at hinside ⊢
      generalize unionType sub t = union at hthere ⊢
      exact (hinside.trans hthere).leave
    · exact hinside.leave

instance : Keeps quiet (openType sub) := by
  unfold openType
  refine .andThen fun start => .andThen fun predicate => ?_
  split
  · infer_instance
  refine .andThen fun function => ?_
  split <;> infer_instance

instance : Keeps quiet (type sub) := by
  have hinside : Keeps quiet (do
      let saved := (← get).noConditional
      modify fun s => { s with depth := s.depth + 1, noConditional := false }
      let found ← openType sub
      modify fun s => { s with depth := s.depth - 1, noConditional := saved }
      return found) := by
    have hopen : Keeps quiet (openType sub) := inferInstance
    exact ⟨fun s => (hopen.continues { s with depth := s.depth + 1, noConditional := false }).leave⟩
  unfold type
  infer_instance

/-- Whatever the depth to which rules may call each other, those for expressions and types keep what
was there before. -/
theorem keepingRules_rules (quiet : Bool) (depth : Nat) : KeepingRules quiet (rules depth) := by
  induction depth with
  | zero =>
    have hnone : Keeps quiet (giveUp none : Parser Slot) := inferInstance
    exact ⟨hnone, hnone, hnone, hnone, hnone⟩
  | succ depth ih =>
    exact {
      type := inferInstanceAs (Keeps quiet (type (rules depth)))
      unionType := inferInstanceAs (Keeps quiet (unionType (rules depth)))
      operatorType := inferInstanceAs (Keeps quiet (operatorType (rules depth)))
      literalValue := inferInstanceAs (Keeps quiet (literalValue (rules depth)))
      bindingName := inferInstanceAs (Keeps quiet (bindingName (rules depth))) }

end DeclBundle.Grammar
