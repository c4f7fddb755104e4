import DeclBundle.Proofs.Proceeding

/-!
# Parsers of expressions and types go on
-/

set_option autoImplicit false
-- one instance of `Proceeds` is put together from as many others as its parser has parts
set_option synthInstance.maxSize 20000

namespace DeclBundle.Grammar

variable {cap bound : Nat}

/-! ## Expressions that are skipped -/

instance (previous : Option TokenKind) : Rereads (completeToken previous) := by
  unfold completeToken
  refine .andThen fun k => ?_
  split <;> infer_instance

instance (depth : Nat) (previous : Option TokenKind) :
    Stands (atNextDeclaration depth previous) := by
  unfold atNextDeclaration
  infer_instance

theorem proceedsFrom_passToken {go : Option TokenKind → Parser Unit}
    [∀ previous, Proceeds cap (bound - 1) (go previous)] :
    ProceedsFrom cap bound IsToken (passToken go) := by
  unfold passToken
  exact .stay fun passed => consumes_advance.bind

theorem proceeds_skipTokens (rounds : Nat) :
    ∀ bound ≤ rounds, ∀ depth previous, Proceeds cap bound (skipTokens rounds depth previous) := by
  induction rounds with
  | zero => exact fun bound hbound depth previous => proceeds_of_le_zero hbound
  | succ rounds ih =>
    intro bound hbound depth previous
    have hrest := ih (bound - 1) (by omega)
    have hpass : ∀ depth, ProceedsFrom cap bound IsToken (passToken (skipTokens rounds depth)) :=
      fun depth => proceedsFrom_passToken
    have hunless : ∀ depth', ProceedsFrom cap bound IsToken
        (if (depth == 0) = true then pure () else passToken (skipTokens rounds depth')) := by
      intro depth'
      split
      · exact .of
      · exact hpass depth'
    unfold skipTokens
    refine .token_bind ⟨(), rfl⟩ fun token => ?_
    split
    · exact .of
    · exact hunless depth
    · exact hunless depth
    · exact hunless depth
    · exact hunless (depth - 1)
    · exact hunless (depth - 1)
    · exact hpass (depth + 1)
    · exact hpass (depth + 1)
    · exact consumes_skipBlock.bind
    · refine .reread fun completed => .stay fun isNext => ?_
      split
      · exact .of
      · exact hpass depth

instance (depth : Nat) (previous : Option TokenKind) :
    Proceeds cap bound (skipTokens cap depth previous) :=
  .of_min (proceeds_skipTokens cap _ (Nat.min_le_right bound cap) depth previous)

instance : Proceeds cap bound skipExpression := by unfold skipExpression; infer_instance

/-! ## Simple expressions -/

theorem proceeds_accessChain (start rounds : Nat) :
    ∀ bound ≤ rounds, ∀ expression, Proceeds cap bound (accessChain start rounds expression) := by
  induction rounds with
  | zero => exact fun bound hbound expression => proceeds_of_le_zero hbound
  | succ rounds ih =>
    intro bound hbound expression
    have hrest := ih (bound - 1) (by omega)
    unfold accessChain
    exact .isAt_ite (consumes_advance.bind.token TokenKind.noConfusion) inferInstance

instance (start : Nat) (expression : Slot) :
    Proceeds cap bound (accessChain start cap expression) :=
  .of_min (proceeds_accessChain start cap _ (Nat.min_le_right bound cap) expression)

instance : Stands tokenLiteral? := by
  unfold tokenLiteral?
  refine .andThen fun k => ?_
  split <;> infer_instance

instance : Stands negativeLiteral? := by
  unfold negativeLiteral?
  refine .andThen fun k => ?_
  split <;> infer_instance

instance : Proceeds cap bound simpleExpression := by
  unfold simpleExpression
  refine .andThen fun start => .andThen fun literal => ?_
  split
  · infer_instance
  · have hdigits : Proceeds cap bound (do
        match ← negativeLiteral? with
        | some form =>
          advance
          finish form start
        | none => return none) := .andThen fun digits => by split <;> infer_instance
    infer_instance

instance : Stands atExpressionEnd := by
  unfold atExpressionEnd
  have hkind : Stands (do
      match ← kind with
      | .punctuation .comma | .punctuation .semicolon | .punctuation .closeParen
      | .punctuation .closeBracket
      | .punctuation .closeBrace | .endOfFile => return true
      | _ => return false) := .andThen fun k => by split <;> infer_instance
  infer_instance

instance : Proceeds cap bound readsSimpleExpression := by
  unfold readsSimpleExpression; infer_instance

instance : Proceeds cap bound expression := by
  unfold expression
  refine .andThen fun start => .andThen fun isSimple => ?_
  split
  · refine .andThen fun node => ?_
    split <;> infer_instance
  · infer_instance

instance : Proceeds cap bound propertyName := by
  unfold propertyName
  refine .andThen fun start => .andThen fun k => ?_
  split <;> infer_instance

/-! ## Object and array literals -/

variable {sub : Rules}

theorem proceeds_literalProperties (rounds : Nat) :
    ∀ bound ≤ rounds, ∀ [Callable cap bound sub] done,
      Proceeds cap bound (literalProperties sub rounds done) := by
  induction rounds with
  | zero => exact fun bound hbound _ done => proceeds_of_le_zero hbound
  | succ rounds ih =>
    intro bound hbound _ done
    have hrest := ih (bound - 1) (by omega)
    have hcomma : ∀ done', Proceeds cap bound (do
        if ← optionalMark .comma then literalProperties sub rounds done'
            else return some done'.reverse) :=
      fun done' => .optional_ite TokenKind.noConfusion (hrest done') inferInstance
    unfold literalProperties
    refine .andThen fun atClose => ?_
    split
    · infer_instance
    refine .andThen fun k => ?_
    extract_lets go
    have hgo : ∀ isName, Proceeds cap bound (go isName) := by
      intro isName
      unfold go
      split
      · refine .andThen fun start => .andThen fun name => .andThen fun hasValue => ?_
        extract_lets finishProperty
        have hfinish : ∀ initializer, Proceeds cap bound (finishProperty initializer) := by
          intro initializer
          unfold finishProperty
          split <;> infer_instance
        split
        · refine .andThen fun value => ?_
          split <;> infer_instance
        · infer_instance
      · infer_instance
    split <;> infer_instance

instance [h : Callable cap bound sub] (done : List Slot) :
    Proceeds cap bound (literalProperties sub cap done) :=
  have := h.mono (Nat.min_le_left bound cap)
  .of_min (proceeds_literalProperties cap _ (Nat.min_le_right bound cap) done)

theorem proceeds_literalElement [Callable cap bound sub]
    {go : List Slot → Parser (Option (List Slot))} (done : List Slot)
    (h : ∀ done, Proceeds cap (bound - 1) (go done)) : Proceeds cap bound (do
      match ← sub .literalValue with
      | none => return none
      | some element =>
        if ← optionalMark .comma then
          go (some element :: done)
        else
          return some (some element :: done).reverse) := by
  refine .andThen fun found => ?_
  split
  · infer_instance
  · exact .optional_ite TokenKind.noConfusion (h _) inferInstance

theorem proceeds_literalElements (rounds : Nat) :
    ∀ bound ≤ rounds, ∀ [Callable cap bound sub] done,
      Proceeds cap bound (literalElements sub rounds done) := by
  induction rounds with
  | zero => exact fun bound hbound _ done => proceeds_of_le_zero hbound
  | succ rounds ih =>
    intro bound hbound _ done
    have hrest := ih (bound - 1) (by omega)
    unfold literalElements
    refine .andThen fun atClose => ?_
    split
    · infer_instance
    · exact .optional_ite TokenKind.noConfusion (hrest _) (proceeds_literalElement done hrest)

instance [h : Callable cap bound sub] (done : List Slot) :
    Proceeds cap bound (literalElements sub cap done) :=
  have := h.mono (Nat.min_le_left bound cap)
  .of_min (proceeds_literalElements cap _ (Nat.min_le_right bound cap) done)

theorem proceedsFrom_objectLiteral [Callable cap (bound - 1) sub] :
    ProceedsFrom cap bound IsToken (objectLiteral sub) := by
  unfold objectLiteral
  refine .stay fun start => consumes_advance.andThen fun _ =>
    .atLimit (.andThen fun properties => ?_)
  split <;> infer_instance

theorem proceedsFrom_arrayLiteral [Callable cap (bound - 1) sub] :
    ProceedsFrom cap bound IsToken (arrayLiteral sub) := by
  unfold arrayLiteral
  refine .stay fun start => consumes_advance.andThen fun _ => .atLimit (.andThen fun elements => ?_)
  split <;> infer_instance

instance [Callable cap (bound - 1) sub] : Proceeds cap bound (literalValue sub) := by
  unfold literalValue
  refine .kind_bind fun k => ?_
  split
  · exact proceedsFrom_objectLiteral.token TokenKind.noConfusion
  · exact proceedsFrom_arrayLiteral.token TokenKind.noConfusion
  · exact .of

instance [Callable cap bound sub] : Proceeds cap bound (readsLiteralValue sub) := by
  unfold readsLiteralValue
  infer_instance

instance [Callable cap bound sub] : Proceeds cap bound (variableInitializer sub) := by
  unfold variableInitializer
  refine .andThen fun atBrace => .andThen fun atBracket => ?_
  dsimp only
  split
  · refine .andThen fun isLiteral => ?_
    split
    · refine .andThen fun node => ?_
      split <;> infer_instance
    · infer_instance
  · infer_instance

instance : Proceeds cap bound optionalInitializer := by unfold optionalInitializer; infer_instance

/-! ## Binding patterns -/

instance [Callable cap bound sub] : Proceeds cap bound (objectPatternElement sub) := by
  unfold objectPatternElement
  refine .andThen fun start => .andThen fun isRest => ?_
  extract_lets finishElement
  have hfinish : ∀ parts, Proceeds cap bound (finishElement parts) := by
    rintro ⟨key, name⟩
    unfold finishElement
    infer_instance
  infer_instance

theorem proceedsFrom_objectPattern [Callable cap (bound - 1) sub] :
    ProceedsFrom cap bound (· = .punctuation .openBrace) (objectPattern sub) := by
  unfold objectPattern
  exact .stay fun start => (consumes_expect TokenKind.noConfusion).bind

theorem proceeds_arrayPatternElements (rounds : Nat) :
    ∀ bound ≤ rounds, ∀ [Callable cap bound sub] done,
      Proceeds cap bound (arrayPatternElements sub rounds done) := by
  induction rounds with
  | zero => exact fun bound hbound _ done => proceeds_of_le_zero hbound
  | succ rounds ih =>
    intro bound hbound _ done
    have hrest := ih (bound - 1) (by omega)
    have hcomma : ∀ done', Proceeds cap bound (do
        if ← optionalMark .comma then arrayPatternElements sub rounds done'
            else return done'.reverse) :=
      fun done' => .optional_ite TokenKind.noConfusion (hrest done') inferInstance
    unfold arrayPatternElements
    refine .andThen fun atClose => .andThen fun isEnd => ?_
    split
    · infer_instance
    · exact .andThen fun start => .optional_ite TokenKind.noConfusion inferInstance inferInstance

instance [h : Callable cap bound sub] (done : List Slot) :
    Proceeds cap bound (arrayPatternElements sub cap done) :=
  have := h.mono (Nat.min_le_left bound cap)
  .of_min (proceeds_arrayPatternElements cap _ (Nat.min_le_right bound cap) done)

theorem proceedsFrom_arrayPattern [Callable cap (bound - 1) sub] :
    ProceedsFrom cap bound (· = .punctuation .openBracket) (arrayPattern sub) := by
  unfold arrayPattern
  exact .stay fun start => (consumes_expect TokenKind.noConfusion).bind

instance [Callable cap (bound - 1) sub] : Proceeds cap bound (bindingName sub) := by
  unfold bindingName
  refine .kind_bind fun k => ?_
  split
  · exact proceedsFrom_objectPattern
  · exact proceedsFrom_arrayPattern
  · exact .of

/-! ## Parameters -/

instance [Callable cap bound sub] : Proceeds cap bound (optionalAscription sub) := by
  unfold optionalAscription
  infer_instance

instance [Callable cap bound sub] : Proceeds cap bound (typeParameter sub) := by
  have hmodifiers : Proceeds cap bound (modifiers typeParameterModifier? nextIsName) :=
    proceeds_modifiers rfl
  unfold typeParameter
  infer_instance

instance [Callable cap (bound - 1) sub] : Proceeds cap bound (typeParameters sub) := by
  unfold typeParameters
  exact .optional_ite TokenKind.noConfusion inferInstance inferInstance

instance [Callable cap (bound - 1) sub] : Proceeds cap bound (typeArguments sub) := by
  have hnone : Proceeds cap bound (pure [] : Parser (List Slot)) := inferInstance
  unfold typeArguments
  refine .isAt_bind
    (.stay fun afterLine => .ite .of (consumes_advance.bind.token TokenKind.noConfusion)) ?_
  exact .andThen fun afterLine => hnone

instance : Proceeds cap bound parameterName := by
  unfold parameterName
  refine .andThen fun start => .andThen fun k => ?_
  split <;> infer_instance

instance [Callable cap bound sub] : Proceeds cap bound (parameter sub) := by
  have hmodifiers : Proceeds cap bound
      (modifiers parameterModifier? (return followsParameterModifier (← nextKind))) :=
    proceeds_modifiers rfl
  unfold parameter
  infer_instance

instance [Callable cap (bound - 1) sub] : Proceeds cap bound (parameters sub) := by
  unfold parameters
  exact .expect?_ite TokenKind.noConfusion inferInstance inferInstance

instance [Callable cap bound sub] : Proceeds cap bound (signature sub) := by
  unfold signature
  infer_instance

/-! ## Members -/

instance : Stands canBeMemberModifier := by unfold canBeMemberModifier; infer_instance

instance : Proceeds cap bound memberSeparator := by unfold memberSeparator; infer_instance

instance : Proceeds cap bound functionBody := by unfold functionBody; infer_instance

instance : Proceeds cap bound readsIndexSignature := by
  unfold readsIndexSignature
  refine .andThen fun _ => .andThen fun k => ?_
  split
  · infer_instance
  · infer_instance
  · split
    · refine .andThen fun _ => .andThen fun k' => ?_
      split <;> infer_instance
    · infer_instance

instance : Proceeds cap bound atIndexSignature := by unfold atIndexSignature; infer_instance

instance [Callable cap bound sub] : Proceeds cap bound (indexParameter sub) := by
  unfold indexParameter
  infer_instance

instance [Callable cap bound sub] (start : Nat) (ms : Modifiers) :
    Proceeds cap bound (indexSignature sub start ms) := by
  unfold indexSignature
  infer_instance

instance [Callable cap bound sub] (start : Nat) (ms : Modifiers) (inClass : Bool) :
    Proceeds cap bound (accessor? sub start ms inClass) := by
  unfold accessor?
  infer_instance

instance : Stands atCallStart := by unfold atCallStart; infer_instance

theorem proceeds_membersIn {member : Parser Slot} (rounds : Nat) :
    ∀ bound ≤ rounds, ∀ [Proceeds cap bound member] done,
      Proceeds cap bound (membersIn member rounds done) := by
  induction rounds with
  | zero => exact fun bound hbound _ done => proceeds_of_le_zero hbound
  | succ rounds ih =>
    intro bound hbound hmember done
    have hless := hmember.mono (Nat.sub_le bound 1)
    have hrest := ih (bound - 1) (by omega)
    have hdone : Proceeds cap bound (pure done.reverse : Parser (List Slot)) := inferInstance
    have hgo := Proceeds.found hrest done
    unfold membersIn
    refine .andThen fun atClose => .atEnd_bind (by cases atClose <;> exact hdone) ?_
    cases atClose
    case true => exact .of (m := pure done.reverse)
    case false =>
      refine proceedsFrom_round (fun before found => ?_) fun t found ht hkind => ?_
      · infer_instance
      · have htake : ProceedsFrom cap bound IsToken (advance >>= fun _ => _) :=
          consumes_advance.andThen fun _ => hgo found
        change Reaches cap bound t
          ((if (t.lexer.token.start.offset == t.lexer.token.start.offset) = true then _ else _ :
          Parser (List Slot)) t).2
        rw [if_pos (beq_self_eq_true _)]
        exact htake.reaches ht hkind

instance {member : Parser Slot} [h : Proceeds cap bound member] (done : List Slot) :
    Proceeds cap bound (membersIn member cap done) :=
  have := h.mono (Nat.min_le_left bound cap)
  .of_min (proceeds_membersIn cap _ (Nat.min_le_right bound cap) done)

theorem proceeds_memberBlock {member : Parser Slot} (h : Proceeds cap (bound - 1) member) :
    Proceeds cap bound (memberBlock member) := by
  unfold memberBlock
  exact .expect?_ite TokenKind.noConfusion inferInstance inferInstance

instance [Callable cap bound sub] (start : Nat) (ms : Modifiers) :
    Proceeds cap bound (namedTypeMember sub start ms) := by
  unfold namedTypeMember
  infer_instance

theorem memberModifier?_endOfFile (inClass : Bool) : memberModifier? inClass .endOfFile = none := by
  cases inClass <;> rfl

instance (inClass : Bool) :
    Proceeds cap bound (modifiers (memberModifier? inClass) canBeMemberModifier) :=
  proceeds_modifiers (memberModifier?_endOfFile inClass)

instance [Callable cap bound sub] : Proceeds cap bound (bareTypeMember sub) := by
  have hmember : ∀ start ms, Proceeds cap bound (do
      if let some node ← accessor? sub start ms false then
        return some node
      namedTypeMember sub start ms) := fun start ms => .andThen fun node => by
        split <;> infer_instance
  unfold bareTypeMember
  infer_instance

instance [Callable cap bound sub] : Proceeds cap bound (typeMember sub) := by
  unfold typeMember
  infer_instance

instance [Callable cap (bound - 1) sub] : Proceeds cap bound (typeMembers sub) :=
  proceeds_memberBlock inferInstance

instance : Stands atConstructor := by unfold atConstructor; infer_instance

instance [Callable cap bound sub] (start : Nat) (ms : Modifiers) :
    Proceeds cap bound (namedClassMember sub start ms) := by
  unfold namedClassMember
  infer_instance

instance [Callable cap bound sub] (start : Nat) (ms : Modifiers) :
    Proceeds cap bound (bareClassMember sub start ms) := by
  have hmember : Proceeds cap bound (do
      if let some node ← accessor? sub start ms true then
        return some node
      namedClassMember sub start ms) := .andThen fun node => by split <;> infer_instance
  unfold bareClassMember
  infer_instance

instance [Callable cap bound sub] : Proceeds cap bound (classMember sub) := by
  unfold classMember
  infer_instance

instance [Callable cap (bound - 1) sub] : Proceeds cap bound (classMembers sub) :=
  proceeds_memberBlock inferInstance

/-! ## Types -/

instance : Stands missingType := by unfold missingType; infer_instance

instance : Stands reportMissingType := by unfold reportMissingType; infer_instance

instance (form : Form Slot) (start : Nat) : Stands (finishLiteralType form start) := by
  unfold finishLiteralType
  infer_instance

instance (start : Nat) : Proceeds cap bound (numericType start) := by
  have hliteral : ∀ text, Proceeds cap bound (do
      match ← kind with
      | .bigIntLiteral =>
        advance
        finishLiteralType (.bigIntLiteral text) start
      | .numericLiteral =>
        advance
        finishLiteralType (.numericLiteral text) start
      | _ => reportMissingType) := fun text => .andThen fun k => by split <;> infer_instance
  unfold numericType
  infer_instance

instance [Callable cap (bound - 1) sub] (start : Nat) (isTypeof : Bool) :
    Proceeds cap bound (importType sub start isTypeof) := by
  unfold importType
  infer_instance

theorem proceeds_templateSpans (rounds : Nat) :
    ∀ bound ≤ rounds, ∀ [Callable cap bound sub] done,
      Proceeds cap bound (templateSpans sub rounds done) := by
  induction rounds with
  | zero => exact fun bound hbound _ done => proceeds_of_le_zero hbound
  | succ rounds ih =>
    intro bound hbound _ done
    have hrest := ih (bound - 1) (by omega)
    unfold templateSpans
    refine .andThen fun start => .andThen fun type => .isAt_ite ?_ inferInstance
    exact .token (.reread fun _ => .stay fun isTail => .stay fun literal => consumes_advance.bind)
      TokenKind.noConfusion

instance [h : Callable cap bound sub] (done : List Slot) :
    Proceeds cap bound (templateSpans sub cap done) :=
  have := h.mono (Nat.min_le_left bound cap)
  .of_min (proceeds_templateSpans cap _ (Nat.min_le_right bound cap) done)

theorem proceedsFrom_templateType [Callable cap (bound - 1) sub] (start : Nat) :
    ProceedsFrom cap bound IsToken (templateType sub start) := by
  unfold templateType
  exact .stay fun head => consumes_advance.bind

instance : Proceeds cap bound readsMappedType := by unfold readsMappedType; infer_instance

instance : Proceeds cap bound atMappedType := by unfold atMappedType; infer_instance

instance : Stays atMappedType := by unfold atMappedType; infer_instance

instance : Proceeds cap bound leadingSign := by unfold leadingSign; infer_instance

instance (word : TokenKind) : Proceeds cap bound (mappedSign word) := by
  unfold mappedSign; infer_instance

theorem proceedsFrom_mappedType [Callable cap (bound - 1) sub] (start : Nat) :
    ProceedsFrom cap bound (· = .punctuation .openBrace) (mappedType sub start) := by
  unfold mappedType
  exact (consumes_expect TokenKind.noConfusion).bind

instance : Proceeds cap bound readsNamedElement := by unfold readsNamedElement; infer_instance

instance : Proceeds cap bound atNamedElement := by unfold atNamedElement; infer_instance

instance [Callable cap bound sub] : Proceeds cap bound (tupleElement sub) := by
  unfold tupleElement
  infer_instance

theorem proceedsFrom_tupleType [Callable cap (bound - 1) sub] (start : Nat) :
    ProceedsFrom cap bound (· = .punctuation .openBracket) (tupleType sub start) := by
  unfold tupleType
  exact (consumes_expect TokenKind.noConfusion).bind

instance [Callable cap (bound - 1) sub] (start : Nat) :
    Proceeds cap bound (typeReference sub start) := by
  unfold typeReference
  infer_instance

instance [Callable cap (bound - 1) sub] (start : Nat) :
    Proceeds cap bound (otherPrimaryType sub start) := by
  unfold otherPrimaryType
  refine .kind_bind fun k => ?_
  split
  case h_9 => exact (proceedsFrom_templateType start).token TokenKind.noConfusion
  case h_12 => exact .stay fun isMapped => .ite (proceedsFrom_mappedType start) .of
  case h_13 => exact proceedsFrom_tupleType start
  case h_14 => exact consumes_advance.bind.token TokenKind.noConfusion
  all_goals exact .of

instance [Callable cap (bound - 1) sub] : Proceeds cap bound (primaryType sub) := by
  unfold primaryType
  refine .andThen fun start => .andThen fun k => ?_
  split <;> infer_instance

theorem proceeds_bracketsAfter (start rounds : Nat) :
    ∀ bound ≤ rounds, ∀ [Callable cap (bound - 1) sub] type,
      Proceeds cap bound (bracketsAfter sub start rounds type) := by
  induction rounds with
  | zero => exact fun bound hbound _ type => proceeds_of_le_zero hbound
  | succ rounds ih =>
    intro bound hbound _ type
    have hrest := ih (bound - 1) (by omega)
    have hdone : Proceeds cap bound (pure type : Parser Slot) := inferInstance
    unfold bracketsAfter
    refine .andThen fun afterLine => .isAt_bind ?_ ?_
    · exact .ite .of (consumes_advance.bind.token TokenKind.noConfusion)
    · cases afterLine <;> exact hdone

instance [h : Callable cap (bound - 1) sub] (start : Nat) (type : Slot) :
    Proceeds cap bound (bracketsAfter sub start cap type) :=
  have := h.mono (Nat.sub_le_sub_right (Nat.min_le_left bound cap) 1)
  .of_min (proceeds_bracketsAfter start cap _ (Nat.min_le_right bound cap) type)

instance [Callable cap (bound - 1) sub] : Proceeds cap bound (bracketedType sub) := by
  unfold bracketedType
  infer_instance

/-! ## Function types -/

instance : Proceeds cap bound skipParameterStart := by
  have hmodifiers : Proceeds cap bound (modifiers (fun
      | .keyword .override => none
      | k => parameterModifier? k) nextIsName) := proceeds_modifiers rfl
  have hname : Proceeds cap bound (do
      match ← kind with
      | .punctuation .openBrace =>
        skipBlock
        return true
      | .punctuation .openBracket =>
        skipBalanced .openBracket .closeBracket
        return true
      | k =>
        unless k.isName do
          return false
        advance
        return true) := .andThen fun k => by split <;> infer_instance
  unfold skipParameterStart
  infer_instance

theorem proceeds_afterParameterStart : Proceeds cap bound (do
    match ← kind with
    | .punctuation .colon | .punctuation .comma | .punctuation .question | .punctuation .equals =>
      return true
    | .punctuation .closeParen =>
      advance
      atMark .arrow
    | _ => return false) := .andThen fun k => by split <;> infer_instance

instance : Proceeds cap bound readsFunctionType := by
  have hafter : Proceeds cap bound _ := proceeds_afterParameterStart
  unfold readsFunctionType
  infer_instance

instance : Proceeds cap bound atFunctionType := by unfold atFunctionType; infer_instance

instance : Stays atFunctionType := by unfold atFunctionType; infer_instance

/-- The tokens that a function type starts with. -/
abbrev IsArrowStart (k : TokenKind) : Prop :=
  k = .punctuation .lessThan ∨ k = .punctuation .openParen

theorem isArrowStart_of_atFunctionType {s : State} (h : (atFunctionType s).1 = true) :
    IsArrowStart s.kind := by
  by_contra hnot
  obtain ⟨hless, hparen⟩ := not_or.1 hnot
  have hless' : (s.kind == .punctuation .lessThan) = false := beq_eq_false_iff_ne.2 hless
  have hparen' : (s.kind == .punctuation .openParen) = false := beq_eq_false_iff_ne.2 hparen
  change ((if (s.kind == .punctuation .lessThan) = true then _ else (do
    unless ← atMark .openParen do
      return false
    lookAhead readsFunctionType) : Parser Bool) s).1 = true at h
  rw [hless'] at h
  change ((if (s.kind == .punctuation .openParen) = true then _ else pure false : Parser Bool)
    s).1 = true at h
  rw [hparen'] at h
  cases h

theorem typeParameters_of_ne {s : State} (h : s.kind ≠ .punctuation .lessThan) :
    typeParameters sub s = ([], s) := by
  change (if (optional _ s).1 = true then _ else pure [] : Parser (List Slot)) (optional _ s).2 = _
  rw [optional_of_ne h]
  rfl

theorem consumes_typeParameters [h : Callable cap (bound - 1) sub] :
    Consumes cap bound (· = .punctuation .lessThan) (typeParameters sub) := by
  have := h.mono (Nat.zero_le _)
  have hrest : Consumes cap bound IsToken (advance >>= fun _ => do
      let found ← commaList .greaterThan (typeParameter sub)
      expectMark .greaterThan
      return found) := consumes_advance.andThenConsumes fun _ => inferInstance
  refine .congr inferInstance (hrest.weaken fun k hk => hk ▸ TokenKind.noConfusion) fun s hkind =>
    ?_
  change (if (optional _ s).1 = true then _ else _ : Parser (List Slot)) (optional _ s).2 = _
  rw [optional_of_eq hkind]
  rfl

theorem consumes_parameters [h : Callable cap (bound - 1) sub] :
    Consumes cap bound (· = .punctuation .openParen) (parameters sub) := by
  have := h.mono (Nat.zero_le _)
  have hrest : Consumes cap bound IsToken (advance >>= fun _ => do
      let found ← commaList .closeParen (parameter sub)
      expectMark .closeParen
      return found) := consumes_advance.andThenConsumes fun _ => inferInstance
  refine .congr inferInstance (hrest.weaken fun k hk => hk ▸ TokenKind.noConfusion) fun s hkind =>
    ?_
  change (if (expect? _ s).1 = true then _ else _ : Parser (List Slot)) (expect? _ s).2 = _
  rw [expect?_of_eq hkind]
  rfl

instance [Callable cap bound sub] : Proceeds cap bound (arrowSignature sub) := by
  unfold arrowSignature
  infer_instance

/-- A function type takes its first mark before the type of the result is read. -/
theorem proceedsFrom_arrowSignature [h : Callable cap (bound - 1) sub] :
    ProceedsFrom cap bound IsArrowStart (arrowSignature sub) := by
  have hless : ProceedsFrom cap bound (· = .punctuation .lessThan) (arrowSignature sub) := by
    unfold arrowSignature
    exact consumes_typeParameters.bind
  let afterTypeParameters (ts : List Slot) : Parser (Signature Slot) := do
    let ps ← parameters sub
    expectMark .arrow
    let result ← sub .type
    return ⟨ts, ps, result⟩
  have hparen : ProceedsFrom cap bound (· = .punctuation .openParen) (afterTypeParameters []) :=
    consumes_parameters.bind
  refine ⟨hless.proceeds, fun s hs hkind => hkind.elim (hless.follows s hs) ?_⟩
  refine (hparen.congr hless.proceeds fun s hkind => ?_).follows s hs
  change afterTypeParameters (typeParameters sub s).1 (typeParameters sub s).2 = _
  rw [typeParameters_of_ne (by rw [hkind]; decide)]

instance [Callable cap (bound - 1) sub] : Proceeds cap bound (functionType? sub) := by
  have hnone : Proceeds cap bound (pure none : Parser Slot) := inferInstance
  unfold functionType?
  refine .andThen fun start => .look_bind fun s => ?_
  split
  · next h =>
      exact ⟨IsArrowStart, isArrowStart_of_atFunctionType h, proceedsFrom_arrowSignature.andThen⟩
  · refine ⟨fun _ => True, trivial, .of (h := ?_)⟩
    refine .optional_ite TokenKind.noConfusion inferInstance
      (.isAt_bind ?_ (.andThen fun next => hnone))
    exact .stay fun next => .ite (consumes_advance.bind.token TokenKind.noConfusion) .of

/-! ## Operators -/

instance [Callable cap bound sub] : Proceeds cap bound (inferConstraint sub) := by
  unfold inferConstraint
  exact .mark_bind fun s => inferInstance

instance [Callable cap bound sub] : Proceeds cap bound (inferParameter sub) := by
  unfold inferParameter
  infer_instance

instance [Callable cap (bound - 1) sub] : Proceeds cap bound (operatorType sub) := by
  unfold operatorType
  refine .andThen fun start => .andThen fun function => ?_
  split
  · infer_instance
  refine .kind_bind fun k => ?_
  split
  · next operator hoperator =>
    refine .token consumes_advance.bind fun hend => ?_
    rw [hend] at hoperator
    cases hoperator
  · exact .of (h := .optional_ite TokenKind.noConfusion inferInstance inferInstance)

theorem proceeds_operandsAfter {mark : Punctuation} {operand : Parser Slot} (rounds : Nat) :
    ∀ bound ≤ rounds, ∀ [Proceeds cap bound operand] done,
      Proceeds cap bound (operandsAfter mark operand rounds done) := by
  induction rounds with
  | zero => exact fun bound hbound _ done => proceeds_of_le_zero hbound
  | succ rounds ih =>
    intro bound hbound hoperand done
    have hless := hoperand.mono (Nat.sub_le bound 1)
    have hrest := ih (bound - 1) (by omega)
    unfold operandsAfter
    exact .optional_ite TokenKind.noConfusion inferInstance inferInstance

instance {mark : Punctuation} {operand : Parser Slot} [h : Proceeds cap bound operand]
    (done : List Slot) :
    Proceeds cap bound (operandsAfter mark operand cap done) :=
  have := h.mono (Nat.min_le_left bound cap)
  .of_min (proceeds_operandsAfter cap _ (Nat.min_le_right bound cap) done)

instance [Callable cap (bound - 1) sub] : Proceeds cap bound (intersectionType sub) := by
  unfold intersectionType
  infer_instance

instance [Callable cap (bound - 1) sub] : Proceeds cap bound (unionType sub) := by
  unfold unionType
  infer_instance

/-! ## Predicates and conditional types -/

instance [Callable cap (bound - 1) sub] (start : Nat) :
    Proceeds cap bound (typePredicate? sub start) := by
  -- the type is read after the word before it
  have htyped : ∀ asserts subject, Proceeds cap bound (do
      let isTyped ← if ← afterLineBreak then pure false else optionalWord .is
      let type ← if isTyped then sub .type else pure none
      finish (.typePredicate asserts subject type) start) := by
    intro asserts subject
    refine .andThen fun afterLine => ?_
    split
    · exact (inferInstance : Proceeds cap bound
        (finish (.typePredicate asserts subject none) start))
    · refine .optional_bind TokenKind.noConfusion ?_ ?_
      · exact (inferInstance : Proceeds cap (bound - 1) (do
          let type ← sub .type
          finish (.typePredicate asserts subject type) start))
      · exact (inferInstance : Proceeds cap bound
          (finish (.typePredicate asserts subject none) start))
  unfold typePredicate?
  infer_instance

instance [Callable cap (bound - 1) sub] : Proceeds cap bound (extendedType sub) := by
  unfold extendedType
  refine .andThen fun saved => .andThen fun _ => .andThen fun function => ?_
  split <;> infer_instance

instance [Callable cap (bound - 1) sub] : Proceeds cap bound (openType sub) := by
  unfold openType
  refine .andThen fun start => .andThen fun predicate => ?_
  split
  · infer_instance
  refine .andThen fun function => ?_
  split
  · infer_instance
  refine .andThen fun check => .andThen fun s => .andThen fun afterLine => .isAt_bind ?_ ?_
  · exact .ite .of (consumes_advance.bind.token TokenKind.noConfusion)
  · rw [Bool.not_false, Bool.or_true, if_pos rfl]
    infer_instance

instance [Callable cap (bound - 1) sub] : Proceeds cap bound (type sub) := by
  unfold type
  infer_instance

end DeclBundle.Grammar
