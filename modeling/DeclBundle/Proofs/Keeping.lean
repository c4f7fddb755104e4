import DeclBundle.Grammar.Statement
import DeclBundle.Proofs.Forms
import DeclBundle.Proofs.GoingBack

/-!
# What parsers keep

A parser adds errors and nodes, and takes away none that was there before it. The depth and the flag
for conditional types are after it what they were before, and only statements change the flag for
modules (`Grammar.State.Continues`, `Grammar.Keeps`). A parser that goes back, like one that looks
ahead, takes away errors, but only its own.
-/

set_option autoImplicit false
-- one instance of `Keeps` is put together from as many others as its parser has parts
set_option synthInstance.maxSize 20000

namespace DeclBundle.Grammar

open Text (Cursor)

variable {α β : Type} {quiet : Bool}

/-- What was there in the state `s` still is in the state `t`, and what the grammar remembers is the
same in both. That the file is a module may have been found in between, unless the run is a quiet
one. -/
structure State.Continues (quiet : Bool) (s t : State) : Prop where
  lexer : s.lexer.Continues t.lexer
  errors : s.errors <:+ t.errors
  arena : s.arena.Extends t.arena
  depth_eq : t.depth = s.depth
  isModule_eq : quiet = true → t.isModule = s.isModule
  noConditional_eq : t.noConditional = s.noConditional

namespace State.Continues

variable {s t u : State}

theorem refl (s : State) : s.Continues quiet s :=
  ⟨.refl _, List.suffix_rfl, .refl _, rfl, fun _ => rfl, rfl⟩

theorem trans (h : s.Continues quiet t) (h' : t.Continues quiet u) : s.Continues quiet u where
  lexer := h.lexer.trans h'.lexer
  errors := h.errors.trans h'.errors
  arena := h.arena.trans h'.arena
  depth_eq := h'.depth_eq.trans h.depth_eq
  isModule_eq hquiet := (h'.isModule_eq hquiet).trans (h.isModule_eq hquiet)
  noConditional_eq := h'.noConditional_eq.trans h.noConditional_eq

/-- To go back to the place of `s` is to have kept it. -/
theorem rewound (h : s.Continues quiet t) : s.Continues quiet (rewind (mark s).1 t).2 :=
  ⟨.refl _, List.suffix_rfl, h.arena, h.depth_eq, h.isModule_eq, h.noConditional_eq⟩

end State.Continues

/-- A parser keeps what was there before it, also the flag for modules when it is a quiet one. -/
class Keeps (quiet : Bool) (m : Parser α) : Prop where
  continues : ∀ s : State, s.Continues quiet (m s).2

variable {m x y : Parser α} {f : α → Parser β}

/-! ## Putting parsers together -/

section Combining

instance (a : α) : Keeps quiet (pure a : Parser α) := ⟨.refl⟩

instance : Keeps quiet (get : Parser State) := ⟨.refl⟩

instance [hm : Keeps quiet m] [hf : ∀ a, Keeps quiet (f a)] : Keeps quiet (m >>= f) :=
  ⟨fun s => (hm.continues s).trans ((hf _).continues _)⟩

instance (c : Prop) [Decidable c] [Keeps quiet x] [Keeps quiet y] :
    Keeps quiet (if c then x else y) := by
  split <;> assumption

theorem Keeps.andThen [Keeps quiet m] (h : ∀ a, Keeps quiet (f a)) : Keeps quiet (m >>= f) :=
  inferInstance

instance [Keeps quiet m] : Keeps quiet (discard m) :=
  inferInstanceAs (Keeps quiet (m >>= fun _ => pure ()))

instance (p : Parser Bool) [hp : Keeps quiet p] : Keeps quiet (lookAhead p) :=
  ⟨fun s => (hp.continues s).rewound⟩

end Combining

/-! ## Tokens -/

instance : Keeps quiet kind := by unfold kind; infer_instance

instance : Keeps quiet value := by unfold value; infer_instance

instance : Keeps quiet tokenText := by unfold tokenText; infer_instance

instance : Keeps quiet here := by unfold here; infer_instance

instance : Keeps quiet offset := by unfold offset; infer_instance

instance : Keeps quiet pendingDoc := by unfold pendingDoc; infer_instance

instance (k : TokenKind) : Keeps quiet (isAt k) := by unfold isAt; infer_instance

instance (p : Punctuation) : Keeps quiet (atMark p) := by unfold atMark; infer_instance

instance (k : Keyword) : Keeps quiet (atWord k) := by unfold atWord; infer_instance

instance : Keeps quiet atEnd := by unfold atEnd; infer_instance

instance : Keeps quiet atBindingName := by unfold atBindingName; infer_instance

instance : Keeps quiet atName := by unfold atName; infer_instance

instance : Keeps quiet afterLineBreak := by unfold afterLineBreak; infer_instance

instance : Keeps quiet nextKind := by unfold nextKind; infer_instance

instance (next : TokenKind → Bool) : Keeps quiet (nextOnSameLine next) := by
  unfold nextOnSameLine; infer_instance

instance : Keeps quiet nextIsName := by unfold nextIsName; infer_instance

instance : Keeps quiet canBeMemberModifier := by unfold canBeMemberModifier; infer_instance

instance : Keeps quiet limit := by unfold limit; infer_instance

instance : Keeps quiet mark := by unfold mark; infer_instance

/-- A lexer that goes on takes the parser with it. -/
theorem State.continues_moveTo {s : State} {l : Lexer} (h : s.lexer.Continues l) (stop : Nat) :
    s.Continues quiet (s.moveTo stop l) :=
  ⟨h, List.suffix_rfl, .refl _, rfl, fun _ => rfl, rfl⟩

instance : Keeps quiet advance := ⟨fun _ => State.continues_moveTo (Lexer.continues_scan _) _⟩

instance : Keeps quiet skipBlock :=
  ⟨fun _ => State.continues_moveTo (Lexer.continues_skipBlock _) _⟩

/-- A token can be read again in each way that the lexer knows. -/
theorem keeps_relex (c : Lexer.Command) : Keeps quiet (relex (c.run ·)) :=
  ⟨fun _ => ⟨c.continues _, List.suffix_rfl, .refl _, rfl, fun _ => rfl, rfl⟩⟩

instance : Keeps quiet (relex Lexer.skipTemplate) := keeps_relex .skipTemplate

instance : Keeps quiet (relex Lexer.rescanTemplate) := keeps_relex .rescanTemplate

instance : Keeps quiet (relex Lexer.rescanRegex) := keeps_relex .rescanRegex

instance (k : TokenKind) : Keeps quiet (optional k) := by unfold optional; infer_instance

instance (p : Punctuation) : Keeps quiet (optionalMark p) := by unfold optionalMark; infer_instance

instance (k : Keyword) : Keeps quiet (optionalWord k) := by unfold optionalWord; infer_instance

/-! ## Errors and nodes -/

theorem report_eq (problem : Problem) (s : State) :
    ∃ errors, s.errors <:+ errors ∧ (report problem s).2 = { s with errors } := by
  unfold report
  dsimp only [modify, modifyGet, MonadStateOf.modifyGet, StateT.modifyGet]
  split
  · exact ⟨s.errors, List.suffix_rfl, rfl⟩
  · exact ⟨_, List.suffix_cons _ _, rfl⟩

instance (problem : Problem) : Keeps quiet (report problem) where
  continues s := by
    obtain ⟨errors, hsuffix, heq⟩ := report_eq problem s
    rw [heq]
    exact ⟨.refl _, hsuffix, .refl _, rfl, fun _ => rfl, rfl⟩

instance (k : TokenKind) : Keeps quiet (expect? k) := by unfold expect?; infer_instance

instance (k : TokenKind) : Keeps quiet (expect k) := by unfold expect; infer_instance

instance (p : Punctuation) : Keeps quiet (expectMark p) := by unfold expectMark; infer_instance

instance (k : Keyword) : Keeps quiet (expectWord k) := by unfold expectWord; infer_instance

instance : Keeps quiet semicolon := by unfold semicolon; infer_instance

instance (form : Form Slot) (start : Nat) : Keeps quiet (finish form start) :=
  ⟨fun _ => ⟨.refl _, List.suffix_rfl, Arena.extends_add _ _ _, rfl, fun _ => rfl, rfl⟩⟩

instance (form : Form Slot) : Keeps quiet (finishEmpty form) :=
  ⟨fun _ => ⟨.refl _, List.suffix_rfl, Arena.extends_add _ _ _, rfl, fun _ => rfl, rfl⟩⟩

instance (start : Cursor) : Keeps quiet (finishVerbatim start) := by
  unfold finishVerbatim; infer_instance

instance (node : Slot) (doc : Option Text.Excerpt) : Keeps quiet (attachDoc node doc) := by
  unfold attachDoc
  split
  · exact ⟨fun _ => ⟨.refl _, List.suffix_rfl, fun _ _ h => h, rfl, fun _ => rfl, rfl⟩⟩
  · infer_instance

/-! ## Repetition -/

instance (a : α) : Keeps quiet (giveUp a) :=
  ⟨fun _ => ⟨.refl _, List.suffix_rfl, .refl _, rfl, fun _ => rfl, rfl⟩⟩

instance (close : Punctuation) {item : Parser Slot} [Keeps quiet item] (rounds : Nat)
    (done : List Slot) :
    Keeps quiet (itemsUntil close item rounds done) := by
  induction rounds generalizing done with
  | zero => unfold itemsUntil; infer_instance
  | succ rounds ih => unfold itemsUntil; infer_instance

instance (close : Punctuation) {item : Parser Slot} [Keeps quiet item] :
    Keeps quiet (commaList close item) := by
  unfold commaList
  infer_instance

instance {flag? : Parser (Option Modifier)} {isMeant : Parser Bool} [Keeps quiet flag?]
    [Keeps quiet isMeant] (rounds : Nat) (found : Modifiers) :
    Keeps quiet (modifiersWhile flag? isMeant rounds found) := by
  induction rounds generalizing found with
  | zero => unfold modifiersWhile; infer_instance
  | succ rounds ih =>
    unfold modifiersWhile
    refine .andThen fun flag => ?_
    split <;> infer_instance

instance (flag? : TokenKind → Option Modifier) {isMeant : Parser Bool} [Keeps quiet isMeant] :
    Keeps quiet (modifiers flag? isMeant) := by
  unfold modifiers
  infer_instance

/-! ## Names and groups -/

instance : Keeps quiet identifierName := by unfold identifierName; infer_instance

instance : Keeps quiet bindingIdentifier := by unfold bindingIdentifier; infer_instance

instance : Keeps quiet stringLiteral := by unfold stringLiteral; infer_instance

instance (start rounds : Nat) (entity : Slot) : Keeps quiet (dottedRest start rounds entity) := by
  induction rounds generalizing entity with
  | zero => unfold dottedRest; infer_instance
  | succ rounds ih => unfold dottedRest; infer_instance

instance : Keeps quiet entityName := by unfold entityName; infer_instance

instance (start close : Punctuation) (rounds depth : Nat) :
    Keeps quiet (skipGroup start close rounds depth) := by
  induction rounds generalizing depth with
  | zero => unfold skipGroup; infer_instance
  | succ rounds ih => unfold skipGroup; infer_instance

instance (start close : Punctuation) : Keeps quiet (skipBalanced start close) := by
  unfold skipBalanced; infer_instance

instance (rounds : Nat) : Keeps quiet (skipDotted rounds) := by
  induction rounds with
  | zero => unfold skipDotted; infer_instance
  | succ rounds ih => unfold skipDotted; infer_instance

instance (rounds : Nat) : Keeps quiet (skipDecoratorsIn rounds) := by
  induction rounds with
  | zero => unfold skipDecoratorsIn; infer_instance
  | succ rounds ih => unfold skipDecoratorsIn; infer_instance

instance : Keeps quiet skipDecorators := by unfold skipDecorators; infer_instance

/-! ## Expressions -/

instance (previous : Option TokenKind) : Keeps quiet (completeToken previous) := by
  unfold completeToken
  refine .andThen fun k => ?_
  split <;> infer_instance

instance (depth : Nat) (previous : Option TokenKind) :
    Keeps quiet (atNextDeclaration depth previous) := by
  unfold atNextDeclaration
  infer_instance

instance {go : Option TokenKind → Parser Unit} [∀ previous, Keeps quiet (go previous)] :
    Keeps quiet (passToken go) := by
  unfold passToken
  infer_instance

instance (rounds depth : Nat) (previous : Option TokenKind) :
    Keeps quiet (skipTokens rounds depth previous) := by
  induction rounds generalizing depth previous with
  | zero => unfold skipTokens; infer_instance
  | succ rounds ih =>
    unfold skipTokens
    refine .andThen fun token => ?_
    split <;> infer_instance

instance : Keeps quiet skipExpression := by unfold skipExpression; infer_instance

instance (start rounds : Nat) (expression : Slot) :
    Keeps quiet (accessChain start rounds expression) := by
  induction rounds generalizing expression with
  | zero => unfold accessChain; infer_instance
  | succ rounds ih => unfold accessChain; infer_instance

instance : Keeps quiet tokenLiteral? := by
  unfold tokenLiteral?
  refine .andThen fun k => ?_
  split <;> infer_instance

instance : Keeps quiet negativeLiteral? := by
  unfold negativeLiteral?
  refine .andThen fun k => ?_
  split <;> infer_instance

instance : Keeps quiet simpleExpression := by
  unfold simpleExpression
  refine .andThen fun start => .andThen fun literal => ?_
  split
  · infer_instance
  · have hdigits : Keeps quiet (do
        match ← negativeLiteral? with
        | some form =>
          advance
          finish form start
        | none => return none) := .andThen fun digits => by split <;> infer_instance
    infer_instance

instance : Keeps quiet atExpressionEnd := by
  have hkind : Keeps quiet (do
      match ← kind with
      | .punctuation .comma | .punctuation .semicolon | .punctuation .closeParen
      | .punctuation .closeBracket
      | .punctuation .closeBrace | .endOfFile => return true
      | _ => return false) := .andThen fun k => by split <;> infer_instance
  unfold atExpressionEnd
  infer_instance

instance : Keeps quiet readsSimpleExpression := by unfold readsSimpleExpression; infer_instance

instance : Keeps quiet expression := by
  unfold expression
  refine .andThen fun start => .andThen fun isSimple => ?_
  split
  · refine .andThen fun node => ?_
    split <;> infer_instance
  · infer_instance

instance : Keeps quiet propertyName := by
  unfold propertyName
  refine .andThen fun start => .andThen fun k => ?_
  split <;> infer_instance

instance : Keeps quiet optionalInitializer := by unfold optionalInitializer; infer_instance

/-- The rules for expressions and types keep what was there before them. -/
class KeepingRules (quiet : Bool) (sub : Rules) : Prop where
  type : Keeps quiet (sub .type)
  unionType : Keeps quiet (sub .unionType)
  operatorType : Keeps quiet (sub .operatorType)
  literalValue : Keeps quiet (sub .literalValue)
  bindingName : Keeps quiet (sub .bindingName)

attribute [instance] KeepingRules.type KeepingRules.unionType KeepingRules.operatorType
    KeepingRules.literalValue
  KeepingRules.bindingName

variable {sub : Rules} [KeepingRules quiet sub]

/-! ## Object and array literals -/

instance (rounds : Nat) (done : List Slot) : Keeps quiet (literalProperties sub rounds done) := by
  induction rounds generalizing done with
  | zero => unfold literalProperties; infer_instance
  | succ rounds ih =>
    unfold literalProperties
    refine .andThen fun atClose => ?_
    split
    · infer_instance
    refine .andThen fun k => ?_
    extract_lets go
    have hgo : ∀ isName, Keeps quiet (go isName) := by
      intro isName
      unfold go
      split
      · refine .andThen fun start => .andThen fun name => .andThen fun hasValue => ?_
        extract_lets finishProperty
        have hfinish : ∀ initializer, Keeps quiet (finishProperty initializer) := by
          intro initializer
          unfold finishProperty
          split <;> infer_instance
        split
        · refine .andThen fun value => ?_
          split <;> infer_instance
        · infer_instance
      · infer_instance
    split <;> infer_instance

instance : Keeps quiet (objectLiteral sub) := by
  unfold objectLiteral
  refine .andThen fun start => .andThen fun _ => .andThen fun rounds =>
    .andThen fun properties => ?_
  split <;> infer_instance

instance (rounds : Nat) (done : List Slot) : Keeps quiet (literalElements sub rounds done) := by
  induction rounds generalizing done with
  | zero => unfold literalElements; infer_instance
  | succ rounds ih =>
    have helement : Keeps quiet (do
        match ← sub .literalValue with
        | none => return none
        | some element =>
          if ← optionalMark .comma then
            literalElements sub rounds (some element :: done)
          else
            return some (some element :: done).reverse) := .andThen fun found => by
              split <;> infer_instance
    unfold literalElements
    infer_instance

instance : Keeps quiet (arrayLiteral sub) := by
  unfold arrayLiteral
  refine .andThen fun start => .andThen fun _ => .andThen fun rounds => .andThen fun elements => ?_
  split <;> infer_instance

instance : Keeps quiet (literalValue sub) := by
  unfold literalValue
  refine .andThen fun k => ?_
  split <;> infer_instance

instance : Keeps quiet (readsLiteralValue sub) := by unfold readsLiteralValue; infer_instance

instance : Keeps quiet (variableInitializer sub) := by
  unfold variableInitializer
  refine .andThen fun atBrace => .andThen fun atBracket => ?_
  dsimp only
  split
  · refine .andThen fun isLiteral => ?_
    split
    · refine .andThen fun node => ?_
      split <;> infer_instance
    · infer_instance
  · infer_instance

/-! ## Binding patterns -/

instance : Keeps quiet (objectPatternElement sub) := by
  unfold objectPatternElement
  refine .andThen fun start => .andThen fun isRest => ?_
  extract_lets finishElement
  have hfinish : ∀ parts, Keeps quiet (finishElement parts) := by
    rintro ⟨key, name⟩
    unfold finishElement
    infer_instance
  infer_instance

instance : Keeps quiet (objectPattern sub) := by unfold objectPattern; infer_instance

instance (rounds : Nat) (done : List Slot) :
    Keeps quiet (arrayPatternElements sub rounds done) := by
  induction rounds generalizing done with
  | zero => unfold arrayPatternElements; infer_instance
  | succ rounds ih => unfold arrayPatternElements; infer_instance

instance : Keeps quiet (arrayPattern sub) := by unfold arrayPattern; infer_instance

instance : Keeps quiet (bindingName sub) := by
  unfold bindingName
  refine .andThen fun k => ?_
  split <;> infer_instance

/-! ## Parameters and members -/

instance : Keeps quiet (optionalAscription sub) := by unfold optionalAscription; infer_instance

instance : Keeps quiet (typeParameter sub) := by unfold typeParameter; infer_instance

instance : Keeps quiet (typeParameters sub) := by unfold typeParameters; infer_instance

instance : Keeps quiet (typeArguments sub) := by unfold typeArguments; infer_instance

omit [KeepingRules quiet sub] in
instance : Keeps quiet parameterName := by
  unfold parameterName
  refine .andThen fun start => .andThen fun k => ?_
  split <;> infer_instance

instance : Keeps quiet (parameter sub) := by unfold parameter; infer_instance

instance : Keeps quiet (parameters sub) := by unfold parameters; infer_instance

instance : Keeps quiet (signature sub) := by unfold signature; infer_instance

instance : Keeps quiet memberSeparator := by unfold memberSeparator; infer_instance

instance : Keeps quiet functionBody := by unfold functionBody; infer_instance

instance : Keeps quiet readsIndexSignature := by
  unfold readsIndexSignature
  refine .andThen fun _ => .andThen fun k => ?_
  split
  · infer_instance
  · infer_instance
  · split
    · refine .andThen fun _ => .andThen fun k' => ?_
      split <;> infer_instance
    · infer_instance

instance : Keeps quiet atIndexSignature := by unfold atIndexSignature; infer_instance

instance : Keeps quiet (indexParameter sub) := by unfold indexParameter; infer_instance

instance (start : Nat) (ms : Modifiers) : Keeps quiet (indexSignature sub start ms) := by
  unfold indexSignature
  infer_instance

instance (start : Nat) (ms : Modifiers) (inClass : Bool) :
    Keeps quiet (accessor? sub start ms inClass) := by
  unfold accessor?
  infer_instance

instance : Keeps quiet atCallStart := by unfold atCallStart; infer_instance

instance {member : Parser Slot} [Keeps quiet member] (rounds : Nat) (done : List Slot) :
    Keeps quiet (membersIn member rounds done) := by
  induction rounds generalizing done with
  | zero => unfold membersIn; infer_instance
  | succ rounds ih =>
    unfold membersIn
    have hgo : ∀ found : Slot, Keeps quiet (match found with
        | some node => membersIn member rounds (some node :: done)
        | none => membersIn member rounds done) := by
      intro found
      split <;> infer_instance
    infer_instance

instance {member : Parser Slot} [Keeps quiet member] : Keeps quiet (memberBlock member) := by
  unfold memberBlock; infer_instance

instance (start : Nat) (ms : Modifiers) : Keeps quiet (namedTypeMember sub start ms) := by
  unfold namedTypeMember
  infer_instance

instance : Keeps quiet (bareTypeMember sub) := by
  have hmember : ∀ start ms, Keeps quiet (do
      if let some node ← accessor? sub start ms false then
        return some node
      namedTypeMember sub start ms) := fun start ms => .andThen fun node => by
        split <;> infer_instance
  unfold bareTypeMember
  infer_instance

instance : Keeps quiet (typeMember sub) := by unfold typeMember; infer_instance

instance : Keeps quiet (typeMembers sub) := by unfold typeMembers; infer_instance

end DeclBundle.Grammar
