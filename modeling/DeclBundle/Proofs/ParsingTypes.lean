import DeclBundle.Proofs.Parsing

/-!
# Parsers of members and types use every node once
-/

set_option autoImplicit false
set_option mvcgen.warning false

namespace DeclBundle.Grammar

open Std.Do

-- triples are put together without looking into what a parser does to its state
attribute [local irreducible] kind value offset isAt advance optional nextKind report expect? finish

variable (a : Arena) {sub : Rules} (hsub : ∀ a notion, ⦃StartsOn a⦄ sub notion ⦃Makes a⦄)

include hsub

/-! ## Parameters and arguments -/

@[spec] theorem optionalAscription_spec : ⦃StartsOn a⦄ optionalAscription sub ⦃Makes a⦄ := by
  mvcgen [optionalAscription, hsub] with grind

@[spec] theorem typeParameter_spec : ⦃StartsOn a⦄ typeParameter sub ⦃Makes a⦄ := by
  unfold typeParameter
  refine keeps_bind (offset_spec a) fun start => ?_
  refine keeps_bind (modifiers_spec a _ nextIsName_spec) fun ms => ?_
  refine gives_bind (bindingIdentifier_spec a) fun name a => ?_
  refine keeps_bind (optionalWord_spec a _) fun hasBound => ?_
  refine optional_bind (hsub a .type) fun bound a => ?_
  refine keeps_bind (optionalMark_spec a _) fun hasDefault => ?_
  refine optional_bind (hsub a .type) fun default a => ?_
  exact finish_spends a start (by grind [Form.children])

@[spec] theorem typeParameters_spec : ⦃StartsOn a⦄ typeParameters sub ⦃MakesAll a⦄ := by
  mvcgen [typeParameters, hsub] with grind

@[spec] theorem typeArguments_spec : ⦃StartsOn a⦄ typeArguments sub ⦃MakesAll a⦄ := by
  mvcgen [typeArguments, hsub] with grind

omit hsub in
@[spec] theorem parameterName_spec : ⦃StartsOn a⦄ parameterName ⦃Makes a⦄ := by
  mvcgen [parameterName] with grind

@[spec] theorem parameter_spec : ⦃StartsOn a⦄ parameter sub ⦃Makes a⦄ := by
  mvcgen [parameter, hsub] with grind [Form.children]

@[spec] theorem parameters_spec : ⦃StartsOn a⦄ parameters sub ⦃MakesAll a⦄ := by
  mvcgen [parameters, hsub] with grind

/-- The parser makes a signature. -/
abbrev MakesSignature (a : Arena) : PostCond (Signature Slot) (.arg State .pure) :=
  Spends [] a Signature.children

@[spec] theorem signature_spec : ⦃StartsOn a⦄ signature sub ⦃MakesSignature a⦄ := by
  mvcgen [signature, hsub] with grind [Signature.children]

/-! ## Members -/

@[spec] theorem indexParameter_spec : ⦃StartsOn a⦄ indexParameter sub ⦃Makes a⦄ := by
  mvcgen [indexParameter, hsub] with grind [Form.children]

@[spec] theorem indexSignature_spec (start : Nat) (ms : Modifiers) :
    ⦃StartsOn a⦄ indexSignature sub start ms ⦃Makes a⦄ := by
  mvcgen [indexSignature, hsub] with grind [Form.children]

@[spec] theorem accessor?_spec (start : Nat) (ms : Modifiers) (inClass : Bool) :
    ⦃StartsOn a⦄ accessor? sub start ms inClass ⦃Makes a⦄ := by
  unfold accessor?
  refine keeps_bind (atWord_spec a _) fun isGet => ?_
  refine keeps_bind (atWord_spec a _) fun isSet => ?_
  split
  · refine keeps_bind (canBeMemberModifier_spec a) fun isMeant => ?_
    split
    · refine keeps_bind (advance_spec a) fun _ => ?_
      refine gives_bind (propertyName_spec a) fun name a => ?_
      refine gives_bind (gives_discard (typeParameters_spec a hsub)) fun _ a => ?_
      refine gives_bind (parameters_spec a hsub) fun ps a => ?_
      refine gives_bind (optionalAscription_spec a hsub) fun result a => ?_
      extract_lets go
      have hgo : ∀ u, ⦃StartsOn a⦄ go u ⦃Spends ([result] ++ (ps ++ [name])) a fun r => [r]⦄ := by
        intro u
        unfold go
        split
        · exact finish_spends a start (by grind [Form.children])
        · exact finish_spends a start (by grind [Form.children])
      clear_value go
      split
      · exact keeps_bind (keeps_discard (functionBody_spec a)) hgo
      · exact keeps_bind (memberSeparator_spec a) hgo
    · exact spends_pure fun n => Nat.zero_le _
  · exact spends_pure fun n => Nat.zero_le _

omit hsub in
@[spec] theorem membersIn_spec {member : Parser Slot} (hmember : ∀ a, ⦃StartsOn a⦄ member ⦃Makes a⦄)
    (rounds : Nat) (done : List Slot) :
    ⦃StartsOn a⦄ membersIn member rounds done ⦃Spends done a id⦄ := by
  induction rounds generalizing a done with
  | zero =>
    mvcgen [membersIn]
    grind
  | succ rounds ih =>
    unfold membersIn
    refine keeps_bind (atMark_spec a _) fun atClose => ?_
    refine keeps_bind (atEnd_spec a) fun atEnd => ?_
    split
    · exact spends_pure fun n => List.count_reverse.le
    refine keeps_bind (offset_spec a) fun before => ?_
    refine gives_bind (hmember a) fun found a => ?_
    refine keeps_bind (offset_spec a) fun after => ?_
    extract_lets go
    have hgo : ∀ u, ⦃StartsOn a⦄ go u ⦃Spends ([found] ++ done) a id⦄ := by
      intro u
      unfold go
      split
      · exact ih a _
      · exact spends_mono (ih a done) fun n => List.count_le_count_cons
    clear_value go
    split
    · exact keeps_bind (advance_spec a) hgo
    · exact hgo ()

omit hsub in
@[spec] theorem memberBlock_spec {member : Parser Slot}
    (hmember : ∀ a, ⦃StartsOn a⦄ member ⦃Makes a⦄) :
    ⦃StartsOn a⦄ memberBlock member ⦃MakesAll a⦄ := by
  mvcgen [memberBlock, hmember] with grind

@[spec] theorem namedTypeMember_spec (start : Nat) (ms : Modifiers) :
    ⦃StartsOn a⦄ namedTypeMember sub start ms ⦃Makes a⦄ := by
  unfold namedTypeMember
  refine gives_bind (propertyName_spec a) fun name a => ?_
  refine keeps_bind (optionalMark_spec a _) fun isOptional => ?_
  refine keeps_bind (atCallStart_spec a) fun isCall => ?_
  split
  · refine gives_bind (signature_spec a hsub) fun s a => ?_
    refine keeps_bind (memberSeparator_spec a) fun _ => ?_
    exact finish_spends a start (by grind [Form.children])
  · refine gives_bind (optionalAscription_spec a hsub) fun ascription a => ?_
    refine keeps_bind (memberSeparator_spec a) fun _ => ?_
    exact finish_spends a start (by grind [Form.children])

@[spec] theorem bareTypeMember_spec : ⦃StartsOn a⦄ bareTypeMember sub ⦃Makes a⦄ := by
  unfold bareTypeMember
  refine keeps_bind (offset_spec a) fun start => ?_
  refine keeps_bind (atCallStart_spec a) fun isCall => ?_
  extract_lets go
  have hgo : ∀ u, ⦃StartsOn a⦄ go u ⦃Makes a⦄ := by
    intro u
    refine keeps_bind (modifiers_spec a _ canBeMemberModifier_spec) fun ms => ?_
    refine keeps_bind (atIndexSignature_spec a) fun isIndexed => ?_
    split
    · exact indexSignature_spec a hsub start ms
    refine gives_bind (accessor?_spec a hsub start ms false) fun node a => ?_
    split
    · exact spends_pure fun n => Nat.le_refl _
    · exact spends_mono (namedTypeMember_spec a hsub start ms) fun n => Nat.zero_le _
  clear_value go
  split
  · refine gives_bind (signature_spec a hsub) fun s a => ?_
    refine keeps_bind (memberSeparator_spec a) fun _ => ?_
    exact finish_spends a start (by grind [Form.children])
  refine keeps_bind (atWord_spec a _) fun isNew => ?_
  split
  · refine keeps_bind (nextKind_spec a) fun next => ?_
    split
    · refine keeps_bind (advance_spec a) fun _ => ?_
      refine gives_bind (signature_spec a hsub) fun s a => ?_
      refine keeps_bind (memberSeparator_spec a) fun _ => ?_
      exact finish_spends a start (by grind [Form.children])
    · exact hgo ()
  · exact hgo ()

@[spec] theorem typeMember_spec : ⦃StartsOn a⦄ typeMember sub ⦃Makes a⦄ := by
  mvcgen [typeMember, hsub] with grind

@[spec] theorem typeMembers_spec : ⦃StartsOn a⦄ typeMembers sub ⦃MakesAll a⦄ := by
  mvcgen [typeMembers, hsub]

@[spec] theorem namedClassMember_spec (start : Nat) (ms : Modifiers) :
    ⦃StartsOn a⦄ namedClassMember sub start ms ⦃Makes a⦄ := by
  unfold namedClassMember
  refine keeps_bind (keeps_discard (optionalMark_spec a _)) fun _ => ?_
  refine gives_bind (propertyName_spec a) fun name a => ?_
  refine keeps_bind (optionalMark_spec a _) fun isOptional => ?_
  refine keeps_bind (atCallStart_spec a) fun isCall => ?_
  split
  · refine gives_bind (signature_spec a hsub) fun s a => ?_
    refine keeps_bind (functionBody_spec a) fun hasBody => ?_
    exact finish_spends a start (by grind [Form.children])
  · refine keeps_bind (optionalMark_spec a _) fun definite => ?_
    refine gives_bind (optionalAscription_spec a hsub) fun ascription a => ?_
    refine gives_bind (optionalInitializer_spec a) fun initializer a => ?_
    refine keeps_bind (semicolon_spec a) fun _ => ?_
    exact finish_spends a start (by grind [Form.children])

@[spec] theorem bareClassMember_spec (start : Nat) (ms : Modifiers) :
    ⦃StartsOn a⦄ bareClassMember sub start ms ⦃Makes a⦄ := by
  unfold bareClassMember
  refine keeps_bind (atIndexSignature_spec a) fun isIndexed => ?_
  split
  · exact indexSignature_spec a hsub start ms
  refine keeps_bind (atConstructor_spec a) fun isConstructor => ?_
  split
  · refine keeps_bind (advance_spec a) fun _ => ?_
    refine gives_bind (parameters_spec a hsub) fun ps a => ?_
    refine gives_bind (gives_discard (optionalAscription_spec a hsub)) fun _ a => ?_
    refine keeps_bind (functionBody_spec a) fun hasBody => ?_
    exact finish_spends a start (by grind [Form.children])
  refine gives_bind (accessor?_spec a hsub start ms true) fun node a => ?_
  split
  · exact spends_pure fun n => Nat.le_refl _
  · exact spends_mono (namedClassMember_spec a hsub start ms) fun n => Nat.zero_le _

@[spec] theorem classMember_spec : ⦃StartsOn a⦄ classMember sub ⦃Makes a⦄ := by
  mvcgen [classMember, hsub] with grind

@[spec] theorem classMembers_spec : ⦃StartsOn a⦄ classMembers sub ⦃MakesAll a⦄ := by
  mvcgen [classMembers, hsub]

/-! ## Types -/

omit hsub in
@[spec] theorem missingType_spec : ⦃StartsOn a⦄ missingType ⦃Makes a⦄ := by
  mvcgen [missingType] with grind [Form.children]

omit hsub in
@[spec] theorem reportMissingType_spec : ⦃StartsOn a⦄ reportMissingType ⦃Makes a⦄ := by
  mvcgen [reportMissingType] with grind

omit hsub in
@[spec] theorem finishLiteralType_spec (form : Form Slot) (start : Nat) :
    ⦃StartsOn a⦄ finishLiteralType form start ⦃Spends form.children a fun r => [r]⦄ := by
  mvcgen [finishLiteralType] with grind [Form.children]

omit hsub in
@[spec] theorem numericType_spec (start : Nat) : ⦃StartsOn a⦄ numericType start ⦃Makes a⦄ := by
  mvcgen [numericType] with grind [Form.children]

@[spec] theorem importType_spec (start : Nat) (isTypeof : Bool) :
    ⦃StartsOn a⦄ importType sub start isTypeof ⦃Makes a⦄ := by
  unfold importType
  refine keeps_bind (expectWord_spec a _) fun _ => ?_
  refine keeps_bind (expectMark_spec a _) fun _ => ?_
  refine gives_bind (stringLiteral_spec a) fun argument a => ?_
  refine keeps_bind (optionalMark_spec a _) fun hasAttributes => ?_
  extract_lets finishType go
  have hgo : ∀ u, ⦃StartsOn a⦄ go u ⦃Spends [argument] a fun r => [r]⦄ := by
    intro u
    refine keeps_bind (expectMark_spec a _) fun _ => ?_
    refine keeps_bind (optionalMark_spec a _) fun isQualified => ?_
    refine optional_bind (entityName_spec a) fun qualifier a => ?_
    refine gives_bind (typeArguments_spec a hsub) fun arguments a => ?_
    exact finish_spends a start (by grind [Form.children])
  clear_value go
  split
  · refine keeps_bind (atMark_spec a _) fun atBrace => ?_
    split
    · exact keeps_bind (skipBlock_spec a) hgo
    · exact hgo ()
  · exact hgo ()

@[spec] theorem templateSpans_spec (rounds : Nat) (done : List Slot) :
    ⦃StartsOn a⦄ templateSpans sub rounds done ⦃Spends done a id⦄ := by
  induction rounds generalizing a done with
  | zero =>
    mvcgen [templateSpans]
    grind
  | succ rounds ih =>
    unfold templateSpans
    refine keeps_bind (offset_spec a) fun start => ?_
    refine gives_bind (hsub a .type) fun type a => ?_
    refine keeps_bind (atMark_spec a _) fun atBrace => ?_
    split
    · refine keeps_bind (relex_spec a _) fun _ => ?_
      refine keeps_bind (isAt_spec a _) fun isTail => ?_
      refine keeps_bind (value_spec a) fun literal => ?_
      refine keeps_bind (advance_spec a) fun _ => ?_
      refine spends_bind done (finish_spec a _ start) (by grind [Form.children]) fun span a => ?_
      split
      · exact spends_pure fun n => List.count_reverse.le
      · exact ih a _
    · refine keeps_bind (expectMark_spec a _) fun _ => ?_
      exact spends_pure (by grind)

@[spec] theorem templateType_spec (start : Nat) :
    ⦃StartsOn a⦄ templateType sub start ⦃Makes a⦄ := by
  mvcgen [templateType, hsub] with grind [Form.children]

@[spec] theorem mappedType_spec (start : Nat) : ⦃StartsOn a⦄ mappedType sub start ⦃Makes a⦄ := by
  unfold mappedType
  refine keeps_bind (expectMark_spec a _) fun _ => ?_
  refine keeps_bind (mappedSign_spec a _) fun readonly => ?_
  refine keeps_bind (expectMark_spec a _) fun _ => ?_
  refine keeps_bind (offset_spec a) fun parameterStart => ?_
  refine gives_bind (identifierName_spec a) fun name a => ?_
  refine keeps_bind (expectWord_spec a _) fun _ => ?_
  refine gives_bind (hsub a .type) fun bound a => ?_
  refine spends_bind [] (finish_spec a _ parameterStart) (by
    grind [Form.children]) fun parameter a => ?_
  refine keeps_bind (optionalWord_spec a _) fun isRenamed => ?_
  refine optional_bind (hsub a .type) fun nameType a => ?_
  refine keeps_bind (expectMark_spec a _) fun _ => ?_
  refine keeps_bind (mappedSign_spec a _) fun question => ?_
  refine gives_bind (optionalAscription_spec a hsub) fun type a => ?_
  refine keeps_bind (optionalMark_spec a _) fun hasSemicolon => ?_
  extract_lets go
  have hgo : ∀ u, ⦃StartsOn a⦄ go u ⦃Spends ([type] ++ nameType :: [parameter]) a fun r =>
    [r]⦄ := by
    intro u
    refine keeps_bind (expectMark_spec a _) fun _ => ?_
    exact finish_spends a start (by grind [Form.children])
  clear_value go
  split
  · exact hgo ()
  · exact keeps_bind (keeps_discard (optionalMark_spec a _)) hgo

@[spec] theorem tupleElement_spec : ⦃StartsOn a⦄ tupleElement sub ⦃Makes a⦄ := by
  unfold tupleElement
  refine keeps_bind (offset_spec a) fun start => ?_
  refine keeps_bind (atNamedElement_spec a) fun isNamed => ?_
  split
  · refine keeps_bind (optionalMark_spec a _) fun isRest => ?_
    refine gives_bind (identifierName_spec a) fun name a => ?_
    refine keeps_bind (optionalMark_spec a _) fun isOptional => ?_
    refine keeps_bind (expectMark_spec a _) fun _ => ?_
    refine gives_bind (hsub a .type) fun type a => ?_
    exact finish_spends a start (by grind [Form.children])
  refine keeps_bind (optionalMark_spec a _) fun isRest => ?_
  split
  · refine gives_bind (hsub a .type) fun type a => ?_
    exact finish_spends a start (by grind [Form.children])
  refine gives_bind (hsub a .type) fun type a => ?_
  refine keeps_bind (optionalMark_spec a _) fun isOptional => ?_
  split
  · exact finish_spends a start (by grind [Form.children])
  · exact spends_pure fun n => Nat.le_refl _

@[spec] theorem tupleType_spec (start : Nat) : ⦃StartsOn a⦄ tupleType sub start ⦃Makes a⦄ := by
  mvcgen [tupleType, hsub] with grind [Form.children]

@[spec] theorem typeReference_spec (start : Nat) :
    ⦃StartsOn a⦄ typeReference sub start ⦃Makes a⦄ := by
  mvcgen [typeReference, hsub] with grind [Form.children]

@[spec] theorem otherPrimaryType_spec (start : Nat) :
    ⦃StartsOn a⦄ otherPrimaryType sub start ⦃Makes a⦄ := by
  unfold otherPrimaryType
  refine keeps_bind (kind_spec a) fun k => ?_
  split
  · exact keeps_bind (advance_spec a) fun _ => finish_spec a _ start
  · exact keeps_bind (advance_spec a) fun _ => finishLiteralType_spec a _ start
  · exact keeps_bind (advance_spec a) fun _ => finishLiteralType_spec a _ start
  · refine gives_bind (stringLiteral_spec a) fun literal a => ?_
    exact finish_spends a start (by grind [Form.children])
  · exact numericType_spec a start
  · exact numericType_spec a start
  · exact numericType_spec a start
  · refine keeps_bind (tokenText_spec a) fun text => ?_
    exact keeps_bind (advance_spec a) fun _ => finishLiteralType_spec a _ start
  · exact templateType_spec a hsub start
  · refine keeps_bind (advance_spec a) fun _ => ?_
    refine keeps_bind (atWord_spec a _) fun isImport => ?_
    split
    · exact importType_spec a hsub start true
    · refine gives_bind (entityName_spec a) fun name a => ?_
      refine gives_bind (typeArguments_spec a hsub) fun arguments a => ?_
      exact finish_spends a start (by grind [Form.children])
  · exact importType_spec a hsub start false
  · refine keeps_bind (atMappedType_spec a) fun isMapped => ?_
    split
    · exact mappedType_spec a hsub start
    · refine gives_bind (typeMembers_spec a hsub) fun members a => ?_
      exact finish_spends a start (by grind [Form.children])
  · exact tupleType_spec a hsub start
  · refine keeps_bind (advance_spec a) fun _ => ?_
    refine gives_bind (hsub a .type) fun type a => ?_
    refine keeps_bind (expectMark_spec a _) fun _ => ?_
    exact finish_spends a start (by grind [Form.children])
  · split
    · exact typeReference_spec a hsub start
    · exact reportMissingType_spec a

@[spec] theorem primaryType_spec : ⦃StartsOn a⦄ primaryType sub ⦃Makes a⦄ := by
  mvcgen [primaryType, hsub] with grind [Form.children]

@[spec] theorem bracketsAfter_spec (start rounds : Nat) (type : Slot) :
    ⦃StartsOn a⦄ bracketsAfter sub start rounds type ⦃Spends [type] a fun r => [r]⦄ := by
  induction rounds generalizing a type with
  | zero =>
    mvcgen [bracketsAfter]
    grind
  | succ rounds ih =>
    unfold bracketsAfter
    refine keeps_bind (afterLineBreak_spec a) fun onNewLine => ?_
    refine keeps_bind (atMark_spec a _) fun atOpen => ?_
    split
    · exact spends_pure fun n => Nat.le_refl _
    refine keeps_bind (advance_spec a) fun _ => ?_
    refine keeps_bind (optionalMark_spec a _) fun isArray => ?_
    split
    · refine spends_bind [] (finish_spec a _ start) (by grind [Form.children]) fun array a => ?_
      exact ih a array
    · refine gives_bind (hsub a .type) fun index a => ?_
      refine keeps_bind (expectMark_spec a _) fun _ => ?_
      refine spends_bind [] (finish_spec a _ start) (by grind [Form.children]) fun access a => ?_
      exact ih a access

@[spec] theorem bracketedType_spec : ⦃StartsOn a⦄ bracketedType sub ⦃Makes a⦄ := by
  mvcgen [bracketedType, hsub] with grind

@[spec] theorem arrowSignature_spec : ⦃StartsOn a⦄ arrowSignature sub ⦃MakesSignature a⦄ := by
  mvcgen [arrowSignature, hsub] with grind [Signature.children]

@[spec] theorem functionType?_spec : ⦃StartsOn a⦄ functionType? sub ⦃Makes a⦄ := by
  unfold functionType?
  refine keeps_bind (offset_spec a) fun start => ?_
  refine keeps_bind (atFunctionType_spec a) fun isFunction => ?_
  split
  · refine gives_bind (arrowSignature_spec a hsub) fun s a => ?_
    exact finish_spends a start (by grind [Form.children])
  refine keeps_bind (optionalWord_spec a _) fun isNew => ?_
  split
  · refine gives_bind (arrowSignature_spec a hsub) fun s a => ?_
    exact finish_spends a start (by grind [Form.children])
  refine keeps_bind (atWord_spec a _) fun isAbstract => ?_
  refine keeps_bind (nextKind_spec a) fun next => ?_
  split
  · refine keeps_bind (advance_spec a) fun _ => ?_
    refine keeps_bind (expectWord_spec a _) fun _ => ?_
    refine gives_bind (arrowSignature_spec a hsub) fun s a => ?_
    exact finish_spends a start (by grind [Form.children])
  · exact spends_pure fun n => Nat.le_refl _

@[spec] theorem inferConstraint_spec : ⦃StartsOn a⦄ inferConstraint sub ⦃Makes a⦄ := by
  mvcgen [inferConstraint, hsub] with grind

@[spec] theorem inferParameter_spec : ⦃StartsOn a⦄ inferParameter sub ⦃Makes a⦄ := by
  mvcgen [inferParameter, hsub] with grind [Form.children]

@[spec] theorem operatorType_spec : ⦃StartsOn a⦄ operatorType sub ⦃Makes a⦄ := by
  unfold operatorType
  refine keeps_bind (offset_spec a) fun start => ?_
  refine gives_bind (functionType?_spec a hsub) fun node a => ?_
  split
  · exact spends_pure fun n => Nat.le_refl _
  refine keeps_bind (kind_spec a) fun k => ?_
  split
  · refine keeps_bind (advance_spec a) fun _ => ?_
    refine gives_bind (hsub a .operatorType) fun type a => ?_
    exact finish_spends a start (by grind [Form.children])
  refine keeps_bind (optionalWord_spec a _) fun isInfer => ?_
  split
  · refine gives_bind (inferParameter_spec a hsub) fun parameter a => ?_
    exact finish_spends a start (by grind [Form.children])
  · exact spends_mono (bracketedType_spec a hsub) fun n => Nat.zero_le _

omit hsub in
@[spec] theorem operandsAfter_spec (p : Punctuation) {operand : Parser Slot}
    (hoperand : ∀ a, ⦃StartsOn a⦄ operand ⦃Makes a⦄) (rounds : Nat) (done : List Slot) :
    ⦃StartsOn a⦄ operandsAfter p operand rounds done ⦃Spends done a id⦄ := by
  induction rounds generalizing a done with
  | zero =>
    mvcgen [operandsAfter]
    grind
  | succ rounds ih => mvcgen [operandsAfter, hoperand, ih] <;> grind

@[spec] theorem intersectionType_spec : ⦃StartsOn a⦄ intersectionType sub ⦃Makes a⦄ := by
  mvcgen [intersectionType, hsub] with grind [Form.children]

@[spec] theorem unionType_spec : ⦃StartsOn a⦄ unionType sub ⦃Makes a⦄ := by
  mvcgen [unionType, hsub] with grind [Form.children]

@[spec] theorem typePredicate?_spec (start : Nat) :
    ⦃StartsOn a⦄ typePredicate? sub start ⦃Makes a⦄ := by
  unfold typePredicate?
  refine keeps_bind (atWord_spec a _) fun atAsserts => ?_
  extract_lets go
  have hgo : ∀ asserts, ⦃StartsOn a⦄ go asserts ⦃Makes a⦄ := by
    intro asserts
    unfold go
    extract_lets afterSubject afterHead
    have hsubject : ∀ subject a, ⦃StartsOn a⦄ afterSubject subject ⦃Spends [subject] a fun r =>
      [r]⦄ := by
      intro subject a
      refine keeps_bind (afterLineBreak_spec a) fun onNewLine => ?_
      extract_lets afterType afterIs
      have his : ∀ isTyped, ⦃StartsOn a⦄ afterIs isTyped ⦃Spends [subject] a fun r => [r]⦄ := by
        intro isTyped
        refine optional_bind (hsub a .type) fun type a => ?_
        exact finish_spends a start (by grind [Form.children])
      clear_value afterIs
      split
      · rw [pure_bind]
        exact his false
      · exact keeps_bind (optionalWord_spec a _) his
    clear_value afterSubject
    have hhead : ∀ u, ⦃StartsOn a⦄ afterHead u ⦃Makes a⦄ := by
      intro u
      refine keeps_bind (offset_spec a) fun subjectStart => ?_
      refine keeps_bind (optionalWord_spec a _) fun isThis => ?_
      split
      · exact gives_bind (finish_spec a _ subjectStart) hsubject
      · exact gives_bind (identifierName_spec a) hsubject
    clear_value afterHead
    split
    · exact keeps_bind (advance_spec a) hhead
    refine keeps_bind (atName_spec a) fun atName => ?_
    split
    · refine keeps_bind (nextOnSameLine_spec a _) fun isPredicate => ?_
      split
      · exact hhead ()
      · exact spends_pure fun n => Nat.le_refl _
    · exact spends_pure fun n => Nat.le_refl _
  clear_value go
  split
  · exact keeps_bind (nextOnSameLine_spec a _) hgo
  · rw [pure_bind]
    exact hgo false

@[spec] theorem extendedType_spec : ⦃StartsOn a⦄ extendedType sub ⦃Makes a⦄ := by
  refine spends_of_le a fun before hbefore => ?_
  mvcgen [extendedType, hsub] with grind

@[spec] theorem openType_spec : ⦃StartsOn a⦄ openType sub ⦃Makes a⦄ := by
  unfold openType
  refine keeps_bind (offset_spec a) fun start => ?_
  refine gives_bind (typePredicate?_spec a hsub start) fun node a => ?_
  split
  · exact spends_pure fun n => Nat.le_refl _
  refine gives_bind (functionType?_spec a hsub) fun node' a => ?_
  split
  · exact spends_pure (by grind)
  refine gives_bind (unionType_spec a hsub) fun check a => ?_
  refine keeps_bind keeps_get fun s => ?_
  refine keeps_bind (afterLineBreak_spec a) fun onNewLine => ?_
  refine keeps_bind (atWord_spec a _) fun atExtends => ?_
  split
  · exact spends_pure (by grind)
  refine keeps_bind (advance_spec a) fun _ => ?_
  refine gives_bind (extendedType_spec a hsub) fun extended a => ?_
  refine keeps_bind (expectMark_spec a _) fun _ => ?_
  refine gives_bind (hsub a .type) fun whenTrue a => ?_
  refine keeps_bind (expectMark_spec a _) fun _ => ?_
  refine gives_bind (hsub a .type) fun whenFalse a => ?_
  exact finish_spends a start (by grind [Form.children])

@[spec] theorem type_spec : ⦃StartsOn a⦄ type sub ⦃Makes a⦄ := by
  mvcgen [type, hsub] with grind

end DeclBundle.Grammar
