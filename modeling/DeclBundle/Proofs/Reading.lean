import DeclBundle.Grammar.Statement
import DeclBundle.Proofs.Laying
import Mathlib

/-!
# Parsers that add no nodes

Most parsers only look at tokens or consume them. A triple says of each of these that it ends on the
arena that it started on (`Grammar.EndsOn`). A parser that looks ahead does so whatever it runs.
-/

set_option autoImplicit false
set_option mvcgen.warning false

namespace DeclBundle

open Std.Do

namespace Grammar

open Text (Cursor)

/-- The arena is `a` when a parser starts. -/
abbrev StartsOn (a : Arena) : Assertion (.arg State .pure) := fun s => ⌜s.arena = a⌝

/-- The arena still is `a` when a parser has run. -/
abbrev EndsOn (α : Type) (a : Arena) : PostCond α (.arg State .pure) := ⇓ _ s => ⌜s.arena = a⌝

/-- To discard a result is to run the parser and to return nothing. -/
@[spec] theorem discard_eq {α : Type} (m : Parser α) : discard m = (do let _ ← m) := rfl

variable (a : Arena)

/-- Behind a parser that adds no nodes the arena is the same. -/
theorem keeps_bind {α β : Type} {a : Arena} {x : Parser α} {f : α → Parser β}
    {Q : PostCond β (.arg State .pure)} (hx : ⦃StartsOn a⦄ x ⦃EndsOn α a⦄)
    (hf : ∀ r, ⦃StartsOn a⦄ f r ⦃Q⦄) : ⦃StartsOn a⦄ (x >>= f) ⦃Q⦄ := by
  mvcgen [hx, hf]

theorem keeps_discard {α : Type} {a : Arena} {x : Parser α} (hx : ⦃StartsOn a⦄ x ⦃EndsOn α a⦄) :
    ⦃StartsOn a⦄ discard x ⦃EndsOn Unit a⦄ := by
  mvcgen [hx]

theorem keeps_get {a : Arena} : ⦃StartsOn a⦄ (get : Parser State) ⦃EndsOn State a⦄ := by
  mvcgen

/-! ## The current token -/

@[spec] theorem kind_spec : ⦃StartsOn a⦄ kind ⦃EndsOn TokenKind a⦄ := by
  mvcgen [kind]

@[spec] theorem value_spec : ⦃StartsOn a⦄ value ⦃EndsOn String a⦄ := by
  mvcgen [value]

@[spec] theorem tokenText_spec : ⦃StartsOn a⦄ tokenText ⦃EndsOn String a⦄ := by
  mvcgen [tokenText]

@[spec] theorem here_spec : ⦃StartsOn a⦄ here ⦃EndsOn Cursor a⦄ := by
  mvcgen [here]

@[spec] theorem offset_spec : ⦃StartsOn a⦄ offset ⦃EndsOn Nat a⦄ := by
  mvcgen [offset]

@[spec] theorem pendingDoc_spec : ⦃StartsOn a⦄ pendingDoc ⦃EndsOn _ a⦄ := by
  mvcgen [pendingDoc]

@[spec] theorem isAt_spec (k : TokenKind) : ⦃StartsOn a⦄ isAt k ⦃EndsOn Bool a⦄ := by
  mvcgen [isAt]
  simp_all

@[spec] theorem atMark_spec (p : Punctuation) : ⦃StartsOn a⦄ atMark p ⦃EndsOn Bool a⦄ := by
  mvcgen [atMark]

@[spec] theorem atWord_spec (k : Keyword) : ⦃StartsOn a⦄ atWord k ⦃EndsOn Bool a⦄ := by
  mvcgen [atWord]

@[spec] theorem atEnd_spec : ⦃StartsOn a⦄ atEnd ⦃EndsOn Bool a⦄ := by
  mvcgen [atEnd]

@[spec] theorem atBindingName_spec : ⦃StartsOn a⦄ atBindingName ⦃EndsOn Bool a⦄ := by
  mvcgen [atBindingName]
  simp_all

@[spec] theorem atName_spec : ⦃StartsOn a⦄ atName ⦃EndsOn Bool a⦄ := by
  mvcgen [atName]
  simp_all

@[spec] theorem afterLineBreak_spec : ⦃StartsOn a⦄ afterLineBreak ⦃EndsOn Bool a⦄ := by
  mvcgen [afterLineBreak]

@[spec] theorem limit_spec : ⦃StartsOn a⦄ limit ⦃EndsOn Nat a⦄ := by
  mvcgen [limit]

/-! ## Moving on -/

@[spec] theorem advance_spec : ⦃StartsOn a⦄ advance ⦃EndsOn Unit a⦄ := by
  mvcgen [advance, State.moveTo]

@[spec] theorem optional_spec (k : TokenKind) : ⦃StartsOn a⦄ optional k ⦃EndsOn Bool a⦄ := by
  mvcgen [optional] with simp_all

@[spec] theorem optionalMark_spec (p : Punctuation) :
    ⦃StartsOn a⦄ optionalMark p ⦃EndsOn Bool a⦄ := by
  mvcgen [optionalMark]

@[spec] theorem optionalWord_spec (k : Keyword) : ⦃StartsOn a⦄ optionalWord k ⦃EndsOn Bool a⦄ := by
  mvcgen [optionalWord]

@[spec] theorem skipBlock_spec : ⦃StartsOn a⦄ skipBlock ⦃EndsOn Unit a⦄ := by
  mvcgen [skipBlock, State.moveTo]

@[spec] theorem relex_spec (f : Lexer → Lexer) : ⦃StartsOn a⦄ relex f ⦃EndsOn Unit a⦄ := by
  mvcgen [relex]

/-! ## Looking ahead -/

@[spec] theorem nextKind_spec : ⦃StartsOn a⦄ nextKind ⦃EndsOn TokenKind a⦄ := by
  mvcgen [nextKind]

@[spec] theorem nextOnSameLine_spec (p : TokenKind → Bool) :
    ⦃StartsOn a⦄ nextOnSameLine p ⦃EndsOn Bool a⦄ := by
  mvcgen [nextOnSameLine]

@[spec] theorem nextIsName_spec : ⦃StartsOn a⦄ nextIsName ⦃EndsOn Bool a⦄ := by
  mvcgen [nextIsName]
  simp_all

@[spec] theorem mark_spec : ⦃StartsOn a⦄ mark ⦃EndsOn Mark a⦄ := by
  mvcgen [mark]

@[spec] theorem rewind_spec (m : Mark) : ⦃StartsOn a⦄ rewind m ⦃EndsOn Unit a⦄ := by
  mvcgen [rewind]

/-! ## Errors -/

@[spec] theorem report_spec (problem : Problem) : ⦃StartsOn a⦄ report problem ⦃EndsOn Unit a⦄ := by
  mvcgen [report] with grind

@[spec] theorem expect?_spec (k : TokenKind) : ⦃StartsOn a⦄ expect? k ⦃EndsOn Bool a⦄ := by
  mvcgen [expect?] with simp_all

@[spec] theorem expect_spec (k : TokenKind) : ⦃StartsOn a⦄ expect k ⦃EndsOn Unit a⦄ := by
  mvcgen [expect]
  simp_all

@[spec] theorem expectMark_spec (p : Punctuation) : ⦃StartsOn a⦄ expectMark p ⦃EndsOn Unit a⦄ := by
  mvcgen [expectMark]

@[spec] theorem expectWord_spec (k : Keyword) : ⦃StartsOn a⦄ expectWord k ⦃EndsOn Unit a⦄ := by
  mvcgen [expectWord]

@[spec] theorem semicolon_spec : ⦃StartsOn a⦄ semicolon ⦃EndsOn Unit a⦄ := by
  mvcgen [semicolon] with simp_all

-- triples are put together without looking into what a parser does to its state
attribute [local irreducible] kind isAt advance optional report expect?

/-! ## Modifiers -/

@[spec] theorem giveUp_spec {α : Type} (answer : α) :
    ⦃StartsOn a⦄ giveUp answer ⦃⇓ r s => ⌜r = answer ∧ s.arena = a⌝⦄ := by
  mvcgen [giveUp]

@[spec] theorem modifiersWhile_spec {flag? : Parser (Option Modifier)} {isMeant : Parser Bool}
    (hflag : ∀ a, ⦃StartsOn a⦄ flag? ⦃EndsOn _ a⦄)
    (hmeant : ∀ a, ⦃StartsOn a⦄ isMeant ⦃EndsOn Bool a⦄) (rounds : Nat) (found : Modifiers) :
    ⦃StartsOn a⦄ modifiersWhile flag? isMeant rounds found ⦃EndsOn Modifiers a⦄ := by
  induction rounds generalizing a found with
  | zero =>
    mvcgen [modifiersWhile]
    simp_all
  | succ rounds ih =>
    mvcgen [modifiersWhile, hflag, hmeant, ih]
    all_goals simp_all

@[spec] theorem modifiers_spec (flag? : TokenKind → Option Modifier) {isMeant : Parser Bool}
    (hmeant : ∀ a, ⦃StartsOn a⦄ isMeant ⦃EndsOn Bool a⦄) :
    ⦃StartsOn a⦄ modifiers flag? isMeant ⦃EndsOn Modifiers a⦄ := by
  mvcgen [modifiers, hmeant]
  all_goals simp_all

/-! ## Skipping -/

@[spec] theorem skipGroup_spec (start close : Punctuation) (rounds depth : Nat) :
    ⦃StartsOn a⦄ skipGroup start close rounds depth ⦃EndsOn Unit a⦄ := by
  induction rounds generalizing a depth with
  | zero =>
    mvcgen [skipGroup]
    simp_all
  | succ rounds ih => mvcgen [skipGroup, ih] <;> simp_all

@[spec] theorem skipBalanced_spec (start close : Punctuation) :
    ⦃StartsOn a⦄ skipBalanced start close ⦃EndsOn Unit a⦄ := by
  mvcgen [skipBalanced] with simp_all

@[spec] theorem skipDotted_spec (rounds : Nat) :
    ⦃StartsOn a⦄ skipDotted rounds ⦃EndsOn Unit a⦄ := by
  induction rounds generalizing a with
  | zero =>
    mvcgen [skipDotted]
    simp_all
  | succ rounds ih => mvcgen [skipDotted, ih] <;> simp_all

@[spec] theorem skipDecoratorsIn_spec (rounds : Nat) :
    ⦃StartsOn a⦄ skipDecoratorsIn rounds ⦃EndsOn Unit a⦄ := by
  induction rounds generalizing a with
  | zero =>
    mvcgen [skipDecoratorsIn]
    simp_all
  | succ rounds ih => mvcgen [skipDecoratorsIn, ih] <;> simp_all

@[spec] theorem skipDecorators_spec : ⦃StartsOn a⦄ skipDecorators ⦃EndsOn Unit a⦄ := by
  mvcgen [skipDecorators] with simp_all

@[spec] theorem completeToken_spec (previous : Option TokenKind) :
    ⦃StartsOn a⦄ completeToken previous ⦃EndsOn Bool a⦄ := by
  mvcgen [completeToken] with simp_all

@[spec] theorem atNextDeclaration_spec (depth : Nat) (previous : Option TokenKind) :
    ⦃StartsOn a⦄ atNextDeclaration depth previous ⦃EndsOn Bool a⦄ := by
  mvcgen [atNextDeclaration] with simp_all

@[spec] theorem passToken_spec {go : Option TokenKind → Parser Unit}
    (hgo : ∀ a previous, ⦃StartsOn a⦄ go previous ⦃EndsOn Unit a⦄) :
    ⦃StartsOn a⦄ passToken go ⦃EndsOn Unit a⦄ := by
  mvcgen [passToken, hgo] with simp_all

@[spec] theorem skipTokens_spec (rounds depth : Nat) (previous : Option TokenKind) :
    ⦃StartsOn a⦄ skipTokens rounds depth previous ⦃EndsOn Unit a⦄ := by
  induction rounds generalizing a depth previous with
  | zero =>
    mvcgen [skipTokens]
    simp_all
  | succ rounds ih => mvcgen [skipTokens, ih] <;> simp_all

@[spec] theorem skipExpression_spec : ⦃StartsOn a⦄ skipExpression ⦃EndsOn Unit a⦄ := by
  mvcgen [skipExpression] with simp_all

@[spec] theorem skipParameterStart_spec : ⦃StartsOn a⦄ skipParameterStart ⦃EndsOn Bool a⦄ := by
  mvcgen [skipParameterStart] with simp_all

@[spec] theorem skipAttributes_spec : ⦃StartsOn a⦄ skipAttributes ⦃EndsOn Unit a⦄ := by
  mvcgen [skipAttributes] with simp_all

@[spec] theorem skipStatement_spec (rounds depth : Nat) (previous : Option TokenKind) :
    ⦃StartsOn a⦄ skipStatement rounds depth previous ⦃EndsOn Unit a⦄ := by
  induction rounds generalizing a depth previous with
  | zero =>
    mvcgen [skipStatement]
    simp_all
  | succ rounds ih => mvcgen [skipStatement, ih] <;> simp_all

/-! ## Questions about what follows -/

@[spec] theorem atExpressionEnd_spec : ⦃StartsOn a⦄ atExpressionEnd ⦃EndsOn Bool a⦄ := by
  mvcgen [atExpressionEnd] with simp_all

@[spec] theorem canBeMemberModifier_spec : ⦃StartsOn a⦄ canBeMemberModifier ⦃EndsOn Bool a⦄ := by
  mvcgen [canBeMemberModifier]

@[spec] theorem memberSeparator_spec : ⦃StartsOn a⦄ memberSeparator ⦃EndsOn Unit a⦄ := by
  mvcgen [memberSeparator] with simp_all

@[spec] theorem functionBody_spec : ⦃StartsOn a⦄ functionBody ⦃EndsOn Bool a⦄ := by
  mvcgen [functionBody] with simp_all

@[spec] theorem atIndexSignature_spec : ⦃StartsOn a⦄ atIndexSignature ⦃EndsOn Bool a⦄ := by
  mvcgen [atIndexSignature, readsIndexSignature, lookAhead] with simp_all

@[spec] theorem atCallStart_spec : ⦃StartsOn a⦄ atCallStart ⦃EndsOn Bool a⦄ := by
  mvcgen [atCallStart] with simp_all

@[spec] theorem atConstructor_spec : ⦃StartsOn a⦄ atConstructor ⦃EndsOn Bool a⦄ := by
  mvcgen [atConstructor] with simp_all

@[spec] theorem atMappedType_spec : ⦃StartsOn a⦄ atMappedType ⦃EndsOn Bool a⦄ := by
  mvcgen [atMappedType, readsMappedType, lookAhead] with simp_all

@[spec] theorem leadingSign_spec : ⦃StartsOn a⦄ leadingSign ⦃EndsOn _ a⦄ := by
  mvcgen [leadingSign] with simp_all

@[spec] theorem mappedSign_spec (word : TokenKind) : ⦃StartsOn a⦄ mappedSign word ⦃EndsOn _ a⦄ := by
  mvcgen [mappedSign] with simp_all

@[spec] theorem atNamedElement_spec : ⦃StartsOn a⦄ atNamedElement ⦃EndsOn Bool a⦄ := by
  mvcgen [atNamedElement, readsNamedElement, lookAhead] with simp_all

@[spec] theorem atFunctionType_spec : ⦃StartsOn a⦄ atFunctionType ⦃EndsOn Bool a⦄ := by
  mvcgen [atFunctionType, readsFunctionType, lookAhead] with simp_all

@[spec] theorem atTypeAlias_spec : ⦃StartsOn a⦄ atTypeAlias ⦃EndsOn Bool a⦄ := by
  mvcgen [atTypeAlias, readsTypeAlias, lookAhead] with simp_all

@[spec] theorem atTypeOnlyImport_spec : ⦃StartsOn a⦄ atTypeOnlyImport ⦃EndsOn Bool a⦄ := by
  mvcgen [atTypeOnlyImport, readsTypeOnlyImport, lookAhead] with simp_all

@[spec] theorem atTypeOnlySpecifier_spec : ⦃StartsOn a⦄ atTypeOnlySpecifier ⦃EndsOn Bool a⦄ := by
  mvcgen [atTypeOnlySpecifier, readsTypeOnlySpecifier, lookAhead] with simp_all

@[spec] theorem atDefaultDeclaration_spec : ⦃StartsOn a⦄ atDefaultDeclaration ⦃EndsOn Bool a⦄ := by
  mvcgen [atDefaultDeclaration] with simp_all

@[spec] theorem statementModifiers_spec : ⦃StartsOn a⦄ statementModifiers ⦃EndsOn Modifiers a⦄ := by
  mvcgen [statementModifiers] with simp_all

@[spec] theorem markModule_spec : ⦃StartsOn a⦄ markModule ⦃EndsOn Unit a⦄ := by
  mvcgen [markModule]

end Grammar

end DeclBundle
