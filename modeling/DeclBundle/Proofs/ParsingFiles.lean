import DeclBundle.Proofs.ParsingTypes
import DeclBundle.Proofs.Standing

/-!
# No node of a file is in two places

Parsers of declarations and statements use every node once, and so do the rules of the grammar when
they are tied together (`Grammar.rules_spec`). The nodes of a file that has been read therefore form
a tree (`isTree_parseFile`).
-/

set_option autoImplicit false
set_option mvcgen.warning false

namespace DeclBundle

open Std.Do

namespace Grammar

-- triples are put together without looking into what a parser does to its state
attribute [local irreducible] kind value offset isAt advance optional nextKind report expect? finish
  finishEmpty lookAhead limit mark rewind giveUp

variable (a : Arena) {sub : Rules} (hsub : ∀ a notion, ⦃StartsOn a⦄ sub notion ⦃Makes a⦄)

section Declarations

include hsub

/-! ## Declarations -/

@[spec] theorem variableDeclaration_spec : ⦃StartsOn a⦄ variableDeclaration sub ⦃Makes a⦄ := by
  unfold variableDeclaration
  refine keeps_bind (offset_spec a) fun start => ?_
  refine gives_bind (bindingName_spec a hsub) fun name a => ?_
  refine keeps_bind (optionalMark_spec a _) fun definite => ?_
  refine gives_bind (optionalAscription_spec a hsub) fun ascription a => ?_
  refine keeps_bind (optionalMark_spec a _) fun hasInitializer => ?_
  refine optional_bind (variableInitializer_spec a hsub) fun initializer a => ?_
  exact finish_spends a start (by grind [Form.children])

@[spec] theorem variableDeclarations_spec (rounds : Nat) (done : List Slot) :
    ⦃StartsOn a⦄ variableDeclarations sub rounds done ⦃Spends done a id⦄ := by
  induction rounds generalizing a done with
  | zero =>
    mvcgen [variableDeclarations]
    grind
  | succ rounds ih => mvcgen [variableDeclarations, hsub, ih] <;> grind

@[spec] theorem variableStatement_spec (start : Nat) (ms : Modifiers) :
    ⦃StartsOn a⦄ variableStatement sub start ms ⦃Makes a⦄ := by
  mvcgen [variableStatement, hsub] with grind [Form.children]

@[spec] theorem functionDeclaration_spec (start : Nat) (ms : Modifiers) :
    ⦃StartsOn a⦄ functionDeclaration sub start ms ⦃Makes a⦄ := by
  unfold functionDeclaration
  refine keeps_bind (expectWord_spec a _) fun _ => ?_
  refine keeps_bind (keeps_discard (optionalMark_spec a _)) fun _ => ?_
  refine keeps_bind (atBindingName_spec a) fun hasName => ?_
  extract_lets go skipped
  have hgo : ∀ name a, ⦃StartsOn a⦄ go name ⦃Spends [name] a fun r => [r]⦄ := by
    intro name a
    refine gives_bind (signature_spec a hsub) fun s a => ?_
    refine keeps_bind (functionBody_spec a) fun hasBody => ?_
    exact finish_spends a start (by grind [Form.children])
  clear_value go
  have hskipped : ∀ u a, ⦃StartsOn a⦄ skipped u ⦃Makes a⦄ := by
    intro u a
    unfold skipped
    rw [pure_bind]
    exact spends_mono (hgo none a) (by grind)
  clear_value skipped
  split
  · exact gives_bind (bindingIdentifier_spec a) hgo
  split
  · exact hskipped () a
  · exact gives_bind (gives_discard (bindingIdentifier_spec a)) hskipped

omit hsub in
@[spec] theorem heritageChain_spec (start rounds : Nat) (expression : Slot) :
    ⦃StartsOn a⦄ heritageType.heritageChain start rounds expression ⦃Spends [expression] a fun r =>
      [r]⦄ := by
  induction rounds generalizing a expression with
  | zero =>
    mvcgen [heritageType.heritageChain]
    grind
  | succ rounds ih => mvcgen [heritageType.heritageChain, ih] <;> grind [Form.children]

@[spec] theorem heritageType_spec : ⦃StartsOn a⦄ heritageType sub ⦃Makes a⦄ := by
  unfold heritageType
  refine keeps_bind (here_spec a) fun start => ?_
  refine keeps_bind (limit_spec a) fun rounds => ?_
  refine gives_bind (identifierName_spec a) fun name a => ?_
  refine spends_bind [] (heritageChain_spec a _ _ _) (fun n => Nat.le_refl _) fun chain a => ?_
  refine keeps_bind (atMark_spec a _) fun isCall => ?_
  extract_lets go
  have hgo : ∀ expression a, ⦃StartsOn a⦄ go expression ⦃Spends [expression] a fun r => [r]⦄ := by
    intro expression a
    refine gives_bind (typeArguments_spec a hsub) fun arguments a => ?_
    exact finish_spends a start.offset (by grind [Form.children])
  clear_value go
  split
  · refine keeps_bind (skipBalanced_spec a _ _) fun _ => ?_
    refine gives_bind (finishVerbatim_spec a start) fun call a => ?_
    exact spends_mono (hgo call a) (by grind)
  · rw [pure_bind]
    exact hgo chain a

@[spec] theorem heritageTypes_spec (rounds : Nat) (done : List Slot) :
    ⦃StartsOn a⦄ heritageTypes sub rounds done ⦃Spends done a id⦄ := by
  induction rounds generalizing a done with
  | zero =>
    mvcgen [heritageTypes]
    grind
  | succ rounds ih => mvcgen [heritageTypes, hsub, ih] <;> grind

@[spec] theorem heritageClausesIn_spec (rounds : Nat) (done : List Slot) :
    ⦃StartsOn a⦄ heritageClausesIn sub rounds done ⦃Spends done a id⦄ := by
  induction rounds generalizing a done with
  | zero =>
    mvcgen [heritageClausesIn]
    grind
  | succ rounds ih =>
    unfold heritageClausesIn
    refine keeps_bind (kind_spec a) fun k => ?_
    extract_lets word?
    clear_value word?
    split
    · exact spends_pure fun n => List.count_reverse.le
    · refine keeps_bind (offset_spec a) fun start => ?_
      refine keeps_bind (advance_spec a) fun _ => ?_
      refine keeps_bind (limit_spec a) fun rounds' => ?_
      refine gives_bind (heritageTypes_spec a hsub _ _) fun types a => ?_
      refine spends_bind done (finish_spec a _ start) (by grind [Form.children]) fun clause a => ?_
      exact ih a _

@[spec] theorem heritageClauses_spec : ⦃StartsOn a⦄ heritageClauses sub ⦃MakesAll a⦄ := by
  mvcgen [heritageClauses, hsub] with grind

@[spec] theorem classDeclaration_spec (start : Nat) (ms : Modifiers) :
    ⦃StartsOn a⦄ classDeclaration sub start ms ⦃Makes a⦄ := by
  unfold classDeclaration
  refine keeps_bind (expectWord_spec a _) fun _ => ?_
  refine keeps_bind (atBindingName_spec a) fun atBindingName => ?_
  refine keeps_bind (atWord_spec a _) fun atImplements => ?_
  refine optional_bind (bindingIdentifier_spec a) fun name a => ?_
  refine gives_bind (typeParameters_spec a hsub) fun ts a => ?_
  refine gives_bind (heritageClauses_spec a hsub) fun heritage a => ?_
  refine gives_bind (classMembers_spec a hsub) fun members a => ?_
  exact finish_spends a start (by grind [Form.children])

@[spec] theorem interfaceDeclaration_spec (start : Nat) (ms : Modifiers) :
    ⦃StartsOn a⦄ interfaceDeclaration sub start ms ⦃Makes a⦄ := by
  unfold interfaceDeclaration
  refine keeps_bind (expectWord_spec a _) fun _ => ?_
  refine gives_bind (bindingIdentifier_spec a) fun name a => ?_
  refine gives_bind (typeParameters_spec a hsub) fun ts a => ?_
  refine gives_bind (heritageClauses_spec a hsub) fun heritage a => ?_
  refine gives_bind (typeMembers_spec a hsub) fun members a => ?_
  exact finish_spends a start (by grind [Form.children])

@[spec] theorem typeAlias_spec (start : Nat) (ms : Modifiers) :
    ⦃StartsOn a⦄ typeAlias sub start ms ⦃Makes a⦄ := by
  unfold typeAlias
  refine keeps_bind (expectWord_spec a _) fun _ => ?_
  refine gives_bind (bindingIdentifier_spec a) fun name a => ?_
  refine gives_bind (typeParameters_spec a hsub) fun ts a => ?_
  refine keeps_bind (expectMark_spec a _) fun _ => ?_
  refine gives_bind (hsub a .type) fun type a => ?_
  refine keeps_bind (semicolon_spec a) fun _ => ?_
  exact finish_spends a start (by grind [Form.children])

omit hsub in
@[spec] theorem enumMember_spec : ⦃StartsOn a⦄ enumMember ⦃Makes a⦄ := by
  mvcgen [enumMember] with grind [Form.children]

omit hsub in
@[spec] theorem enumDeclaration_spec (start : Nat) (ms : Modifiers) :
    ⦃StartsOn a⦄ enumDeclaration start ms ⦃Makes a⦄ := by
  mvcgen [enumDeclaration] with grind [Form.children]

@[spec] theorem statementsIn_spec (inBlock : Bool) (rounds : Nat) (done : List Slot) :
    ⦃StartsOn a⦄ statementsIn sub inBlock rounds done ⦃Spends done a id⦄ := by
  induction rounds generalizing a done with
  | zero =>
    mvcgen [statementsIn]
    grind
  | succ rounds ih =>
    unfold statementsIn
    refine keeps_bind (atEnd_spec a) fun atEnd => ?_
    split
    · exact spends_pure fun n => List.count_reverse.le
    refine keeps_bind (atMark_spec a _) fun atBrace => ?_
    split
    · split
      · exact spends_pure fun n => List.count_reverse.le
      · refine keeps_bind (report_spec a _) fun _ => ?_
        refine keeps_bind (advance_spec a) fun _ => ?_
        exact ih a done
    refine keeps_bind (offset_spec a) fun before => ?_
    refine gives_bind (hsub a .statement) fun found a => ?_
    refine keeps_bind (offset_spec a) fun after => ?_
    refine keeps_bind (atEnd_spec a) fun atEnd => ?_
    extract_lets go
    have hgo : ∀ u, ⦃StartsOn a⦄ go u ⦃Spends ([found] ++ done) a id⦄ := by
      intro u
      unfold go
      split
      · exact ih a _
      · exact spends_mono (ih a done) fun n => List.count_le_count_cons
    clear_value go
    split
    · refine keeps_bind (report_spec a _) fun _ => ?_
      exact keeps_bind (advance_spec a) hgo
    · exact hgo ()

@[spec] theorem moduleBlock_spec : ⦃StartsOn a⦄ moduleBlock sub ⦃Makes a⦄ := by
  mvcgen [moduleBlock, hsub] with grind [Form.children]

@[spec] theorem namespaceBody_spec (start : Nat) (ms : Modifiers) (flavor : ModuleFlavor) :
    ⦃StartsOn a⦄ namespaceBody sub start ms flavor ⦃Makes a⦄ := by
  mvcgen [namespaceBody, hsub] with grind [Form.children]

@[spec] theorem moduleDeclaration_spec (start : Nat) (ms : Modifiers) :
    ⦃StartsOn a⦄ moduleDeclaration sub start ms ⦃Makes a⦄ := by
  unfold moduleDeclaration
  refine keeps_bind (atWord_spec a _) fun isNamespace => ?_
  extract_lets flavor
  refine keeps_bind (advance_spec a) fun _ => ?_
  refine keeps_bind (isAt_spec a _) fun isQuoted => ?_
  split
  · refine gives_bind (stringLiteral_spec a) fun name a => ?_
    refine keeps_bind (atMark_spec a _) fun hasBody => ?_
    extract_lets go
    have hgo : ∀ body a, ⦃StartsOn a⦄ go body ⦃Spends [body, name] a fun r => [r]⦄ := by
      intro body a
      exact finish_spends a start (by grind [Form.children])
    clear_value go
    split
    · exact gives_bind (moduleBlock_spec a hsub) hgo
    · refine keeps_bind (semicolon_spec a) fun _ => ?_
      rw [pure_bind]
      exact spends_mono (hgo none a) (by grind)
  · exact namespaceBody_spec a hsub start ms flavor

@[spec] theorem globalDeclaration_spec (start : Nat) (ms : Modifiers) :
    ⦃StartsOn a⦄ globalDeclaration sub start ms ⦃Makes a⦄ := by
  mvcgen [globalDeclaration, hsub] with grind [Form.children]

@[spec] theorem declaration?_spec (start : Nat) (ms : Modifiers) :
    ⦃StartsOn a⦄ declaration? sub start ms ⦃Makes a⦄ := by
  have hnone : ∀ a, ⦃StartsOn a⦄ (pure none : Parser Slot) ⦃Makes a⦄ := fun a =>
    spends_pure fun n => Nat.le_refl _
  unfold declaration?
  refine keeps_bind (kind_spec a) fun k => ?_
  split
  · exact variableStatement_spec a hsub start ms
  · exact variableStatement_spec a hsub start ms
  · refine keeps_bind (nextOnSameLine_spec a _) fun isMeant => ?_
    split
    · exact variableStatement_spec a hsub start ms
    · exact hnone a
  · exact functionDeclaration_spec a hsub start ms
  · exact classDeclaration_spec a hsub start ms
  · refine keeps_bind (nextOnSameLine_spec a _) fun isMeant => ?_
    split
    · exact interfaceDeclaration_spec a hsub start ms
    · exact hnone a
  · refine keeps_bind (atTypeAlias_spec a) fun isMeant => ?_
    split
    · exact typeAlias_spec a hsub start ms
    · exact hnone a
  · exact enumDeclaration_spec a start ms
  · refine keeps_bind (nextOnSameLine_spec a _) fun isMeant => ?_
    split
    · exact moduleDeclaration_spec a hsub start ms
    · exact hnone a
  · refine keeps_bind (nextOnSameLine_spec a _) fun isMeant => ?_
    split
    · exact moduleDeclaration_spec a hsub start ms
    · exact hnone a
  · split
    · exact globalDeclaration_spec a hsub start ms
    refine keeps_bind (nextOnSameLine_spec a _) fun isMeant => ?_
    split
    · exact globalDeclaration_spec a hsub start ms
    · exact hnone a
  · exact hnone a

end Declarations

/-! ## Imports and exports -/

@[spec] theorem specifier_spec {build : Bool → Slot → Slot → Form Slot}
    (hbuild : ∀ typeOnly propertyName name,
      (build typeOnly propertyName name).children = [propertyName, name]) :
    ⦃StartsOn a⦄ specifier build ⦃Makes a⦄ := by
  unfold specifier
  refine keeps_bind (offset_spec a) fun start => ?_
  refine keeps_bind (atTypeOnlySpecifier_spec a) fun typeOnly => ?_
  extract_lets finishNames go
  have hfinish : ∀ names a, ⦃StartsOn a⦄ finishNames names ⦃Spends [names.2, names.1] a fun r =>
    [r]⦄ := by
    intro names a
    exact finish_spends a start (by grind)
  clear_value finishNames
  have hgo : ∀ u, ⦃StartsOn a⦄ go u ⦃Makes a⦄ := by
    intro u
    refine gives_bind (exportName_spec a) fun first a => ?_
    refine keeps_bind (optionalWord_spec a _) fun isRenamed => ?_
    split
    · refine gives_bind (exportName_spec a) fun name a => ?_
      rw [pure_bind]
      exact hfinish (first, name) a
    · rw [pure_bind]
      exact spends_mono (hfinish (none, first) a) (by grind)
  clear_value go
  split
  · exact keeps_bind (advance_spec a) hgo
  · exact hgo ()

@[spec] theorem specifiers_spec {build : Bool → Slot → Slot → Form Slot}
    (hbuild : ∀ typeOnly propertyName name,
      (build typeOnly propertyName name).children = [propertyName, name]) :
    ⦃StartsOn a⦄ specifiers build ⦃MakesAll a⦄ := by
  mvcgen [specifiers, hbuild] with grind

@[spec] theorem importEquals_spec (start : Nat) (ms : Modifiers) (typeOnly : Bool) :
    ⦃StartsOn a⦄ importEquals start ms typeOnly ⦃Makes a⦄ := by
  unfold importEquals
  refine gives_bind (bindingIdentifier_spec a) fun name a => ?_
  refine keeps_bind (expectMark_spec a _) fun _ => ?_
  refine keeps_bind (atWord_spec a _) fun atRequire => ?_
  refine keeps_bind (nextKind_spec a) fun next => ?_
  extract_lets go
  have hgo : ∀ reference a, ⦃StartsOn a⦄ go reference ⦃Spends [reference, name] a fun r =>
    [r]⦄ := by
    intro reference a
    refine keeps_bind (semicolon_spec a) fun _ => ?_
    exact finish_spends a start (by grind [Form.children])
  clear_value go
  split
  · refine keeps_bind (offset_spec a) fun referenceStart => ?_
    refine keeps_bind (advance_spec a) fun _ => ?_
    refine keeps_bind (expectMark_spec a _) fun _ => ?_
    refine gives_bind (stringLiteral_spec a) fun expression a => ?_
    refine keeps_bind (expectMark_spec a _) fun _ => ?_
    exact spends_bind [name] (finish_spec a _ referenceStart) (by grind [Form.children]) hgo
  · exact gives_bind (bindingEntityName_spec a) hgo

@[spec] theorem finishImport_spec (start clauseStart : Nat) (typeOnly : Bool)
    (name bindings : Slot) :
    ⦃StartsOn a⦄ finishImport start clauseStart typeOnly name bindings
    ⦃Spends [name, bindings] a fun r => [r]⦄ := by
  mvcgen [finishImport] with grind [Form.children]

@[spec] theorem importBindings_spec : ⦃StartsOn a⦄ importBindings ⦃Makes a⦄ := by
  mvcgen [importBindings] with grind [Form.children]

@[spec] theorem importDeclaration_spec (start : Nat) (ms : Modifiers) :
    ⦃StartsOn a⦄ importDeclaration start ms ⦃Makes a⦄ := by
  unfold importDeclaration
  refine keeps_bind (markModule_spec a) fun _ => ?_
  refine keeps_bind (expectWord_spec a _) fun _ => ?_
  refine keeps_bind (isAt_spec a _) fun isQuoted => ?_
  split
  · refine gives_bind (stringLiteral_spec a) fun module_ a => ?_
    refine keeps_bind (skipAttributes_spec a) fun _ => ?_
    refine keeps_bind (semicolon_spec a) fun _ => ?_
    exact finish_spends a start (by grind [Form.children])
  refine keeps_bind (atTypeOnlyImport_spec a) fun typeOnly => ?_
  extract_lets go
  have hgo : ∀ u, ⦃StartsOn a⦄ go u ⦃Makes a⦄ := by
    intro u
    refine keeps_bind (atBindingName_spec a) fun atBindingName => ?_
    refine keeps_bind (nextKind_spec a) fun next => ?_
    split
    · exact importEquals_spec a start ms typeOnly
    refine keeps_bind (offset_spec a) fun clauseStart => ?_
    refine keeps_bind (atBindingName_spec a) fun hasName => ?_
    refine optional_bind (bindingIdentifier_spec a) fun name a => ?_
    beta_reduce
    extract_lets readBindings
    have hbindings : ∀ u, ⦃StartsOn a⦄ readBindings u ⦃Spends [name] a fun r => [r]⦄ := by
      intro u
      refine gives_bind (importBindings_spec a) fun bindings a => ?_
      exact spends_mono (finishImport_spec a start clauseStart typeOnly name bindings) (by grind)
    clear_value readBindings
    split
    · refine keeps_bind (optionalMark_spec a _) fun hasBindings => ?_
      split
      · exact hbindings ()
      · exact spends_mono (finishImport_spec a start clauseStart typeOnly name none) (by grind)
    · exact hbindings ()
  clear_value go
  split
  · exact keeps_bind (advance_spec a) hgo
  · exact hgo ()

@[spec] theorem otherStatement_spec (start : Nat) :
    ⦃StartsOn a⦄ otherStatement start ⦃Makes a⦄ := by
  mvcgen [otherStatement] with grind [Form.children]

@[spec] theorem exportDeclaration_spec (start : Nat) (typeOnly : Bool) :
    ⦃StartsOn a⦄ exportDeclaration start typeOnly ⦃Makes a⦄ := by
  unfold exportDeclaration
  refine keeps_bind (offset_spec a) fun clauseStart => ?_
  refine keeps_bind (optionalMark_spec a _) fun isStar => ?_
  extract_lets go readModule
  have hgo : ∀ parts a, ⦃StartsOn a⦄ go parts ⦃Spends [parts.2, parts.1] a fun r => [r]⦄ := by
    intro parts a
    refine keeps_bind (skipAttributes_spec a) fun _ => ?_
    refine keeps_bind (semicolon_spec a) fun _ => ?_
    exact finish_spends a start (by grind [Form.children])
  clear_value go
  have hmodule : ∀ clause a, ⦃StartsOn a⦄ readModule clause ⦃Spends [clause] a fun r => [r]⦄ := by
    intro clause a
    refine keeps_bind (expectWord_spec a _) fun _ => ?_
    refine gives_bind (stringLiteral_spec a) fun module_ a => ?_
    rw [pure_bind]
    exact hgo (clause, module_) a
  clear_value readModule
  split
  · refine keeps_bind (optionalWord_spec a _) fun isNamed => ?_
    split
    · refine gives_bind (exportName_spec a) fun name a => ?_
      exact spends_bind [] (finish_spec a _ clauseStart) (by grind [Form.children]) hmodule
    · rw [pure_bind]
      exact spends_mono (hmodule none a) (by grind)
  · refine gives_bind (specifiers_spec a fun _ _ _ => rfl) fun elements a => ?_
    refine spends_bind [] (finish_spec a _ clauseStart) (by grind [Form.children]) fun clause a =>
      ?_
    refine keeps_bind (optionalWord_spec a _) fun hasModule => ?_
    split
    · refine gives_bind (stringLiteral_spec a) fun module_ a => ?_
      rw [pure_bind]
      exact hgo (clause, module_) a
    · rw [pure_bind]
      exact spends_mono (hgo (clause, none) a) (by grind)

@[spec] theorem exportAssignment_spec (start : Nat) (isEquals : Bool) :
    ⦃StartsOn a⦄ exportAssignment start isEquals ⦃Makes a⦄ := by
  mvcgen [exportAssignment] with grind [Form.children]

section Statements

include hsub

@[spec] theorem exportDefault_spec (start : Nat) :
    ⦃StartsOn a⦄ exportDefault sub start ⦃Makes a⦄ := by
  refine spends_of_le a fun before hbefore => ?_
  mvcgen [exportDefault, hsub] with grind

@[spec] theorem exportedDeclaration_spec (start : Nat) :
    ⦃StartsOn a⦄ exportedDeclaration sub start ⦃Makes a⦄ := by
  refine spends_of_le a fun before hbefore => ?_
  mvcgen [exportedDeclaration, hsub] with grind

@[spec] theorem export_spec (start : Nat) : ⦃StartsOn a⦄ export_ sub start ⦃Makes a⦄ := by
  unfold export_
  refine keeps_bind (markModule_spec a) fun _ => ?_
  refine keeps_bind (advance_spec a) fun _ => ?_
  refine keeps_bind (kind_spec a) fun k => ?_
  split
  · exact keeps_bind (advance_spec a) fun _ => exportAssignment_spec a start true
  · refine keeps_bind (advance_spec a) fun _ => ?_
    refine keeps_bind (expectWord_spec a _) fun _ => ?_
    refine gives_bind (bindingIdentifier_spec a) fun name a => ?_
    refine keeps_bind (semicolon_spec a) fun _ => ?_
    exact finish_spends a start (by grind [Form.children])
  · exact exportDeclaration_spec a start false
  · exact exportDeclaration_spec a start false
  · refine keeps_bind (nextKind_spec a) fun next => ?_
    split
    · exact keeps_bind (advance_spec a) fun _ => exportDeclaration_spec a start true
    · exact exportedDeclaration_spec a hsub start
  · exact importDeclaration_spec a start _
  · exact keeps_bind (advance_spec a) fun _ => exportDefault_spec a hsub start
  · exact exportedDeclaration_spec a hsub start

/-! ## Statements -/

@[spec] theorem statement_spec : ⦃StartsOn a⦄ statement sub ⦃Makes a⦄ := by
  unfold statement
  refine keeps_bind (pendingDoc_spec a) fun doc => ?_
  refine keeps_bind (offset_spec a) fun start => ?_
  refine keeps_bind (optionalMark_spec a _) fun isEmpty => ?_
  split
  · exact spends_pure fun n => Nat.le_refl _
  refine keeps_bind (skipDecorators_spec a) fun _ => ?_
  refine keeps_bind (kind_spec a) fun k => ?_
  extract_lets go
  have hgo : ∀ node a, ⦃StartsOn a⦄ go node ⦃Spends [node] a fun r => [r]⦄ := by
    intro node a
    refine gives_bind (attachDoc_spec a node doc) fun _ a => ?_
    exact spends_pure fun n => Nat.le_refl _
  clear_value go
  split
  · refine keeps_bind (nextKind_spec a) fun next => ?_
    split
    · exact gives_bind (otherStatement_spec a start) hgo
    · exact gives_bind (importDeclaration_spec a start _) hgo
  · exact gives_bind (export_spec a hsub start) hgo
  · refine keeps_bind (statementModifiers_spec a) fun ms => ?_
    refine gives_bind (declaration?_spec a hsub start ms) fun node a => ?_
    split
    · rw [pure_bind]
      exact hgo (some _) a
    · exact gives_bind (otherStatement_spec a start) fun node a =>
        spends_mono (hgo node a) (by grind)

end Statements

/-- A rule uses every node once, however deep rules may call each other. -/
theorem rules_spec (depth : Nat) (notion : Notion) : ⦃StartsOn a⦄ rules depth notion ⦃Makes a⦄ := by
  induction depth generalizing a notion with
  | zero =>
    mvcgen [rules]
    grind
  | succ depth ih => cases notion <;> mvcgen [rules, ih]

end Grammar

/-! ## Whole files -/

namespace Arena

/-- The nodes of the arena form trees: every node is the child of one node at most, once, and
younger than its own children. -/
structure IsTree (a : Arena) : Prop where
  places_le : ∀ n, a.places n ≤ 1
  isOrdered : a.IsOrdered

/-- A new node over what can still be taken completes a tree. -/
theorem IsOrdered.isTree_add {a : Arena} (h : a.IsOrdered) {form : Form Slot}
    (hfree : ∀ n, a.taken n + form.children.count (some n) ≤ 1) (span : Text.Span) :
    (a.add form span).1.IsTree := by
  refine ⟨fun n => ?_, h.add hfree span⟩
  have htaken := a.taken_add form span n
  have hplaces := (a.add form span).1.places_le_taken n
  have hle := hfree n
  omega

theorem IsTree.congr {a b : Arena} (h : a.IsTree) (hform : ∀ slot, b.form? slot = a.form? slot) :
    b.IsTree := by
  refine ⟨fun n => ?_, fun n form child hn => h.isOrdered n form child ((hform _).symm.trans hn)⟩
  rw [places_congr hform]
  exact h.places_le n

end Arena

/-- The statements of a file can be taken once, and its nodes are as the parser leaves them. -/
theorem spends_readStatements (file text : String) :
    (∀ n, (readStatements file text).2.arena.taken n + (readStatements file text).1.count (some n) ≤
      1) ∧
      (readStatements file text).2.arena.IsRaw := by
  have hread : ⦃Grammar.StartsOn .empty⦄ (do
      Grammar.advance
      Grammar.statementsIn (Grammar.rules (Grammar.State.ofText file text).limit) false
        (Grammar.State.ofText file text).limit [] : Grammar.Parser (List Slot))
      ⦃Grammar.MakesAll .empty⦄ := by
    refine Grammar.keeps_bind (Grammar.advance_spec _) fun _ => ?_
    exact Grammar.statementsIn_spec _ (fun a notion => Grammar.rules_spec a _ notion) false _ []
  obtain ⟨hcount, hraw⟩ := hread (Grammar.State.ofText file text) rfl
  exact ⟨hcount, hraw (fun _ => Nat.le_refl _) Arena.isRaw_empty⟩

/-- The nodes of a file and the node of the whole file, before the parents are set. -/
def addedFile (file text : String) : Arena × NodeId :=
  (readStatements file text).2.arena.add
    (.sourceFile (readStatements file text).1 (readStatements file text).2.isModule)
      ⟨0, text.utf8ByteSize⟩

theorem root_parseFile (file text : String) :
    (parseFile file text).root = (addedFile file text).2 := by
  unfold parseFile addedFile
  rfl

theorem arena_parseFile (file text : String) :
    (parseFile file text).arena =
      (addedFile file text).1.setParents (some (parseFile file text).root) := by
  simp only [parseFile, addedFile]

theorem isTree_addedFile (file text : String) : (addedFile file text).1.IsTree := by
  refine (spends_readStatements file text).2.isOrdered.isTree_add ?_ _
  exact (spends_readStatements file text).1

/-- The nodes of a file that has been read form a tree. -/
theorem isTree_parseFile (file text : String) : (parseFile file text).arena.IsTree := by
  rw [arena_parseFile]
  exact (isTree_addedFile file text).congr fun slot => Arena.form?_setParents _ _ slot

end DeclBundle
