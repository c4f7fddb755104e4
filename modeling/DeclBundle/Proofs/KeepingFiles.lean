import DeclBundle.Proofs.KeepingTypes

/-!
# Parsers of declarations and statements keep what was there before them
-/

set_option autoImplicit false
-- one instance of `Keeps` is put together from as many others as its parser has parts
set_option synthInstance.maxSize 20000

namespace DeclBundle.Grammar

/-- All rules of the grammar keep what was there before them. -/
class KeepingFileRules (sub : Rules) : Prop extends KeepingRules false sub where
  statement : Keeps false (sub .statement)
  namespaceBody : ∀ start ms flavor, Keeps false (sub (.namespaceBody start ms flavor))

attribute [instance] KeepingFileRules.statement KeepingFileRules.namespaceBody

variable {sub : Rules} [KeepingFileRules sub]

/-! ## Variables -/

instance : Keeps false (variableDeclaration sub) := by unfold variableDeclaration; infer_instance

instance (rounds : Nat) (done : List Slot) :
    Keeps false (variableDeclarations sub rounds done) := by
  induction rounds generalizing done with
  | zero => unfold variableDeclarations; infer_instance
  | succ rounds ih => unfold variableDeclarations; infer_instance

instance (start : Nat) (ms : Modifiers) : Keeps false (variableStatement sub start ms) := by
  unfold variableStatement
  refine .andThen fun k => ?_
  infer_instance

/-! ## Functions, classes and interfaces -/

instance (start : Nat) (ms : Modifiers) : Keeps false (functionDeclaration sub start ms) := by
  unfold functionDeclaration
  infer_instance

instance (start rounds : Nat) (expression : Slot) :
    Keeps false (heritageType.heritageChain start rounds expression) := by
  induction rounds generalizing expression with
  | zero => unfold heritageType.heritageChain; infer_instance
  | succ rounds ih => unfold heritageType.heritageChain; infer_instance

instance : Keeps false (heritageType sub) := by unfold heritageType; infer_instance

instance (rounds : Nat) (done : List Slot) : Keeps false (heritageTypes sub rounds done) := by
  induction rounds generalizing done with
  | zero => unfold heritageTypes; infer_instance
  | succ rounds ih => unfold heritageTypes; infer_instance

instance (rounds : Nat) (done : List Slot) : Keeps false (heritageClausesIn sub rounds done) := by
  induction rounds generalizing done with
  | zero => unfold heritageClausesIn; infer_instance
  | succ rounds ih =>
    unfold heritageClausesIn
    refine .andThen fun k => ?_
    dsimp only
    split <;> infer_instance

instance : Keeps false (heritageClauses sub) := by unfold heritageClauses; infer_instance

instance (start : Nat) (ms : Modifiers) : Keeps false (namedClassMember sub start ms) := by
  unfold namedClassMember
  infer_instance

instance : Keeps false atConstructor := by unfold atConstructor; infer_instance

instance (start : Nat) (ms : Modifiers) : Keeps false (bareClassMember sub start ms) := by
  have hmember : Keeps false (do
      if let some node ← accessor? sub start ms true then
        return some node
      namedClassMember sub start ms) := .andThen fun node => by split <;> infer_instance
  unfold bareClassMember
  infer_instance

instance : Keeps false (classMember sub) := by unfold classMember; infer_instance

instance : Keeps false (classMembers sub) := by unfold classMembers; infer_instance

instance (start : Nat) (ms : Modifiers) : Keeps false (classDeclaration sub start ms) := by
  unfold classDeclaration
  infer_instance

instance (start : Nat) (ms : Modifiers) : Keeps false (interfaceDeclaration sub start ms) := by
  unfold interfaceDeclaration
  infer_instance

/-! ## Aliases, enums and modules -/

instance (start : Nat) (ms : Modifiers) : Keeps false (typeAlias sub start ms) := by
  unfold typeAlias; infer_instance

instance : Keeps false enumMember := by unfold enumMember; infer_instance

instance (start : Nat) (ms : Modifiers) : Keeps false (enumDeclaration start ms) := by
  unfold enumDeclaration
  infer_instance

instance (inBlock : Bool) (rounds : Nat) (done : List Slot) :
    Keeps false (statementsIn sub inBlock rounds done) := by
  induction rounds generalizing done with
  | zero => unfold statementsIn; infer_instance
  | succ rounds ih =>
    unfold statementsIn
    have hgo : ∀ found : Slot, Keeps false (match found with
        | some node => statementsIn sub inBlock rounds (some node :: done)
        | none => statementsIn sub inBlock rounds done) := by
      intro found
      split <;> infer_instance
    infer_instance

/-- Statements in braces are read one level deeper, and leave the flag for modules to those around
them. -/
theorem keeps_block {α : Type} {p : Nat → Parser (List Slot)} {f : List Slot → Parser α}
    [∀ rounds, Keeps false (p rounds)] [hf : ∀ found, Keeps false (f found)] : Keeps false (do
    let saved := (← get).isModule
    modify fun s => { s with depth := s.depth + 1 }
    expectMark .openBrace
    let found ← p (← limit)
    expectMark .closeBrace
    modify fun s => { s with depth := s.depth - 1, isModule := saved }
    f found) where
  continues s := by
    have hbraces : Keeps false (do
      expectMark .openBrace
      let _ ← p (← limit)
      expectMark .closeBrace) := inferInstance
    have hinside := hbraces.continues { s with depth := s.depth + 1 }
    refine .trans ?_ ((hf _).continues _)
    exact {
      lexer := hinside.lexer
      errors := hinside.errors
      arena := hinside.arena
      depth_eq := congrArg (· - 1) hinside.depth_eq
      isModule_eq := nofun
      noConditional_eq := hinside.noConditional_eq }

instance : Keeps false (moduleBlock sub) := by
  unfold moduleBlock
  refine .andThen fun start => .andThen fun s => ?_
  split
  · infer_instance
  · exact keeps_block

instance (start : Nat) (ms : Modifiers) (flavor : ModuleFlavor) :
    Keeps false (namespaceBody sub start ms flavor) := by
  unfold namespaceBody
  infer_instance

instance (start : Nat) (ms : Modifiers) : Keeps false (moduleDeclaration sub start ms) := by
  unfold moduleDeclaration
  infer_instance

instance (start : Nat) (ms : Modifiers) : Keeps false (globalDeclaration sub start ms) := by
  unfold globalDeclaration
  infer_instance

instance : Keeps false readsTypeAlias := by unfold readsTypeAlias; infer_instance

instance : Keeps false atTypeAlias := by unfold atTypeAlias; infer_instance

instance (start : Nat) (ms : Modifiers) : Keeps false (declaration? sub start ms) := by
  unfold declaration?
  refine .andThen fun k => ?_
  split <;> infer_instance

/-! ## Imports and exports -/

instance : Keeps false markModule := ⟨fun _ => ⟨.refl _, List.suffix_rfl, .refl _, rfl, nofun, rfl⟩⟩

instance : Keeps false skipAttributes := by unfold skipAttributes; infer_instance

instance : Keeps false exportName := by unfold exportName; infer_instance

instance : Keeps false bindingEntityName := by unfold bindingEntityName; infer_instance

instance : Keeps false readsTypeOnlyImport := by
  unfold readsTypeOnlyImport
  exact .andThen fun _ => .andThen fun k => by split <;> infer_instance

instance : Keeps false atTypeOnlyImport := by unfold atTypeOnlyImport; infer_instance

instance : Keeps false readsTypeOnlySpecifier := by unfold readsTypeOnlySpecifier; infer_instance

instance : Keeps false atTypeOnlySpecifier := by unfold atTypeOnlySpecifier; infer_instance

instance (build : Bool → Slot → Slot → Form Slot) : Keeps false (specifier build) := by
  unfold specifier
  infer_instance

instance (build : Bool → Slot → Slot → Form Slot) : Keeps false (specifiers build) := by
  unfold specifiers
  infer_instance

instance (start : Nat) (ms : Modifiers) (typeOnly : Bool) :
    Keeps false (importEquals start ms typeOnly) := by
  unfold importEquals
  infer_instance

instance (start clauseStart : Nat) (typeOnly : Bool) (name bindings : Slot) :
    Keeps false (finishImport start clauseStart typeOnly name bindings) := by
  unfold finishImport
  infer_instance

instance : Keeps false importBindings := by
  unfold importBindings
  refine .andThen fun start => .andThen fun k => ?_
  split <;> infer_instance

instance (start : Nat) (ms : Modifiers) : Keeps false (importDeclaration start ms) := by
  unfold importDeclaration
  infer_instance

instance (rounds depth : Nat) (previous : Option TokenKind) :
    Keeps false (skipStatement rounds depth previous) := by
  induction rounds generalizing depth previous with
  | zero => unfold skipStatement; infer_instance
  | succ rounds ih =>
    unfold skipStatement
    refine .andThen fun token => ?_
    split <;> infer_instance

instance (start : Nat) : Keeps false (otherStatement start) := by
  unfold otherStatement; infer_instance

instance : Keeps false statementModifiers := by
  have hflag : Keeps false (do
      match ← kind with
      | .keyword .declare => return some .declare
      | .keyword .abstract_ => return some .abstract_
      | .keyword .async => return some .async
      | .keyword .const => return if (← nextKind) == .keyword .enum_ then some .const else none
      | _ => return none : Parser (Option Modifier)) := .andThen fun k => by
    split <;> infer_instance
  unfold statementModifiers
  infer_instance

instance (start : Nat) (typeOnly : Bool) : Keeps false (exportDeclaration start typeOnly) := by
  unfold exportDeclaration
  infer_instance

instance : Keeps false atDefaultDeclaration := by
  unfold atDefaultDeclaration
  refine .andThen fun k => ?_
  split <;> infer_instance

instance (start : Nat) (isEquals : Bool) : Keeps false (exportAssignment start isEquals) := by
  unfold exportAssignment
  infer_instance

instance (start : Nat) : Keeps false (exportDefault sub start) := by
  have hdeclaration : ∀ ms, Keeps false (do
      if let some node ← declaration? sub start ms then
        return some node
      exportAssignment start false) := fun ms => .andThen fun node => by split <;> infer_instance
  unfold exportDefault
  infer_instance

instance (start : Nat) : Keeps false (exportedDeclaration sub start) := by
  unfold exportedDeclaration
  refine .andThen fun _ => .andThen fun ms => .andThen fun node => ?_
  split <;> infer_instance

instance (start : Nat) : Keeps false (export_ sub start) := by
  unfold export_
  refine .andThen fun _ => .andThen fun _ => .andThen fun k => ?_
  split <;> infer_instance

/-! ## Statements -/

instance : Keeps false (statement sub) := by
  unfold statement
  refine .andThen fun doc => .andThen fun start => .andThen fun isEmpty => ?_
  split
  · infer_instance
  refine .andThen fun _ => .andThen fun k => ?_
  extract_lets finishStatement
  split
  · infer_instance
  · infer_instance
  · refine .andThen fun ms => .andThen fun node => ?_
    split <;> infer_instance

/-- Whatever the depth to which rules may call each other, they keep what was there before. -/
theorem keepingFileRules_rules (depth : Nat) : KeepingFileRules (rules depth) := by
  induction depth with
  | zero =>
    have hnone : Keeps false (giveUp none : Parser Slot) := inferInstance
    exact {
      keepingRules_rules false 0 with
      statement := hnone
      namespaceBody := fun _ _ _ => hnone }
  | succ depth ih =>
    exact {
      keepingRules_rules false (depth + 1) with
      statement := inferInstanceAs (Keeps false (statement (rules depth)))
      namespaceBody := fun start ms flavor =>
        inferInstanceAs (Keeps false (namespaceBody (rules depth) start ms flavor)) }

end DeclBundle.Grammar
