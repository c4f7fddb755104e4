import Mathlib.Data.String.Basic
import DeclBundle.Proofs.ProceedingTypes

/-!
# Reading a file comes to its end

Parsers of declarations and statements go on, and so do the rules of the grammar when they are tied
together (`Grammar.callable_rules`). When a file has been read all of its text has been, and no
limit has been reached (`reading_ends`): the limits are there for the recursion alone, and no text
feels them.
-/

set_option autoImplicit false
-- one instance of `Proceeds` is put together from as many others as its parser has parts
set_option synthInstance.maxSize 20000

namespace DeclBundle

namespace Grammar

variable {cap bound : Nat} {sub : Rules}

/-! ## Variables -/

instance [Callable cap bound sub] : Proceeds cap bound (variableDeclaration sub) := by
  unfold variableDeclaration
  infer_instance

theorem proceeds_variableDeclarations (rounds : Nat) :
    ∀ bound ≤ rounds, ∀ [Callable cap bound sub] done,
      Proceeds cap bound (variableDeclarations sub rounds done) := by
  induction rounds with
  | zero => exact fun bound hbound _ done => proceeds_of_le_zero hbound
  | succ rounds ih =>
    intro bound hbound _ done
    have hrest := ih (bound - 1) (by omega)
    unfold variableDeclarations
    exact .andThen fun declaration =>
      .optional_ite TokenKind.noConfusion inferInstance inferInstance

instance [h : Callable cap bound sub] (done : List Slot) :
    Proceeds cap bound (variableDeclarations sub cap done) :=
  have := h.mono (Nat.min_le_left bound cap)
  .of_min (proceeds_variableDeclarations cap _ (Nat.min_le_right bound cap) done)

theorem proceedsFrom_variableStatement [Callable cap (bound - 1) sub] (start : Nat)
    (ms : Modifiers) :
    ProceedsFrom cap bound IsToken (variableStatement sub start ms) := by
  unfold variableStatement
  exact .stay fun k => consumes_advance.bind

/-! ## Functions, classes and interfaces -/

theorem proceedsFrom_functionDeclaration [Callable cap (bound - 1) sub] (start : Nat)
    (ms : Modifiers) :
    ProceedsFrom cap bound (· = .keyword .function) (functionDeclaration sub start ms) := by
  unfold functionDeclaration
  exact (consumes_expect TokenKind.noConfusion).bind

theorem proceeds_heritageChain (start rounds : Nat) :
    ∀ bound ≤ rounds, ∀ expression,
      Proceeds cap bound (heritageType.heritageChain start rounds expression) := by
  induction rounds with
  | zero => exact fun bound hbound expression => proceeds_of_le_zero hbound
  | succ rounds ih =>
    intro bound hbound expression
    have hrest := ih (bound - 1) (by omega)
    unfold heritageType.heritageChain
    exact .optional_ite TokenKind.noConfusion inferInstance inferInstance

instance (start : Nat) (expression : Slot) :
    Proceeds cap bound (heritageType.heritageChain start cap expression) :=
  .of_min (proceeds_heritageChain start cap _ (Nat.min_le_right bound cap) expression)

instance [Callable cap (bound - 1) sub] : Proceeds cap bound (heritageType sub) := by
  unfold heritageType
  infer_instance

theorem proceeds_heritageTypes (rounds : Nat) :
    ∀ bound ≤ rounds, ∀ [Callable cap bound sub] done,
      Proceeds cap bound (heritageTypes sub rounds done) := by
  induction rounds with
  | zero => exact fun bound hbound _ done => proceeds_of_le_zero hbound
  | succ rounds ih =>
    intro bound hbound _ done
    have hrest := ih (bound - 1) (by omega)
    unfold heritageTypes
    exact .andThen fun type => .optional_ite TokenKind.noConfusion inferInstance inferInstance

instance [h : Callable cap bound sub] (done : List Slot) :
    Proceeds cap bound (heritageTypes sub cap done) :=
  have := h.mono (Nat.min_le_left bound cap)
  .of_min (proceeds_heritageTypes cap _ (Nat.min_le_right bound cap) done)

theorem proceeds_heritageClausesIn (rounds : Nat) :
    ∀ bound ≤ rounds, ∀ [Callable cap bound sub] done,
      Proceeds cap bound (heritageClausesIn sub rounds done) := by
  induction rounds with
  | zero => exact fun bound hbound _ done => proceeds_of_le_zero hbound
  | succ rounds ih =>
    intro bound hbound _ done
    have hrest := ih (bound - 1) (by omega)
    unfold heritageClausesIn
    refine .kind_bind fun k => ?_
    extract_lets word?
    cases hword : word? with
    | none => exact .of
    | some word =>
      refine .token (.stay fun start => consumes_advance.bind) fun hend => ?_
      subst hend
      exact absurd (hword.symm : some word = none) nofun

instance [h : Callable cap bound sub] (done : List Slot) :
    Proceeds cap bound (heritageClausesIn sub cap done) :=
  have := h.mono (Nat.min_le_left bound cap)
  .of_min (proceeds_heritageClausesIn cap _ (Nat.min_le_right bound cap) done)

instance [Callable cap bound sub] : Proceeds cap bound (heritageClauses sub) := by
  unfold heritageClauses
  infer_instance

theorem proceedsFrom_classDeclaration [Callable cap (bound - 1) sub] (start : Nat)
    (ms : Modifiers) :
    ProceedsFrom cap bound (· = .keyword .class_) (classDeclaration sub start ms) := by
  unfold classDeclaration
  exact (consumes_expect TokenKind.noConfusion).bind

theorem proceedsFrom_interfaceDeclaration [Callable cap (bound - 1) sub] (start : Nat)
    (ms : Modifiers) :
    ProceedsFrom cap bound (· = .keyword .interface) (interfaceDeclaration sub start ms) := by
  unfold interfaceDeclaration
  exact (consumes_expect TokenKind.noConfusion).bind

/-! ## Aliases and enums -/

theorem proceedsFrom_typeAlias [Callable cap (bound - 1) sub] (start : Nat) (ms : Modifiers) :
    ProceedsFrom cap bound (· = .keyword .type) (typeAlias sub start ms) := by
  unfold typeAlias
  exact (consumes_expect TokenKind.noConfusion).bind

instance : Proceeds cap bound enumMember := by unfold enumMember; infer_instance

instance (start : Nat) (ms : Modifiers) : Proceeds cap bound (enumDeclaration start ms) := by
  unfold enumDeclaration
  infer_instance

/-! ## Modules -/

theorem proceeds_statementsIn (inBlock : Bool) (rounds : Nat) :
    ∀ bound ≤ rounds, ∀ [Callable cap bound sub] done,
      Proceeds cap bound (statementsIn sub inBlock rounds done) := by
  induction rounds with
  | zero => exact fun bound hbound _ done => proceeds_of_le_zero hbound
  | succ rounds ih =>
    intro bound hbound _ done
    have hrest := ih (bound - 1) (by omega)
    have hgo := Proceeds.found hrest done
    unfold statementsIn
    refine .atEnd_bind (inferInstance : Proceeds cap bound (pure done.reverse))
      (.stay fun atBrace => .ite ?_ ?_)
    · exact .ite .of (.stay fun _ => consumes_advance.bind)
    · refine proceedsFrom_round (fun before found => ?_) fun t found ht hkind => ?_
      · infer_instance
      · have htake : ProceedsFrom cap bound IsToken
            (report .declarationExpected >>= fun _ => advance >>= fun _ => _) :=
          .stay fun _ => consumes_advance.andThen fun _ => hgo found
        change Reaches cap bound t ((if (t.lexer.token.start.offset == t.lexer.token.start.offset
          && !(t.kind == .endOfFile)) = true then _ else _ : Parser (List Slot)) t).2
        rw [beq_self_eq_true, beq_eq_false_iff_ne.2 hkind]
        exact htake.reaches ht hkind

instance [h : Callable cap bound sub] (inBlock : Bool) (done : List Slot) :
    Proceeds cap bound (statementsIn sub inBlock cap done) :=
  have := h.mono (Nat.min_le_left bound cap)
  .of_min (proceeds_statementsIn inBlock cap _ (Nat.min_le_right bound cap) done)

instance [Callable cap bound sub] : Proceeds cap bound (moduleBlock sub) := by
  unfold moduleBlock
  infer_instance

/-- The name of a namespace may be missing, and then its body starts with the same token. -/
instance [Callable cap bound sub] (start : Nat) (ms : Modifiers) (flavor : ModuleFlavor) :
    Proceeds cap bound (namespaceBody sub start ms flavor) := by
  unfold namespaceBody
  refine .andThen fun name => .optional_bind TokenKind.noConfusion ?_ ?_
  · exact (inferInstance : Proceeds cap (bound - 1) (do
      let body ← sub (.namespaceBody (← offset) (.single .export_) flavor)
      finish (.moduleDeclaration ms flavor name body) start))
  · exact (inferInstance : Proceeds cap bound (do
      let body ← moduleBlock sub
      finish (.moduleDeclaration ms flavor name body) start))

theorem proceedsFrom_moduleDeclaration [Callable cap (bound - 1) sub] (start : Nat)
    (ms : Modifiers) :
    ProceedsFrom cap bound IsToken (moduleDeclaration sub start ms) := by
  unfold moduleDeclaration
  exact .stay fun isNamespace => consumes_advance.bind

theorem proceedsFrom_globalDeclaration [Callable cap (bound - 1) sub] (start : Nat)
    (ms : Modifiers) :
    ProceedsFrom cap bound (· = .keyword .global) (globalDeclaration sub start ms) := by
  unfold globalDeclaration
  exact (consumes_identifierName.weaken (p := (· = .keyword .global)) fun k hk => by
    rw [hk]; rfl).bind

/-! ## Any declaration -/

instance : Proceeds cap bound readsTypeAlias := by unfold readsTypeAlias; infer_instance

instance : Proceeds cap bound atTypeAlias := by unfold atTypeAlias; infer_instance

instance : Stays atTypeAlias := by unfold atTypeAlias; infer_instance

instance [Callable cap (bound - 1) sub] (start : Nat) (ms : Modifiers) :
    Proceeds cap bound (declaration? sub start ms) := by
  unfold declaration?
  refine .kind_bind fun k => ?_
  split
  · exact (proceedsFrom_variableStatement start ms).token TokenKind.noConfusion
  · exact (proceedsFrom_variableStatement start ms).token TokenKind.noConfusion
  · exact .stay fun isMeant =>
      .ite ((proceedsFrom_variableStatement start ms).token TokenKind.noConfusion) .of
  · exact proceedsFrom_functionDeclaration start ms
  · exact proceedsFrom_classDeclaration start ms
  · exact .stay fun isMeant => .ite (proceedsFrom_interfaceDeclaration start ms) .of
  · exact .stay fun isMeant => .ite (proceedsFrom_typeAlias start ms) .of
  · exact .of
  · exact .stay fun isMeant =>
      .ite ((proceedsFrom_moduleDeclaration start ms).token TokenKind.noConfusion) .of
  · exact .stay fun isMeant =>
      .ite ((proceedsFrom_moduleDeclaration start ms).token TokenKind.noConfusion) .of
  · exact .ite (proceedsFrom_globalDeclaration start ms) (.stay fun isMeant =>
      .ite (proceedsFrom_globalDeclaration start ms) .of)
  · exact .of

/-! ## Imports and exports -/

instance : Proceeds cap bound skipAttributes := by unfold skipAttributes; infer_instance

instance : Proceeds cap bound readsTypeOnlyImport := by
  unfold readsTypeOnlyImport
  exact .andThen fun _ => .andThen fun k => by split <;> infer_instance

instance : Proceeds cap bound atTypeOnlyImport := by unfold atTypeOnlyImport; infer_instance

instance : Proceeds cap bound readsTypeOnlySpecifier := by
  unfold readsTypeOnlySpecifier; infer_instance

instance : Proceeds cap bound atTypeOnlySpecifier := by unfold atTypeOnlySpecifier; infer_instance

instance (build : Bool → Slot → Slot → Form Slot) : Proceeds cap bound (specifier build) := by
  unfold specifier
  infer_instance

instance (build : Bool → Slot → Slot → Form Slot) : Proceeds cap bound (specifiers build) := by
  unfold specifiers
  infer_instance

instance (start : Nat) (ms : Modifiers) (typeOnly : Bool) :
    Proceeds cap bound (importEquals start ms typeOnly) := by
  unfold importEquals
  infer_instance

instance (start clauseStart : Nat) (typeOnly : Bool) (name bindings : Slot) :
    Proceeds cap bound (finishImport start clauseStart typeOnly name bindings) := by
  unfold finishImport
  infer_instance

instance : Proceeds cap bound importBindings := by
  unfold importBindings
  refine .andThen fun start => .andThen fun k => ?_
  split <;> infer_instance

instance (start : Nat) (ms : Modifiers) : Proceeds cap bound (importDeclaration start ms) := by
  unfold importDeclaration
  infer_instance

/-! ## Statements that declare nothing -/

theorem proceeds_skipStatement (rounds : Nat) :
    ∀ bound ≤ rounds, ∀ depth previous,
      Proceeds cap bound (skipStatement rounds depth previous) := by
  induction rounds with
  | zero => exact fun bound hbound depth previous => proceeds_of_le_zero hbound
  | succ rounds ih =>
    intro bound hbound depth previous
    have hrest := ih (bound - 1) (by omega)
    have hpass : ∀ depth, ProceedsFrom cap bound IsToken (passToken (skipStatement rounds depth)) :=
      fun depth => proceedsFrom_passToken
    unfold skipStatement
    refine .token_bind ⟨(), rfl⟩ fun token => ?_
    split
    case h_1 => exact .of
    case h_2 => exact .ite .of (hpass depth)
    case h_3 => exact .ite .of (hpass depth)
    case h_4 =>
      refine consumes_skipBlock.andThen fun _ => ?_
      split <;> infer_instance
    case h_9 => exact .reread fun completed => .stay fun isNext => .ite .of (hpass depth)
    all_goals exact hpass _

instance (depth : Nat) (previous : Option TokenKind) :
    Proceeds cap bound (skipStatement cap depth previous) :=
  .of_min (proceeds_skipStatement cap _ (Nat.min_le_right bound cap) depth previous)

instance (start : Nat) : Proceeds cap bound (otherStatement start) := by
  unfold otherStatement; infer_instance

instance : Proceeds cap bound statementModifiers := by
  unfold statementModifiers
  extract_lets flag?
  have hstands : Stands flag? := .andThen fun k => by split <;> infer_instance
  have hend : ∀ s : State, s.kind = .endOfFile → (flag? s).1 = none := by
    intro s hkind
    change ((match s.kind with
      | .keyword .declare => return some .declare
      | .keyword .abstract_ => return some .abstract_
      | .keyword .async => return some .async
      | .keyword .const => return if (← nextKind) == .keyword .enum_ then some .const else none
      | _ => return none : Parser (Option Modifier)) s).1 = none
    rw [hkind]
    rfl
  exact .atLimit (.of_min (proceeds_modifiersWhile hend cap _ (Nat.min_le_right bound cap) _))

instance (start : Nat) (typeOnly : Bool) :
    Proceeds cap bound (exportDeclaration start typeOnly) := by
  unfold exportDeclaration
  infer_instance

instance : Stands atDefaultDeclaration := by
  unfold atDefaultDeclaration
  refine .andThen fun k => ?_
  split <;> infer_instance

instance (start : Nat) (isEquals : Bool) :
    Proceeds cap bound (exportAssignment start isEquals) := by
  unfold exportAssignment
  infer_instance

instance [Callable cap (bound - 1) sub] (start : Nat) :
    Proceeds cap bound (exportDefault sub start) := by
  unfold exportDefault
  refine .andThen fun isDeclaration => ?_
  dsimp only
  split
  · refine .andThen fun _ => .andThen fun ms => .andThen fun node => ?_
    split <;> infer_instance
  · infer_instance

instance [Callable cap (bound - 1) sub] (start : Nat) :
    Proceeds cap bound (exportedDeclaration sub start) := by
  unfold exportedDeclaration
  refine .andThen fun _ => .andThen fun ms => .andThen fun node => ?_
  split <;> infer_instance

instance [Callable cap (bound - 1) sub] (start : Nat) : Proceeds cap bound (export_ sub start) := by
  unfold export_
  refine .andThen fun _ => .andThen fun _ => .andThen fun k => ?_
  split <;> infer_instance

/-! ## Any statement -/

instance [Callable cap (bound - 1) sub] : Proceeds cap bound (statement sub) := by
  unfold statement
  refine .andThen fun doc => .andThen fun start => .andThen fun isEmpty => ?_
  split
  · infer_instance
  refine .andThen fun _ => .andThen fun k => ?_
  extract_lets finishStatement
  split
  · infer_instance
  · infer_instance
  · refine .andThen fun ms => .andThen fun node => ?_
    split <;> infer_instance

/-- The rules of the grammar proceed, as far as they may call each other. -/
theorem callable_rules (cap depth : Nat) : Callable cap depth (rules depth) := by
  induction depth with
  | zero =>
    have hcut : ∀ notion, Proceeds cap 0 (rules 0 notion) := fun notion =>
      inferInstanceAs (Proceeds cap 0 (giveUp none))
    exact ⟨hcut _, hcut _, hcut _, hcut _, hcut _, hcut _, fun start ms flavor => hcut _⟩
  | succ depth ih =>
    have : Callable cap (depth + 1 - 1) (rules depth) := ih
    exact {
      type := inferInstanceAs (Proceeds cap (depth + 1) (type (rules depth)))
      unionType := inferInstanceAs (Proceeds cap (depth + 1) (unionType (rules depth)))
      operatorType := inferInstanceAs (Proceeds cap (depth + 1) (operatorType (rules depth)))
      statement := inferInstanceAs (Proceeds cap (depth + 1) (statement (rules depth)))
      literalValue := inferInstanceAs (Proceeds cap (depth + 1) (literalValue (rules depth)))
      bindingName := inferInstanceAs (Proceeds cap (depth + 1) (bindingName (rules depth)))
      namespaceBody := fun start ms flavor =>
        inferInstanceAs
          (Proceeds cap (depth + 1 - 1) (namespaceBody (rules depth) start ms flavor)) }

/-! ## Whole files -/

section Ending

variable {α β : Type} {m x y : Parser α} {f : α → Parser β}

/-- A parser ends a text: it stops where the text does, unless a limit cuts it off. -/
def Ends (m : Parser α) : Prop := ∀ s, (m s).2.isCut = true ∨ (m s).2.kind = .endOfFile

theorem Ends.bind (h : ∀ a, Ends (f a)) : Ends (m >>= f) := fun s => h _ (m s).2

theorem Ends.ite {c : Prop} [Decidable c] (hx : Ends x) (hy : Ends y) :
    Ends (if c then x else y) := by
  split
  · exact hx
  · exact hy

/-- A parser may stop where it finds the text ended. -/
theorem Ends.atEnd_ite {a : α} (hx : Ends x) : Ends (do if ← atEnd then return a else x) := by
  intro s
  by_cases hk : s.kind = .endOfFile
  · have hrun : (do if ← atEnd then return a else x : Parser α) s = (a, s) := by
      change (if (s.kind == .endOfFile) = true then (pure a : Parser α) else x) s = (a, s)
      rw [beq_iff_eq.2 hk]
      rfl
    exact .inr (hrun ▸ hk)
  · have hrun : (do if ← atEnd then return a else x : Parser α) s = x s := by
      change (if (s.kind == .endOfFile) = true then (pure a : Parser α) else x) s = x s
      rw [beq_eq_false_iff_ne.2 hk]
      rfl
    exact hrun ▸ hx s

theorem Ends.found {go : List Slot → Parser β} (h : ∀ done, Ends (go done)) (done : List Slot)
    (found : Slot) :
    Ends (match found with
      | some node => go (some node :: done)
      | none => go done) := by
  cases found <;> exact h _

/-- Statements outside of braces are read until the text has ended. -/
theorem ends_statementsIn (sub : Rules) (rounds : Nat) (done : List Slot) :
    Ends (statementsIn sub false rounds done) := by
  induction rounds generalizing done with
  | zero => exact fun s => .inl rfl
  | succ rounds ih =>
    have hgo := Ends.found ih done
    unfold statementsIn
    refine .atEnd_ite (.bind fun atBrace => .ite (.bind fun _ => .bind fun _ => ih done) ?_)
    refine .bind fun before => .bind fun found => .bind fun now => .bind fun ended =>
      .ite ?_ (hgo found)
    exact .bind fun _ => .bind fun _ => hgo found

end Ending

end Grammar

namespace Grammar.State

/-- Not all of a text can be left behind its first character, a byte order mark or not. -/
theorem left_ofText (file text : String) :
    (ofText file text).lexer.here.rest.length ≤ text.utf8ByteSize := by
  have hlength : text.toList.length ≤ text.utf8ByteSize :=
    Text.byteLength_toList text ▸ Text.length_le_byteLength _
  simp only [ofText, Lexer.ofText]
  split
  · rename_i r heq
    rw [heq, List.length_cons] at hlength
    exact Nat.le_of_succ_le hlength
  · exact hlength

/-- The first token of a file is read under its limit. -/
theorem isWhole_advance_ofText (file text : String) : (advance (ofText file text)).2.IsWhole where
  isCut := rfl
  left_lt := by
    change (ofText file text).lexer.scan.token.start.rest.length < text.utf8ByteSize + 3
    have hleft := left_ofText file text
    have hscan := (Lexer.reaches_scan (ofText file text).lexer).1
    omega
  isSound := Lexer.isSound_scan _
  mem_visited := List.mem_cons_self

end Grammar.State

open Grammar in
/-- Every scan that finds a token moves the lexer, unless it stands before a backslash without a
`u`. When no token that is read starts with such a backslash, a file is read up to its end, and no
repetition or rule reaches its limit. -/
theorem reading_ends (file text : String) :
    (∀ l : Lexer, l.scan.token.kind ≠ .endOfFile → ¬(Gap.skip l.here).2.IsLoneBackslash →
      l.here.offset < l.scan.here.offset) ∧
    ((∀ c ∈ (readStatements file text).2.visited, ¬c.IsLoneBackslash) →
      (readStatements file text).2.isCut = false ∧ (readStatements file text).2.kind =
        .endOfFile) := by
  refine ⟨Lexer.lt_scan, fun hvisited => ?_⟩
  have hstuck : ¬(readStatements file text).2.IsStuck := fun ⟨c, hc, hlone⟩ => hvisited c hc hlone
  have hwhole := State.isWhole_advance_ofText file text
  have hproceeds (limit : Nat) : Proceeds limit limit (statementsIn (rules limit) false limit []) :=
    have := callable_rules limit limit
    proceeds_statementsIn false limit limit (Nat.le_refl _) []
  have hcut : (readStatements file text).2.isCut = false :=
    (((hproceeds _).reaches (advance (State.ofText file text)).2 rfl).follows hstuck hwhole
      hwhole.left_lt).1.isCut
  have hends : (readStatements file text).2.isCut = true ∨
      (readStatements file text).2.kind = .endOfFile :=
    ends_statementsIn _ _ _ _
  exact ⟨hcut, hends.resolve_left (Bool.eq_false_iff.1 hcut)⟩

/-- A class that breaks off, with a name that starts with an escape and a bracket that is not
closed. -/
theorem reading_ends_brokenClass :
    (∀ c ∈ (readStatements "a.d.ts" "class \\u0041 { [ x? }").2.visited, ¬c.IsLoneBackslash) ∧
    (readStatements "a.d.ts" "class \\u0041 { [ x? }").2.isCut = false ∧
    (readStatements "a.d.ts" "class \\u0041 { [ x? }").2.kind = .endOfFile := by
  have hvisited : ∀ c ∈ (readStatements "a.d.ts" "class \\u0041 { [ x? }").2.visited,
      ¬c.IsLoneBackslash := by
    decide +kernel
  exact ⟨hvisited, (reading_ends _ _).2 hvisited⟩

end DeclBundle
