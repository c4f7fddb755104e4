import DeclBundle.Proofs.InferConstraints
import DeclBundle.Proofs.KeepingFiles
import DeclBundle.Proofs.ParsingFiles

/-!
# Type aliases of files without errors

The type of an alias is read by the rule for types, and nothing takes errors back that were found in
a statement. So when a file has been read without an error, no alias among its statements is a
conditional type with a constrained `infer` type after its `extends` (`operand_unconstrained`):
there is no way to write one.
-/

set_option autoImplicit false
-- one instance of `Gives` is put together from as many others as its parser has ends
set_option synthInstance.maxSize 20000

namespace DeclBundle

/-- The form is that of a type alias. -/
def Form.isAlias {α : Type} : Form α → Bool
  | typeAlias .. => true
  | _ => false

/-- The node is no type alias, or one of a sound type. -/
inductive Arena.IsSoundStatement (a : Arena) : Slot → Prop
  | missing : IsSoundStatement a none
  | other {slot : Slot} {form : Form Slot} (h : a.form? slot = some form)
    (hform : form.isAlias = false) :
      IsSoundStatement a slot
  | typeAlias {slot name type : Slot} {ms : Modifiers} {ts : List Slot}
    (h : a.form? slot = some (.typeAlias ms name ts type))
      (htype : a.IsSoundType type) : IsSoundStatement a slot

theorem Arena.IsSoundStatement.mono {a b : Arena} {slot : Slot} (h : a.IsSoundStatement slot)
    (hext : a.Extends b) :
    b.IsSoundStatement slot := by
  cases h with
  | missing => exact .missing
  | other h hform => exact .other (hext _ _ h) hform
  | typeAlias h htype => exact .typeAlias (hext _ _ h) (htype.mono hext)

theorem Arena.IsSoundStatement.isSoundType {a : Arena} {slot name type : Slot} {ms : Modifiers}
    {ts : List Slot} (h : a.IsSoundStatement slot)
    (hform : a.form? slot = some (.typeAlias ms name ts type)) : a.IsSoundType type := by
  cases h with
  | missing => cases hform
  | other h hother =>
    obtain rfl := Option.some.inj (h.symm.trans hform)
    cases hother
  | typeAlias h htype =>
    obtain ⟨-, -, -, rfl⟩ := Form.typeAlias.inj (Option.some.inj (h.symm.trans hform))
    exact htype

namespace Grammar

variable {α : Type} {sub : Rules} {s : State} {slot : Slot}

/-! ## Statements -/

/-- A statement without an error is a sound one. -/
def IsSoundStatementAt (s : State) (slot : Slot) : Prop :=
  s.errors = [] → s.arena.IsSoundStatement slot

/-- What goes on after a statement leaves it as it is. -/
theorem IsSoundStatementAt.keep (h : IsSoundStatementAt s slot) (m : Parser α)
    [hm : Keeps false m] :
    IsSoundStatementAt (m s).2 slot := by
  intro herrors
  have hkept := hm.continues s
  exact (h (List.suffix_nil.1 (herrors ▸ hkept.errors))).mono hkept.arena

theorem gives_other (form : Form Slot) (h : form.isAlias = false) (start : Nat) :
    Gives IsSoundStatementAt (finish form start) :=
  ⟨fun s _ => .other (form?_finish form start s) h⟩

instance : Gives IsSoundStatementAt (pure none) := ⟨fun _ _ => .missing⟩

instance (start : Nat) (ms : Modifiers) :
    Gives IsSoundStatementAt (variableStatement sub start ms) := by
  unfold variableStatement
  refine .andThen fun k => ?_
  exact .andThen fun _ => .andThen fun rounds => .andThen fun declarations => .andThen fun _ =>
    gives_other _ rfl start

instance (start : Nat) (ms : Modifiers) :
    Gives IsSoundStatementAt (functionDeclaration sub start ms) := by
  have hlast := fun name signature hasBody =>
    gives_other (.functionDeclaration ms name signature hasBody) rfl start
  unfold functionDeclaration
  infer_instance

instance (start : Nat) (ms : Modifiers) :
    Gives IsSoundStatementAt (classDeclaration sub start ms) := by
  have hlast := fun name ts heritage members =>
    gives_other (.classDeclaration ms name ts heritage members) rfl start
  unfold classDeclaration
  infer_instance

instance (start : Nat) (ms : Modifiers) :
    Gives IsSoundStatementAt (interfaceDeclaration sub start ms) := by
  have hlast := fun name ts heritage members =>
    gives_other (.interfaceDeclaration ms name ts heritage members) rfl start
  unfold interfaceDeclaration
  infer_instance

instance (start : Nat) (ms : Modifiers) : Gives IsSoundStatementAt (enumDeclaration start ms) := by
  have hlast := fun name members => gives_other (.enumDeclaration ms name members) rfl start
  unfold enumDeclaration
  infer_instance

instance (start : Nat) (ms : Modifiers) (flavor : ModuleFlavor) :
    Gives IsSoundStatementAt (namespaceBody sub start ms flavor) := by
  have hlast := fun name body => gives_other (.moduleDeclaration ms flavor name body) rfl start
  unfold namespaceBody
  infer_instance

instance (start : Nat) (ms : Modifiers) :
    Gives IsSoundStatementAt (moduleDeclaration sub start ms) := by
  have hlast := fun name body => gives_other (.moduleDeclaration ms .module_ name body) rfl start
  unfold moduleDeclaration
  infer_instance

instance (start : Nat) (ms : Modifiers) :
    Gives IsSoundStatementAt (globalDeclaration sub start ms) := by
  have hlast := fun name body => gives_other (.moduleDeclaration ms .global name body) rfl start
  unfold globalDeclaration
  infer_instance

/-- The type of an alias has been read without an error when the alias has. -/
instance [htype : Gives IsSoundAt (sub .type)] (start : Nat) (ms : Modifiers) :
    Gives IsSoundStatementAt (typeAlias sub start ms) := by
  have hsemicolon : Keeps false semicolon := inferInstance
  unfold typeAlias
  refine .andThen fun _ => .andThen fun name => .andThen fun ts => .andThen fun _ =>
    htype.bind fun s type h herrors => ?_
  -- Errors only become more, so there was none before the semicolon either.
  have hkept := hsemicolon.continues s
  have hsound := (h (List.suffix_nil.1 (herrors ▸ hkept.errors))).mono hkept.arena
  exact .typeAlias (form?_finish _ start _) (hsound.mono (Arena.extends_add _ _ _))

instance [Gives IsSoundAt (sub .type)] (start : Nat) (ms : Modifiers) :
    Gives IsSoundStatementAt (declaration? sub start ms) := by
  unfold declaration?
  refine .andThen fun k => ?_
  split <;> infer_instance

instance (start : Nat) (ms : Modifiers) (typeOnly : Bool) :
    Gives IsSoundStatementAt (importEquals start ms typeOnly) := by
  have hlast := fun name reference =>
    gives_other (.importEquals ms typeOnly name reference) rfl start
  unfold importEquals
  infer_instance

instance (start clauseStart : Nat) (typeOnly : Bool) (name bindings : Slot) :
    Gives IsSoundStatementAt (finishImport start clauseStart typeOnly name bindings) := by
  unfold finishImport
  exact .andThen fun _ => .andThen fun clause => .andThen fun module_ => .andThen fun _ =>
    .andThen fun _ => gives_other _ rfl start

instance (start : Nat) (ms : Modifiers) :
    Gives IsSoundStatementAt (importDeclaration start ms) := by
  have hplain := fun module_ => gives_other (.importDeclaration none module_) rfl start
  unfold importDeclaration
  infer_instance

instance (start : Nat) : Gives IsSoundStatementAt (otherStatement start) := by
  unfold otherStatement
  exact .andThen fun rounds => .andThen fun _ => gives_other _ rfl start

instance (start : Nat) (typeOnly : Bool) :
    Gives IsSoundStatementAt (exportDeclaration start typeOnly) := by
  have hlast := fun clause module_ =>
    gives_other (.exportDeclaration typeOnly clause module_) rfl start
  unfold exportDeclaration
  infer_instance

instance (start : Nat) (isEquals : Bool) :
    Gives IsSoundStatementAt (exportAssignment start isEquals) := by
  unfold exportAssignment
  exact .andThen fun value => .andThen fun _ => gives_other _ rfl start

instance [Gives IsSoundAt (sub .type)] (start : Nat) :
    Gives IsSoundStatementAt (exportDefault sub start) := by
  have hdeclaration : ∀ ms, Gives IsSoundStatementAt (do
      if let some node ← declaration? sub start ms then
        return some node
      exportAssignment start false) := fun ms => .orElse inferInstance inferInstance
  unfold exportDefault
  infer_instance

instance [Gives IsSoundAt (sub .type)] (start : Nat) :
    Gives IsSoundStatementAt (exportedDeclaration sub start) := by
  unfold exportedDeclaration
  exact .andThen fun _ => .andThen fun ms => .orElse inferInstance inferInstance

instance [Gives IsSoundAt (sub .type)] (start : Nat) :
    Gives IsSoundStatementAt (export_ sub start) := by
  have hglobal := fun name => gives_other (.globalNamespaceExport name) rfl start
  unfold export_
  refine .andThen fun _ => .andThen fun _ => .andThen fun k => ?_
  split <;> infer_instance

/-- A statement stays what it is when a comment is attached to it. -/
theorem isSoundStatementAt_attachDoc (h : IsSoundStatementAt s slot) (doc : Option Text.Excerpt) :
    IsSoundStatementAt ((do
      attachDoc slot doc
      return slot : Parser Slot) s).2 ((do
      attachDoc slot doc
      return slot : Parser Slot) s).1 :=
  h.keep (attachDoc slot doc)

instance [Gives IsSoundAt (sub .type)] : Gives IsSoundStatementAt (statement sub) := by
  have hdone {m : Parser Slot} (hm : Gives IsSoundStatementAt m) (doc : Option Text.Excerpt) :
      Gives IsSoundStatementAt (do
        let node ← m
        attachDoc node doc
        return node) := hm.bind fun s slot h => isSoundStatementAt_attachDoc h doc
  unfold statement
  refine .andThen fun doc => .andThen fun start => .andThen fun isEmpty => ?_
  split
  · infer_instance
  refine .andThen fun _ => .andThen fun k => ?_
  extract_lets finishStatement
  split
  · refine .andThen fun next => ?_
    split
    · exact hdone inferInstance doc
    · exact hdone inferInstance doc
  · exact hdone inferInstance doc
  · refine .andThen fun ms => ?_
    have hdeclaration : Gives IsSoundStatementAt (declaration? sub start ms) := inferInstance
    refine hdeclaration.bind fun s slot h => ?_
    cases slot with
    | none => exact (hdone inferInstance doc).gives s
    | some node => exact isSoundStatementAt_attachDoc h doc

/-! ## Lists of statements -/

/-- All statements are sound when there is no error. -/
def AreSound (s : State) (slots : List Slot) : Prop :=
  s.errors = [] → ∀ slot ∈ slots, s.arena.IsSoundStatement slot

/-- A parser that starts with some sound statements ends with sound ones. -/
def Carries (slots : List Slot) (m : Parser (List Slot)) : Prop :=
  ∀ s, AreSound s slots → AreSound (m s).2 (m s).1

section Carrying

variable {slots : List Slot} {m : Parser α} {f : α → Parser (List Slot)} {x y : Parser (List Slot)}

theorem Carries.andThen [hm : Keeps false m] (hf : ∀ a, Carries slots (f a)) :
    Carries slots (m >>= f) := by
  intro s h
  refine hf _ _ fun herrors slot hslot => ?_
  have hkept := hm.continues s
  exact (h (List.suffix_nil.1 (herrors ▸ hkept.errors)) slot hslot).mono hkept.arena

theorem Carries.ite {c : Prop} [Decidable c] (hx : Carries slots x) (hy : Carries slots y) :
    Carries slots (if c then x else y) := by
  split
  · exact hx
  · exact hy

theorem carries_reverse (slots : List Slot) : Carries slots (pure slots.reverse) :=
  fun _ h herrors slot hslot => h herrors slot (List.mem_reverse.1 hslot)

/-- One more statement is read. -/
theorem Carries.statement {g : Slot → Parser (List Slot)}
    [hgives : Gives IsSoundStatementAt (sub .statement)] [hkeeps : Keeps false (sub .statement)]
    (hg : ∀ slot, Carries (slot :: slots) (g slot)) :
    Carries slots (sub .statement >>= g) := by
  intro s h
  refine hg _ _ fun herrors => List.forall_mem_cons.2 ⟨hgives.gives s herrors, fun slot hslot => ?_⟩
  have hkept := hkeeps.continues s
  exact (h (List.suffix_nil.1 (herrors ▸ hkept.errors)) slot hslot).mono hkept.arena

end Carrying

/-- By induction on the rounds: what one of them reads is sound, and what was read before stays
so. -/
theorem carries_statementsIn [Gives IsSoundStatementAt (sub .statement)]
    [Keeps false (sub .statement)] (inBlock : Bool) (rounds : Nat) (slots : List Slot) :
    Carries slots (statementsIn sub inBlock rounds slots) := by
  induction rounds generalizing slots with
  | zero => exact fun s h herrors slot hslot => h herrors slot (List.mem_reverse.1 hslot)
  | succ rounds ih =>
    unfold statementsIn
    refine .andThen fun isEnd => .ite (carries_reverse slots) (.andThen fun isClose => .ite ?_ ?_)
    · exact .ite (carries_reverse slots) (.andThen fun _ => .andThen fun _ => ih slots)
    · refine .andThen fun before => .statement fun found => .andThen fun now =>
        .andThen fun ended => ?_
      -- A statement that is missing is not listed.
      cases found with
      | none =>
        have hnext : Carries (none :: slots) (statementsIn sub inBlock rounds slots) := fun s h =>
          ih slots s fun herrors slot hslot => h herrors slot (List.mem_cons_of_mem _ hslot)
        exact .ite (.andThen fun _ => .andThen fun _ => hnext) hnext
      | some node =>
        have hnext := ih (some node :: slots)
        exact .ite (.andThen fun _ => .andThen fun _ => hnext) hnext

/-- Whatever the depth to which rules may call each other, a statement that they read without an
error is sound. -/
theorem gives_statement (depth : Nat) : Gives IsSoundStatementAt (rules depth .statement) := by
  cases depth with
  | zero => exact ⟨fun _ _ => .missing⟩
  | succ depth =>
    have := gives_rules depth
    exact inferInstanceAs (Gives IsSoundStatementAt (statement (rules depth)))

end Grammar

open Grammar

/-- The diagnostics of a file are its errors in another order. -/
theorem errors_eq_nil_of_diagnostics {file text : String}
    (h : (parseFile file text).diagnostics = []) :
    (readStatements file text).2.errors = [] := by
  have hlength := congrArg List.length h
  simp only [parseFile, List.length_mergeSort, List.length_append, List.length_reverse,
    List.length_nil] at hlength
  exact List.length_eq_zero_iff.1 (Nat.eq_zero_of_add_eq_zero_right hlength)

/-- When a file is read without an error, none of its type aliases is a conditional type with a
constrained `infer` type after its `extends`. -/
theorem operand_unconstrained {file text : String} (h : (parseFile file text).diagnostics = []) :
    ∃ statements isModule,
      (parseFile file text).arena.form? (some (parseFile file text).root) =
        some (.sourceFile statements isModule) ∧
      ∀ slot ∈ statements, ∀ ms name ts type,
        (parseFile file text).arena.form? slot = some (.typeAlias ms name ts type) →
          ¬(parseFile file text).arena.HasConstrainedOperand type := by
  have hgives := gives_statement (State.ofText file text).limit
  have hkeeps := (keepingFileRules_rules (State.ofText file text).limit).statement
  have hsound : AreSound (readStatements file text).2 (readStatements file text).1 :=
    carries_statementsIn false _ [] (advance (State.ofText file text)).2 fun _ _ hslot =>
      absurd hslot List.not_mem_nil
  have herrors := errors_eq_nil_of_diagnostics h
  have hforms (slot : Slot) : (parseFile file text).arena.form? slot =
      (addedFile file text).1.form? slot := by
    rw [arena_parseFile, Arena.form?_setParents]
  have hextends : (readStatements file text).2.arena.Extends (addedFile file text).1 :=
    Arena.extends_add _ _ _
  -- Behind the statements only the node of the file is added, and parents change no form.
  refine ⟨(readStatements file text).1, (readStatements file text).2.isModule, ?_, ?_⟩
  · rw [hforms, root_parseFile]
    exact Arena.form?_add_self _ _ _
  · intro slot hslot ms name ts type hform hoperand
    have htype :=
      ((hsound herrors slot hslot).mono hextends).isSoundType ((hforms slot).symm.trans hform)
    exact htype.not_hasConstrainedOperand
      (hoperand.mono fun other form h => (hforms other).symm.trans h)

/-- A conditional type with an `infer` type that has no constraint. -/
theorem operand_unconstrained_plainInfer :
    (parseFile "a.d.ts" "type A = T extends infer U ? X : Y;").diagnostics = [] ∧
    ∃ statements isModule,
      (parseFile "a.d.ts" "type A = T extends infer U ? X : Y;").arena.form?
          (some (parseFile "a.d.ts" "type A = T extends infer U ? X : Y;").root) =
        some (.sourceFile statements isModule) ∧
      ∀ slot ∈ statements, ∀ ms name ts type,
        (parseFile "a.d.ts" "type A = T extends infer U ? X : Y;").arena.form? slot =
          some (.typeAlias ms name ts type) →
          ¬(parseFile "a.d.ts" "type A = T extends infer U ? X : Y;").arena.HasConstrainedOperand
            type := by
  have hclean : (parseFile "a.d.ts" "type A = T extends infer U ? X : Y;").diagnostics.length =
    0 := by decide +kernel
  exact ⟨List.length_eq_zero_iff.1 hclean, operand_unconstrained (List.length_eq_zero_iff.1 hclean)⟩

/-- With a constraint the conditional type is not read: the constraint is given up, and its
`extends` is left over. -/
theorem constrained_operand_reported :
    (readStatements "a.d.ts" "type A = T extends infer U extends string ? X : Y;").2.errors.map
      (fun d => (d.start, d.message)) =
      [(42, "';' expected."), (35, "':' expected."), (27, "'?' expected.")] ∧
    (parseFile "a.d.ts" "type A = T extends infer U extends string ? X : Y;").diagnostics ≠ [] := by
  have herrors :
    (readStatements "a.d.ts" "type A = T extends infer U extends string ? X : Y;").2.errors.map
      (fun d => (d.start, d.message)) =
          [(42, "';' expected."), (35, "':' expected."), (27, "'?' expected.")] := by
    decide +kernel
  refine ⟨herrors, fun hnil => ?_⟩
  have hlength := congrArg List.length herrors
  rw [List.length_map, errors_eq_nil_of_diagnostics hnil] at hlength
  cases hlength

end DeclBundle
