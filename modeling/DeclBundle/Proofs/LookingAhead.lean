import DeclBundle.Proofs.KeepingTypes

/-!
# Looking ahead leaves no trace

A parser looks ahead by going back to a snapshot, which holds where its lexer stood and how many
errors there were (`Grammar.speculate`). That is exact for every question that the grammar asks in
this way (`Grammar.LooksAhead`), since each of them only adds errors, and leaves the depth and the
flags as it finds them. `Grammar.speculation_leaves_no_trace` says so of lexers and of parsers.
-/

set_option autoImplicit false

namespace DeclBundle.Grammar

variable {α : Type}

/-! ## Snapshots -/

/-- What is kept of a parser in order to go back to it. The depth, the flags and the nodes are
not. -/
structure Snapshot where
  lexer : Lexer.Snapshot
  lastEnd : Nat
  /-- How many errors there are. -/
  errorCount : Nat

/-- The snapshot of a parser. -/
def State.save (s : State) : Snapshot := ⟨s.lexer.save, s.lastEnd, s.errors.length⟩

/-- Goes back to a snapshot. The errors that were found first are kept. -/
def State.restore (s : State) (saved : Snapshot) : State :=
  { s with
    lexer := s.lexer.restore saved.lexer
    lastEnd := saved.lastEnd
    errors := s.errors.rtake saved.errorCount }

/-- Runs a parser for its answer only, and goes back to a snapshot. -/
def speculate (p : Parser α) : Parser α := fun s => ((p s).1, (p s).2.restore s.save)

/-- All that a parser goes by is the same in both states. -/
structure State.IsBackAt (s t : State) : Prop where
  lexer_eq : t.lexer = s.lexer
  lastEnd_eq : t.lastEnd = s.lastEnd
  errors_eq : t.errors = s.errors
  depth_eq : t.depth = s.depth
  isModule_eq : t.isModule = s.isModule
  noConditional_eq : t.noConditional = s.noConditional

/-- To go back to a snapshot is to be where it was taken, if what was there has been kept. -/
theorem State.Continues.restore_save {s t : State} (h : s.Continues true t) :
    t.restore s.save = (rewind (mark s).1 t).2 := by
  change
    { t with
      lexer := t.lexer.restore s.lexer.save
      lastEnd := s.lastEnd
      errors := t.errors.rtake s.errors.length } =
    { t with lexer := s.lexer, lastEnd := s.lastEnd, errors := s.errors }
  rw [h.lexer.restore_save, Lexer.rtake_of_suffix h.errors]

/-- The lengths of the lists of errors are as good as the lists. -/
theorem speculate_eq_lookAhead (p : Parser Bool) [hp : Keeps true p] :
    speculate p = lookAhead p := by
  funext s
  change ((p s).1, (p s).2.restore s.save) = ((p s).1, (rewind (mark s).1 (p s).2).2)
  rw [(hp.continues s).restore_save]

theorem isBackAt_speculate (p : Parser α) [hp : Keeps true p] (s : State) :
    s.IsBackAt (speculate p s).2 := by
  have hkept := hp.continues s
  change s.IsBackAt ((p s).2.restore s.save)
  rw [hkept.restore_save]
  exact ⟨rfl, rfl, rfl, hkept.depth_eq, hkept.isModule_eq rfl, hkept.noConditional_eq⟩

/-! ## Questions -/

/-- Asks about the next token. -/
def readsNext (ask : Token → α) : Parser α := do
  advance
  return ask (← get).lexer.token

instance (ask : Token → α) : Keeps true (readsNext ask) := by unfold readsNext; infer_instance

/-- What the grammar asks about the tokens that follow. -/
inductive LooksAhead (sub : Rules) : {α : Type} → Parser α → Prop
  | next {α : Type} (ask : Token → α) : LooksAhead sub (readsNext ask)
  | mappedType : LooksAhead sub readsMappedType
  | namedElement : LooksAhead sub readsNamedElement
  | functionType : LooksAhead sub readsFunctionType
  | indexSignature : LooksAhead sub readsIndexSignature
  | typeAlias : LooksAhead sub readsTypeAlias
  | typeOnlyImport : LooksAhead sub readsTypeOnlyImport
  | typeOnlySpecifier : LooksAhead sub readsTypeOnlySpecifier
  | simpleExpression : LooksAhead sub readsSimpleExpression
  | literalValue : LooksAhead sub (readsLiteralValue sub)

/-- The kind of the next token is found by looking ahead. -/
theorem nextKind_eq (s : State) : (nextKind s).1 = (speculate (readsNext (·.kind)) s).1 := rfl

theorem nextOnSameLine_eq (p : TokenKind → Bool) (s : State) :
    (nextOnSameLine p s).1 =
      (speculate (readsNext fun next => !next.afterLineBreak && p next.kind) s).1 := rfl

theorem canBeMemberModifier_eq (s : State) :
    (canBeMemberModifier s).1 = (speculate (readsNext followsMemberModifier) s).1 := rfl

instance : Keeps true readsTypeAlias := by unfold readsTypeAlias; infer_instance

instance : Keeps true readsTypeOnlyImport := by
  unfold readsTypeOnlyImport
  exact .andThen fun _ => .andThen fun k => by split <;> infer_instance

instance : Keeps true readsTypeOnlySpecifier := by unfold readsTypeOnlySpecifier; infer_instance

/-- No question takes away what was there before it, nor changes what the grammar remembers. -/
theorem LooksAhead.keeps {sub : Rules} [KeepingRules true sub] {p : Parser α}
    (h : LooksAhead sub p) : Keeps true p := by
  cases h <;> infer_instance

/-- Taking snapshots and going back to them leaves no trace: a lexer is, after requests that are
nested in each other, where the snapshot was taken, with all that it had found, and so is a parser
after each question about the tokens that follow, with all errors, the depth and the flags. -/
theorem speculation_leaves_no_trace :
    (∀ (text : String) (before inner : List Lexer.Request), Lexer.Session.IsNested inner →
      (Lexer.Session.ofText text).after (before ++ .save :: (inner ++ [.restore])) =
        (Lexer.Session.ofText text).after before) ∧
    ∀ (depth : Nat) (s : State),
      (∀ {α : Type} (p : Parser α), LooksAhead (rules depth) p → s.IsBackAt (speculate p s).2) ∧
      ∀ p : Parser Bool, LooksAhead (rules depth) p → lookAhead p s = speculate p s := by
  refine ⟨fun text before inner hinner => ?_, fun depth s => ?_⟩
  · rw [Lexer.Session.after_append]
    exact Lexer.Session.after_bracket hinner _
  · have hrules := keepingRules_rules true depth
    refine ⟨fun p hp => ?_, fun p hp => ?_⟩
    · have := hp.keeps
      exact isBackAt_speculate p s
    · have := hp.keeps
      rw [speculate_eq_lookAhead]

/-- A template that is open, and a brace that opens a mapped type. -/
theorem speculation_openTemplate :
    (Lexer.Session.ofText "a \x60b$\x7b").after
        [.run .scan, .save, .run .scan, .save, .run .skipTemplate, .restore, .run .scan, .restore] =
      (Lexer.Session.ofText "a \x60b$\x7b").after [.run .scan] ∧
    let s := (advance (.ofText "a.d.ts" "\x7b [k in T]: 1 \x7d")).2
    s.IsBackAt (speculate readsMappedType s).2 ∧ lookAhead readsMappedType s =
        speculate readsMappedType s := by
  obtain ⟨hlexer, hparser⟩ := speculation_leaves_no_trace
  refine ⟨hlexer _ [.run .scan] [.run .scan, .save, .run .skipTemplate, .restore, .run .scan] ?_,
    ?_⟩
  · exact .run _ (@Lexer.Session.IsNested.bracket [.run .skipTemplate] [.run .scan] (.run _ .nil)
      (.run _ .nil))
  · intro s
    obtain ⟨hback, heq⟩ := hparser 0 s
    exact ⟨hback _ .mappedType, heq _ .mappedType⟩

end DeclBundle.Grammar
