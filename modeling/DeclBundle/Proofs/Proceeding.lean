import DeclBundle.Grammar.Statement
import DeclBundle.Proofs.Scanning

/-!
# Parsers that go on

No parser goes back behind the token at which it started, and none reaches the limit of its
repetitions while less text is left than it allows for (`Grammar.Proceeds`). The instances of this
class follow the way parsers are put together. Where a parser calls itself or a rule of the grammar,
a token has to be taken first: `Grammar.ProceedsFrom` says what a parser does at a token of a known
kind, and `Grammar.Consumes` that it takes it.

All of this holds as long as no current token is an empty name, which a backslash without a `u`
makes (`Grammar.State.IsStuck`).
-/

set_option autoImplicit false

namespace DeclBundle.Grammar

open Text (Cursor)

variable {α β : Type}

namespace State

/-! ## Places -/

/-- The kind of the current token. -/
abbrev kind (s : State) : TokenKind := s.lexer.token.kind

/-- The number of characters from the current token on. -/
def left (s : State) : Nat := s.lexer.token.start.rest.length

/-- A token that has been current is an empty name. -/
def IsStuck (s : State) : Prop := ∃ c ∈ s.visited, c.IsLoneBackslash

/-- No limit has been reached, less is left than the limit, and the current token is a sound one. -/
structure IsWhole (s : State) : Prop where
  isCut : s.isCut = false
  left_lt : s.left < s.limit
  isSound : s.lexer.IsSound
  mem_visited : s.lexer.token.start ∈ s.visited

/-- A place is not before another one. When as much is left at both, they are the same, or both at
the end of the text. -/
structure Follows (s t : State) : Prop where
  left_le : t.left ≤ s.left
  start_eq : t.left = s.left → s.left ≠ 0 → t.lexer.token.start = s.lexer.token.start

theorem Follows.refl (s : State) : s.Follows s := ⟨Nat.le_refl _, fun _ _ => rfl⟩

theorem Follows.trans {s t u : State} (h : s.Follows t) (h' : t.Follows u) : s.Follows u where
  left_le := h'.left_le.trans h.left_le
  start_eq heq hne := by
    have hle := h.left_le
    have hle' := h'.left_le
    have ht : t.left = s.left := by omega
    exact (h'.start_eq (by omega) (by omega)).trans (h.start_eq ht hne)

theorem Follows.of_lexer {s t : State} (h : t.lexer = s.lexer) : s.Follows t :=
  ⟨Nat.le_of_eq (by rw [left, left, h]), fun _ _ => by rw [h]⟩

theorem not_isStuck_of_subset {s t : State} (h : s.visited ⊆ t.visited) (ht : ¬t.IsStuck) :
    ¬s.IsStuck :=
  fun ⟨c, hc, hlone⟩ => ht ⟨c, h hc, hlone⟩

/-- A token that is not the end of the text leaves something to read. -/
theorem IsWhole.left_pos {s : State} (h : s.IsWhole) (hkind : s.kind ≠ .endOfFile) : 0 < s.left :=
  List.length_pos_iff.2 ((not_congr h.isSound.eof_iff).1 hkind)

theorem IsWhole.here_lt {s : State} (h : s.IsWhole) (hstuck : ¬s.IsStuck)
    (hkind : s.kind ≠ .endOfFile) :
    s.lexer.here.rest.length < s.left :=
  h.isSound.lt hkind fun hlone => hstuck ⟨_, h.mem_visited, hlone⟩

end State

open State (Follows IsWhole)

/-! ## Runs -/

/-- A run from `s` to `t` under the limit `cap`. When less than `bound` was left, it has not reached
the limit and has not gone back. A run under the bound 0 can do anything but forget the tokens that
it has seen. -/
structure Reaches (cap bound : Nat) (s t : State) : Prop where
  limit_eq : t.limit = cap
  visited : s.visited ⊆ t.visited
  follows : ¬t.IsStuck → s.IsWhole → s.left < bound → t.IsWhole ∧ s.Follows t

variable {cap bound : Nat} {s t u : State}

theorem Reaches.refl (hs : s.limit = cap) : Reaches cap bound s s :=
  ⟨hs, fun _ h => h, fun _ h _ => ⟨h, .refl s⟩⟩

theorem Reaches.mono {less : Nat} (h : Reaches cap bound s t) (hle : less ≤ bound) :
    Reaches cap less s t :=
  ⟨h.limit_eq, h.visited, fun ht hs hleft => h.follows ht hs (hleft.trans_le hle)⟩

/-- Runs after each other, where the first one has left less than the bound of the second one. -/
theorem Reaches.append {less : Nat} (h : Reaches cap bound s t) (h' : Reaches cap less t u)
    (hless : ¬t.IsStuck → s.IsWhole → s.left < bound → t.left < less) : Reaches cap bound s u where
  limit_eq := h'.limit_eq
  visited := fun _ hc => h'.visited (h.visited hc)
  follows hu hs hleft := by
    have ht := State.not_isStuck_of_subset h'.visited hu
    obtain ⟨hwhole, hfollows⟩ := h.follows ht hs hleft
    obtain ⟨hwhole', hfollows'⟩ := h'.follows hu hwhole (hless ht hs hleft)
    exact ⟨hwhole', hfollows.trans hfollows'⟩

theorem Reaches.trans (h : Reaches cap bound s t) (h' : Reaches cap bound t u) :
    Reaches cap bound s u :=
  h.append h' fun ht hs hleft => (h.follows ht hs hleft).2.left_le.trans_lt hleft

/-- A run that changes neither the place nor what limits it. -/
theorem Reaches.of_same (hs : s.limit = cap) (hlexer : t.lexer = s.lexer)
    (hvisited : s.visited ⊆ t.visited) (hlimit : t.limit = s.limit) (hcut : t.isCut = s.isCut) :
    Reaches cap bound s t where
  limit_eq := hlimit.trans hs
  visited := hvisited
  follows _ hwhole _ := by
    have hfollows : s.Follows t := .of_lexer hlexer
    refine ⟨⟨hcut.trans hwhole.isCut, ?_, hlexer ▸ hwhole.isSound, ?_⟩, hfollows⟩
    · rw [hlimit]
      exact hfollows.left_le.trans_lt hwhole.left_lt
    · rw [hlexer]
      exact hvisited hwhole.mem_visited

/-! ## What parsers do -/

/-- A parser does not go back, and does not reach the limit when less than `bound` is left. -/
class Proceeds (cap bound : Nat) (m : Parser α) : Prop where
  reaches : ∀ s, s.limit = cap → Reaches cap bound s (m s).2

/-- A parser proceeds from tokens of some kinds. -/
structure ProceedsFrom (cap bound : Nat) (p : TokenKind → Prop) (m : Parser α) : Prop where
  proceeds : Proceeds cap 0 m
  follows : ∀ s, s.limit = cap → p s.kind → ¬(m s).2.IsStuck → s.IsWhole → s.left < bound →
    (m s).2.IsWhole ∧ s.Follows (m s).2

/-- A parser proceeds from tokens of some kinds, and takes them. -/
structure Consumes (cap bound : Nat) (p : TokenKind → Prop) (m : Parser α) : Prop extends
    ProceedsFrom cap bound p m where
  left_lt : ∀ s, s.limit = cap → p s.kind → ¬(m s).2.IsStuck → s.IsWhole → s.left < bound →
    (m s).2.left < s.left

/-- A parser that finds a token of some kind ends at a token of another kind. -/
def Turns (p q : TokenKind → Prop) (m : Parser α) : Prop :=
  ∀ s, s.lexer.IsSound → p s.kind → q (m s).2.kind

/-- A parser does not move. -/
class Stays (m : Parser α) : Prop where
  lexer_eq : ∀ s, (m s).2.lexer = s.lexer

/-- A parser changes nothing that progress depends on. -/
class Stands (m : Parser α) : Prop where
  lexer_eq : ∀ s, (m s).2.lexer = s.lexer
  visited_eq : ∀ s, (m s).2.visited = s.visited
  limit_eq : ∀ s, (m s).2.limit = s.limit
  isCut_eq : ∀ s, (m s).2.isCut = s.isCut

variable {p q : TokenKind → Prop} {m x y : Parser α} {f : α → Parser β}

/-! ## Parsers that do not move -/

section Staying

instance (a : α) : Stands (pure a : Parser α) :=
  ⟨fun _ => rfl, fun _ => rfl, fun _ => rfl, fun _ => rfl⟩

instance : Stands (get : Parser State) := ⟨fun _ => rfl, fun _ => rfl, fun _ => rfl, fun _ => rfl⟩

instance [hm : Stands m] [hf : ∀ a, Stands (f a)] : Stands (m >>= f) where
  lexer_eq s := ((hf _).lexer_eq _).trans (hm.lexer_eq s)
  visited_eq s := ((hf _).visited_eq _).trans (hm.visited_eq s)
  limit_eq s := ((hf _).limit_eq _).trans (hm.limit_eq s)
  isCut_eq s := ((hf _).isCut_eq _).trans (hm.isCut_eq s)

instance (c : Prop) [Decidable c] [Stands x] [Stands y] : Stands (if c then x else y) := by
  split <;> assumption

theorem Stands.andThen [Stands m] (h : ∀ a, Stands (f a)) : Stands (m >>= f) := inferInstance

/-- The nodes, the errors and what the grammar remembers can change. -/
instance (a : State → Arena) (errors : State → List Diagnostic) (lastEnd depth : State → Nat)
    (isModule noConditional : State → Bool) :
    Stands (modify fun s =>
      ⟨s.file, s.lexer, a s, errors s, lastEnd s, depth s, isModule s, noConditional s, s.limit,
      s.visited, s.isCut⟩ : Parser Unit) :=
  ⟨fun _ => rfl, fun _ => rfl, fun _ => rfl, fun _ => rfl⟩

instance (priority := low) [hm : Stands m] : Stays m := ⟨hm.lexer_eq⟩

instance [hm : Stays m] [hf : ∀ a, Stays (f a)] : Stays (m >>= f) :=
  ⟨fun s => ((hf _).lexer_eq _).trans (hm.lexer_eq s)⟩

instance (c : Prop) [Decidable c] [Stays x] [Stays y] : Stays (if c then x else y) := by
  split <;> assumption

end Staying

/-! ## Parsers that only look or write -/

section Standing

instance : Stands kind := by unfold kind; infer_instance

instance : Stands value := by unfold value; infer_instance

instance : Stands tokenText := by unfold tokenText; infer_instance

instance : Stands here := by unfold here; infer_instance

instance : Stands offset := by unfold offset; infer_instance

instance : Stands pendingDoc := by unfold pendingDoc; infer_instance

instance (k : TokenKind) : Stands (isAt k) := by unfold isAt; infer_instance

instance (p : Punctuation) : Stands (atMark p) := by unfold atMark; infer_instance

instance (k : Keyword) : Stands (atWord k) := by unfold atWord; infer_instance

instance : Stands atEnd := by unfold atEnd; infer_instance

instance : Stands atBindingName := by unfold atBindingName; infer_instance

instance : Stands atName := by unfold atName; infer_instance

instance : Stands afterLineBreak := by unfold afterLineBreak; infer_instance

instance : Stands nextKind := by unfold nextKind; infer_instance

instance (next : TokenKind → Bool) : Stands (nextOnSameLine next) := by
  unfold nextOnSameLine; infer_instance

instance : Stands nextIsName := by unfold nextIsName; infer_instance

instance : Stands limit := by unfold limit; infer_instance

instance : Stands markModule := by unfold markModule; infer_instance

instance : Stands mark := by unfold mark; infer_instance

instance (form : Form Slot) (start : Nat) : Stands (finish form start) :=
  ⟨fun _ => rfl, fun _ => rfl, fun _ => rfl, fun _ => rfl⟩

instance (form : Form Slot) : Stands (finishEmpty form) :=
  ⟨fun _ => rfl, fun _ => rfl, fun _ => rfl, fun _ => rfl⟩

instance (start : Cursor) : Stands (finishVerbatim start) := by
  unfold finishVerbatim; infer_instance

instance (problem : Problem) : Stands (report problem) := by
  have hreport : ∀ s, (report problem s).2 = s ∨ ∃ errors,
      (report problem s).2 = { s with errors } := by
    intro s
    unfold report
    dsimp only [modify, modifyGet, MonadStateOf.modifyGet, StateT.modifyGet]
    split
    · exact .inl rfl
    · exact .inr ⟨_, rfl⟩
  constructor <;> intro s <;> rcases hreport s with h | ⟨errors, h⟩ <;> rw [h]

instance (node : Slot) (doc : Option Text.Excerpt) : Stands (attachDoc node doc) := by
  unfold attachDoc
  split <;> infer_instance

end Standing

/-! ## Putting parsers together -/

theorem Proceeds.mono {less : Nat} (h : Proceeds cap bound m) (hle : less ≤ bound) :
    Proceeds cap less m :=
  ⟨fun s hs => (h.reaches s hs).mono hle⟩

/-- Less than the limit is left in any case. -/
theorem Proceeds.of_min (h : Proceeds cap (min bound cap) m) : Proceeds cap bound m where
  reaches s hs :=
    have hmin := h.reaches s hs
    ⟨hmin.limit_eq, hmin.visited, fun ht hwhole hleft =>
      hmin.follows ht hwhole (lt_min hleft (hs ▸ hwhole.left_lt))⟩

instance (priority := low) [hm : Stands m] : Proceeds cap bound m :=
  ⟨fun s hs =>
    .of_same hs (hm.lexer_eq s) (fun _ hc => hm.visited_eq s ▸ hc) (hm.limit_eq s) (hm.isCut_eq s)⟩

instance [hm : Proceeds cap bound m] [hf : ∀ a, Proceeds cap bound (f a)] :
    Proceeds cap bound (m >>= f) where
  reaches s hs :=
    have hreaches := hm.reaches s hs
    hreaches.trans ((hf _).reaches _ hreaches.limit_eq)

instance (c : Prop) [Decidable c] [Proceeds cap bound x] [Proceeds cap bound y] :
    Proceeds cap bound (if c then x else y) := by
  split <;> assumption

/-- The second one of two parsers does not have to be an instance. -/
theorem Proceeds.andThen [Proceeds cap bound m] (h : ∀ a, Proceeds cap bound (f a)) :
    Proceeds cap bound (m >>= f) :=
  inferInstance

theorem ProceedsFrom.of [h : Proceeds cap bound m] : ProceedsFrom cap bound p m :=
  ⟨h.mono (Nat.zero_le _), fun s hs _ => (h.reaches s hs).follows⟩

theorem ProceedsFrom.reaches (h : ProceedsFrom cap bound p m) (hs : s.limit = cap) (hp : p s.kind) :
    Reaches cap bound s (m s).2 :=
  have hzero := h.proceeds.reaches s hs
  ⟨hzero.limit_eq, hzero.visited, h.follows s hs hp⟩

theorem ProceedsFrom.weaken (h : ProceedsFrom cap bound q m) (himp : ∀ k, p k → q k) :
    ProceedsFrom cap bound p m :=
  ⟨h.proceeds, fun s hs hp => h.follows s hs (himp _ hp)⟩

theorem ProceedsFrom.token {k : TokenKind} (h : ProceedsFrom cap bound (· ≠ .endOfFile) m)
    (hk : k ≠ .endOfFile) :
    ProceedsFrom cap bound (· = k) m :=
  h.weaken fun _ h => h ▸ hk

/-- Parsers after each other, of which the second one is told about the place that the first one has
come to. -/
theorem ProceedsFrom.bind {less : Nat} (hm : ProceedsFrom cap bound p m)
    (hf : ∀ a, ProceedsFrom cap less q (f a))
    (hthere : ∀ s, s.limit = cap → p s.kind → ¬(m s).2.IsStuck → s.IsWhole → s.left < bound →
      q (m s).2.kind ∧ (m s).2.left < less) :
    ProceedsFrom cap bound p (m >>= f) where
  proceeds :=
    have := hm.proceeds
    have := fun a => (hf a).proceeds
    inferInstance
  follows s hs hp hstuck hwhole hleft := by
    have hlimit := (hm.proceeds.reaches s hs).limit_eq
    have hrest := (hf (m s).1).proceeds.reaches _ hlimit
    have hstuck' := State.not_isStuck_of_subset hrest.visited hstuck
    obtain ⟨hwhole', hfollows⟩ := hm.follows s hs hp hstuck' hwhole hleft
    obtain ⟨hq, hless⟩ := hthere s hs hp hstuck' hwhole hleft
    obtain ⟨hwhole'', hfollows'⟩ := (hf (m s).1).follows _ hlimit hq hstuck hwhole' hless
    exact ⟨hwhole'', hfollows.trans hfollows'⟩

theorem ProceedsFrom.andThen (hm : ProceedsFrom cap bound p m) [∀ a, Proceeds cap bound (f a)] :
    ProceedsFrom cap bound p (m >>= f) :=
  hm.bind (fun a => (.of : ProceedsFrom cap bound (fun _ => True) (f a)))
      fun s hs hp hstuck hwhole hleft =>
    ⟨trivial, (hm.follows s hs hp hstuck hwhole hleft).2.left_le.trans_lt hleft⟩

/-- A parser that turns the current token into one of another kind, and goes on from there. -/
theorem ProceedsFrom.turn (hm : ProceedsFrom cap bound p m) (hturns : Turns p q m)
    (hf : ∀ a, ProceedsFrom cap bound q (f a)) : ProceedsFrom cap bound p (m >>= f) :=
  hm.bind hf fun s hs hp hstuck hwhole hleft =>
    ⟨hturns s hwhole.isSound hp, (hm.follows s hs hp hstuck hwhole hleft).2.left_le.trans_lt hleft⟩

/-- A parser that stays at the current token. -/
theorem ProceedsFrom.stay [Proceeds cap bound m] [hm : Stays m]
    (hf : ∀ a, ProceedsFrom cap bound p (f a)) :
    ProceedsFrom cap bound p (m >>= f) :=
  .turn .of (fun s _ hp => by rwa [State.kind, hm.lexer_eq]) hf

/-- Where the current token is taken, the bound of what follows is smaller. -/
theorem Consumes.bind (hm : Consumes cap bound p m) [hf : ∀ a, Proceeds cap (bound - 1) (f a)] :
    ProceedsFrom cap bound p (m >>= f) :=
  hm.toProceedsFrom.bind (fun a => (.of : ProceedsFrom cap (bound - 1) (fun _ => True) (f a)))
    fun s hs hp hstuck hwhole hleft => by
      have hlt := hm.left_lt s hs hp hstuck hwhole hleft
      exact ⟨trivial, by omega⟩

/-- A parser asks something about the current token first. -/
theorem Proceeds.look_bind [hm : Stays m] [hproceeds : Proceeds cap bound m]
    (h : ∀ s, ∃ p : TokenKind → Prop, p s.kind ∧ ProceedsFrom cap bound p (f (m s).1)) :
    Proceeds cap bound (m >>= f) where
  reaches s hs := by
    obtain ⟨p, hp, hf⟩ := h s
    have hlook := hproceeds.reaches s hs
    exact hlook.trans (hf.reaches hlook.limit_eq (by rwa [State.kind, hm.lexer_eq]))

theorem Consumes.andThen (hm : Consumes cap bound p m) (h : ∀ a, Proceeds cap (bound - 1) (f a)) :
    ProceedsFrom cap bound p (m >>= f) :=
  hm.bind

/-- A token that has been taken stays so. -/
theorem Consumes.andThenConsumes (hm : Consumes cap bound p m)
    (h : ∀ a, Proceeds cap (bound - 1) (f a)) :
    Consumes cap bound p (m >>= f) where
  toProceedsFrom := hm.andThen h
  left_lt s hs hp hstuck hwhole hleft := by
    have hfirst := hm.toProceedsFrom.reaches hs hp
    have hrest := (h (m s).1).reaches _ hfirst.limit_eq
    have hstuck' := State.not_isStuck_of_subset hrest.visited hstuck
    have hlt := hm.left_lt s hs hp hstuck' hwhole hleft
    obtain ⟨hwhole', -⟩ := hfirst.follows hstuck' hwhole hleft
    exact (hrest.follows hstuck hwhole' (by omega)).2.left_le.trans_lt hlt

/-- A parser that runs like another one from some kinds of tokens. -/
theorem ProceedsFrom.congr {m' : Parser α} (hm : Proceeds cap 0 m) (h : ProceedsFrom cap bound p m')
    (heq : ∀ s, p s.kind → m s = m' s) : ProceedsFrom cap bound p m where
  proceeds := hm
  follows s hs hp := by
    rw [heq s hp]
    exact h.follows s hs hp

theorem Consumes.weaken (h : Consumes cap bound q m) (himp : ∀ k, p k → q k) :
    Consumes cap bound p m :=
  ⟨h.toProceedsFrom.weaken himp, fun s hs hp => h.left_lt s hs (himp _ hp)⟩

theorem Consumes.congr {m' : Parser α} (hm : Proceeds cap 0 m) (h : Consumes cap bound p m')
    (heq : ∀ s, p s.kind → m s = m' s) : Consumes cap bound p m where
  toProceedsFrom := h.toProceedsFrom.congr hm heq
  left_lt s hs hp := by
    rw [heq s hp]
    exact h.left_lt s hs hp

theorem ProceedsFrom.ite {c : Prop} [Decidable c] (hx : ProceedsFrom cap bound p x)
    (hy : ProceedsFrom cap bound p y) :
    ProceedsFrom cap bound p (if c then x else y) := by
  split <;> assumption

theorem Proceeds.kind_bind {f : TokenKind → Parser β}
    (h : ∀ k, ProceedsFrom cap bound (· = k) (f k)) :
    Proceeds cap bound (kind >>= f) :=
  .look_bind fun s => ⟨(· = s.kind), rfl, h s.kind⟩

theorem Proceeds.isAt_bind {k : TokenKind} {f : Bool → Parser β}
    (h : ProceedsFrom cap bound (· = k) (f true)) (h' : Proceeds cap bound (f false)) :
    Proceeds cap bound (isAt k >>= f) :=
  .look_bind fun s => by
    change ∃ p : TokenKind → Prop, p s.kind ∧ ProceedsFrom cap bound p (f (s.kind == k))
    by_cases hk : s.kind = k
    · rw [beq_iff_eq.2 hk]
      exact ⟨_, hk, h⟩
    · rw [beq_eq_false_iff_ne.2 hk]
      exact ⟨fun _ => True, trivial, .of⟩

theorem Proceeds.isAt_ite {k : TokenKind} {x y : Parser β} (h : ProceedsFrom cap bound (· = k) x)
    (h' : Proceeds cap bound y) : Proceeds cap bound (do if ← isAt k then x else y) :=
  .isAt_bind h h'

/-! ## Moving on -/

namespace State

/-- A lexer comes after the current token of a state: it has a sound token, behind this one if there
is one. -/
structure IsBefore (s : State) (l : Lexer) : Prop where
  isSound : l.IsSound
  le : s.IsWhole → l.token.start.rest.length ≤ s.left
  lt : s.IsWhole → ¬s.IsStuck → s.kind ≠ .endOfFile → l.token.start.rest.length < s.left

theorem isBefore_scan (s : State) : s.IsBefore s.lexer.scan where
  isSound := Lexer.isSound_scan _
  le h := (Lexer.reaches_scan _).1.trans h.isSound.reaches.1
  lt h hstuck hkind := (Lexer.reaches_scan _).1.trans_lt (h.here_lt hstuck hkind)

theorem isBefore_skipBlock (s : State) : s.IsBefore s.lexer.skipBlock.2 where
  isSound := Lexer.isSound_skipBlock _
  le _ := (Lexer.skipBlock_le _).trans (Text.Cursor.reaches_next _).1
  lt h _ hkind := (Lexer.skipBlock_le _).trans_lt (h.isSound.next_lt hkind)

end State

theorem left_moveTo_lt {l : Lexer} (hl : s.IsBefore l) (stop : Nat) (hkind : s.kind ≠ .endOfFile)
    (hstuck : ¬(s.moveTo stop l).IsStuck) (hwhole : s.IsWhole) : (s.moveTo stop l).left < s.left :=
  hl.lt hwhole (State.not_isStuck_of_subset (List.subset_cons_self _ _) hstuck) hkind

theorem Reaches.moveTo {l : Lexer} (hl : s.IsBefore l) (stop : Nat) (hs : s.limit = cap) :
    Reaches cap bound s (s.moveTo stop l) where
  limit_eq := hs
  visited := List.subset_cons_self _ _
  follows hstuck hwhole _ := by
    have hle : (s.moveTo stop l).left ≤ s.left := hl.le hwhole
    refine ⟨⟨hwhole.isCut, hle.trans_lt hwhole.left_lt, hl.isSound, List.mem_cons_self⟩, hle,
      fun heq hne => ?_⟩
    -- a token that is not the end of the text has been passed
    have hkind : s.kind ≠ .endOfFile := fun hkind =>
      hne (List.length_eq_zero_iff.2 (hwhole.isSound.eof_iff.1 hkind))
    exact absurd heq (left_moveTo_lt hl stop hkind hstuck hwhole).ne

instance : Proceeds cap bound advance := ⟨fun s hs => .moveTo s.isBefore_scan _ hs⟩

instance : Proceeds cap bound skipBlock := ⟨fun s hs => .moveTo s.isBefore_skipBlock _ hs⟩

/-- The kinds of all tokens but the last. -/
abbrev IsToken (k : TokenKind) : Prop := k ≠ .endOfFile

theorem consumes_advance : Consumes cap bound IsToken advance where
  toProceedsFrom := .of
  left_lt s _ hkind hstuck hwhole _ := left_moveTo_lt s.isBefore_scan _ hkind hstuck hwhole

theorem consumes_skipBlock : Consumes cap bound IsToken skipBlock where
  toProceedsFrom := .of
  left_lt s _ hkind hstuck hwhole _ := left_moveTo_lt s.isBefore_skipBlock _ hkind hstuck hwhole

/-! ## Marks and words -/

instance {a : α} : Proceeds cap 0 (giveUp a) :=
  ⟨fun _ hs => ⟨hs, fun _ h => h, fun _ _ hleft => absurd hleft (Nat.not_lt_zero _)⟩⟩

instance (k : TokenKind) : Proceeds cap bound (optional k) := by unfold optional; infer_instance

instance (p : Punctuation) : Proceeds cap bound (optionalMark p) := by
  unfold optionalMark; infer_instance

instance (k : Keyword) : Proceeds cap bound (optionalWord k) := by
  unfold optionalWord; infer_instance

theorem optional_of_eq {k : TokenKind} (h : s.kind = k) : optional k s = (true, (advance s).2) := by
  change (if (s.kind == k) = true then _ else _ : Parser Bool) s = _
  rw [if_pos (beq_iff_eq.2 h)]
  rfl

theorem optional_of_ne {k : TokenKind} (h : s.kind ≠ k) : optional k s = (false, s) := by
  change (if (s.kind == k) = true then _ else _ : Parser Bool) s = _
  rw [if_neg (mt beq_iff_eq.1 h)]
  rfl

/-- What follows a token that may be missing has a smaller bound when it is there. -/
theorem Proceeds.optional_bind {k : TokenKind} (hk : IsToken k) {f : Bool → Parser β}
    (h : Proceeds cap (bound - 1) (f true)) (h' : Proceeds cap bound (f false)) :
    Proceeds cap bound (optional k >>= f) where
  reaches s hs := by
    change Reaches cap bound s (f (optional k s).1 (optional k s).2).2
    by_cases hkind : s.kind = k
    · rw [optional_of_eq hkind]
      have hadvance : ProceedsFrom cap bound IsToken (advance >>= fun _ => f true) :=
        consumes_advance.bind
      exact hadvance.reaches hs (hkind ▸ hk)
    · rw [optional_of_ne hkind]
      exact h'.reaches s hs

theorem Proceeds.optional_ite {k : TokenKind} (hk : IsToken k) {x y : Parser β}
    (h : Proceeds cap (bound - 1) x) (h' : Proceeds cap bound y) :
    Proceeds cap bound (do if ← optional k then x else y) :=
  .optional_bind hk h h'

instance (k : TokenKind) : Proceeds cap bound (expect? k) := by unfold expect?; infer_instance

instance [Proceeds cap bound m] : Proceeds cap bound (discard m) :=
  inferInstanceAs (Proceeds cap bound (m >>= fun _ => pure ()))

instance (k : TokenKind) : Proceeds cap bound (expect k) := by unfold expect; infer_instance

instance (p : Punctuation) : Proceeds cap bound (expectMark p) := by
  unfold expectMark; infer_instance

instance (k : Keyword) : Proceeds cap bound (expectWord k) := by unfold expectWord; infer_instance

theorem expect?_of_eq {k : TokenKind} (h : s.kind = k) : expect? k s = (true, (advance s).2) := by
  change (if (optional k s).1 = true then _ else _ : Parser Bool) (optional k s).2 = _
  rw [optional_of_eq h]
  rfl

theorem expect?_of_ne {k : TokenKind} (h : s.kind ≠ k) :
    expect? k s = (false, (report (.expected k.description) s).2) := by
  change (if (optional k s).1 = true then _ else _ : Parser Bool) (optional k s).2 = _
  rw [optional_of_ne h]
  rfl

theorem consumes_expect {k : TokenKind} (hk : IsToken k) :
    Consumes cap bound (· = k) (expect k) where
  toProceedsFrom := .of
  left_lt s hs hkind := by
    change ¬(expect? k s).2.IsStuck → s.IsWhole → s.left < bound → (expect? k s).2.left < s.left
    rw [expect?_of_eq hkind]
    exact consumes_advance.left_lt s hs (hkind ▸ hk)

theorem Proceeds.expect?_ite {k : TokenKind} (hk : IsToken k) {x y : Parser β}
    (h : Proceeds cap (bound - 1) x) (h' : Proceeds cap bound y) :
    Proceeds cap bound (do if ← expect? k then x else y) where
  reaches s hs := by
    change Reaches cap bound s ((if (expect? k s).1 = true then x else y) (expect? k s).2).2
    by_cases hkind : s.kind = k
    · rw [expect?_of_eq hkind]
      have hadvance : ProceedsFrom cap bound IsToken (advance >>= fun _ => x) :=
        consumes_advance.bind
      exact hadvance.reaches hs (hkind ▸ hk)
    · rw [expect?_of_ne hkind]
      have hreport : Proceeds cap bound (report (.expected k.description) >>= fun _ => y) :=
        inferInstance
      exact hreport.reaches s hs

instance : Proceeds cap bound semicolon := by unfold semicolon; infer_instance

/-! ## Looking ahead -/

instance (look : Parser Bool) : Stays (lookAhead look) := ⟨fun _ => rfl⟩

/-- A parser ends at a place that can be reached from `s`, when it starts at one. -/
class ProceedsSince (cap bound : Nat) (s : State) (m : Parser α) : Prop where
  reaches : s.limit = cap → ∀ t, Reaches cap bound s t → Reaches cap bound s (m t).2

instance (priority := low) [h : Proceeds cap bound m] : ProceedsSince cap bound s m :=
  ⟨fun _ t ht => ht.trans (h.reaches t ht.limit_eq)⟩

instance [hm : ProceedsSince cap bound s m] [hf : ∀ a, ProceedsSince cap bound s (f a)] :
    ProceedsSince cap bound s (m >>= f) :=
  ⟨fun hs t ht => (hf _).reaches hs _ (hm.reaches hs t ht)⟩

instance (c : Prop) [Decidable c] [ProceedsSince cap bound s x] [ProceedsSince cap bound s y] :
    ProceedsSince cap bound s (if c then x else y) := by
  split <;> assumption

/-- To go back to a place is to be there again. -/
instance : ProceedsSince cap bound s (rewind (mark s).1) where
  reaches hs t ht := by
    refine ⟨ht.limit_eq, ht.visited, fun hstuck hwhole hleft => ?_⟩
    obtain ⟨hwhole', -⟩ := ht.follows hstuck hwhole hleft
    have hlimit : (rewind (mark s).1 t).2.limit = s.limit := ht.limit_eq.trans hs.symm
    exact ⟨⟨hwhole'.isCut, hlimit ▸ hwhole.left_lt, hwhole.isSound, ht.visited hwhole.mem_visited⟩,
      .of_lexer rfl⟩

theorem Proceeds.mark_bind {f : Mark → Parser β}
    (h : ∀ s, ProceedsSince cap bound s (f (mark s).1)) :
    Proceeds cap bound (mark >>= f) :=
  ⟨fun s hs => (h s).reaches hs s (.refl hs)⟩

instance (look : Parser Bool) [Proceeds cap bound look] : Proceeds cap bound (lookAhead look) := by
  unfold lookAhead
  exact .mark_bind fun s => inferInstance

/-! ## Reading a token again -/

/-- A parser reads the current token again, and stays at its start. -/
class Rereads (m : Parser α) : Prop where
  reads : ∀ s, s.lexer.IsSound → IsToken s.kind →
    (m s).2.lexer.IsSound ∧ (m s).2.lexer.token.start = s.lexer.token.start
  visited_eq : ∀ s, (m s).2.visited = s.visited
  limit_eq : ∀ s, (m s).2.limit = s.limit
  isCut_eq : ∀ s, (m s).2.isCut = s.isCut

instance (priority := low) [hm : Stands m] : Rereads m :=
  ⟨fun s hsound _ => by simp only [hm.lexer_eq s, hsound, and_self], hm.visited_eq, hm.limit_eq,
    hm.isCut_eq⟩

theorem Rereads.turns (h : Rereads m) : Turns IsToken IsToken m := by
  intro s hsound hkind
  obtain ⟨hsound', hstart⟩ := h.reads s hsound hkind
  exact (not_congr (hsound'.eof_iff.trans (hstart ▸ hsound.eof_iff.symm))).2 hkind

instance [hm : Rereads m] [hf : ∀ a, Rereads (f a)] : Rereads (m >>= f) where
  reads s hsound hkind := by
    obtain ⟨hsound', hstart⟩ := hm.reads s hsound hkind
    obtain ⟨hsound'', hstart'⟩ := (hf (m s).1).reads (m s).2 hsound' (hm.turns s hsound hkind)
    exact ⟨hsound'', hstart'.trans hstart⟩
  visited_eq s := ((hf _).visited_eq _).trans (hm.visited_eq s)
  limit_eq s := ((hf _).limit_eq _).trans (hm.limit_eq s)
  isCut_eq s := ((hf _).isCut_eq _).trans (hm.isCut_eq s)

instance (c : Prop) [Decidable c] [Rereads x] [Rereads y] : Rereads (if c then x else y) := by
  split <;> assumption

theorem Rereads.andThen [Rereads m] (h : ∀ a, Rereads (f a)) : Rereads (m >>= f) := inferInstance

theorem Rereads.proceedsFrom (h : Rereads m) : ProceedsFrom cap bound IsToken m where
  proceeds :=
      ⟨fun s hs => ⟨(h.limit_eq s).trans hs, fun _ hc => h.visited_eq s ▸ hc, fun _ _ hleft =>
    absurd hleft (Nat.not_lt_zero _)⟩⟩
  follows s _ hkind _ hwhole _ := by
    obtain ⟨hsound, hstart⟩ := h.reads s hwhole.isSound hkind
    have hleft : (m s).2.left = s.left := by rw [State.left, State.left, hstart]
    refine ⟨⟨(h.isCut_eq s).trans hwhole.isCut, ?_, hsound, ?_⟩, Nat.le_of_eq hleft,
      fun _ _ => hstart⟩
    · rw [hleft, h.limit_eq]
      exact hwhole.left_lt
    · rw [hstart, h.visited_eq]
      exact hwhole.mem_visited

/-- A parser that reads the current token again, and goes on from there. -/
theorem ProceedsFrom.reread [h : Rereads m] (hf : ∀ a, ProceedsFrom cap bound IsToken (f a)) :
    ProceedsFrom cap bound IsToken (m >>= f) :=
  .turn h.proceedsFrom h.turns hf

instance : Rereads (relex Lexer.skipTemplate) :=
  ⟨fun _ hsound _ => ⟨hsound.skipTemplate, Lexer.token_start_skipTemplate _⟩, fun _ => rfl,
    fun _ => rfl, fun _ => rfl⟩

instance : Rereads (relex Lexer.rescanTemplate) :=
  ⟨fun _ hsound hkind => ⟨hsound.rescanTemplate hkind, Lexer.token_start_accept _ _⟩, fun _ => rfl,
    fun _ => rfl,
    fun _ => rfl⟩

instance : Rereads (relex Lexer.rescanRegex) :=
  ⟨fun _ hsound hkind => ⟨hsound.rescanRegex hkind, Lexer.token_start_accept _ _⟩, fun _ => rfl,
    fun _ => rfl,
    fun _ => rfl⟩

/-! ## Rules -/

/-- The rules of the grammar proceed. The body of a namespace may start with no token of its own, so
it needs one more. -/
class Callable (cap bound : Nat) (sub : Rules) : Prop where
  type : Proceeds cap bound (sub .type)
  unionType : Proceeds cap bound (sub .unionType)
  operatorType : Proceeds cap bound (sub .operatorType)
  statement : Proceeds cap bound (sub .statement)
  literalValue : Proceeds cap bound (sub .literalValue)
  bindingName : Proceeds cap bound (sub .bindingName)
  namespaceBody : ∀ start ms flavor, Proceeds cap (bound - 1) (sub (.namespaceBody start ms flavor))

attribute [instance] Callable.type Callable.unionType Callable.operatorType Callable.statement
    Callable.literalValue
  Callable.bindingName Callable.namespaceBody

theorem Callable.mono {sub : Rules} {less : Nat} (h : Callable cap bound sub) (hle : less ≤ bound) :
    Callable cap less sub where
  type := h.type.mono hle
  unionType := h.unionType.mono hle
  operatorType := h.operatorType.mono hle
  statement := h.statement.mono hle
  literalValue := h.literalValue.mono hle
  bindingName := h.bindingName.mono hle
  namespaceBody start ms flavor :=
    (h.namespaceBody start ms flavor).mono (Nat.sub_le_sub_right hle 1)

instance {sub : Rules} [h : Callable cap bound sub] : Callable cap (bound - 1) sub :=
  h.mono (Nat.sub_le bound 1)

/-! ## Repetition -/

/-- A repetition has the limit of the state for its rounds. -/
instance (priority := 2000) {f : Nat → Parser β} [h : Proceeds cap bound (f cap)] :
    Proceeds cap bound (limit >>= f) where
  reaches s hs := by
    change Reaches cap bound s (f s.limit s).2
    rw [hs]
    exact h.reaches s hs

theorem Proceeds.atLimit {f : Nat → Parser β} (h : Proceeds cap bound (f cap)) :
    Proceeds cap bound (limit >>= f) :=
  inferInstance

/-- What a repetition does with no round left. -/
theorem proceeds_of_le_zero {a : α} (h : bound ≤ 0) : Proceeds cap bound (giveUp a) := by
  obtain rfl := Nat.le_zero.1 h
  infer_instance

/-- A node that was found is put to the others, and the parser goes on. -/
theorem Proceeds.found {go : List Slot → Parser β} (h : ∀ done, Proceeds cap bound (go done))
    (done : List Slot) (found : Slot) :
    Proceeds cap bound (match found with
      | some node => go (some node :: done)
      | none => go done) := by
  cases found <;> exact h _

/-- A repetition proceeds when it has a round for each token that can be left. -/
theorem proceeds_itemsUntil (close : Punctuation) {item : Parser Slot} (rounds : Nat) :
    ∀ bound ≤ rounds, ∀ [Proceeds cap bound item] done,
      Proceeds cap bound (itemsUntil close item rounds done) := by
  induction rounds with
  | zero => exact fun bound hbound _ done => proceeds_of_le_zero hbound
  | succ rounds ih =>
    intro bound hbound hitem done
    have hless := hitem.mono (Nat.sub_le bound 1)
    have hrest := fun x => ih (bound - 1) (by omega) (x :: done)
    have hround : ∀ x, Proceeds cap bound (do
        if ← optionalMark .comma then itemsUntil close item rounds (x :: done)
            else return (x :: done).reverse) :=
      fun x => .optional_ite TokenKind.noConfusion (hrest x) inferInstance
    unfold itemsUntil
    infer_instance

/-- A round that takes a token when the parser in it has left all of them. -/
theorem proceedsFrom_round {g : Nat → α → Parser β} [hm : Proceeds cap bound m]
    (hmoved : ∀ before a, Proceeds cap (bound - 1) (g before a))
    (hsame : ∀ t a, t.limit = cap → IsToken t.kind →
      Reaches cap bound t (g t.lexer.token.start.offset a t).2) :
    ProceedsFrom cap bound IsToken (do
      let before ← offset
      let a ← m
      g before a) where
  proceeds :=
    have := hm.mono (Nat.zero_le bound)
    have := fun before a => (hmoved before a).mono (Nat.zero_le _)
    inferInstance
  follows s hs hkind hstuck hwhole hleft := by
    have hreaches := hm.reaches s hs
    have hrest := (hmoved s.lexer.token.start.offset (m s).1).reaches _ hreaches.limit_eq
    obtain ⟨hwhole', hfollows⟩ :=
      hreaches.follows (State.not_isStuck_of_subset hrest.visited hstuck) hwhole hleft
    rcases hfollows.left_le.lt_or_eq with hlt | heq
    · obtain ⟨hwhole'', hfollows'⟩ := hrest.follows hstuck hwhole' (by omega)
      exact ⟨hwhole'', hfollows.trans hfollows'⟩
    · -- the parser has not moved, and there is a token to take
      have hpos := hwhole.left_pos hkind
      have hstart := hfollows.start_eq heq hpos.ne'
      have hkind' : IsToken (m s).2.kind := fun hend => by
        have hzero : (m s).2.left = 0 := List.length_eq_zero_iff.2 (hwhole'.isSound.eof_iff.1 hend)
        omega
      have hround := hsame (m s).2 (m s).1 hreaches.limit_eq hkind'
      rw [hstart] at hround
      obtain ⟨hwhole'', hfollows'⟩ := hround.follows hstuck hwhole' (by omega)
      exact ⟨hwhole'', hfollows.trans hfollows'⟩

instance (close : Punctuation) {item : Parser Slot} [h : Proceeds cap bound item]
    (done : List Slot) :
    Proceeds cap bound (itemsUntil close item cap done) :=
  have := h.mono (Nat.min_le_left bound cap)
  .of_min (proceeds_itemsUntil close cap _ (Nat.min_le_right bound cap) done)

instance (close : Punctuation) {item : Parser Slot} [Proceeds cap bound item] :
    Proceeds cap bound (commaList close item) := by
  unfold commaList
  infer_instance

/-- The word for a modifier is no end of the text, so each round takes a token. -/
theorem proceeds_modifiersWhile {flag? : Parser (Option Modifier)} {isMeant : Parser Bool}
    [Stands flag?] [Stands isMeant] (hflag : ∀ s, s.kind = .endOfFile → (flag? s).1 = none)
    (rounds : Nat) :
    ∀ bound ≤ rounds, ∀ found, Proceeds cap bound (modifiersWhile flag? isMeant rounds found) := by
  induction rounds with
  | zero => exact fun bound hbound found => proceeds_of_le_zero hbound
  | succ rounds ih =>
    intro bound hbound found
    have hrest := fun m => ih (bound - 1) (by omega) (found.insert m)
    unfold modifiersWhile
    refine .look_bind fun s => ?_
    split
    · exact ⟨fun _ => True, trivial, .of⟩
    · next m hm =>
      refine ⟨IsToken, fun hkind => ?_, .stay fun isMeant => ?_⟩
      · cases (hflag s hkind).symm.trans hm
      · split
        · exact consumes_advance.bind
        · exact .of

theorem proceeds_modifiers {flag? : TokenKind → Option Modifier} {isMeant : Parser Bool}
    [Stands isMeant] (hflag : flag? .endOfFile = none) :
    Proceeds cap bound (modifiers flag? isMeant) := by
  have hloop : Proceeds cap bound (modifiersWhile (return flag? (← kind)) isMeant cap .empty) :=
    .of_min (proceeds_modifiersWhile (fun s hkind => by
      change flag? s.kind = none
      rw [hkind, hflag]) cap _ (Nat.min_le_right bound cap) _)
  unfold modifiers
  infer_instance

/-- A parser asks for the kind of the current token, and does not go on at the end of the text. -/
theorem Proceeds.token_bind {f : TokenKind → Parser β} (hend : ∃ b, f .endOfFile = pure b)
    (h : ∀ k, ProceedsFrom cap bound IsToken (f k)) : Proceeds cap bound (kind >>= f) :=
  .kind_bind fun k => by
    by_cases hk : k = .endOfFile
    · obtain ⟨b, hb⟩ := hend
      rw [hk, hb]
      exact .of
    · exact (h k).weaken fun k' hk' => hk' ▸ hk

/-- A parser asks whether the text has ended. -/
theorem Proceeds.atEnd_bind {f : Bool → Parser β} (h : Proceeds cap bound (f true))
    (h' : ProceedsFrom cap bound IsToken (f false)) : Proceeds cap bound (atEnd >>= f) :=
  .look_bind fun s => by
    change ∃ p : TokenKind → Prop, p s.kind ∧ ProceedsFrom cap bound p (f (s.kind == .endOfFile))
    by_cases hk : s.kind = .endOfFile
    · rw [beq_iff_eq.2 hk]
      exact ⟨fun _ => True, trivial, .of⟩
    · rw [beq_eq_false_iff_ne.2 hk]
      exact ⟨IsToken, hk, h'⟩

/-! ## Names -/

instance : Proceeds cap bound identifierName := by unfold identifierName; infer_instance

theorem consumes_identifierName : Consumes cap bound (fun k => k.isName = true) identifierName where
  toProceedsFrom := .of
  left_lt s hs hname := by
    have hadvance : Consumes cap bound IsToken advance := consumes_advance
    have hrun : (identifierName s).2 =
        (finish (.identifier s.lexer.token.value) s.lexer.token.start.offset (advance s).2).2 := by
      change ((if s.kind.isName = true then _ else _ : Parser Slot) s).2 = _
      rw [if_pos hname]
      rfl
    rw [hrun]
    refine hadvance.left_lt s hs fun hkind => ?_
    rw [hkind] at hname
    cases hname

instance : Proceeds cap bound bindingIdentifier := by unfold bindingIdentifier; infer_instance

instance : Proceeds cap bound stringLiteral := by unfold stringLiteral; infer_instance

instance : Proceeds cap bound exportName := by unfold exportName; infer_instance

theorem proceeds_dottedRest (start rounds : Nat) :
    ∀ bound ≤ rounds, ∀ entity, Proceeds cap bound (dottedRest start rounds entity) := by
  induction rounds with
  | zero => exact fun bound hbound entity => proceeds_of_le_zero hbound
  | succ rounds ih =>
    intro bound hbound entity
    have hrest := ih (bound - 1) (by omega)
    unfold dottedRest
    refine .isAt_ite (.stay fun next => ?_) inferInstance
    split
    · exact consumes_advance.bind.token TokenKind.noConfusion
    · exact .of

instance (start : Nat) (entity : Slot) : Proceeds cap bound (dottedRest start cap entity) :=
  .of_min (proceeds_dottedRest start cap _ (Nat.min_le_right bound cap) entity)

instance : Proceeds cap bound entityName := by unfold entityName; infer_instance

instance : Proceeds cap bound bindingEntityName := by unfold bindingEntityName; infer_instance

/-! ## Groups that are skipped -/

theorem proceeds_skipGroup (start close : Punctuation) (rounds : Nat) :
    ∀ bound ≤ rounds, ∀ depth, Proceeds cap bound (skipGroup start close rounds depth) := by
  induction rounds with
  | zero => exact fun bound hbound depth => proceeds_of_le_zero hbound
  | succ rounds ih =>
    intro bound hbound depth
    have hrest := ih (bound - 1) (by omega)
    unfold skipGroup
    refine .token_bind ⟨(), rfl⟩ fun token => ?_
    split
    · exact .of
    split
    · exact consumes_skipBlock.bind
    refine .reread fun _ => ?_
    split
    · exact consumes_advance.bind
    split <;> exact consumes_advance.bind

instance (start close : Punctuation) (depth : Nat) :
    Proceeds cap bound (skipGroup start close cap depth) :=
  .of_min (proceeds_skipGroup start close cap _ (Nat.min_le_right bound cap) depth)

instance (start close : Punctuation) : Proceeds cap bound (skipBalanced start close) := by
  unfold skipBalanced
  infer_instance

theorem proceeds_skipDotted (rounds : Nat) :
    ∀ bound ≤ rounds, Proceeds cap bound (skipDotted rounds) := by
  induction rounds with
  | zero => exact fun bound hbound => proceeds_of_le_zero hbound
  | succ rounds ih =>
    intro bound hbound
    have hrest := ih (bound - 1) (by omega)
    have hdot :
        Proceeds cap bound (do if ← optionalMark .dot then skipDotted rounds : Parser Unit) :=
      .optional_ite TokenKind.noConfusion hrest inferInstance
    unfold skipDotted
    infer_instance

instance : Proceeds cap bound (skipDotted cap) :=
  .of_min (proceeds_skipDotted cap _ (Nat.min_le_right bound cap))

theorem proceeds_skipDecoratorsIn (rounds : Nat) :
    ∀ bound ≤ rounds, Proceeds cap bound (skipDecoratorsIn rounds) := by
  induction rounds with
  | zero => exact fun bound hbound => proceeds_of_le_zero hbound
  | succ rounds ih =>
    intro bound hbound
    have hrest := ih (bound - 1) (by omega)
    unfold skipDecoratorsIn
    exact .optional_ite TokenKind.noConfusion inferInstance inferInstance

instance : Proceeds cap bound (skipDecoratorsIn cap) :=
  .of_min (proceeds_skipDecoratorsIn cap _ (Nat.min_le_right bound cap))

instance : Proceeds cap bound skipDecorators := by unfold skipDecorators; infer_instance

end DeclBundle.Grammar
