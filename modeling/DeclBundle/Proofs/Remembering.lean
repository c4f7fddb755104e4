import DeclBundle.Package.Resolution

/-!
# Remembered answers

A resolver gives for every request the answer that the first request for the same specifier in the
same directory got (`Resolver.ask_after`). What file is found depends only on the specifier and the
directory, so what was found before is what a new resolver finds. A failure also holds the file and
the place that asked: it is the failure of a new resolver exactly when the first request came from
that file and place (`Resolver.ask_after_eq_iff`).
-/

set_option autoImplicit false

namespace DeclBundle

/-- A request for the module that a specifier names at a place in a file. -/
structure ModuleRequest where
  specifier : String
  file : String
  span : Text.Span
  deriving DecidableEq, Repr

namespace ModuleRequest

/-- What answers are remembered by: the directory and the specifier. -/
def key (q : ModuleRequest) : String × String := (Path.parent q.file, q.specifier)

/-- The module that is found for a request. -/
def found? (rules : Resolution.Rules) (host : Host) (q : ModuleRequest) : Option ResolvedModule :=
  Resolution.find? rules host q.specifier (Path.parent q.file)

/-- The answer of a new resolver. -/
def answer (rules : Resolution.Rules) (host : Host) (q : ModuleRequest) :
    Except ResolutionFailure ResolvedModule :=
  Resolver.answer { rules } host q.specifier q.file q.span

variable {rules : Resolution.Rules} {host : Host} {q q' : ModuleRequest}

theorem found?_of_key (h : q.key = q'.key) : q.found? rules host = q'.found? rules host := by
  obtain ⟨hdir, hspecifier⟩ := Prod.mk.inj h
  rw [found?, found?, hdir, hspecifier]

theorem answer_of_found? {m : ResolvedModule} (h : q.found? rules host = some m) :
    q.answer rules host = .ok m := by
  rw [found?] at h
  simp only [answer, Resolver.answer, h]

/-- A failure holds the request. -/
theorem answer_of_not_found? (h : q.found? rules host = none) :
    ∃ cause, q.answer rules host = .error ⟨cause, q.specifier, q.file, q.span⟩ := by
  rw [found?] at h
  simp only [answer, Resolver.answer, h]
  exact ⟨_, rfl⟩

/-- Two requests for one specifier in one directory have the same answer when a file is found, or
when they are the same request. -/
theorem answer_eq_iff_of_key (h : q.key = q'.key) :
    q.answer rules host = q'.answer rules host ↔
      (q.found? rules host).isSome = true ∨ q.file = q'.file ∧ q.span = q'.span := by
  have hspecifier : q.specifier = q'.specifier := (Prod.mk.inj h).2
  cases hfound : q.found? rules host with
  | some m => simp [answer_of_found? hfound, answer_of_found? (found?_of_key h ▸ hfound)]
  | none =>
    constructor
    · intro heq
      obtain ⟨cause, hanswer⟩ := answer_of_not_found? hfound
      obtain ⟨cause', hanswer'⟩ := answer_of_not_found? (found?_of_key h ▸ hfound)
      rw [hanswer, hanswer'] at heq
      injection heq with heq
      injection heq with _ _ hfile hspan
      exact .inr ⟨hfile, hspan⟩
    · rintro (hsome | ⟨hfile, hspan⟩)
      · cases hsome
      · rw [answer, answer, hspecifier, hfile, hspan]

end ModuleRequest

namespace Resolver

variable (host : Host)

/-- Asks for the module of a request. -/
def ask (r : Resolver) (q : ModuleRequest) : Resolver × Except ResolutionFailure ResolvedModule :=
  r.resolve host q.specifier q.file q.span

/-- The resolver after a series of requests. -/
def after (r : Resolver) (history : List ModuleRequest) : Resolver :=
  history.foldl (fun r q => (r.ask host q).1) r

/-! ## One request -/

theorem rules_ask (r : Resolver) (q : ModuleRequest) : (r.ask host q).1.rules = r.rules := by
  unfold ask resolve
  dsimp only
  split
  · rfl
  · rfl

/-- The answer is the one that is remembered, or that of a new resolver. -/
theorem snd_ask (r : Resolver) (q : ModuleRequest) :
    (r.ask host q).2 = (r.answers.get? q.key).getD (q.answer r.rules host) := by
  unfold ask resolve
  dsimp only
  split
  · next known hknown =>
    have hkey : r.answers.get? q.key = some known := hknown
    rw [hkey]
    rfl
  · next hnew =>
    have hkey : r.answers.get? q.key = none := hnew
    rw [hkey]
    rfl

/-- An answer that is remembered stays, and one that is new is remembered. -/
theorem get?_answers_ask (r : Resolver) (q : ModuleRequest) (key : String × String) :
    (r.ask host q).1.answers.get? key =
      (r.answers.get? key).or (if q.key = key then some (q.answer r.rules host) else none) := by
  unfold ask resolve
  dsimp only
  split
  · next known hknown =>
    by_cases hkey : q.key = key
    · subst hkey
      have hget : r.answers.get? q.key = some known := hknown
      rw [hget]
      rfl
    · rw [if_neg hkey, Option.or_none]
  · next hnew =>
    rw [Table.get?_set]
    by_cases hkey : q.key = key
    · subst hkey
      have hget : r.answers.get? q.key = none := hnew
      rw [hget, if_pos rfl, Option.none_or]
      exact if_pos rfl
    · rw [if_neg hkey, Option.or_none]
      exact if_neg hkey

/-! ## A series of requests -/

theorem rules_after (r : Resolver) (history : List ModuleRequest) :
    (r.after host history).rules = r.rules := by
  induction history generalizing r with
  | nil => rfl
  | cons q history ih => exact (ih (r.ask host q).1).trans (rules_ask host r q)

/-- What is remembered for a key is the answer for the first request with the key. -/
theorem get?_answers_after (r : Resolver) (history : List ModuleRequest) (key : String × String) :
    (r.after host history).answers.get? key =
      (r.answers.get? key).or
        ((history.find? (·.key = key)).map fun q => q.answer r.rules host) := by
  induction history generalizing r with
  | nil => exact (Option.or_none).symm
  | cons q history ih =>
    rw [after, List.foldl_cons, ← after, ih, get?_answers_ask, rules_ask, Option.or_assoc]
    congr 1
    by_cases hkey : q.key = key
    · simp [hkey]
    · simp [hkey]

/-- A resolver gives the answer for the first request with the same specifier and directory. -/
theorem ask_after (rules : Resolution.Rules) (history : List ModuleRequest) (q : ModuleRequest) :
    ((after host { rules } history).ask host q).2 =
      ((history.find? (·.key = q.key)).getD q).answer rules host := by
  have hempty : (({ rules } : Resolver).answers.get? q.key) = none := rfl
  rw [snd_ask, get?_answers_after, rules_after, hempty, Option.none_or]
  cases history.find? (·.key = q.key) with
  | none => rfl
  | some first => rfl

theorem fst_ask_after (rules : Resolution.Rules) (history : List ModuleRequest)
    (q : ModuleRequest) :
    ((after host { rules } history).ask host q).1 = after host { rules } (history ++ [q]) := by
  rw [after, after, List.foldl_append]
  rfl

/-- The request whose answer is given has the same specifier and directory. -/
theorem key_first (history : List ModuleRequest) (q : ModuleRequest) :
    ((history.find? (·.key = q.key)).getD q).key = q.key := by
  cases hfirst : history.find? (·.key = q.key) with
  | none => rfl
  | some first => simpa using List.find?_some hfirst

/-- Whatever was asked before, a module that can be found is given. -/
theorem ask_after_of_found? {rules : Resolution.Rules} (history : List ModuleRequest)
    {q : ModuleRequest} {m : ResolvedModule} (h : q.found? rules host = some m) :
    ((after host { rules } history).ask host q).2 = .ok m := by
  rw [ask_after]
  exact ModuleRequest.answer_of_found? ((ModuleRequest.found?_of_key (key_first history q)).trans h)

/-- Whatever was asked before, a failure names the specifier. -/
theorem ask_after_of_not_found? {rules : Resolution.Rules} (history : List ModuleRequest)
    {q : ModuleRequest} (h : q.found? rules host = none) :
    ∃ failure, ((after host { rules } history).ask host q).2 = .error failure ∧
      failure.specifier = q.specifier := by
  have hkey := key_first history q
  obtain ⟨cause, hanswer⟩ :=
    ModuleRequest.answer_of_not_found? ((ModuleRequest.found?_of_key hkey).trans h)
  exact ⟨_, (ask_after host rules history q).trans hanswer, (Prod.mk.inj hkey).2⟩

/-- After any series of requests a resolver answers as a new one does, exactly when a file is found
or the first request for the specifier in the directory came from the same file and place. In
particular the diagnostic for a failure is then where it belongs. -/
theorem ask_after_eq_iff (rules : Resolution.Rules) (history : List ModuleRequest)
    (q : ModuleRequest) :
    ((after host { rules } history).ask host q).2 = (({ rules } : Resolver).ask host q).2 ↔
      (q.found? rules host).isSome = true ∨
        ∀ first, history.find? (·.key = q.key) = some first →
          first.file = q.file ∧ first.span = q.span := by
  have hnew : (({ rules } : Resolver).ask host q).2 = q.answer rules host :=
    snd_ask host { rules } q
  have hkey := key_first history q
  rw [ask_after, hnew]
  cases hfirst : history.find? (·.key = q.key) with
  | none => simp
  | some first =>
    rw [hfirst, Option.getD_some] at hkey
    rw [Option.getD_some, ModuleRequest.answer_eq_iff_of_key hkey, ModuleRequest.found?_of_key hkey]
    simp

/-- Two files of one directory with an import that fails: the second failure names the first
file. -/
theorem exists_stale_failure :
    ∃ (host : Host) (rules : Resolution.Rules) (first second : ModuleRequest),
      ((after host { rules } [first]).ask host second).2 =
        .error ⟨.notFound, "./x", "/a.ts", ⟨14, 19⟩⟩ ∧
      (({ rules } : Resolver).ask host second).2 =
        .error ⟨.notFound, "./x", "/b.ts", ⟨22, 27⟩⟩ := by
  let host : Host := ⟨fun _ => none, fun _ => false, []⟩
  let rules : Resolution.Rules := ⟨.node10, true⟩
  have hanswer : ∀ file span, Path.parent file = "/" →
      ModuleRequest.answer rules host ⟨"./x", file, span⟩ =
        .error ⟨.notFound, "./x", file, span⟩ := by
    intro file span hdir
    have hnone : Resolution.find? rules host "./x" "/" = none := by decide
    have hblank : Text.isBlankText "./x".toList = false := by decide
    simp only [ModuleRequest.answer, answer, hdir, hnone, hblank]
    rfl
  refine ⟨host, rules, ⟨"./x", "/a.ts", ⟨14, 19⟩⟩, ⟨"./x", "/b.ts", ⟨22, 27⟩⟩, ?_, ?_⟩
  · rw [ask_after]
    exact hanswer "/a.ts" _ (by decide)
  · rw [snd_ask]
    exact hanswer "/b.ts" _ (by decide)

end Resolver

end DeclBundle
