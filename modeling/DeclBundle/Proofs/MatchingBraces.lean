import DeclBundle.Grammar.Statement
import DeclBundle.Print.Statement
import DeclBundle.Proofs.GoingBack

/-!
# Finding the brace that closes a block

What stands in a block is made of smaller blocks, strings, templates, comments and other characters,
and a template holds such texts in its substitutions (`Raw.IsBalanced`). Each of these hides its
braces from the others: a reader that starts in a block or in a template is there again behind such
a text (`Raw.takes_balanced`). So the first brace that is left over closes the block, and a lexer
that skips the block goes on with the token behind it (`Lexer.skipBlock_balanced`).

A slash stands only where a comment starts. Regular expressions are left out, as what a slash starts
depends on the words before it. A backslash hides one character: a line feed, but not the two
characters of a longer line end.
-/

set_option autoImplicit false

namespace DeclBundle

open Text

namespace Raw

/-! ## The text of a block -/

/-- What stands between the quotes of a string: no line feed, unless it is hidden, and a backslash
hides the next character. -/
inductive IsQuotedText (quote : Char) : List Char → Prop
  | nil : IsQuotedText quote []
  | plain {c : Char} {r : List Char} (hquote : c ≠ quote) (hescape : c ≠ '\\') (hline : c ≠ '\n')
      (hr : IsQuotedText quote r) : IsQuotedText quote (c :: r)
  | escaped (c : Char) {r : List Char} (hr : IsQuotedText quote r) :
      IsQuotedText quote ('\\' :: c :: r)

/-- The characters of a block that start nothing: all but the slash, the quotes, the backtick and
the braces. -/
def isOrdinary (c : Char) : Bool :=
  c != '/' && c != '\x22' && c != '\x27' && c != '\x60' && c != '\x7b' && c != '\x7d'

/-- What can stand in a frame, between its marks. -/
inductive IsBalanced : Frame → List Char → Prop
  | nil (f : Frame) : IsBalanced f []
  | ordinary {c : Char} {r : List Char} (hc : isOrdinary c = true) (hr : IsBalanced .braces r) :
      IsBalanced .braces (c :: r)
  | block {body r : List Char} (hbody : IsBalanced .braces body) (hr : IsBalanced .braces r) :
      IsBalanced .braces ('\x7b' :: (body ++ '\x7d' :: r))
  | string {quote : Char} {body r : List Char} (hquote : quote = '\x22' ∨ quote = '\x27')
      (hbody : IsQuotedText quote body) (hr : IsBalanced .braces r) :
    IsBalanced .braces (quote :: (body ++ quote :: r))
  | template {body r : List Char} (hbody : IsBalanced .template body) (hr : IsBalanced .braces r) :
      IsBalanced .braces ('\x60' :: (body ++ '\x60' :: r))
  | lineComment {body r : List Char} (hbody : '\n' ∉ body) (hr : IsBalanced .braces r) :
      IsBalanced .braces ('/' :: '/' :: (body ++ '\n' :: r))
  | blockComment {body r : List Char} (hbody : ¬['*', '/'] <:+: body ++ ['*'])
    (hr : IsBalanced .braces r) :
      IsBalanced .braces ('/' :: '*' :: (body ++ '*' :: '/' :: r))
  | text {c : Char} {r : List Char} (hclose : c ≠ '\x60') (hescape : c ≠ '\\')
    (hopen : c = '$' → r.head? ≠ some '\x7b')
      (hr : IsBalanced .template r) : IsBalanced .template (c :: r)
  | escaped (c : Char) {r : List Char} (hr : IsBalanced .template r) :
      IsBalanced .template ('\\' :: c :: r)
  | substitution {body r : List Char} (hbody : IsBalanced .braces body)
    (hr : IsBalanced .template r) :
      IsBalanced .template ('$' :: '\x7b' :: (body ++ '\x7d' :: r))

/-! ## One character -/

/-- The reader is in a frame, and in nothing smaller but a word. -/
def State.IsAt (s : State) (f : Frame) (fs : List Frame) : Prop :=
  s.frames = f :: fs ∧ (s.mode = .plain ∨ f = .braces ∧ s.mode = .inWord)

/-- Reading `cs` at byte `o`, with `rest` behind it, takes the reader from one state to another. -/
def Takes (s : State) (cs rest : List Char) (o : Nat) (t : State) : Prop :=
  run s (cs ++ rest) o = run t rest (o + byteLength cs)

variable {s t u : State} {f : Frame} {fs : List Frame} {c : Char}
  {next : Option Char} {here : Cursor} {cs ds rest : List Char} {o : Nat}

theorem run_of_nil (h : s.frames = []) (cs : List Char) (o : Nat) :
    run s cs o = (⟨cs, o⟩, true) := by
  rw [run.eq_def, h]
  rfl

theorem Takes.nil (s : State) (rest : List Char) (o : Nat) : Takes s [] rest o s := rfl

theorem Takes.append (h : Takes s cs (ds ++ rest) o t)
    (h' : Takes t ds rest (o + byteLength cs) u) :
    Takes s (cs ++ ds) rest o u := by
  unfold Takes at h h' ⊢
  rw [List.append_assoc, h, h', byteLength_append, Nat.add_assoc]

/-- As long as something is open one character is read after the other. -/
theorem Takes.cons (hframes : s.frames = f :: fs)
    (h : Takes (s.step ⟨c :: (cs ++ rest), o⟩ c (cs ++ rest).head?) cs rest (o + c.utf8Size) t) :
    Takes s (c :: cs) rest o t := by
  unfold Takes at h ⊢
  rw [List.cons_append, run, hframes, byteLength_cons, ← Nat.add_assoc, ← h]
  rfl

/-- A character that changes nothing. -/
theorem Takes.skip (hframes : s.frames = f :: fs)
    (hstep : s.step ⟨c :: (cs ++ rest), o⟩ c (cs ++ rest).head? = s)
    (h : Takes s cs rest (o + c.utf8Size) t) : Takes s (c :: cs) rest o t := by
  refine .cons hframes ?_
  rwa [hstep]

/-- A word ends before a character that is no part of one. -/
theorem step_braces (h : s.IsAt .braces fs) (hc : isIdentifierPart c = false) :
    s.step here c next = s.stepBraces here c next := by
  obtain ⟨hframes, hmode | ⟨-, hmode⟩⟩ := h
  · simp only [State.step, hmode, hframes]
  · simp only [State.step, hmode, hc, Bool.false_eq_true, if_false]

theorem step_template (h : s.IsAt .template fs) : s.step here c next = s.stepTemplate c next := by
  obtain ⟨hframes, hmode | ⟨hbraces, -⟩⟩ := h
  · simp only [State.step, hmode, hframes]
  · cases hbraces

/-- Characters that start nothing leave the reader in the block. -/
theorem isAt_ordinary (h : s.IsAt .braces fs) (hc : isOrdinary c = true) :
    (s.step here c next).IsAt .braces fs := by
  have hbraces : (s.stepBraces here c next).IsAt .braces fs := by
    simp only [isOrdinary, Bool.and_eq_true, bne_iff_ne] at hc
    simp only [State.stepBraces, beq_iff_eq, hc, Bool.or_eq_true, Bool.and_eq_true, false_and,
      or_self, if_false]
    split_ifs
    · exact ⟨h.1, .inl rfl⟩
    · exact ⟨h.1, .inr ⟨rfl, rfl⟩⟩
    · exact ⟨h.1, .inl rfl⟩
  cases hpart : isIdentifierPart c with
  | false => rwa [step_braces h hpart]
  | true =>
    -- Inside a word nothing changes.
    obtain ⟨hframes, hmode | ⟨-, hmode⟩⟩ := h
    · simpa only [State.step, hmode, hframes] using hbraces
    · simp only [State.step, hmode, hpart, if_true]
      exact ⟨hframes, .inr ⟨rfl, hmode⟩⟩

/-! ## Strings and comments -/

/-- A string is left at its closing quote. -/
theorem takes_quotedText {quote : Char} {body : List Char} (hbody : IsQuotedText quote body)
    (hquote : quote ≠ '\\') (hframes : s.frames = f :: fs) (hmode : s.mode = .string quote)
    (h : Takes (s.after quote) cs rest (o + byteLength body + quote.utf8Size) t) :
    Takes s (body ++ quote :: cs) rest o t := by
  induction hbody generalizing s o with
  | nil =>
    refine .cons hframes ?_
    have hclose (here : Cursor) (next : Option Char) : s.step here quote next = s.after quote := by
      simp [State.step, hmode, hquote]
    rwa [hclose]
  | @plain c body hne hescape hline _ ih =>
    refine .skip hframes ?_ (ih hframes hmode ?_)
    · simp [State.step, hmode, hne, hescape, hline]
    · rwa [Nat.add_assoc o, ← byteLength_cons]
  | @escaped c body _ ih =>
    have hhide (here : Cursor) (next : Option Char) :
        s.step here '\\' next = { s with mode := .stringEscape quote } := by
      simp [State.step, hmode]
    refine .cons hframes ?_
    rw [hhide]
    -- Whatever the next character is, the string goes on behind it.
    refine .cons hframes (ih hframes rfl ?_)
    have hoffset : o + '\\'.utf8Size + c.utf8Size + byteLength body =
        o + byteLength ('\\' :: c :: body) := by
      simp only [byteLength_cons, Nat.add_assoc]
    rwa [hoffset]

/-- A line comment is left behind its line feed. -/
theorem takes_lineComment {body : List Char} (hbody : '\n' ∉ body) (hframes : s.frames = f :: fs)
    (hmode : s.mode = .lineComment)
    (h : Takes { s with mode := .plain } cs rest (o + byteLength body + 1) t) :
    Takes s (body ++ '\n' :: cs) rest o t := by
  induction body generalizing o with
  | nil =>
    refine .cons hframes ?_
    have hclose (here : Cursor) (next : Option Char) :
        s.step here '\n' next = { s with mode := .plain } := by
      simp [State.step, hmode]
    rwa [hclose]
  | cons c body ih =>
    obtain ⟨hne, hbody⟩ : '\n' ≠ c ∧ '\n' ∉ body := by simpa using hbody
    refine .skip hframes ?_ (ih hbody ?_)
    · simp [State.step, hmode, Ne.symm hne]
    · rwa [Nat.add_assoc o, ← byteLength_cons]

/-- A block comment is left at the first place where it can end. -/
theorem takes_blockComment {body : List Char} (hbody : ¬['*', '/'] <:+: body ++ ['*'])
    (hframes : s.frames = f :: fs) (hmode : s.mode = .blockComment)
    (h : Takes { s with mode := .plain } cs rest (o + byteLength body + 2) t) :
    Takes s (body ++ '*' :: '/' :: cs) rest o t := by
  induction body generalizing o with
  | nil =>
    have hclose (here : Cursor) : s.step here '*' (some '/') =
        { s with mode := .closingComment } := by
      simp [State.step, hmode]
    refine .cons hframes ?_
    rw [List.cons_append, List.head?_cons, hclose]
    exact .cons hframes h
  | cons c body ih =>
    -- An asterisk with a slash behind it would be an end inside of the comment.
    have hopen : ¬(c = '*' ∧ (body ++ '*' :: '/' :: cs ++ rest).head? = some '/') := by
      rintro ⟨rfl, hslash⟩
      cases body with
      | nil => simp at hslash
      | cons d body =>
        obtain rfl : d = '/' := by simpa using hslash
        exact hbody ⟨[], body ++ ['*'], rfl⟩
    refine .skip hframes ?_ (ih (fun hmid => hbody (hmid.trans (List.suffix_cons c _).isInfix)) ?_)
    · change s.step _ c (body ++ '*' :: '/' :: cs ++ rest).head? = s
      simp only [State.step, hmode, Bool.and_eq_true, beq_iff_eq, hopen, if_false]
    · rwa [Nat.add_assoc o, ← byteLength_cons]

/-! ## Steps into frames and out of them -/

/-- A brace opens one more block. -/
theorem isAt_openBlock (h : s.IsAt .braces fs) :
    (s.step here '\x7b' next).IsAt .braces (.braces :: fs) := by
  rw [step_braces h rfl]
  exact ⟨congrArg (Frame.braces :: ·) h.1, .inl rfl⟩

/-- A brace closes the innermost block, whatever that stands in. -/
theorem isAt_closeBlock (h : s.IsAt .braces (f :: fs)) : (s.step here '\x7d' next).IsAt f fs := by
  rw [step_braces h rfl]
  exact ⟨congrArg List.tail h.1, .inl rfl⟩

theorem isAt_openTemplate (h : s.IsAt .braces fs) :
    (s.step here '\x60' next).IsAt .template (.braces :: fs) := by
  rw [step_braces h rfl]
  exact ⟨congrArg (Frame.template :: ·) h.1, .inl rfl⟩

theorem isAt_closeTemplate (h : s.IsAt .template (f :: fs)) :
    (s.step here '\x60' next).IsAt f fs := by
  rw [step_template h]
  exact ⟨congrArg List.tail h.1, .inl rfl⟩

/-- What stands in a frame of its own is passed from the character that opens the frame to the one
that closes it. -/
theorem takes_enclosed {g : Frame} {d : Char} {body : List Char} (hs : s.frames = f :: fs)
    (hbody : ∃ t : State, t.IsAt g (f :: fs) ∧
      Takes (s.step ⟨c :: (body ++ d :: cs ++ rest), o⟩ c (body ++ d :: cs ++ rest).head?) body
        (d :: cs ++ rest) (o + c.utf8Size) t)
    (h : ∀ t : State, t.IsAt g (f :: fs) → ∃ u : State, u.IsAt f fs ∧
      Takes
        (t.step ⟨d :: (cs ++ rest), o + c.utf8Size + byteLength body⟩ d (cs ++ rest).head?) cs rest
        (o + c.utf8Size + byteLength body + d.utf8Size) u) :
    ∃ u : State, u.IsAt f fs ∧ Takes s (c :: (body ++ d :: cs)) rest o u := by
  obtain ⟨t, ht, hbody⟩ := hbody
  obtain ⟨u, hu, htakes⟩ := h t ht
  exact ⟨u, hu, .cons hs (hbody.append (.cons ht.1 htakes))⟩

theorem step_quote {quote : Char} (h : s.IsAt .braces fs)
    (hquote : quote = '\x22' ∨ quote = '\x27') :
    s.step here quote next = { s with mode := .string quote } := by
  rcases hquote with rfl | rfl <;>
  · rw [step_braces h (by decide)]
    rfl

theorem step_lineComment (h : s.IsAt .braces fs) :
    s.step here '/' (some '/') = { s with mode := .lineComment } := by
  rw [step_braces h rfl]
  rfl

theorem step_blockComment (h : s.IsAt .braces fs) :
    s.step here '/' (some '*') = { s with mode := .openingComment } := by
  rw [step_braces h rfl]
  rfl

theorem step_templateEscape (h : s.IsAt .template fs) :
    s.step here '\\' next = { s with mode := .templateEscape } := by
  rw [step_template h]
  rfl

theorem step_substitution (h : s.IsAt .template fs) :
    s.step here '$' (some '\x7b') = { s with mode := .openingSubstitution } := by
  rw [step_template h]
  rfl

/-- A character of a template that starts nothing. -/
theorem step_templateText (h : s.IsAt .template fs) (hclose : c ≠ '\x60') (hescape : c ≠ '\\')
    (hsub : ¬(c = '$' ∧ next = some '\x7b')) : s.step here c next = { s with mode := .plain } := by
  rw [step_template h]
  simp only [State.stepTemplate, beq_iff_eq, Bool.and_eq_true, hclose, hescape, hsub, if_false]

/-! ## The text of a frame -/

/-- The reader passes what can stand in a frame, and is in the frame again. By induction on the
text, with any text behind it. Behind the text of a template this may not start with a brace, since
a dollar sign could stand before it. -/
theorem takes_balanced (h : IsBalanced f cs) (hs : s.IsAt f fs) (rest : List Char)
    (hrest : f = .template → rest.head? ≠ some '\x7b') (o : Nat) :
    ∃ t : State, t.IsAt f fs ∧ Takes s cs rest o t := by
  -- behind what ends in a frame, the reader goes on from the frame alone
  have hplain {s : State} {f : Frame} {fs : List Frame} (hs : s.IsAt f fs) :
      State.IsAt { s with mode := .plain } f fs := ⟨hs.1, .inl rfl⟩
  induction h generalizing s fs rest o with
  | nil f => exact ⟨s, hs, .nil s rest o⟩
  | ordinary hc _ ih =>
    obtain ⟨t, ht, htakes⟩ := ih (isAt_ordinary hs hc) rest nofun _
    exact ⟨t, ht, .cons hs.1 htakes⟩
  | @block body cs _ _ ihbody ih =>
    exact takes_enclosed hs.1
        (ihbody (isAt_openBlock hs) ('\x7d' :: cs ++ rest) nofun _) fun t ht =>
      ih (isAt_closeBlock ht) rest nofun _
  | @string quote body cs hquote hbody _ ih =>
    have hne : quote ≠ '\\' := by rcases hquote with rfl | rfl <;> decide
    obtain ⟨t, ht, htakes⟩ := ih (s := s.after quote) ⟨hs.1, .inl rfl⟩ rest nofun _
    refine ⟨t, ht, .cons hs.1 ?_⟩
    rw [step_quote hs hquote]
    exact takes_quotedText hbody hne hs.1 rfl htakes
  | @template body cs _ _ ihbody ih =>
    refine takes_enclosed hs.1 (ihbody (isAt_openTemplate hs) ('\x60' :: cs ++ rest) ?_ _)
      fun t ht => ih (isAt_closeTemplate ht) rest nofun _
    exact fun _ => by simp
  | @lineComment body cs hbody _ ih =>
    obtain ⟨t, ht, htakes⟩ := ih (hplain hs) rest nofun _
    refine ⟨t, ht, .cons hs.1 ?_⟩
    rw [List.cons_append, List.head?_cons, step_lineComment hs]
    -- The second slash is read as part of the comment.
    exact .skip hs.1 rfl (takes_lineComment hbody hs.1 rfl htakes)
  | @blockComment body cs hbody _ ih =>
    obtain ⟨t, ht, htakes⟩ := ih (hplain hs) rest nofun _
    refine ⟨t, ht, .cons hs.1 ?_⟩
    rw [List.cons_append, List.head?_cons, step_blockComment hs]
    -- The asterisk that opens the comment cannot also close it.
    exact .cons hs.1 (takes_blockComment hbody hs.1 rfl htakes)
  | @text c cs hclose hescape hsub _ ih =>
    have hopen : ¬(c = '$' ∧ (cs ++ rest).head? = some '\x7b') := by
      rintro ⟨rfl, hbrace⟩
      cases cs with
      | nil => exact hrest rfl hbrace
      | cons d cs => exact hsub rfl hbrace
    obtain ⟨t, ht, htakes⟩ := ih (hplain hs) rest hrest _
    refine ⟨t, ht, .cons hs.1 ?_⟩
    rwa [step_templateText hs hclose hescape hopen]
  | @escaped c cs _ ih =>
    obtain ⟨t, ht, htakes⟩ := ih (hplain hs) rest hrest _
    refine ⟨t, ht, .cons hs.1 ?_⟩
    rw [step_templateEscape hs]
    exact .cons hs.1 htakes
  | @substitution body cs _ _ ihbody ih =>
    -- the brace behind the dollar sign opens the block
    have hblock : State.IsAt
        { s with mode := .plain, frames := .braces :: s.frames, before := .char '\x7b' }
        .braces (.template :: fs) := ⟨congrArg (Frame.braces :: ·) hs.1, .inl rfl⟩
    obtain ⟨t, ht, hbody⟩ := ihbody hblock ('\x7d' :: cs ++ rest) nofun _
    obtain ⟨u, hu, htakes⟩ := ih (isAt_closeBlock ht) rest hrest _
    refine ⟨u, hu, .cons hs.1 ?_⟩
    rw [List.cons_append, List.head?_cons, step_substitution hs]
    exact .cons hs.1 (hbody.append (.cons ht.1 htakes))

/-- The brace behind a text that can stand in a block is the one that closes the block. -/
theorem skipBraces_balanced {body : List Char} (h : IsBalanced .braces body)
    (rest : List Char) (o : Nat) :
    skipBraces ⟨body ++ '\x7d' :: rest, o⟩ = (⟨rest, o + byteLength body + 1⟩, true) := by
  have hstart : State.IsAt { frames := [.braces] } .braces [] := ⟨rfl, .inl rfl⟩
  obtain ⟨t, ht, htakes⟩ := takes_balanced h hstart ('\x7d' :: rest) nofun o
  have hclose (here : Cursor) (next : Option Char) : (t.step here '\x7d' next).frames = [] := by
    rw [step_braces ht rfl]
    exact congrArg List.tail ht.1
  have hlast : run t ('\x7d' :: rest) (o + byteLength body) =
      (⟨rest, o + byteLength body + 1⟩, true) := by
    rw [run, ht.1]
    exact run_of_nil (hclose _ _) _ _
  rw [← hlast]
  exact htakes

end Raw

namespace Lexer

/-- A lexer that stands at a position of a text and has found nothing yet. -/
def startingAt (text : String) (c : Cursor) : Lexer :=
  ⟨text.utf8ByteSize, c, ⟨.unknown, c, "", false, none⟩, []⟩

/-- What a lexer finds depends on where it stands, and not on what it has found before. -/
theorem scan_eq_startingAt {text : String} {l : Lexer} (hsize : l.size = text.utf8ByteSize) :
    l.scan = { (startingAt text l.here).scan with errors := (startingAt text l.here).scan.errors ++
      l.errors } := by
  obtain ⟨size, here, token, errors⟩ := l
  obtain rfl : size = text.utf8ByteSize := hsize
  unfold scan startingAt
  dsimp only
  generalize Gap.skip here = found
  obtain ⟨gap, start⟩ := found
  -- An open comment is an error, and so can the token be.
  rcases gap.openComment with _ | o <;> rcases start.rest with _ | ⟨x, r⟩ <;> try rfl
  all_goals
    unfold accept
    dsimp only
    cases (lexeme start x r).error <;> rfl

/-- At a brace that opens a block, skipping ends behind the brace that closes it. -/
theorem IsPlaced.skipBlock_eq {text : String} {l : Lexer} {body rest : List Char}
    (h : l.IsPlaced text) (htext : l.token.start.rest = '\x7b' :: (body ++ '\x7d' :: rest))
    (hbody : Raw.IsBalanced .braces body) :
    let stop : Cursor := ⟨rest, l.token.start.offset + byteLength ('\x7b' :: (body ++ ['\x7d']))⟩
    stop.IsIn text ∧ l.skipBlock = (stop.offset, { l with here := stop }.scan) := by
  intro stop
  obtain ⟨o, hstart⟩ : ∃ o, l.token.start = ⟨'\x7b' :: (body ++ '\x7d' :: rest), o⟩ :=
    ⟨_, by rw [← htext]⟩
  have hread : l.token.start.ReadsTo stop := by
    refine ⟨'\x7b' :: (body ++ ['\x7d']), ?_, rfl⟩
    rw [htext]
    simp [stop]
  have hin : stop.IsIn text :=
    (h.start_isIn (by rw [htext]; exact List.cons_ne_nil _ _)).readsTo hread
  have hskip : Raw.skipBraces l.token.start.next = (stop, true) := by
    have hoffset : stop.offset = o + 1 + byteLength body + 1 := by
      change l.token.start.offset + byteLength ('\x7b' :: (body ++ ['\x7d'])) = _
      rw [hstart, byteLength_cons, byteLength_append, byteLength_cons, byteLength_nil]
      change o + (1 + (byteLength body + (1 + 0))) = _
      omega
    have hnext : l.token.start.next = ⟨body ++ '\x7d' :: rest, o + 1⟩ := by
      rw [hstart]
      rfl
    rw [hnext, Raw.skipBraces_balanced hbody, ← hoffset]
  have hmin : min stop.offset l.size = stop.offset := Nat.min_eq_left (h.size_eq ▸ hin.offset_le)
  refine ⟨hin, ?_⟩
  rw [Lexer.skipBlock, hskip]
  simp only [hmin, if_true]

end Lexer

/-! ## A brace in a name -/

namespace Print

/-- The number of errors in a text that gives a name to a type. -/
def countErrors (type : String) : Nat :=
  (parseFile "/a.ts" ("type X = " ++ type ++ ";")).diagnostics.length

/-- A type literal with a property whose name has a brace in it, and the same type in
parentheses. -/
def bracedName : Arena × NodeId :=
  (parseFile "/a.ts" "type X = \x7b \\u\x7d:ab: T; \x7d;").arena.add
    (.parenthesizedType (some ⟨5⟩)) .none

/-- The four characters behind a backslash and a `u` belong to the name, whatever they are, but to a
reader that skips a block a brace among them closes it. So the text of a type in parentheses cannot
be read, though the text of the type itself can. -/
theorem exists_type_not_readBack :
    ((Lexer.ofText "\\u\x7d:ab").runAll [.scan]).token.kind = .identifier ∧
    ((Lexer.ofText "\\u\x7d:ab").runAll [.scan, .scan]).token.kind = .endOfFile ∧
    typeText bracedName.1 (some ⟨5⟩) = "\x7b \\u\x7d:ab: T; \x7d" ∧
    typeText bracedName.1 (some bracedName.2) = "(\x7b \\u\x7d:ab: T; \x7d)" ∧
    countErrors (typeText bracedName.1 (some ⟨5⟩)) = 0 ∧
    countErrors (typeText bracedName.1 (some bracedName.2)) = 2 := by
  have htype : typeText bracedName.1 (some ⟨5⟩) = "\x7b \\u\x7d:ab: T; \x7d" := by decide +kernel
  have hparentheses : typeText bracedName.1 (some bracedName.2) = "(\x7b \\u\x7d:ab: T; \x7d)" := by
    decide +kernel
  refine ⟨by decide, by decide, htype, hparentheses, ?_, ?_⟩
  · rw [htype, countErrors, length_diagnostics_parseFile]
    decide +kernel
  · rw [hparentheses, countErrors, length_diagnostics_parseFile]
    decide +kernel

end Print

end DeclBundle
