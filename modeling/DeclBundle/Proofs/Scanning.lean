import DeclBundle.Token.Lexer
import DeclBundle.Proofs.Escapes
import Mathlib

/-!
# Every token takes some text

A token is at least one character long, so the lexer moves with each scan until the end of the text
(`Lexer.lt_scan`). There is one exception: a backslash starts a name, and a name that starts with a
backslash and no `u` after it is empty.
-/

set_option autoImplicit false

namespace DeclBundle

open Text

namespace Text.Cursor

/-- At a backslash that no `u` follows. -/
def IsLoneBackslash (c : Cursor) : Prop := c.head? = some '\\' ∧ c.next.head? ≠ some 'u'

instance (c : Cursor) : Decidable c.IsLoneBackslash := inferInstanceAs (Decidable (_ ∧ _))

end Text.Cursor

open Cursor (Reaches ReadsTo readsTo_cons)

/-! ## The gap before a token -/

theorem Gap.readsTo_read (place : Gap.Place) (gap : Gap) (cs : List Char) (o : Nat) :
    ReadsTo ⟨cs, o⟩ (Gap.read place gap cs o).2 := by
  induction cs generalizing place gap o with
  | nil => cases place <;> exact .refl _
  | cons x r ih =>
    cases place with
    | between =>
      simp only [Gap.read]
      split_ifs
      all_goals first | exact (ih _ _ _).cons | exact .refl _
    | lineComment =>
      simp only [Gap.read]
      split_ifs
      all_goals exact (ih _ _ _).cons
    | opening start isDoc => exact (ih _ _ _).cons
    | blockComment start isDoc sawLineFeed =>
      simp only [Gap.read]
      split_ifs
      all_goals exact (ih _ _ _).cons
    | closing start isDoc sawLineFeed => exact (ih _ _ _).cons

theorem Gap.readsTo_skip (c : Cursor) : c.ReadsTo (Gap.skip c).2 := Gap.readsTo_read _ _ _ _

/-! ## Names and numbers -/

namespace Literal

theorem readsTo_identifierEnd (place : NamePlace) (cs : List Char) (o : Nat) :
    ReadsTo ⟨cs, o⟩ (identifierEnd place cs o) := by
  induction cs generalizing place o with
  | nil => cases place <;> exact .refl _
  | cons x r ih =>
    cases place with
    | plain =>
      simp only [identifierEnd]
      split_ifs
      · exact (ih _ _).cons
      · exact (ih _ _).cons
      · exact .refl _
    | escape => exact (ih _ _).cons
    | digits =>
      simp only [identifierEnd]
      split_ifs
      all_goals exact (ih _ _).cons
    | fixed left =>
      simp only [identifierEnd]
      split_ifs
      all_goals exact (ih _ _).cons
    | braced =>
      simp only [identifierEnd]
      split_ifs
      all_goals exact (ih _ _).cons

theorem readsTo_exponentEnd (c : Cursor) : c.ReadsTo (exponentEnd c) := by
  unfold exponentEnd
  split
  · split_ifs
    · split
      · split_ifs
        · exact (c.readsTo_skip 2).trans (Cursor.readsTo_skipWhile _ _)
        · exact c.readsTo_next.trans (Cursor.readsTo_skipWhile _ _)
        · exact .refl c
      · split_ifs
        · exact c.readsTo_next.trans (Cursor.readsTo_skipWhile _ _)
        · exact .refl c
      · exact .refl c
    · exact .refl c
  · exact .refl c

/-- What follows the digits before the point. -/
theorem readsTo_decimalEnd (c : Cursor) :
    (c.skipWhile isDigitOrSeparator).ReadsTo (numberEnd.decimalEnd c) := by
  unfold numberEnd.decimalEnd
  refine ReadsTo.trans ?_ (readsTo_exponentEnd _)
  split_ifs
  · exact (Cursor.readsTo_next _).trans (Cursor.readsTo_skipWhile _ _)
  · exact .refl _

/-- A number that starts with a digit has at least this digit; one that starts with a point has at
least the point. -/
theorem readsTo_numberEnd {x : Char} {r : List Char} {o : Nat} (h : x.isDigit = true ∨ x = '.') :
    ReadsTo ⟨r, o + x.utf8Size⟩ (numberEnd ⟨x :: r, o⟩) := by
  have hdecimal : ReadsTo ⟨r, o + x.utf8Size⟩ (numberEnd.decimalEnd ⟨x :: r, o⟩) := by
    rcases h with h | rfl
    · have hdigits : Cursor.skipWhile isDigitOrSeparator ⟨x :: r, o⟩ =
          Cursor.skipWhile isDigitOrSeparator ⟨r, o + x.utf8Size⟩ := by
        simp [Cursor.skipWhile, Cursor.skipWhile.go, isDigitOrSeparator, h]
      have hread := readsTo_decimalEnd ⟨x :: r, o⟩
      rw [hdigits] at hread
      exact (Cursor.readsTo_skipWhile _ _).trans hread
    · exact (Cursor.readsTo_skipWhile isDigitOrSeparator _).trans (readsTo_exponentEnd _)
  unfold numberEnd
  split
  · split_ifs
    · have htwo : ReadsTo ⟨r, o + x.utf8Size⟩ (Cursor.skip ⟨x :: r, o⟩ 2) :=
        Cursor.readsTo_skip 1 ⟨r, o + x.utf8Size⟩
      exact htwo.trans (Cursor.readsTo_skipWhile _ _)
    · exact hdecimal
  · exact hdecimal

theorem readsTo_operatorEnd (taken : Nat) (previous : Option Char) (cs : List Char) (o : Nat) :
    ReadsTo ⟨cs, o⟩ (operatorEnd taken previous cs o) := by
  induction cs generalizing taken previous o with
  | nil => exact .refl _
  | cons x r ih =>
    simp only [operatorEnd]
    split_ifs
    · exact (ih _ _ _).cons
    · exact .refl _

/-! ## Templates -/

theorem readsTo_readChunk (escaped : Bool) (cs : List Char) (o : Nat) :
    ReadsTo ⟨cs, o⟩ (readChunk escaped cs o).stop := by
  induction cs generalizing escaped o with
  | nil => exact .refl _
  | cons x r ih =>
    simp only [readChunk]
    split_ifs with _ _ hbrace
    · exact (ih _ _).cons
    · exact readsTo_cons x r o
    · simp only [Bool.and_eq_true, beq_iff_eq] at hbrace
      refine ReadsTo.cons ?_
      cases r with
      | nil => cases hbrace.2
      | cons y r' =>
        obtain rfl : y = '{' := Option.some.inj hbrace.2
        exact readsTo_cons '{' r' _
    · exact (ih _ _).cons

end Literal

/-! ## Text that is skipped -/

namespace Raw

theorem readsTo_run (s : State) (cs : List Char) (o : Nat) : ReadsTo ⟨cs, o⟩ (run s cs o).1 := by
  induction cs generalizing s o with
  | nil =>
    unfold run
    split <;> exact .refl _
  | cons x r ih =>
    unfold run
    split
    · exact .refl _
    · exact (ih _ _).cons

theorem readsTo_regexEnd (place : RegexPlace) (cs : List Char) (o : Nat) :
    ReadsTo ⟨cs, o⟩ (regexEnd place cs o) := by
  induction cs generalizing place o with
  | nil => exact .refl _
  | cons x r ih =>
    unfold regexEnd
    split
    · exact (ih _ _).cons
    · exact .refl _

end Raw

namespace Lexer

/-! ## Tokens -/

variable {x : Char} {r : List Char} {o : Nat}

/-- The tokens that start with the character `x` at `c`, when `r` follows. -/
inductive Lexeme.Form (c : Cursor) (x : Char) (r : List Char) : Lexeme → Prop
  | fixed (kind : TokenKind) (n : Nat) (hkind : kind ≠ .endOfFile ∧ kind ≠ .stringLiteral) :
    Form c x r (fixed kind (n + 1) c)
  | operator (h : x = '/' ∨ Literal.isOperatorChar x = true) : Form c x r (operator c)
  | number (h : x.isDigit = true ∨ x = '.') : Form c x r (number c)
  | quoted (h : x = '\x22' ∨ x = '\x27') : Form c x r (quoted x c)
  | template : Form c x r (chunk .wholeTemplate .templateHead c.next)
  | privateName (h : x = '#') :
    Form c x r (written .privateIdentifier c (Literal.identifierEnd .plain r (c.offset + 1)))
  | word (h : isIdentifierStart x = true ∨ x = '\\') : Form c x r (word c)

theorem aloneKind_some {kind : TokenKind} (h : aloneKind x = some kind) :
    Literal.isOperatorChar x = true ∧ kind ≠ .endOfFile ∧ kind ≠ .stringLiteral := by
  unfold aloneKind at h
  split at h <;> cases h <;> exact ⟨rfl, nofun, nofun⟩

/-- Every token has one of these forms. -/
theorem form_lexeme (c : Cursor) (x : Char) (r : List Char) : Lexeme.Form c x r (lexeme c x r) := by
  -- in the order in which the scanner asks what a token begins with
  have hmark (p : Punctuation) (n : Nat) : Lexeme.Form c x r (mark p (n + 1) c) :=
    .fixed _ n ⟨nofun, nofun⟩
  unfold lexeme
  dsimp only
  split
  · exact hmark _ 0
  by_cases hdot : (x == '.') = true
  · rw [if_pos hdot]
    split_ifs
    · exact .number (.inr (beq_iff_eq.1 hdot))
    · exact hmark _ 2
    · exact hmark _ 0
  rw [if_neg hdot]
  by_cases hequals : (x == '=') = true
  · rw [if_pos hequals]
    split_ifs
    · exact hmark _ 1
    · exact .operator (.inr (beq_iff_eq.1 hequals ▸ rfl))
    · exact hmark _ 0
  rw [if_neg hequals]
  by_cases hquestion : (x == '?') = true
  · rw [if_pos hquestion]
    split_ifs
    · exact hmark _ 1
    · exact .operator (.inr (beq_iff_eq.1 hquestion ▸ rfl))
    · exact hmark _ 0
  rw [if_neg hquestion]
  split
  · next kind halone =>
    obtain ⟨hoperator, hkind⟩ := aloneKind_some halone
    split_ifs
    · exact .operator (.inr hoperator)
    · exact .fixed _ 0 hkind
  split_ifs with hslash _ hquote _ hhash _ hdigit hname
  · exact .operator (.inl (beq_iff_eq.1 hslash))
  · exact hmark _ 0
  · exact .quoted (by simpa using hquote)
  · exact .template
  · exact .privateName (beq_iff_eq.1 hhash)
  · exact hmark _ 0
  · exact .number (.inl hdigit)
  · exact .word (by simpa using hname)
  · exact .fixed _ 0 ⟨nofun, nofun⟩

theorem kind_chunk (whole part : TokenKind) (c : Cursor) :
    (chunk whole part c).kind = whole ∨ (chunk whole part c).kind = part := by
  unfold chunk
  dsimp only
  split
  · exact .inl rfl
  · exact .inr rfl
  · exact .inl rfl

theorem readsTo_chunk (whole part : TokenKind) (c : Cursor) :
    c.ReadsTo (chunk whole part c).stop := by
  have h := Literal.readsTo_readChunk false c.rest c.offset
  unfold chunk
  dsimp only
  split <;> exact h

theorem kind_word (c : Cursor) : (word c).kind = .identifier ∨ ∃ k, (word c).kind = .keyword k := by
  unfold word
  dsimp only
  split
  · exact .inr ⟨_, rfl⟩
  · exact .inl rfl

/-- No token is the end of the text, and strings start with a quote. -/
theorem kind_lexeme (c : Cursor) (x : Char) (r : List Char) :
    (lexeme c x r).kind ≠ .endOfFile ∧
      ((lexeme c x r).kind = .stringLiteral → (x = '\x22' ∨ x = '\x27') ∧
        lexeme c x r = quoted x c) := by
  have hform := form_lexeme c x r
  generalize lexeme c x r = found at hform
  cases hform with
  | fixed _ _ hkind => exact ⟨hkind.1, fun h => absurd h hkind.2⟩
  | quoted hquote => exact ⟨nofun, fun _ => ⟨hquote, rfl⟩⟩
  | operator | privateName => exact ⟨nofun, nofun⟩
  | number =>
    unfold number
    dsimp only
    split_ifs <;> exact ⟨nofun, nofun⟩
  | template =>
    rcases kind_chunk .wholeTemplate .templateHead c.next with h | h <;> rw [h] <;>
      exact ⟨nofun, nofun⟩
  | word => rcases kind_word c with h | ⟨k, h⟩ <;> rw [h] <;> exact ⟨nofun, nofun⟩

/-- Every token reads its first character and goes on from there, except for an empty name, and for
a string that may count one byte too many. -/
theorem readsTo_lexeme_tail (hlone : ¬(Cursor.mk (x :: r) o).IsLoneBackslash) :
    ReadsTo ⟨r, o + x.utf8Size⟩ (lexeme ⟨x :: r, o⟩ x r).stop ∨
      (x = '\x22' ∨ x = '\x27') ∧ lexeme ⟨x :: r, o⟩ x r = quoted x ⟨x :: r, o⟩ := by
  have hform := form_lexeme ⟨x :: r, o⟩ x r
  generalize lexeme ⟨x :: r, o⟩ x r = found at hform
  cases hform with
  | fixed kind n => exact .inl (Cursor.readsTo_skip n ⟨r, o + x.utf8Size⟩)
  | operator h =>
    refine .inl ?_
    simp only [operator, written]
    split
    · next heq =>
      cases heq
      exact Literal.readsTo_operatorEnd _ _ _ _
    · next hslash =>
      have hx : Literal.isOperatorChar x = true := h.resolve_left fun h => hslash r (h ▸ rfl)
      simp only [Literal.operatorEnd, hx, Bool.true_and]
      exact Literal.readsTo_operatorEnd _ _ _ _
  | number h =>
    have hend := Literal.readsTo_numberEnd (r := r) (o := o) h
    refine .inl ?_
    unfold number
    dsimp only
    split_ifs
    · exact hend.trans (Cursor.readsTo_next _)
    · exact hend
  | quoted h => exact .inr ⟨h, rfl⟩
  | template => exact .inl (readsTo_chunk _ _ _)
  | privateName h =>
    subst h
    exact .inl (Literal.readsTo_identifierEnd .plain r (o + '#'.utf8Size))
  | word h =>
    refine .inl ?_
    change ReadsTo _ (Literal.identifierEnd .plain (x :: r) o)
    -- a word reads at least one character, unless it is a lone backslash
    simp only [Literal.identifierEnd]
    split_ifs with hpart hescape
    · exact Literal.readsTo_identifierEnd _ _ _
    · exact Literal.readsTo_identifierEnd _ _ _
    · rcases h with h | rfl
      · exact absurd (isIdentifierPart_of_start h) hpart
      · refine absurd ⟨rfl, fun hu => hescape ?_⟩ hlone
        simpa [Cursor.next, Cursor.head?] using hu

/-- A token ends in the text, also an empty name; a string may end one byte beyond it. -/
theorem readsTo_lexeme (x : Char) (r : List Char) (o : Nat) :
    ReadsTo ⟨x :: r, o⟩ (lexeme ⟨x :: r, o⟩ x r).stop ∨
      (x = '\x22' ∨ x = '\x27') ∧ lexeme ⟨x :: r, o⟩ x r = quoted x ⟨x :: r, o⟩ := by
  by_cases hlone : (Cursor.mk (x :: r) o).IsLoneBackslash
  · obtain rfl : x = '\\' := Option.some.inj hlone.1
    exact .inl (Literal.readsTo_identifierEnd _ _ _)
  · exact (readsTo_lexeme_tail hlone).imp_left ReadsTo.cons

theorem reaches_quoted (h : x = '\x22' ∨ x = '\x27') :
    Reaches ⟨r, o + x.utf8Size⟩ (quoted x ⟨x :: r, o⟩).stop :=
  Literal.reaches_readQuoted (by rcases h with rfl | rfl <;> decide) _ _ _

theorem reaches_lexeme (x : Char) (r : List Char) (o : Nat) :
    Reaches ⟨x :: r, o⟩ (lexeme ⟨x :: r, o⟩ x r).stop := by
  rcases readsTo_lexeme x r o with h | ⟨hquote, h⟩
  · exact h.reaches
  · rw [h]
    exact (readsTo_cons x r o).reaches.trans (reaches_quoted hquote)

/-- Every token takes its first character, except for an empty name. -/
theorem lexeme_lt (hlone : ¬(Cursor.mk (x :: r) o).IsLoneBackslash) :
    (lexeme ⟨x :: r, o⟩ x r).stop.rest.length < (x :: r).length := by
  rcases readsTo_lexeme_tail hlone with h | ⟨hquote, h⟩
  · exact h.reaches.lt_cons
  · rw [h]
    exact (reaches_quoted hquote).lt_cons

/-! ## Scanning -/

variable (l : Lexer)

/-- What holds of every current token: it is the end of the text just when nothing remains, and it
takes some text otherwise, unless it is an empty name. -/
structure IsSound : Prop where
  eof_iff : l.token.kind = .endOfFile ↔ l.token.start.rest = []
  reaches : l.token.start.Reaches l.here
  lt : l.token.kind ≠ .endOfFile → ¬l.token.start.IsLoneBackslash →
    l.here.rest.length < l.token.start.rest.length

variable {l}

theorem token_start_accept (start : Cursor) (found : Lexeme) :
    (l.accept start found).token.start = start := by
  unfold accept
  dsimp only
  split <;> rfl

theorem token_kind_accept (start : Cursor) (found : Lexeme) :
    (l.accept start found).token.kind = found.kind := by
  unfold accept
  dsimp only
  split <;> rfl

theorem here_accept (start : Cursor) (found : Lexeme) :
    (l.accept start found).here = found.stop := by
  unfold accept
  dsimp only
  split <;> rfl

theorem isSound_accept {start : Cursor} {found : Lexeme} (hrest : start.rest ≠ [])
    (hkind : found.kind ≠ .endOfFile) (hreaches : start.Reaches found.stop)
    (hlt : ¬start.IsLoneBackslash → found.stop.rest.length < start.rest.length) :
    (l.accept start found).IsSound where
  eof_iff := by
    rw [token_start_accept, token_kind_accept]
    exact iff_of_false hkind hrest
  reaches := by
    rw [token_start_accept, here_accept]
    exact hreaches
  lt _ := by
    rw [token_start_accept, here_accept]
    exact hlt

/-- The lexer at the start of the token after the current one, with nothing read of it. -/
def atNext (l : Lexer) : Lexer :=
  let (gap, start) := Gap.skip l.here
  let l := match gap.openComment with
    | some o => l.report ⟨o, start.offset⟩ .unterminatedComment
    | none => l
  { l with token := ⟨.endOfFile, start, "", gap.lineBreak, gap.doc⟩, here := start }

theorem scan_eq (l : Lexer) :
    l.scan = match (Gap.skip l.here).2.rest with
      | [] => l.atNext
      | x :: r => l.atNext.accept (Gap.skip l.here).2 (lexeme (Gap.skip l.here).2 x r) := rfl

theorem scan_of_nil {l : Lexer} (h : (Gap.skip l.here).2.rest = []) : l.scan = l.atNext := by
  rw [scan_eq, h]

theorem scan_of_cons {l : Lexer} (h : (Gap.skip l.here).2 = ⟨x :: r, o⟩) :
    l.scan = l.atNext.accept ⟨x :: r, o⟩ (lexeme ⟨x :: r, o⟩ x r) := by rw [scan_eq, h]

theorem token_start_scan (l : Lexer) : l.scan.token.start = (Gap.skip l.here).2 := by
  rw [scan_eq]
  split
  · rfl
  · exact token_start_accept _ _

theorem isSound_scan (l : Lexer) : l.scan.IsSound := by
  rw [scan_eq]
  generalize hstart : (Gap.skip l.here).2 = start
  have hat : l.atNext.token.start = start ∧ l.atNext.token.kind = .endOfFile ∧
      l.atNext.here = start :=
    ⟨hstart, rfl, hstart⟩
  obtain ⟨rest, o⟩ := start
  cases rest with
  | nil =>
    exact {
      eof_iff := by simp [hat]
      reaches := by
        rw [hat.1, hat.2.2]
        exact .refl _
      lt := fun h => absurd hat.2.1 h }
  | cons x r =>
    exact isSound_accept (List.cons_ne_nil _ _) (kind_lexeme _ x r).1
      (reaches_lexeme x r o) lexeme_lt

theorem reaches_scan (l : Lexer) : l.here.Reaches l.scan.token.start := by
  rw [token_start_scan]
  exact (Gap.readsTo_skip _).reaches

/-- A scan that does not find the end of the text moves the lexer, unless it stands before a
backslash without a `u`. -/
theorem lt_scan (l : Lexer) (hkind : l.scan.token.kind ≠ .endOfFile)
    (hlone : ¬(Gap.skip l.here).2.IsLoneBackslash) :
    l.here.offset < l.scan.here.offset := by
  rw [← token_start_scan] at hlone
  have hsound := isSound_scan l
  refine ((reaches_scan l).trans hsound.reaches).offset_lt ?_
  exact Nat.lt_of_lt_of_le (hsound.lt hkind hlone) (reaches_scan l).1

/-! ## Reading on from the current token -/

theorem IsSound.next_lt (h : l.IsSound) (hkind : l.token.kind ≠ .endOfFile) :
    l.token.start.next.rest.length < l.token.start.rest.length := by
  have hrest := (not_congr h.eof_iff).1 hkind
  generalize l.token.start = start at hrest
  obtain ⟨_ | ⟨x, r⟩, o⟩ := start
  · exact absurd rfl hrest
  · exact Nat.lt_succ_self _

/-- Reading the current token again keeps it sound when the new token goes on after the first
character. -/
theorem IsSound.accept (h : l.IsSound) (hkind : l.token.kind ≠ .endOfFile) {found : Lexeme}
    (hfound : found.kind ≠ .endOfFile) (hreaches : l.token.start.next.Reaches found.stop) :
    (l.accept l.token.start found).IsSound :=
  isSound_accept ((not_congr h.eof_iff).1 hkind) hfound
      ((Cursor.reaches_next _).trans hreaches) fun _ =>
    Nat.lt_of_le_of_lt hreaches.1 (h.next_lt hkind)

theorem IsSound.rescanTemplate (h : l.IsSound) (hkind : l.token.kind ≠ .endOfFile) :
    l.rescanTemplate.IsSound := by
  refine h.accept hkind ?_ (readsTo_chunk _ _ _).reaches
  rcases kind_chunk .templateTail .templateMiddle l.token.start.next with h | h <;> rw [h] <;> nofun

theorem IsSound.rescanRegex (h : l.IsSound) (hkind : l.token.kind ≠ .endOfFile) :
    l.rescanRegex.IsSound := by
  have hreaches : l.token.start.next.Reaches (Raw.skipRegex l.token.start.next) :=
    (Raw.readsTo_regexEnd _ _ _).reaches
  change (l.accept l.token.start (written .regularExpression l.token.start _)).IsSound
  exact h.accept hkind TokenKind.noConfusion hreaches

theorem IsSound.skipTemplate (h : l.IsSound) : l.skipTemplate.IsSound := by
  unfold Lexer.skipTemplate
  split
  · next hkind =>
    have hne : l.token.kind ≠ .endOfFile := hkind ▸ nofun
    have hreaches : l.here.Reaches (Raw.skipSubstitutions l.here) := (Raw.readsTo_run _ _ _).reaches
    refine isSound_accept ((not_congr h.eof_iff).1 hne) nofun
      (h.reaches.trans hreaches) fun hlone => ?_
    exact Nat.lt_of_le_of_lt hreaches.1 (h.lt hne hlone)
  · exact h

theorem token_start_skipTemplate (l : Lexer) : l.skipTemplate.token.start = l.token.start := by
  unfold skipTemplate
  split
  · exact token_start_accept _ _
  · rfl

theorem isSound_skipBlock (l : Lexer) : l.skipBlock.2.IsSound := isSound_scan _

/-- What is left after a block that the current token opens is left after this token. -/
theorem skipBlock_le (l : Lexer) :
    l.skipBlock.2.token.start.rest.length ≤ l.token.start.next.rest.length := by
  refine (reaches_scan _).1.trans ?_
  refine Nat.le_trans (Nat.le_of_eq ?_)
    (Raw.readsTo_run { frames := [.braces] } l.token.start.next.rest
    l.token.start.next.offset).reaches.1
  split <;> rfl

end Lexer

end DeclBundle
