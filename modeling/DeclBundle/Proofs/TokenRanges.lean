import DeclBundle.Proofs.Gaps
import DeclBundle.Proofs.Scanning

/-!
# Where tokens stand in the text

Every scan leaves the lexer at a position of the text, with the token and the errors inside of it
(`Lexer.IsInside`). There is one exception: a string that ends with the text in an odd number of
backslashes counts one byte too many, and so does all that follows (`Lexer.scans_inside_iff`).
-/

set_option autoImplicit false

namespace DeclBundle

open Text

namespace Text.Cursor

variable {text : String} {c d : Cursor}

/-- The position is one of the text. -/
def IsIn (text : String) (c : Cursor) : Prop := ReadsTo (.atStart text.toList) c

theorem IsIn.readsTo (h : c.IsIn text) (h' : c.ReadsTo d) : d.IsIn text := h.trans h'

theorem IsIn.offset_add (h : c.IsIn text) : c.offset + byteLength c.rest = text.utf8ByteSize := by
  obtain ⟨us, hrest, hoffset⟩ := h
  have htext : byteLength text.toList = byteLength us + byteLength c.rest := by
    rw [← byteLength_append, ← hrest]
    rfl
  rw [← byteLength_toList, htext, hoffset, atStart, Nat.zero_add]

theorem IsIn.offset_le (h : c.IsIn text) : c.offset ≤ text.utf8ByteSize :=
  h.offset_add ▸ Nat.le_add_right _ _

/-- A position of the text lies between two characters. -/
theorem IsIn.isValid (h : c.IsIn text) : (String.Pos.Raw.mk c.offset).IsValid text := by
  obtain ⟨us, hrest, hoffset⟩ := h
  rw [String.Pos.Raw.isValid_iff_exists_append]
  refine ⟨String.ofList us, String.ofList c.rest, ?_, ?_⟩
  · rw [← String.ofList_append, ← hrest]
    exact String.ofList_toList.symm
  · rw [hoffset, ← Text.utf8ByteSize_ofList]
    simp [atStart, String.rawEndPos]

theorem ReadsTo.offset_le (h : c.ReadsTo d) : c.offset ≤ d.offset := by
  obtain ⟨us, -, hoffset⟩ := h
  omega

end Text.Cursor

/-- The range lies inside the text. -/
structure Text.Span.IsIn (text : String) (s : Span) : Prop where
  start_le : s.start ≤ s.stop
  stop_le : s.stop ≤ text.utf8ByteSize

open Cursor (ReadsTo)

namespace Lexer

variable {text : String} {l : Lexer}

/-- The token and the errors lie inside the text, and the token between two pairs of characters. -/
structure IsInside (text : String) (l : Lexer) : Prop where
  start_le : l.token.start.offset ≤ l.tokenEnd
  end_le : l.tokenEnd ≤ text.utf8ByteSize
  start_valid : (String.Pos.Raw.mk l.token.start.offset).IsValid text
  end_valid : (String.Pos.Raw.mk l.tokenEnd).IsValid text
  errors_inside : ∀ e ∈ l.errors, e.span.IsIn text

/-- The token is a string that ends with the text in an odd number of backslashes: the last one
escapes nothing. -/
def IsOverrun (text : String) (l : Lexer) : Prop :=
  l.token.kind = .stringLiteral ∧ l.here.rest = [] ∧ Odd (text.toList.rtakeWhile (· == '\\')).length

theorem here_ofText (text : String) : (ofText text).here.IsIn text := by
  unfold ofText
  dsimp only
  split
  · next r htext =>
    refine ⟨['\ufeff'], htext, ?_⟩
    rfl
  · exact .refl _

theorem isInside_of_isIn (hstart : l.token.start.IsIn text) (hread : l.token.start.ReadsTo l.here)
    (herrors : ∀ e ∈ l.errors, e.span.IsIn text) : l.IsInside text where
  start_le := hread.offset_le
  end_le := (hstart.readsTo hread).offset_le
  start_valid := hstart.isValid
  end_valid := (hstart.readsTo hread).isValid
  errors_inside := herrors

theorem isInside_ofText (text : String) : (ofText text).IsInside text :=
  isInside_of_isIn (here_ofText text) (.refl _) nofun

/-! ## One scan -/

/-- The errors that are found before a token. -/
theorem errors_atNext (hhere : l.here.IsIn text)
    (herrors : ∀ e ∈ l.errors, e.span.IsIn text) :
    ∀ e ∈ l.atNext.errors, e.span.IsIn text := by
  obtain ⟨ps, r, hfinds⟩ := Gap.exists_finds {} rfl l.here.rest l.here.offset
  have hstart := hhere.readsTo (Gap.readsTo_skip l.here)
  have hopen : ∀ start ∈ (Gap.skip l.here).1.openComment, start ≤ (Gap.skip l.here).2.offset := by
    have hstop : (Gap.skip l.here).2.offset = l.here.offset + byteLength (GapPiece.spell ps) :=
      congrArg Cursor.offset hfinds.stop_eq
    rw [hstop]
    exact hfinds.openComment_le
  unfold atNext
  dsimp only
  split
  · next o ho => exact List.forall_mem_cons.2 ⟨⟨hopen o ho, hstart.offset_le⟩, herrors⟩
  · exact herrors

theorem errors_accept {start : Cursor} {found : Lexeme} (hstop : found.stop.IsIn text)
    (hread : start.ReadsTo found.stop) (herrors : ∀ e ∈ l.errors, e.span.IsIn text) :
    ∀ e ∈ (l.accept start found).errors, e.span.IsIn text := by
  unfold accept
  dsimp only
  split
  · exact List.forall_mem_cons.2 ⟨⟨hread.offset_le, hstop.offset_le⟩, herrors⟩
  · exact herrors

/-- A token that starts at a position of the text ends in the text, or it is a string and ends one
byte beyond it. -/
theorem stop_lexeme {x : Char} {r : List Char} {o : Nat} (hin : (Cursor.mk (x :: r) o).IsIn text) :
    let found := lexeme ⟨x :: r, o⟩ x r
    let isOverrun := found.kind = .stringLiteral ∧ found.stop.rest = [] ∧
      Odd (text.toList.rtakeWhile (· == '\\')).length
    ReadsTo ⟨x :: r, o⟩ found.stop ∧ ¬isOverrun ∨ found.stop = ⟨[], text.utf8ByteSize + 1⟩ ∧
        isOverrun := by
  dsimp only
  by_cases hkind : (lexeme ⟨x :: r, o⟩ x r).kind = .stringLiteral
  · -- How the text ends is how the string ends, since the quote in front of it is no backslash.
    obtain ⟨hx, hquoted⟩ := (kind_lexeme ⟨x :: r, o⟩ x r).2 hkind
    have hne : x ≠ '\\' := by rcases hx with rfl | rfl <;> decide
    have hparity : Literal.endsEscaping false r = true ↔
        Odd (text.toList.rtakeWhile (· == '\\')).length := by
      obtain ⟨us, htext, -⟩ := hin
      rw [← Literal.endsEscaping_iff, show text.toList = us ++ x :: r from htext,
        Literal.endsEscaping_append_cons hne]
    have hsize : o + x.utf8Size + byteLength r = text.utf8ByteSize := by
      rw [← hin.offset_add, byteLength_cons, Nat.add_assoc]
    rw [hquoted, ← hparity]
    rcases Literal.readQuoted_stop hne .plain [] r (o + x.utf8Size) trivial with ⟨hread,
      hend⟩ | ⟨hstop, hodd⟩
    · refine .inl ⟨hread.cons, fun ⟨_, hnil, hodd⟩ => ?_⟩
      rw [show Literal.endsEscaping false r = false from hend hnil] at hodd
      cases hodd
    · rw [hsize] at hstop
      exact .inr ⟨hstop, rfl, congrArg Cursor.rest hstop, hodd⟩
  · refine .inl ⟨(readsTo_lexeme x r o).resolve_right fun h => hkind ?_, fun h => hkind h.1⟩
    rw [h.2]
    rfl

/-- A scan stays inside the text, or it finds a string that counts one byte too many. -/
theorem scan_inside_or_overrun (hhere : l.here.IsIn text)
    (herrors : ∀ e ∈ l.errors, e.span.IsIn text) :
    l.scan.here.IsIn text ∧ l.scan.IsInside text ∧ ¬l.scan.IsOverrun text ∨
      l.scan.here = ⟨[], text.utf8ByteSize + 1⟩ ∧ l.scan.IsOverrun text := by
  have hstart := hhere.readsTo (Gap.readsTo_skip l.here)
  have herrors' := errors_atNext hhere herrors
  obtain ⟨start, hskip⟩ : ∃ start, (Gap.skip l.here).2 = start := ⟨_, rfl⟩
  obtain ⟨_ | ⟨x, r⟩, o⟩ := start
  · have hat : l.atNext.token.start = l.atNext.here := rfl
    rw [scan_of_nil (congrArg Cursor.rest hskip)]
    exact .inl ⟨hstart, isInside_of_isIn hstart (hat ▸ .refl _) herrors', nofun⟩
  · rw [hskip] at hstart
    rw [scan_of_cons hskip]
    unfold IsOverrun
    rw [here_accept, token_kind_accept]
    refine (stop_lexeme hstart).imp_left fun ⟨hread, hno⟩ => ?_
    have hin := hstart.readsTo hread
    refine ⟨hin, isInside_of_isIn ?_ ?_ (errors_accept hin hread herrors'), hno⟩
    · rwa [token_start_accept]
    · rwa [token_start_accept, here_accept]

/-! ## Any number of scans -/

/-- At the end of the text, or beyond it, there is nothing to find. -/
theorem scan_of_here_nil {o : Nat} (h : l.here = ⟨[], o⟩) : l.scan.here = ⟨[], o⟩ := by
  have hskip : Gap.skip l.here = ({}, ⟨[], o⟩) := by rw [h]; rfl
  rw [scan_of_nil (congrArg (fun found => found.2.rest) hskip)]
  exact congrArg Prod.snd hskip

/-- As long as no string counts one byte too many the lexer stays inside the text, and it never
comes back. By induction on the scans: what one of them keeps is that the lexer stands at a position
of the text. -/
theorem scans_inside_or_overrun (text : String) (n : Nat) :
    (scan^[n] (ofText text)).here.IsIn text ∧ (scan^[n] (ofText text)).IsInside text ∧
        (∀ m ≤ n, ¬(scan^[m] (ofText text)).IsOverrun text) ∨
      (scan^[n] (ofText text)).here = ⟨[], text.utf8ByteSize + 1⟩ ∧
        ∃ m ≤ n, (scan^[m] (ofText text)).IsOverrun text := by
  induction n with
  | zero =>
    refine .inl ⟨here_ofText text, isInside_ofText text, fun m hm => ?_⟩
    obtain rfl := Nat.le_zero.1 hm
    exact nofun
  | succ n ih =>
    rcases ih with ⟨hhere, hinside, hno⟩ | ⟨hhere, m, hm, hoverrun⟩
    · rcases scan_inside_or_overrun hhere hinside.errors_inside with ⟨hhere', hinside',
        hno'⟩ | ⟨hhere', hoverrun⟩
      · rw [← Function.iterate_succ_apply' scan n] at hhere' hinside' hno'
        refine .inl ⟨hhere', hinside', fun m hm => ?_⟩
        rcases Nat.le_succ_iff.1 hm with hm | rfl
        · exact hno m hm
        · exact hno'
      · rw [← Function.iterate_succ_apply' scan n] at hhere' hoverrun
        exact .inr ⟨hhere', n + 1, Nat.le_refl _, hoverrun⟩
    · -- Beyond the end nothing is left, so the lexer stays there.
      refine .inr ⟨?_, m, Nat.le_succ_of_le hm, hoverrun⟩
      rw [Function.iterate_succ_apply']
      exact scan_of_here_nil hhere

/-- After any number of scans the token and the errors lie inside the text, and the token between
characters, just when no string so far ends with the text in an odd number of backslashes. -/
theorem scans_inside_iff (text : String) (n : Nat) :
    (scan^[n] (ofText text)).IsInside text ↔ ∀ m ≤ n, ¬(scan^[m] (ofText text)).IsOverrun text := by
  rcases scans_inside_or_overrun text n with ⟨-, hinside, hno⟩ | ⟨hhere, m, hm, hoverrun⟩
  · exact iff_of_true hinside hno
  · refine iff_of_false (fun hinside => ?_) fun hno => hno m hm hoverrun
    have hend := hinside.end_le
    rw [tokenEnd, hhere] at hend
    exact Nat.not_succ_le_self _ hend

/-- A quote and a backslash: the token ends at byte 3 of 2, and so does its error. No backslash is
lone here: the only token starts with the quote. -/
theorem exists_token_beyond_end :
    (∀ l ∈ (ofText "\x22\\").tokens 3, ¬l.token.start.IsLoneBackslash) ∧
      "\x22\\".utf8ByteSize = 2 ∧ (ofText "\x22\\").scan.tokenEnd = 3 ∧
      (ofText "\x22\\").scan.errors.map (·.span) = [⟨0, 3⟩] ∧
        ¬(ofText "\x22\\").scan.IsInside "\x22\\" := by
  refine ⟨by decide, by decide, by decide, by decide, fun h => ?_⟩
  exact absurd h.end_le (by decide)

end Lexer

end DeclBundle
