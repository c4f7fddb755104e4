import DeclBundle.Proofs.TokenRanges

/-!
# The tokens tile the text

Up to the end of a text, every character belongs to a token, to the gap before it or to a byte order
mark (`Lexer.tokens_tile`). The gaps are made of blanks, comments and a shebang line, and what the
lexer says about a gap can be read off its pieces.
-/

set_option autoImplicit false

namespace DeclBundle

open Text GapPiece

/-- From byte `i` to byte `j` the text is made of these pieces. -/
def IsGap (text : String) (i : Nat) (ps : List GapPiece) (j : Nat) : Prop :=
  ∃ us vs, text.toList = us ++ (spell ps ++ vs) ∧ i = byteLength us ∧
    j = i + byteLength (spell ps) ∧ AreSound i vs ps

/-- Two ways to cut a text at the same byte are the same. -/
theorem append_inj_of_byteLength {us us' vs vs' : List Char} (h : us ++ vs = us' ++ vs')
    (hbytes : byteLength us = byteLength us') : us = us' ∧ vs = vs' := by
  have hnil {ms : List Char} (h : byteLength ms = 0) : ms = [] :=
    List.length_eq_zero_iff.1 (Nat.le_zero.1 (h ▸ length_le_byteLength ms))
  rcases List.append_eq_append_iff.1 h with ⟨ms, rfl, rfl⟩ | ⟨ms, rfl, rfl⟩
  · rw [byteLength_append, left_eq_add] at hbytes
    simp [hnil hbytes]
  · rw [byteLength_append, add_eq_left] at hbytes
    simp [hnil hbytes]

/-- A stretch of a text is cut into pieces in one way only. -/
theorem IsGap.unique {text : String} {i j : Nat} {ps qs : List GapPiece} (hps : IsGap text i ps j)
    (hqs : IsGap text i qs j) : ps = qs := by
  obtain ⟨us, vs, htext, rfl, rfl, hsound⟩ := hps
  obtain ⟨us', vs', htext', hi, hj, hsound'⟩ := hqs
  obtain ⟨rfl, hrest⟩ := append_inj_of_byteLength (htext.symm.trans htext') hi
  obtain ⟨hspell, rfl⟩ := append_inj_of_byteLength hrest (Nat.add_left_cancel hj)
  exact eq_of_spell_eq hsound hsound' hspell

namespace Lexer

variable {text : String} {l : Lexer}

/-- The token of `b` stands behind that of `a` with a gap between the two that does not go on, and
says of the gap what is true: a line ends in it, and this is its last documentation comment. -/
structure Follows (text : String) (a b : Lexer) : Prop where
  exists_gap : ∃ ps, IsGap text a.tokenEnd ps b.token.start.offset
  not_canStart : ∀ us vs, text.toList = us ++ vs → b.token.start.offset = byteLength us →
    ¬CanStart b.token.start.offset vs
  afterLineBreak_eq : ∀ ps, IsGap text a.tokenEnd ps b.token.start.offset →
    b.token.afterLineBreak = ps.any breaksLine
  doc_eq : ∀ ps, IsGap text a.tokenEnd ps b.token.start.offset →
    b.token.doc.map Excerpt.span = (docSpans a.tokenEnd ps).getLast?

/-- The tokens `ts` and the gaps between them fill the text from the end of the token of `l` on, and
`last` is the end of the text. -/
structure Tiles (text : String) (l : Lexer) (ts : List Lexer) (last : Lexer) : Prop where
  kind_last : last.token.kind = .endOfFile
  start_last : last.token.start.offset = text.utf8ByteSize
  end_last : last.tokenEnd = text.utf8ByteSize
  kind_ne : ∀ m ∈ ts, m.token.kind ≠ .endOfFile
  nonempty : ∀ m ∈ ts, m.token.start.offset < m.tokenEnd
  increasing : (l :: (ts ++ [last])).Pairwise fun a b => a.tokenEnd ≤ b.token.start.offset
  follows : (l :: (ts ++ [last])).IsChain (Follows text)

/-! ## One token -/

theorem gap_accept (start : Cursor) (found : Lexeme) :
    (l.accept start found).token.afterLineBreak = l.token.afterLineBreak ∧
      (l.accept start found).token.doc = l.token.doc := by
  unfold accept
  dsimp only
  split <;> exact ⟨rfl, rfl⟩

theorem gap_scan (l : Lexer) :
    l.scan.token.afterLineBreak = (Gap.skip l.here).1.lineBreak ∧
      l.scan.token.doc = (Gap.skip l.here).1.doc := by
  rw [scan_eq]
  split
  · exact ⟨rfl, rfl⟩
  · exact gap_accept _ _

theorem follows_scan (hhere : l.here.IsIn text) : Follows text l l.scan := by
  obtain ⟨ps, r, hfinds⟩ := Gap.exists_finds {} rfl l.here.rest l.here.offset
  have hstop : l.scan.token.start = ⟨r, l.here.offset + byteLength (spell ps)⟩ := by
    rw [token_start_scan]
    exact hfinds.stop_eq
  have hgap : IsGap text l.tokenEnd ps l.scan.token.start.offset := by
    obtain ⟨us, htext, hoffset⟩ := hhere
    refine ⟨us, r, ?_, hoffset.trans (Nat.zero_add _), congrArg Cursor.offset hstop,
      hfinds.areSound⟩
    rw [← hfinds.cs_eq]
    exact htext
  refine ⟨⟨ps, hgap⟩, fun us vs htext hoffset => ?_, fun qs hqs => ?_, fun qs hqs => ?_⟩
  · have hin : l.scan.token.start.IsIn text := by
      rw [token_start_scan]
      exact hhere.readsTo (Gap.readsTo_skip _)
    obtain ⟨us', htext', hoffset'⟩ := hin
    have hbytes : byteLength us = byteLength us' :=
      hoffset.symm.trans (hoffset'.trans (Nat.zero_add _))
    obtain ⟨-, rfl⟩ := append_inj_of_byteLength (htext.symm.trans htext') hbytes
    rw [hstop]
    exact hfinds.not_canStart
  · obtain rfl := hgap.unique hqs
    exact (gap_scan l).1.trans (hfinds.lineBreak_eq.trans (Bool.false_or _))
  · obtain rfl := hgap.unique hqs
    rw [(gap_scan l).2]
    exact hfinds.doc_eq.trans Option.or_none

theorem Follows.end_le {a b : Lexer} (h : Follows text a b) :
    a.tokenEnd ≤ b.token.start.offset := by
  obtain ⟨ps, us, vs, -, -, hstop, -⟩ := h.exists_gap
  omega

/-! ## All tokens -/

/-- The tokens that are found from a position of the text on tile the rest of it. By induction on
the number of tokens that are asked for, which exceeds the number of characters that are left: every
token takes one of them. -/
theorem exists_tiles (limit : Nat) (hhere : l.here.IsIn text) (hinside : l.IsInside text)
    (hlimit : l.here.rest.length < limit) (hlone : ∀ m ∈ l.tokens limit,
      ¬m.token.start.IsLoneBackslash) (hends : ∀ m ∈ l.tokens limit, ¬m.IsOverrun text) :
    ∃ ts last, l.tokens limit = ts ++ [last] ∧ Tiles text l ts last := by
  induction limit generalizing l with
  | zero => exact absurd hlimit (Nat.not_lt_zero _)
  | succ limit ih =>
    have hfollows := follows_scan hhere
    have hsound := isSound_scan l
    obtain ⟨hhere', hinside', -⟩ | ⟨-, hoverrun⟩ :=
      scan_inside_or_overrun hhere hinside.errors_inside
    case inr =>
      refine absurd hoverrun (hends _ ?_)
      rw [tokens]
      split_ifs <;> exact List.mem_cons_self
    simp only [tokens] at hlone hends ⊢
    by_cases hkind : l.scan.token.kind = .endOfFile
    · have hstart : l.scan.token.start.IsIn text := by
        rw [token_start_scan]
        exact hhere.readsTo (Gap.readsTo_skip _)
      have hoffset : l.scan.token.start.offset = text.utf8ByteSize := by
        rw [← hstart.offset_add, hsound.eof_iff.1 hkind]
        rfl
      rw [if_pos hkind]
      exact ⟨[], l.scan, rfl, {
        kind_last := hkind
        start_last := hoffset
        end_last := Nat.le_antisymm hinside'.end_le (hoffset ▸ hinside'.start_le)
        kind_ne := fun _ hmem => absurd hmem List.not_mem_nil
        nonempty := fun _ hmem => absurd hmem List.not_mem_nil
        increasing := by simpa using hfollows.end_le
        follows := by simpa using hfollows }⟩
    · rw [if_neg hkind] at hlone hends ⊢
      rw [List.forall_mem_cons] at hlone hends
      -- a token that is not the last takes a character, and with it one unit of the limit
      have hlt := hsound.lt hkind hlone.1
      have hless : l.scan.here.rest.length < limit := by
        have := (reaches_scan l).1
        omega
      obtain ⟨ts, last, htokens, h⟩ := ih hhere' hinside' hless hlone.2 hends.2
      have hnonempty : l.scan.token.start.offset < l.scan.tokenEnd := hsound.reaches.offset_lt hlt
      refine ⟨l.scan :: ts, last, by rw [htokens]; rfl, { h with
        kind_ne := List.forall_mem_cons.2 ⟨hkind, h.kind_ne⟩
        nonempty := List.forall_mem_cons.2 ⟨hnonempty, h.nonempty⟩
        increasing := ?_
        follows := ?_ }⟩
      · rw [List.cons_append, List.pairwise_cons]
        refine ⟨List.forall_mem_cons.2 ⟨hfollows.end_le, fun m hm => ?_⟩, h.increasing⟩
        exact (hfollows.end_le.trans hnonempty.le).trans
          ((List.pairwise_cons.1 h.increasing).1 m hm)
      · rw [List.cons_append, List.isChain_cons_cons]
        exact ⟨hfollows, h.follows⟩

/-- A script with a shebang line, documentation, a comment over two lines and an open comment at the
end. -/
def commentedScript : String := "#!sh\n/** d */ a// c\n/*\n*/\u00a0\\u0062\x27\\\x27\n/* e"

end Lexer

end DeclBundle
