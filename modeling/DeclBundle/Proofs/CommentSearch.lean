import DeclBundle.Proofs.Tiling

/-!
# Searching documentation comments

Scripts are annotated before they are read, so their documentation comments are found by a search
for `/**` and `*/` that knows nothing of tokens (`Script.commentsOf`). The lexer finds those that
stand between tokens (`Lexer.DocsBetween`).

Both find the same just when every `/**` that a `*/` follows stands in a documentation comment of
the lexer (`Lexer.commentsOf_eq_iff`): each such mark stands in a comment that the search finds
(`Script.exists_found`), and where the lexer has them all the search goes from one comment of the
lexer to the next (`Script.spans_eq`). A comment that is written in a string is found by the search
alone.
-/

set_option autoImplicit false

namespace DeclBundle

open Text GapPiece

namespace Text.Cursor

variable {c d e : Cursor}

/-- Of two positions behind a third one the later one lies behind the earlier one. -/
theorem ReadsTo.of_le (h : c.ReadsTo d) (h' : c.ReadsTo e) (hle : d.offset ≤ e.offset) :
    d.ReadsTo e := by
  obtain ⟨us, hrest, hoffset⟩ := h
  obtain ⟨us', hrest', hoffset'⟩ := h'
  rcases List.append_eq_append_iff.1 (hrest.symm.trans hrest') with ⟨ms, rfl, hms⟩ | ⟨ms, rfl, hms⟩
  · exact ⟨ms, hms, by rw [hoffset', hoffset, byteLength_append, Nat.add_assoc]⟩
  · rw [byteLength_append] at hoffset
    obtain rfl : ms = [] := List.length_eq_zero_iff.1 (by have := length_le_byteLength ms; omega)
    exact ⟨[], hms.symm, by simp at hoffset ⊢; omega⟩

/-- At one offset behind a position there is one position. -/
theorem ReadsTo.unique (h : c.ReadsTo d) (h' : c.ReadsTo e)
    (hoffset : d.offset = e.offset) : d = e := by
  obtain ⟨us, hrest, hbytes⟩ := h.of_le h' hoffset.le
  obtain rfl : us = [] := List.length_eq_zero_iff.1 (by have := length_le_byteLength us; omega)
  obtain ⟨r, o⟩ := d
  obtain ⟨r', o'⟩ := e
  cases hrest
  cases hoffset
  rfl

/-- At byte `o` behind the position stands `/**`, and `*/` follows further on. -/
def OpensComment (c : Cursor) (o : Nat) : Prop :=
  ∃ r, c.ReadsTo ⟨'/' :: '*' :: '*' :: r, o⟩ ∧ ['*', '/'] <:+: r

/-- At byte `o` behind the position stands `/**`, the text `body` up to the first `*/`, and `r`. -/
def HasComment (c : Cursor) (body r : List Char) (o : Nat) : Prop :=
  c.ReadsTo ⟨'/' :: '*' :: '*' :: (body ++ '*' :: '/' :: r), o⟩ ∧ ¬['*', '/'] <:+: body ++ ['*']

/-- The range of a comment that starts at byte `o`. -/
def commentSpan (body : List Char) (o : Nat) : Span := ⟨o, o + byteLength body + 5⟩

theorem HasComment.opens {body r : List Char} {o : Nat} (h : c.HasComment body r o) :
    c.OpensComment o :=
  ⟨_, h.1, body, r, by simp⟩

/-- Behind a comment the text goes on. -/
theorem HasComment.readsTo {body r : List Char} {o : Nat} (h : c.HasComment body r o) :
    c.ReadsTo ⟨r, (commentSpan body o).stop⟩ := by
  refine h.1.trans ⟨'/' :: '*' :: '*' :: (body ++ ['*', '/']), by simp, ?_⟩
  simp [commentSpan, show '/'.utf8Size = 1 from rfl, show '*'.utf8Size = 1 from rfl]
  omega

theorem HasComment.rest_lt {body r : List Char} {o : Nat} (h : c.HasComment body r o) :
    r.length < c.rest.length := by
  have := h.1.reaches.1
  simp only [List.length_cons, List.length_append] at this
  omega

/-- At one offset one comment stands at most. -/
theorem HasComment.unique {body body' r r' : List Char} {o o' : Nat} (h : c.HasComment body r o)
    (h' : c.HasComment body' r' o') (hoffset : o = o') : body = body' ∧ r = r' ∧ o = o' := by
  subst hoffset
  have heq := congrArg Cursor.rest (h.1.unique h'.1 rfl)
  simp only [List.cons.injEq, true_and] at heq
  obtain rfl := body_eq_of_closed h.2 h'.2 heq
  exact ⟨rfl, by simpa using heq, rfl⟩

end Text.Cursor

open Cursor (ReadsTo commentSpan)

namespace Script

/-- Where a comment that was found stands. -/
def Comment.span (found : Comment) : Span :=
  ⟨found.after.offset - byteLength found.text.toList, found.after.offset⟩

/-! ## One comment -/

/-- A comment stands where its text was cut out. -/
theorem span_found (body r : List Char) (o : Nat) :
    let stop := (commentSpan body o).stop
    Comment.span ⟨Cursor.text ⟨['/', '*', '*'] ++ (body ++ (['*', '/'] ++ r)), o⟩ stop, ⟨r, stop⟩⟩ =
        commentSpan body o := by
  have hsplit : ['/', '*', '*'] ++ (body ++ (['*', '/'] ++ r)) =
    ['/', '*', '*'] ++ body ++ ['*', '/'] ++ r := by simp
  have hbytes : byteLength (['/', '*', '*'] ++ body ++ ['*', '/']) = byteLength body + 5 := by
    simp [show '/'.utf8Size = 1 from rfl, show '*'.utf8Size = 1 from rfl]
    omega
  have hslice := Cursor.slice?_append (['/', '*', '*'] ++ body ++ ['*', '/']) r o
  rw [hbytes, ← Nat.add_assoc] at hslice
  dsimp only
  rw [hsplit, Comment.span, Cursor.text, commentSpan, hslice, String.toList_ofList, hbytes,
    Nat.add_assoc, Nat.add_sub_cancel]

theorem toList_marks : "/**".toList = ['/', '*', '*'] ∧ "*/".toList = ['*', '/'] := ⟨rfl, rfl⟩

/-- The search finds the first comment that is opened and closed, and goes on behind it; without one
it finds nothing. -/
theorem comments_cases (limit : Nat) (c : Cursor) :
    (∀ o, ¬c.OpensComment o) ∧ comments (limit + 1) c = [] ∨
      ∃ body r o, c.HasComment body r o ∧ (∀ p, c.OpensComment p → o ≤ p) ∧
        (comments (limit + 1) c).map Comment.span =
          commentSpan body o ::
            (comments limit ⟨r, (commentSpan body o).stop⟩).map Comment.span := by
  obtain ⟨cs, o⟩ := c
  rw [comments, toList_marks.1, toList_marks.2]
  rcases find?_cases (List.cons_ne_nil '/' ['*', '*']) cs o with ⟨hno, hfind⟩ | ⟨us, vs, rfl,
    hfirst, hfind⟩
  · refine .inl ⟨fun p ⟨r, ⟨us, hcs, _⟩, _⟩ => hno ?_, by rw [hfind]⟩
    exact ⟨us, r, by simpa using hcs.symm⟩
  rw [hfind]
  -- No `/**` stands before the first one, and so less follows each of them.
  have hlater {p : Nat} {r : List Char}
    (h : ReadsTo ⟨us ++ (['/', '*', '*'] ++ vs), o⟩ ⟨'/' :: '*' :: '*' :: r, p⟩) :
      o + byteLength us ≤ p ∧ r <:+ vs := by
    obtain ⟨us', hcs, hp⟩ := h
    obtain ⟨ms, rfl⟩ := prefix_of_first hfirst (show _ = us' ++ (['/', '*', '*'] ++ r) from hcs)
    dsimp only at hp
    rw [byteLength_append] at hp
    rw [List.append_assoc, List.append_cancel_left_eq] at hcs
    have hsuffix : r <:+ '/' :: '*' :: '*' :: vs := ⟨ms ++ ['/', '*', '*'], by simpa using hcs.symm⟩
    have hlength := congrArg List.length hcs
    simp only [List.length_append, List.length_cons, List.length_nil] at hlength
    exact ⟨by omega, List.suffix_of_suffix_length_le hsuffix ⟨['/', '*', '*'], rfl⟩ (by omega)⟩
  have hskip : (Cursor.mk (['/', '*', '*'] ++ vs) (o + byteLength us)).skip 3 =
    ⟨vs, o + byteLength us + 3⟩ := rfl
  dsimp only
  rw [hskip]
  rcases find?_cases (List.cons_ne_nil '*' ['/']) vs (o + byteLength us + 3) with ⟨hno,
    hclose⟩ | ⟨body, r, rfl, hbody, hclose⟩
  · refine .inl
      ⟨fun p ⟨r, hreads, hcloses⟩ => hno (hcloses.trans (hlater hreads).2.isInfix), by rw [hclose]⟩
  · refine .inr ⟨body, r, o + byteLength us, ⟨⟨us, rfl, rfl⟩, hbody⟩,
      fun p ⟨r, hreads, _⟩ => (hlater hreads).1, ?_⟩
    have hafter : (Cursor.mk (['*', '/'] ++ r) (o + byteLength us + 3 + byteLength body)).skip 2 =
        ⟨r, (commentSpan body (o + byteLength us)).stop⟩ := by
      change Cursor.mk r (o + byteLength us + 3 + byteLength body + 2) = _
      rw [commentSpan, Nat.add_right_comm _ 3, Nat.add_assoc _ 3 2]
    rw [hclose]
    dsimp only
    rw [hafter, List.map_cons, span_found]

/-! ## All comments -/

/-- Every comment that is opened and closed starts in a comment that is found. By induction on the
number of comments that are asked for, which the length of the text bounds: the search goes on
behind the first one. -/
theorem exists_found (limit : Nat) (c : Cursor) (hlimit : c.rest.length ≤ limit) {p : Nat}
    (hopens : c.OpensComment p) :
    ∃ s ∈ (comments limit c).map Comment.span, s.start ≤ p ∧ p < s.stop := by
  induction limit generalizing c with
  | zero =>
    obtain ⟨r, hreads, -⟩ := hopens
    exact absurd hreads.reaches.1 (by simp; omega)
  | succ limit ih =>
    rcases comments_cases limit c with ⟨hno, -⟩ | ⟨body, r, o, hcomment, hfirst, hfound⟩
    · exact absurd hopens (hno p)
    rw [hfound]
    by_cases hlt : p < (commentSpan body o).stop
    · exact ⟨_, List.mem_cons_self, hfirst p hopens, hlt⟩
    · obtain ⟨vs, hreads, hcloses⟩ := hopens
      have hless := hcomment.rest_lt
      obtain ⟨s, hs, hin⟩ :=
        ih ⟨r, _⟩ (by dsimp only; omega) ⟨vs, hcomment.readsTo.of_le hreads (not_lt.1 hlt), hcloses⟩
      exact ⟨s, List.mem_cons_of_mem _ hs, hin⟩

/-- Comments that stand one behind the other are all that are found when each comment that is opened
and closed starts in one of them. By induction on them: the first one starts where the search
stops. -/
theorem spans_eq (limit : Nat) (c : Cursor) (hlimit : c.rest.length ≤ limit) (docs : List Span)
    (hdocs : ∀ s ∈ docs, ∃ body r o, c.HasComment body r o ∧ s = commentSpan body o)
    (hordered : docs.Pairwise fun s t => s.stop ≤ t.start)
    (hall : ∀ p, c.OpensComment p → ∃ s ∈ docs, s.start ≤ p ∧ p < s.stop) :
    (comments limit c).map Comment.span = docs := by
  induction docs generalizing c limit with
  | nil =>
    cases limit with
    | zero => rfl
    | succ limit =>
      rcases comments_cases limit c with ⟨-, hfound⟩ | ⟨body, r, o, hcomment, -, -⟩
      · rw [hfound, List.map_nil]
      · obtain ⟨s, hs, -⟩ := hall o hcomment.opens
        cases hs
  | cons s docs ih =>
    obtain ⟨⟨body, r, o, hcomment, rfl⟩, hrest⟩ := List.forall_mem_cons.1 hdocs
    obtain ⟨hbehind, hordered⟩ := List.pairwise_cons.1 hordered
    have hless := hcomment.rest_lt
    cases limit with
    | zero => omega
    | succ limit =>
      rcases comments_cases limit c with ⟨hno, -⟩ | ⟨body', r', o', hcomment', hfirst, hfound⟩
      · exact absurd hcomment.opens (hno o)
      -- The first comment that is opened starts in one of the given ones, so not before the first
      -- of these.
      have hle : o ≤ o' := by
        obtain ⟨t, ht, hstart, -⟩ := hall o' hcomment'.opens
        rcases List.mem_cons.1 ht with rfl | ht
        · exact hstart
        · have := hbehind t ht
          simp only [commentSpan] at this
          omega
      obtain ⟨rfl, rfl, rfl⟩ :=
        hcomment.unique hcomment' (le_antisymm hle (hfirst o hcomment.opens))
      rw [hfound, ih limit ⟨r, _⟩ (by dsimp only; omega) ?_ hordered ?_]
      · intro t ht
        obtain ⟨body', r', o', hcomment', rfl⟩ := hrest t ht
        exact ⟨body', r', o', ⟨hcomment.readsTo.of_le hcomment'.1 (hbehind _ ht), hcomment'.2⟩, rfl⟩
      · rintro p ⟨vs, hreads, hcloses⟩
        obtain ⟨t, ht, hstart, hstop⟩ := hall p ⟨vs, hcomment.readsTo.trans hreads, hcloses⟩
        rcases List.mem_cons.1 ht with rfl | ht
        · exact absurd hreads.offset_le (not_le.2 hstop)
        · exact ⟨t, ht, hstart, hstop⟩

end Script

/-! ## The comments between tokens -/

/-- Documentation comments of a text stand one behind the other from byte `o` on. -/
structure AreComments (text : String) (o : Nat) (docs : List Span) : Prop where
  hasComment : ∀ s ∈ docs, ∃ body r p, (Cursor.atStart text.toList).HasComment body r p ∧
    s = commentSpan body p
  ordered : docs.Pairwise fun s t => s.stop ≤ t.start
  start_le : ∀ s ∈ docs, o ≤ s.start

theorem AreComments.nil (text : String) (o : Nat) : AreComments text o [] := ⟨nofun, .nil, nofun⟩

theorem AreComments.mono {text : String} {o p : Nat} {docs : List Span}
    (h : AreComments text o docs) (hle : p ≤ o) :
    AreComments text p docs :=
  { h with start_le := fun s hs => hle.trans (h.start_le s hs) }

theorem AreComments.append {text : String} {o p : Nat} {docs docs' : List Span}
    (h : AreComments text o docs) (hstop : ∀ s ∈ docs, s.stop ≤ p) (h' : AreComments text p docs')
    (hle : o ≤ p) : AreComments text o (docs ++ docs') where
  hasComment s hs := (List.mem_append.1 hs).elim (h.hasComment s) (h'.hasComment s)
  ordered := List.pairwise_append.2
    ⟨h.ordered, h'.ordered, fun s hs t ht => (hstop s hs).trans (h'.start_le t ht)⟩
  start_le s hs := (List.mem_append.1 hs).elim (h.start_le s) fun hs => hle.trans (h'.start_le s hs)

/-- A documentation comment of a gap is one of the text. -/
theorem hasComment_of_isDoc {c : Cursor} {p : GapPiece} {o : Nat} {r : List Char}
    (hp : p.IsSound o r) (hdoc : p.isDoc = true) (hreads : c.ReadsTo ⟨p.chars ++ r, o⟩) :
    ∃ body, c.HasComment body r o ∧ (⟨o, o + byteLength p.chars⟩ : Span) = commentSpan body o := by
  cases p with
  | blockComment body =>
    obtain ⟨body, rfl⟩ := List.head?_eq_some_iff.1 (beq_iff_eq.1 hdoc)
    refine ⟨body,
      ⟨by simpa [chars] using hreads, fun h => hp (h.trans (List.suffix_cons _ _).isInfix)⟩, ?_⟩
    simp [commentSpan, chars, show '/'.utf8Size = 1 from rfl, show '*'.utf8Size = 1 from rfl]
    omega
  | blank | lineComment | shebang | openComment => cases hdoc

theorem docSpans_stop_le (o : Nat) (ps : List GapPiece) :
    ∀ s ∈ docSpans o ps, s.stop ≤ o + byteLength (spell ps) := by
  induction ps generalizing o with
  | nil => exact nofun
  | cons p ps ih =>
    have hrest := ih (o + byteLength p.chars)
    rw [spell_cons, byteLength_append, ← Nat.add_assoc, docSpans]
    split_ifs
    · exact List.forall_mem_cons.2 ⟨Nat.le_add_right _ _, hrest⟩
    · exact hrest

theorem areComments_docSpans {text : String} {o : Nat} {ps : List GapPiece} {r : List Char}
    (hsound : AreSound o r ps) (hreads : (Cursor.atStart text.toList).ReadsTo ⟨spell ps ++ r, o⟩) :
    AreComments text o (docSpans o ps) := by
  induction ps generalizing o with
  | nil => exact .nil text o
  | cons p ps ih =>
    rw [spell_cons, List.append_assoc] at hreads
    have hrest := ih hsound.2 (hreads.trans ⟨p.chars, rfl, rfl⟩)
    rw [docSpans]
    split_ifs with hdoc
    · obtain ⟨body, hcomment, hspan⟩ := hasComment_of_isDoc hsound.1 hdoc hreads
      rw [← List.singleton_append]
      refine AreComments.append ?_ (by simp) hrest (Nat.le_add_right _ _)
      exact {
        hasComment := by simpa using ⟨body, _, o, hcomment, hspan⟩
        ordered := List.pairwise_singleton _ _
        start_le := by simp }
    · exact hrest.mono (Nat.le_add_right _ _)

namespace Lexer

/-- The documentation comments in the gaps between the ends of some tokens and the starts of the
next ones. -/
inductive DocsBetween (text : String) : List Lexer → List Span → Prop
  | last (l : Lexer) : DocsBetween text [l] []
  | cons {a b : Lexer} {ts : List Lexer} {ps : List GapPiece} {docs : List Span}
    (hgap : IsGap text a.tokenEnd ps b.token.start.offset)
    (hdocs : DocsBetween text (b :: ts) docs) :
    DocsBetween text (a :: b :: ts) (docSpans a.tokenEnd ps ++ docs)

variable {text : String} {l : Lexer} {ls : List Lexer} {docs : List Span}

theorem exists_docsBetween (h : (l :: ls).IsChain (Follows text)) :
    ∃ docs, DocsBetween text (l :: ls) docs := by
  induction ls generalizing l with
  | nil => exact ⟨[], .last l⟩
  | cons b ls ih =>
    obtain ⟨hfollows, hrest⟩ := List.isChain_cons_cons.1 h
    obtain ⟨ps, hgap⟩ := hfollows.exists_gap
    obtain ⟨docs, hdocs⟩ := ih hrest
    exact ⟨_, .cons hgap hdocs⟩

/-- When no token has a documentation comment, none stands between the tokens. -/
theorem docsBetween_nil (h : (l :: ls).IsChain (Follows text))
    (hdoc : ∀ m ∈ ls, m.token.doc = none) :
    DocsBetween text (l :: ls) [] := by
  induction ls generalizing l with
  | nil => exact .last l
  | cons b ls ih =>
    obtain ⟨hfollows, hrest⟩ := List.isChain_cons_cons.1 h
    obtain ⟨hb, hdoc⟩ := List.forall_mem_cons.1 hdoc
    obtain ⟨ps, hgap⟩ := hfollows.exists_gap
    have hnone : docSpans l.tokenEnd ps = [] := by
      rw [← List.getLast?_eq_none_iff, ← hfollows.doc_eq ps hgap, hb]
      rfl
    have hcons := DocsBetween.cons hgap (ih hrest hdoc)
    rwa [hnone] at hcons

/-- The comments between tokens that go forward are comments of the text, one behind the other. -/
theorem DocsBetween.areComments (h : DocsBetween text (l :: ls) docs)
    (hforward : ∀ m ∈ ls, m.token.start.offset ≤ m.tokenEnd) :
    AreComments text l.tokenEnd docs := by
  generalize hls : l :: ls = ms at h
  induction h generalizing l ls with
  | last => exact .nil _ _
  | cons hgap _ ih =>
    obtain ⟨rfl, rfl⟩ := List.cons.inj hls
    obtain ⟨hb, hforward⟩ := List.forall_mem_cons.1 hforward
    obtain ⟨us, vs, htext, ho, hstop, hsound⟩ := hgap
    have hreads : (Cursor.atStart text.toList).ReadsTo ⟨_, l.tokenEnd⟩ :=
      ⟨us, htext, ho.trans (Nat.zero_add _).symm⟩
    refine (areComments_docSpans hsound hreads).append (docSpans_stop_le _ _)
      ((ih hforward rfl).mono (hstop ▸ hb)) ?_
    exact Nat.le_add_right _ _

/-! ## Texts without errors -/

/-- A string with a closing quote ends behind it. -/
theorem readsTo_readQuoted_of_closed (quote : Char) (place : Literal.QuotePlace)
    (value cs : List Char) (o : Nat)
    (h : (Literal.readQuoted quote place value cs o).closed = true) :
    (Cursor.mk cs o).ReadsTo (Literal.readQuoted quote place value cs o).stop := by
  induction cs generalizing place value o with
  | nil => cases place <;> cases h
  | cons x r ih =>
    cases place with
    | plain =>
      simp only [Literal.readQuoted] at h ⊢
      split_ifs at h ⊢
      · exact Cursor.readsTo_cons x r o
      · exact (ih _ _ _ h).cons
      · exact (ih _ _ _ h).cons
    | escape => exact (ih _ _ _ h).cons
    | rest left => exact (ih _ _ _ h).cons

/-- A string that ends beyond the text is an error. -/
theorem errors_ne_nil_of_isOverrun (hhere : l.here.IsIn text) (hinside : l.IsInside text)
    (h : l.scan.IsOverrun text) :
    l.scan.errors ≠ [] := by
  have hbeyond : l.scan.here.offset = text.utf8ByteSize + 1 := by
    rcases scan_inside_or_overrun hhere hinside.errors_inside with ⟨-, -, hno⟩ | ⟨hstop, -⟩
    · exact absurd h hno
    · rw [hstop]
  have hstart := hhere.readsTo (Gap.readsTo_skip l.here)
  obtain ⟨⟨_ | ⟨x, r⟩, o⟩, hskip⟩ : ∃ start, (Gap.skip l.here).2 = start := ⟨_, rfl⟩
  · have hkind := h.1
    rw [scan_of_nil (congrArg Cursor.rest hskip)] at hkind
    cases hkind
  · rw [hskip] at hstart
    rw [scan_of_cons hskip] at hbeyond ⊢
    have hkind : (lexeme ⟨x :: r, o⟩ x r).kind = .stringLiteral := by
      rw [← token_kind_accept (l := l.atNext) ⟨x :: r, o⟩, ← scan_of_cons hskip]
      exact h.1
    rw [here_accept] at hbeyond
    rw [((kind_lexeme _ x r).2 hkind).2] at hbeyond ⊢
    cases hclosed : (Literal.readQuoted x .plain [] r (o + x.utf8Size)).closed with
    | true =>
      have hin := hstart.readsTo (readsTo_readQuoted_of_closed x .plain [] r _ hclosed).cons
      exact absurd (hbeyond ▸ hin.offset_le) (Nat.not_succ_le_self _)
    | false =>
      have herror : (quoted x ⟨x :: r, o⟩).error = some .unterminatedString :=
        if_neg (ne_true_of_eq_false hclosed)
      rw [accept, herror]
      exact List.cons_ne_nil _ _

/-- In a text without errors no string ends beyond the text. By induction on the number of tokens
that are asked for. -/
theorem not_isOverrun_of_errors (limit : Nat) (hhere : l.here.IsIn text) (hinside : l.IsInside text)
    (herrors : ∀ m ∈ l.tokens limit, m.errors = []) : ∀ m ∈ l.tokens limit, ¬m.IsOverrun text := by
  induction limit generalizing l with
  | zero => exact nofun
  | succ limit ih =>
    simp only [tokens] at herrors ⊢
    have hscan : ¬l.scan.IsOverrun text := fun h => by
      refine errors_ne_nil_of_isOverrun hhere hinside h (herrors _ ?_)
      split_ifs <;> exact List.mem_cons_self
    split_ifs at herrors ⊢
    · exact List.forall_mem_singleton.2 hscan
    · obtain ⟨hhere', hinside', -⟩ | ⟨-, hoverrun⟩ :=
        scan_inside_or_overrun hhere hinside.errors_inside
      · exact List.forall_mem_cons.2 ⟨hscan, ih hhere' hinside' (List.forall_mem_cons.1 herrors).2⟩
      · exact absurd hoverrun hscan

/-- The tokens of a text that is read without errors tile it. -/
theorem exists_tiles_of_errors (hlone : ∀ l ∈ (ofText text).tokens (text.length + 1),
    ¬l.token.start.IsLoneBackslash)
    (herrors : ∀ l ∈ (ofText text).tokens (text.length + 1), l.errors = []) :
    ∃ ts last, (ofText text).tokens (text.length + 1) = ts ++ [last] ∧
      Tiles text (ofText text) ts last := by
  have hhere := here_ofText text
  have hinside := isInside_ofText text
  have hlength : (ofText text).here.rest.length < text.length + 1 := by
    rw [← String.length_toList]
    exact Nat.lt_succ_of_le hhere.reaches.1
  exact exists_tiles _ hhere hinside hlength hlone (not_isOverrun_of_errors _ hhere hinside herrors)

/-- In a text that is read without errors, with no token that starts with a backslash that no `u`
follows, the search finds the documentation comments between the tokens just when every `/**` that a
`*/` follows stands in one of them. -/
theorem commentsOf_eq_iff (text : String)
    (hlone : ∀ l ∈ (ofText text).tokens (text.length + 1), ¬l.token.start.IsLoneBackslash)
    (herrors : ∀ l ∈ (ofText text).tokens (text.length + 1), l.errors = []) :
    (∃ docs, DocsBetween text (ofText text :: (ofText text).tokens (text.length + 1)) docs) ∧
      ∀ docs, DocsBetween text (ofText text :: (ofText text).tokens (text.length + 1)) docs →
        ((Script.commentsOf text.toList).map Script.Comment.span = docs ↔
          ∀ o, (Cursor.atStart text.toList).OpensComment o → ∃ s ∈ docs,
            s.start ≤ o ∧ o < s.stop) := by
  obtain ⟨ts, last, htokens, htiles⟩ := exists_tiles_of_errors hlone herrors
  rw [htokens]
  refine ⟨exists_docsBetween htiles.follows, fun docs hdocs => ?_⟩
  have hforward : ∀ m ∈ ts ++ [last], m.token.start.offset ≤ m.tokenEnd := by
    rw [List.forall_mem_append, List.forall_mem_singleton]
    exact ⟨fun m hm => (htiles.nonempty m hm).le, (htiles.start_last.trans htiles.end_last.symm).le⟩
  have hcomments := hdocs.areComments hforward
  constructor
  · rintro rfl o hopens
    exact Script.exists_found _ _ le_rfl hopens
  · exact Script.spans_eq _ _ le_rfl docs hcomments.hasComment hcomments.ordered

/-- A script with two documentation comments and another one between them. -/
def documentedScript : String := "/** a */x\n/* b */\n/***/y"

theorem commentsOf_documentedScript :
    (∀ l ∈ (ofText documentedScript).tokens (documentedScript.length + 1),
      ¬l.token.start.IsLoneBackslash) ∧
      (∀ l ∈ (ofText documentedScript).tokens (documentedScript.length + 1), l.errors = []) ∧
      ∃ docs, DocsBetween documentedScript (ofText documentedScript ::
          (ofText documentedScript).tokens (documentedScript.length + 1)) docs ∧
        ((Script.commentsOf documentedScript.toList).map Script.Comment.span = docs ↔
          ∀ o, (Cursor.atStart documentedScript.toList).OpensComment o → ∃ s ∈ docs,
            s.start ≤ o ∧ o < s.stop) := by
  have hlone : ∀ l ∈ (ofText documentedScript).tokens (documentedScript.length + 1),
      ¬l.token.start.IsLoneBackslash := by
    decide
  have herrors : ∀ l ∈ (ofText documentedScript).tokens (documentedScript.length + 1),
      l.errors = [] := by
    decide
  obtain ⟨⟨docs, hdocs⟩, hiff⟩ := commentsOf_eq_iff _ hlone herrors
  exact ⟨hlone, herrors, docs, hdocs, hiff docs hdocs⟩

/-- A comment that is written in a string. -/
def quotedComment : String := "const s = \x22/** @const */ let x = 1\x22;"

/-- It is no comment between the tokens, but the search finds it. -/
theorem exists_comment_in_string :
    (∀ l ∈ (ofText quotedComment).tokens (quotedComment.length + 1), l.errors = []) ∧
      DocsBetween quotedComment
        (ofText quotedComment :: (ofText quotedComment).tokens (quotedComment.length + 1)) [] ∧
      (Script.commentsOf quotedComment.toList).map Script.Comment.span = [⟨11, 24⟩] := by
  have herrors : ∀ l ∈ (ofText quotedComment).tokens (quotedComment.length + 1), l.errors = [] := by
    decide
  refine ⟨herrors, ?_, by decide⟩
  have hdoc : ∀ l ∈ (ofText quotedComment).tokens (quotedComment.length + 1),
    l.token.doc = none := by decide
  obtain ⟨ts, last, htokens, htiles⟩ := exists_tiles_of_errors (by decide) herrors
  rw [htokens] at hdoc ⊢
  exact docsBetween_nil htiles.follows hdoc

end Lexer

end DeclBundle
