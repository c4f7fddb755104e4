import DeclBundle.Token.Trivia
import DeclBundle.Proofs.Searching

/-!
# What a gap is made of

The text before a token consists of blanks, comments and, at the very start, a shebang line
(`GapPiece`). A comment is read as far as it goes: up to the end of its line, up to the first `*/`,
or to the end of the text. So one stretch of text is made of such pieces in one way only
(`GapPiece.eq_of_spell_eq`), and it makes sense to ask of a gap whether a line ends in it and which
documentation comment is its last.

`Gap.read` stops behind some pieces and answers both questions (`Gap.exists_finds`).
-/

set_option autoImplicit false

namespace DeclBundle

open Text

/-- One of the things that stand between tokens. -/
inductive GapPiece where
  /-- A blank or a line end. -/
  | blank (c : Char)
  | lineComment (body : List Char)
  /-- The first line of a script. -/
  | shebang (body : List Char)
  | blockComment (body : List Char)
  /-- A block comment that is never closed. -/
  | openComment (body : List Char)

namespace GapPiece

/-- How a piece is written. -/
def chars : GapPiece → List Char
  | blank c => [c]
  | lineComment body => '/' :: '/' :: body
  | shebang body => '#' :: '!' :: body
  | blockComment body => '/' :: '*' :: (body ++ ['*', '/'])
  | openComment body => '/' :: '*' :: body

/-- The ASCII whitespace and the no-break space. -/
def blanks : List Char := [' ', '\t', '\n', '\x0b', '\x0c', '\r', '\u00a0']

/-- A text without line ends that the line ends behind, when `r` follows. -/
def IsRestOfLine (body r : List Char) : Prop :=
  (∀ c ∈ body, isLineEnd c = false) ∧ ∀ c ∈ r.head?, isLineEnd c = true

/-- The piece stands at byte `o`, and `r` follows. -/
def IsSound (o : Nat) (r : List Char) : GapPiece → Prop
  | blank c => c ∈ blanks
  | lineComment body => IsRestOfLine body r
  | shebang body => o = 0 ∧ IsRestOfLine body r
  | blockComment body => ¬['*', '/'] <:+: body ++ ['*']
  | openComment body => ¬['*', '/'] <:+: body ∧ r = []

/-- A line ends in the piece: it is a line end itself, or a closed comment that goes on after a line
feed. -/
def breaksLine : GapPiece → Bool
  | blank c => isLineEnd c
  | blockComment body => body.contains '\n'
  | _ => false

/-- A documentation comment: closed, and with a second asterisk that does not close it. -/
def isDoc : GapPiece → Bool
  | blockComment body => body.head? == some '*'
  | _ => false

/-- How some pieces are written. -/
def spell (ps : List GapPiece) : List Char := ps.flatMap chars

/-- The pieces stand one behind the other from byte `o` on, and `r` follows. -/
def AreSound (o : Nat) (r : List Char) : List GapPiece → Prop
  | [] => True
  | p :: ps => p.IsSound o (spell ps ++ r) ∧ AreSound (o + byteLength p.chars) r ps

/-- The text `cs` at byte `o` starts with a piece. -/
def CanStart (o : Nat) (cs : List Char) : Prop :=
  ∃ p : GapPiece, ∃ r, cs = p.chars ++ r ∧ p.IsSound o r

/-- The byte ranges of the documentation comments, when the pieces stand at byte `o`. -/
def docSpans (o : Nat) : List GapPiece → List Span
  | [] => []
  | p :: ps =>
    let stop := o + byteLength p.chars
    if p.isDoc then ⟨o, stop⟩ :: docSpans stop ps else docSpans stop ps

@[simp] theorem spell_nil : spell [] = [] := rfl

@[simp] theorem spell_cons (p : GapPiece) (ps : List GapPiece) :
    spell (p :: ps) = p.chars ++ spell ps := rfl

theorem chars_ne_nil (p : GapPiece) : p.chars ≠ [] := by
  cases p <;> exact List.cons_ne_nil _ _

theorem not_canStart_nil (o : Nat) : ¬CanStart o [] := fun ⟨p, _, h, _⟩ =>
  p.chars_ne_nil (List.append_eq_nil_iff.1 h.symm).1

/-! ## One stretch, one way to cut it -/

theorem IsRestOfLine.eq {body body' r r' : List Char} (h : IsRestOfLine body r)
    (h' : IsRestOfLine body' r') (heq : body ++ r = body' ++ r') : body = body' := by
  have htake {us vs : List Char} (h : IsRestOfLine us vs) :
      (us ++ vs).takeWhile (fun c => !isLineEnd c) = us := by
    rw [List.takeWhile_append_of_pos fun c hc => by simp [h.1 c hc]]
    cases vs with
    | nil => simp
    | cons c vs => simp [h.2 c rfl]
  rw [← htake h, heq, htake h']

/-- A closed comment ends at the first place where it can. -/
theorem body_eq_of_closed {body body' r r' : List Char} (h : ¬['*', '/'] <:+: body ++ ['*'])
    (h' : ¬['*', '/'] <:+: body' ++ ['*'])
    (heq : body ++ '*' :: '/' :: r = body' ++ '*' :: '/' :: r') : body = body' :=
  eq_of_first h h' heq

/-- At one place in a text one piece stands at most. -/
theorem eq_of_append_eq {p q : GapPiece} {o : Nat} {r r' : List Char} (hp : p.IsSound o r)
    (hq : q.IsSound o r') (heq : p.chars ++ r = q.chars ++ r') : p = q := by
  have hopen {body body' r : List Char} (h : ¬['*', '/'] <:+: body')
      (heq : body' = body ++ '*' :: '/' :: r) : False :=
    h ⟨body, r, by simp [heq]⟩
  cases p <;> cases q <;> simp only [chars, List.cons_append, List.append_assoc, List.nil_append,
    List.cons.injEq, IsSound]
    at hp hq heq
  case blank.blank => rw [heq.1]
  case lineComment.lineComment => rw [hp.eq hq heq.2.2]
  case shebang.shebang => rw [hp.2.eq hq.2 heq.2.2]
  case blockComment.blockComment => rw [body_eq_of_closed hp hq heq.2.2]
  case openComment.openComment =>
    obtain rfl : r = [] := hp.2
    obtain rfl : r' = [] := hq.2
    simpa using heq.2.2
  case blockComment.openComment =>
    obtain rfl : r' = [] := hq.2
    exact (hopen hq.1 (by simpa using heq.2.2.symm)).elim
  case openComment.blockComment =>
    obtain rfl : r = [] := hp.2
    exact (hopen hp.1 (by simpa using heq.2.2)).elim
  -- The others start with different characters.
  case blank.lineComment | blank.shebang | blank.blockComment | blank.openComment =>
    rw [heq.1] at hp
    exact absurd hp (by decide)
  case lineComment.blank | shebang.blank | blockComment.blank | openComment.blank =>
    rw [← heq.1] at hq
    exact absurd hq (by decide)
  all_goals simp at heq

/-- Of two ways to cut one stretch of text into pieces both are the same. -/
theorem eq_of_spell_eq {ps qs : List GapPiece} {o : Nat} {r : List Char} (hps : AreSound o r ps)
    (hqs : AreSound o r qs) (heq : spell ps = spell qs) : ps = qs := by
  induction ps generalizing qs o with
  | nil =>
    cases qs with
    | nil => rfl
    | cons q qs => exact absurd (List.append_eq_nil_iff.1 heq.symm).1 q.chars_ne_nil
  | cons p ps ih =>
    cases qs with
    | nil => exact absurd (List.append_eq_nil_iff.1 heq).1 p.chars_ne_nil
    | cons q qs =>
      have hcat : p.chars ++ (spell ps ++ r) = q.chars ++ (spell qs ++ r) := by
        rw [← List.append_assoc, ← List.append_assoc, ← spell_cons, ← spell_cons, heq]
      obtain rfl := eq_of_append_eq hps.1 hqs.1 hcat
      rw [ih hps.2 hqs.2 (List.append_cancel_left heq)]

end GapPiece

namespace Gap

open GapPiece

/-! ## Reading comments -/

/-- A comment or a shebang line is read up to the end of its line. -/
theorem read_lineComment (gap : Gap) (cs : List Char) (o : Nat) :
    ∃ body r, cs = body ++ r ∧ IsRestOfLine body r ∧
      read .lineComment gap cs o = read .between gap r (o + byteLength body) := by
  induction cs generalizing o with
  | nil => exact ⟨[], [], rfl, by simp [IsRestOfLine], rfl⟩
  | cons c cs ih =>
    cases hline : isLineEnd c with
    | true => exact ⟨[], c :: cs, rfl, by simp [IsRestOfLine, hline], by simp [read, hline]⟩
    | false =>
      obtain ⟨body, r, rfl, hbody, hread⟩ := ih (o + c.utf8Size)
      refine ⟨c :: body, r, rfl, ⟨by simpa [hline] using hbody.1, hbody.2⟩, ?_⟩
      rw [byteLength_cons, ← Nat.add_assoc, ← hread]
      simp [read, hline]

/-- A block comment is read up to its end, or up to the end of the text. -/
theorem read_blockComment (start : Cursor) (isDoc sawLineFeed : Bool) (gap : Gap)
    (cs : List Char) (o : Nat) :
    (∃ body r, cs = body ++ '*' :: '/' :: r ∧ ¬['*', '/'] <:+: body ++ ['*'] ∧
      read (.blockComment start isDoc sawLineFeed) gap cs o =
        read (.closing start isDoc (sawLineFeed || body.contains '\n')) gap ('/' :: r)
          (o + byteLength body + 1)) ∨
    ¬['*', '/'] <:+: cs ∧
      read (.blockComment start isDoc sawLineFeed) gap cs o =
        ({ gap with openComment := some start.offset }, ⟨[], o + byteLength cs⟩) := by
  induction cs generalizing sawLineFeed o with
  | nil => exact .inr ⟨by simp, rfl⟩
  | cons c cs ih =>
    by_cases hcloses : c = '*' ∧ cs.head? = some '/'
    · obtain ⟨rfl, hslash⟩ := hcloses
      obtain ⟨r, rfl⟩ : ∃ r, cs = '/' :: r := by
        cases cs with
        | nil => cases hslash
        | cons x r => exact ⟨r, by rw [Option.some.inj hslash]⟩
      exact .inl ⟨[], r, rfl, by decide, by rw [List.contains_nil, Bool.or_false]; rfl⟩
    have hgoes : read (.blockComment start isDoc sawLineFeed) gap (c :: cs) o =
        read (.blockComment start isDoc (sawLineFeed || c == '\n')) gap cs (o + c.utf8Size) := by
      have : (c == '*' && cs.head? == some '/') = false := by simpa using hcloses
      simp [read, this]
    -- The two characters that close a comment do not start at `c`.
    have hnot {us : List Char} (hus : us.head? = cs.head? ∨ us.head? = some '*')
      (h : ¬['*', '/'] <:+: us) :
        ¬['*', '/'] <:+: c :: us := by
      rw [List.infix_cons_iff, not_or]
      refine ⟨fun hstart => hcloses ?_, h⟩
      obtain ⟨rfl, hslash⟩ := List.cons_prefix_cons.1 hstart
      obtain ⟨vs, hvs⟩ := hslash
      have hhead : us.head? = some '/' := by rw [← hvs]; rfl
      exact ⟨rfl, hus.elim (fun h => h ▸ hhead) fun h => absurd (h.symm.trans hhead) (by decide)⟩
    rw [hgoes]
    rcases ih (sawLineFeed || c == '\n') (o + c.utf8Size) with ⟨body, r, rfl, hbody,
      hread⟩ | ⟨hopen, hread⟩
    · refine .inl ⟨c :: body, r, rfl, hnot ?_ hbody, ?_⟩
      · cases body with
        | nil => exact .inr rfl
        | cons x body => exact .inl rfl
      · rw [hread, List.contains_cons, byteLength_cons, Bool.or_assoc, Bool.beq_comm,
          Nat.add_assoc o]
    · exact .inr ⟨hnot (.inl rfl) hopen, by rw [hread, byteLength_cons, Nat.add_assoc]⟩

/-! ## Reading a gap -/

/-- The text `cs` at byte `o` starts with the pieces, `r` follows and starts with no other piece,
and reading on with `gap` finds them. -/
structure Finds (gap : Gap) (cs : List Char) (o : Nat) (ps : List GapPiece)
    (r : List Char) : Prop where
  cs_eq : cs = spell ps ++ r
  areSound : AreSound o r ps
  not_canStart : ¬CanStart (o + byteLength (spell ps)) r
  stop_eq : (read .between gap cs o).2 = ⟨r, o + byteLength (spell ps)⟩
  lineBreak_eq : (read .between gap cs o).1.lineBreak = (gap.lineBreak || ps.any breaksLine)
  doc_eq : (read .between gap cs o).1.doc.map Excerpt.span =
    (docSpans o ps).getLast?.or (gap.doc.map Excerpt.span)
  openComment_le : ∀ start ∈ (read .between gap cs o).1.openComment,
    start ≤ o + byteLength (spell ps)

/-- One more piece before some others. -/
theorem Finds.cons {gap gap' : Gap} {cs : List Char} {o : Nat} {p : GapPiece} {ps : List GapPiece}
    {r : List Char} (h : Finds gap' cs (o + byteLength p.chars) ps r) (hp : p.IsSound o cs)
    (hread : read .between gap (p.chars ++ cs) o = read .between gap' cs (o + byteLength p.chars))
    (hline : gap'.lineBreak = (gap.lineBreak || p.breaksLine))
    (hdoc : gap'.doc.map Excerpt.span = if p.isDoc then some ⟨o, o + byteLength p.chars⟩
      else gap.doc.map Excerpt.span) :
    Finds gap (p.chars ++ cs) o (p :: ps) r where
  cs_eq := by rw [h.cs_eq, spell_cons, List.append_assoc]
  areSound := ⟨h.cs_eq ▸ hp, h.areSound⟩
  not_canStart := by
    rw [spell_cons, byteLength_append, ← Nat.add_assoc]
    exact h.not_canStart
  stop_eq := by rw [hread, h.stop_eq, spell_cons, byteLength_append, Nat.add_assoc]
  lineBreak_eq := by rw [hread, h.lineBreak_eq, hline, List.any_cons, Bool.or_assoc]
  doc_eq := by
    rw [hread, h.doc_eq, hdoc, docSpans]
    generalize docSpans (o + byteLength p.chars) ps = spans
    split_ifs
    · rw [List.getLast?_cons]
      cases spans.getLast? <;> rfl
    · rfl
  openComment_le := by
    rw [hread, spell_cons, byteLength_append, ← Nat.add_assoc]
    exact h.openComment_le

theorem mem_blanks {c : Char} (h : isLineEnd c = true ∨ isSeparator c = true) : c ∈ blanks := by
  simp only [isLineEnd, isSeparator, Bool.or_eq_true, beq_iff_eq] at h
  rcases h with (rfl | rfl) | ((((rfl | rfl) | rfl) | rfl) | rfl) <;> decide

theorem lineEnd_or_separator {c : Char} (h : c ∈ blanks) :
    isLineEnd c = true ∨ isSeparator c = true := by
  simp only [blanks, List.mem_cons, List.not_mem_nil, or_false] at h
  rcases h with rfl | rfl | rfl | rfl | rfl | rfl | rfl <;> decide

theorem opensDoc_body {body r : List Char} (h : ¬['*', '/'] <:+: body ++ ['*']) :
    opensDoc ('/' :: '*' :: (body ++ '*' :: '/' :: r)) = (blockComment body).isDoc := by
  match body with
  | [] => rfl
  | [x] => by_cases hx : x = '*' <;> simp [opensDoc, isDoc, hx]
  | x :: y :: body =>
    by_cases hx : x = '*'
    · subst hx
      by_cases hy : y = '/'
      · subst hy
        exact absurd ⟨[], body ++ ['*'], rfl⟩ h
      · simp [opensDoc, isDoc, hy]
    · simp [opensDoc, isDoc, hx]

/-- Nothing that belongs to a gap is there. -/
theorem Finds.nil {gap : Gap} (hgap : gap.openComment = none) {r : List Char} {o : Nat}
    (hr : ¬CanStart o r) (hread : read .between gap r o = (gap, ⟨r, o⟩)) : Finds gap r o [] r where
  cs_eq := rfl
  areSound := trivial
  not_canStart := hr
  stop_eq := by rw [hread]; rfl
  lineBreak_eq := by rw [hread, List.any_nil, Bool.or_false]
  doc_eq := by rw [hread]; rfl
  openComment_le := by simp [hread, hgap]

theorem byteLength_blank (c : Char) (o : Nat) :
    o + byteLength (blank c).chars = o + c.utf8Size := by
  simp [chars]

theorem Finds.blank {gap : Gap} {c : Char} (hc : isLineEnd c = true ∨ isSeparator c = true)
    {cs : List Char} {o : Nat} {ps : List GapPiece} {r : List Char}
    (h : Finds { gap with lineBreak := gap.lineBreak || isLineEnd c } cs (o + c.utf8Size) ps r) :
    Finds gap (c :: cs) o (.blank c :: ps) r := by
  rw [← byteLength_blank] at h
  refine Finds.cons h (mem_blanks hc) ?_ rfl rfl
  rw [byteLength_blank]
  cases hline : isLineEnd c with
  | true => simp [read, chars, hline]
  | false =>
    rw [hline] at hc
    simp [read, chars, hline, hc.resolve_left nofun]

/-- A comment or a shebang line that goes up to the end of its line. -/
theorem Finds.restOfLine {gap : Gap} {p : GapPiece} {a b : Char} {body : List Char}
    (hchars : p.chars = a :: b :: body) (hsize : a.utf8Size = 1 ∧ b.utf8Size = 1)
    (hline : p.breaksLine = false) (hdoc : p.isDoc = false) {cs : List Char} {o : Nat}
    (hp : p.IsSound o cs)
    (hread : read .between gap (a :: b :: (body ++ cs)) o =
      read .lineComment gap (body ++ cs) (o + 2))
    (hbody : read .lineComment gap (body ++ cs) (o + 2) =
      read .between gap cs (o + 2 + byteLength body))
    {ps : List GapPiece} {r : List Char} (h : Finds gap cs (o + 2 + byteLength body) ps r) :
    Finds gap (a :: b :: (body ++ cs)) o (p :: ps) r := by
  have hlength : o + byteLength p.chars = o + 2 + byteLength body := by
    rw [hchars, byteLength_cons, byteLength_cons, hsize.1, hsize.2]
    omega
  have hcat : p.chars ++ cs = a :: b :: (body ++ cs) := by
    rw [hchars, List.cons_append, List.cons_append]
  rw [← hcat]
  refine (hlength ▸ h).cons hp ?_ (by rw [hline, Bool.or_false]) (by rw [hdoc]; rfl)
  rw [hcat, hread, hbody, hlength]

/-- The gap after a closed comment from `start` to the byte offset `stop`. -/
def afterComment (gap : Gap) (start : Cursor) (isDoc sawLineFeed : Bool) (stop : Nat) : Gap :=
  let gap := if sawLineFeed then { gap with lineBreak := true } else gap
  if isDoc then { gap with doc := some ⟨start, stop⟩ } else gap

theorem lineBreak_afterComment (gap : Gap) (start : Cursor) (isDoc sawLineFeed : Bool)
    (stop : Nat) :
    (gap.afterComment start isDoc sawLineFeed stop).lineBreak = (gap.lineBreak || sawLineFeed) := by
  cases isDoc <;> cases sawLineFeed <;> simp [afterComment]

theorem doc_afterComment (gap : Gap) (start : Cursor) (isDoc sawLineFeed : Bool) (stop : Nat) :
    (gap.afterComment start isDoc sawLineFeed stop).doc.map Excerpt.span =
      if isDoc then some ⟨start.offset, stop⟩ else gap.doc.map Excerpt.span := by
  cases isDoc <;> cases sawLineFeed <;> rfl

theorem openComment_afterComment (gap : Gap) (start : Cursor) (isDoc sawLineFeed : Bool)
    (stop : Nat) :
    (gap.afterComment start isDoc sawLineFeed stop).openComment = gap.openComment := by
  cases isDoc <;> cases sawLineFeed <;> rfl

/-- At a slash and an asterisk a block comment starts. -/
theorem read_opening (gap : Gap) (cs : List Char) (o : Nat) :
    read .between gap ('/' :: '*' :: cs) o =
      read (.blockComment ⟨'/' :: '*' :: cs, o⟩ (opensDoc ('/' :: '*' :: cs)) false) gap cs
        (o + 2) := rfl

theorem Finds.blockComment {gap : Gap} {body cs : List Char} {o : Nat}
    (hbody : ¬['*', '/'] <:+: body ++ ['*']) {start : Cursor} (hstart : start.offset = o)
    {ps : List GapPiece} {r : List Char}
    (hread : read .between gap ('/' :: '*' :: (body ++ '*' :: '/' :: cs)) o =
      read .between (gap.afterComment start (GapPiece.blockComment body).isDoc (body.contains '\n')
        (o + byteLength body + 4))
        cs (o + byteLength body + 4))
    (h : Finds (gap.afterComment start (GapPiece.blockComment body).isDoc (body.contains '\n')
      (o + byteLength body + 4)) cs
      (o + byteLength body + 4) ps r) :
    Finds gap ('/' :: '*' :: (body ++ '*' :: '/' :: cs)) o (.blockComment body :: ps) r := by
  have hlength : o + byteLength (GapPiece.blockComment body).chars = o + byteLength body + 4 := by
    simp [chars, show '/'.utf8Size = 1 from rfl, show '*'.utf8Size = 1 from rfl]
    omega
  have hcat : (GapPiece.blockComment body).chars ++ cs =
    '/' :: '*' :: (body ++ '*' :: '/' :: cs) := by simp [chars]
  rw [← hcat]
  refine (hlength ▸ h).cons hbody ?_ (lineBreak_afterComment _ _ _ _ _) ?_
  · rw [hcat, hread, hlength]
  · rw [doc_afterComment, hstart, hlength]

theorem Finds.openComment {gap : Gap} {cs : List Char} {o : Nat} (hbody : ¬['*', '/'] <:+: cs)
    {start : Cursor} (hstart : start.offset = o)
    (hread : read .between gap ('/' :: '*' :: cs) o =
      ({ gap with openComment := some start.offset }, ⟨[], o + 2 + byteLength cs⟩)) :
    Finds gap ('/' :: '*' :: cs) o [.openComment cs] [] := by
  have hlength : o + byteLength (spell [.openComment cs]) = o + 2 + byteLength cs := by
    simp [chars, show '/'.utf8Size = 1 from rfl, show '*'.utf8Size = 1 from rfl]
    omega
  exact {
    cs_eq := by simp [chars]
    areSound := ⟨⟨hbody, rfl⟩, trivial⟩
    not_canStart := not_canStart_nil _
    stop_eq := by rw [hread, hlength]
    lineBreak_eq := by rw [hread]; exact (Bool.or_false _).symm
    doc_eq := by rw [hread]; rfl
    openComment_le := by
      rw [hread, hstart, hlength]
      rintro _ ⟨⟩
      omega }

/-- Reading a gap passes some pieces, and finds out whether a line ends in one of them and which
documentation comment is the last. -/
theorem exists_finds (gap : Gap) (hgap : gap.openComment = none) (cs : List Char) (o : Nat) :
    ∃ ps r, Finds gap cs o ps r := by
  induction hlength : cs.length using Nat.strong_induction_on generalizing gap cs o with
  | _ n ih =>
  subst hlength
  match cs with
  | [] => exact ⟨[], [], .nil hgap (not_canStart_nil o) rfl⟩
  | c :: cs =>
    by_cases hblank : isLineEnd c = true ∨ isSeparator c = true
    · obtain ⟨ps, r, h⟩ := ih cs.length (Nat.lt_succ_self _)
        { gap with lineBreak := gap.lineBreak || isLineEnd c } hgap cs
        (o + c.utf8Size) rfl
      exact ⟨_, r, h.blank hblank⟩
    rw [not_or, Bool.not_eq_true, Bool.not_eq_true] at hblank
    -- what opens a comment is tried in the order of the scanner
    by_cases hslash : c = '/' ∧ cs.head? = some '/'
    · obtain ⟨rfl, hhead⟩ := hslash
      obtain ⟨cs, rfl⟩ := List.head?_eq_some_iff.1 hhead
      obtain ⟨body, r, rfl, hbody, hread⟩ := read_lineComment gap cs (o + 2)
      obtain ⟨ps, r', h⟩ := ih r.length (by simp; omega) gap hgap r (o + 2 + byteLength body) rfl
      exact ⟨_, r', h.restOfLine (p := .lineComment body) rfl ⟨rfl, rfl⟩ rfl rfl hbody rfl hread⟩
    by_cases hshebang : c = '#' ∧ o = 0 ∧ cs.head? = some '!'
    · obtain ⟨rfl, rfl, hhead⟩ := hshebang
      obtain ⟨cs, rfl⟩ := List.head?_eq_some_iff.1 hhead
      obtain ⟨body, r, rfl, hbody, hread⟩ := read_lineComment gap cs (0 + 2)
      obtain ⟨ps, r', h⟩ := ih r.length (by simp; omega) gap hgap r (0 + 2 + byteLength body) rfl
      exact ⟨_, r', h.restOfLine (p := .shebang body) rfl ⟨rfl, rfl⟩ rfl rfl ⟨rfl, hbody⟩ rfl hread⟩
    by_cases hstar : c = '/' ∧ cs.head? = some '*'
    · obtain ⟨rfl, hhead⟩ := hstar
      obtain ⟨cs, rfl⟩ := List.head?_eq_some_iff.1 hhead
      rcases read_blockComment ⟨'/' :: '*' :: cs, o⟩ (opensDoc ('/' :: '*' :: cs)) false gap cs
        (o + 2) with
        ⟨body, r, rfl, hbody, hread⟩ | ⟨hopen, hread⟩
      · rw [opensDoc_body hbody, Bool.false_or] at hread
        have hstart : (Cursor.mk ('/' :: '*' :: (body ++ '*' :: '/' :: r)) o).offset = o := rfl
        have hclosed := read_opening gap (body ++ '*' :: '/' :: r) o
        rw [opensDoc_body hbody, hread,
          show o + 2 + byteLength body + 1 = o + byteLength body + 3 by omega] at hclosed
        generalize Cursor.mk ('/' :: '*' :: (body ++ '*' :: '/' :: r)) o = start at hstart hclosed
        obtain ⟨ps, r', h⟩ := ih r.length (by simp; omega)
          (gap.afterComment start (blockComment body).isDoc (body.contains '\n')
            (o + byteLength body + 4))
          ((openComment_afterComment _ _ _ _ _).trans hgap) r (o + byteLength body + 4) rfl
        exact ⟨_, r', h.blockComment hbody hstart hclosed⟩
      · exact ⟨_, [], .openComment hopen rfl ((read_opening gap cs o).trans hread)⟩
    -- nothing opens here: the gap ends
    refine ⟨[], c :: cs, .nil hgap ?_ ?_⟩
    · rintro ⟨p, r, heq, hp⟩
      cases p <;> simp only [chars, List.cons_append, List.nil_append, List.cons.injEq] at heq
      case blank x =>
        have hx : isLineEnd x = true ∨ isSeparator x = true := lineEnd_or_separator hp
        rw [← heq.1, hblank.1, hblank.2] at hx
        simp at hx
      case lineComment => exact hslash ⟨heq.1, by rw [heq.2]; rfl⟩
      case shebang => exact hshebang ⟨heq.1, hp.1, by rw [heq.2]; rfl⟩
      case blockComment | openComment => exact hstar ⟨heq.1, by rw [heq.2]; rfl⟩
    · have hno : (c == '#' && o == 0 && cs.head? == some '!') = false := by
        rw [Bool.eq_false_iff]
        simpa [and_assoc] using hshebang
      simp [read, hblank, hslash, hstar, hno]

end Gap

end DeclBundle
