import DeclBundle.Json.Relaxed
import DeclBundle.Proofs.JsonTexts

/-!
# The plain text of a text with comments

A relaxed text of a JSON value has comments among the blanks in its gaps, and may have a comma
behind the last item of an array or object (`RelaxedJson.IsRelaxed`). Its plain text is plain JSON
of the same value, with every string and number as it was written; a text that is plain already is
its own plain text; and in no text at all does a string literal change
(`RelaxedJson.plainText_laws`). The induction is over the texts of a value, with what follows the
text kept apart, since a comma goes or stays by what follows it (`RelaxedJson.Becomes`).
-/

set_option autoImplicit false

namespace DeclBundle.RelaxedJson

open Text WrittenJson

/-- A gap in JSON with comments: blanks, line comments up to their line end, and block comments. -/
inductive IsRelaxedGap : List Char → Prop where
  | nil : IsRelaxedGap []
  | blank {c : Char} {gap : List Char} (hc : JsonValue.isSpace c = true) (h : IsRelaxedGap gap) :
      IsRelaxedGap (c :: gap)
  | lineComment {body gap : List Char} (hbody : '\n' ∉ body) (h : IsRelaxedGap gap) :
      IsRelaxedGap ('/' :: '/' :: (body ++ '\n' :: gap))
  | blockComment {body gap : List Char} (hbody : ¬['*', '/'] <:+: body) (h : IsRelaxedGap gap) :
      IsRelaxedGap ('/' :: '*' :: (body ++ '*' :: '/' :: gap))

/-- The texts of a value with comments and with commas behind last items. -/
def IsRelaxed : WrittenJson → List Char → Prop := IsDocument IsRelaxedGap True

theorem isRelaxedGap_of_isBlankGap {gap : List Char} (h : IsBlankGap gap) : IsRelaxedGap gap := by
  induction gap with
  | nil => exact .nil
  | cons c gap ih =>
    exact .blank (h c List.mem_cons_self) (ih fun d hd => h d (List.mem_cons_of_mem c hd))

/-! ## Comments -/

-- the equations of the two machines are made here, once for the lemmas below
attribute [local simp] withoutComments withoutTrailingCommas

theorem withoutComments_cons {c : Char} (hc : c ≠ '/') (r : List Char) :
    withoutComments .plain (c :: r) =
      c :: withoutComments (if c = '\x22' then .string else .plain) r := by
  rw [withoutComments]
  · exact fun _ heq => absurd heq hc
  · exact fun _ heq => absurd heq hc

theorem withoutComments_lineComment {body : List Char} (hbody : '\n' ∉ body) (r : List Char) :
    withoutComments .lineComment (body ++ '\n' :: r) = '\n' :: withoutComments .plain r := by
  induction body with
  | nil => rfl
  | cons c body ih =>
    rw [List.mem_cons, not_or] at hbody
    rw [List.cons_append, withoutComments, if_neg (Ne.symm hbody.1), ih hbody.2]

theorem withoutComments_blockComment {body : List Char} (hbody : ¬['*', '/'] <:+: body)
    (r : List Char) :
    withoutComments .blockComment (body ++ '*' :: '/' :: r) =
      body.filter (· = '\n') ++ withoutComments .plain r := by
  induction body with
  | nil => rfl
  | cons c body ih =>
    have hnext : ¬['*', '/'] <:+: body := fun h => hbody (h.trans (List.suffix_cons c body).isInfix)
    -- the comment does not end before its last two characters
    have hend (rest : List Char) : c = '*' → body ++ '*' :: '/' :: r = '/' :: rest → False := by
      rintro rfl heq
      cases body with
      | nil => cases heq
      | cons d body =>
        obtain rfl := (List.cons.inj heq).1
        exact hbody ⟨[], body, rfl⟩
    rw [List.cons_append, withoutComments, ih hnext]
    · by_cases hc : c = '\n' <;> simp [hc]
    · exact hend

/-- Without its comments a gap is blank. -/
theorem IsRelaxedGap.exists_blanks {gap : List Char} (h : IsRelaxedGap gap) :
    ∃ blanks, IsBlankGap blanks ∧
      (∀ r, withoutComments .plain (gap ++ r) = blanks ++ withoutComments .plain r) ∧
      (IsBlankGap gap → blanks = gap) := by
  induction h with
  | nil => exact ⟨[], List.forall_mem_nil _, fun r => rfl, fun _ => rfl⟩
  | @blank c gap hc _ ih =>
    obtain ⟨blanks, hblanks, hgap, hsame⟩ := ih
    have hmark : c ≠ '/' ∧ c ≠ '\x22' := by
      constructor <;> (rintro rfl; exact absurd hc (by decide))
    refine ⟨c :: blanks, List.forall_mem_cons.2 ⟨hc, hblanks⟩, fun r => ?_, fun h => ?_⟩
    · rw [List.cons_append, withoutComments_cons hmark.1, if_neg hmark.2, hgap, List.cons_append]
    · rw [hsame fun d hd => h d (List.mem_cons_of_mem c hd)]
  | @lineComment body gap hbody _ ih =>
    obtain ⟨blanks, hblanks, hgap, -⟩ := ih
    refine ⟨'\n' :: blanks, List.forall_mem_cons.2 ⟨by decide, hblanks⟩, fun r => ?_, fun h => ?_⟩
    · rw [List.cons_append, List.cons_append, List.append_assoc, List.cons_append, withoutComments,
        withoutComments_lineComment hbody, hgap, List.cons_append]
    · exact absurd (h '/' List.mem_cons_self) (by decide)
  | @blockComment body gap hbody _ ih =>
    obtain ⟨blanks, hblanks, hgap, -⟩ := ih
    -- of a block comment its line feeds are left
    have hlines : IsBlankGap (body.filter (· = '\n')) := by
      intro c hc
      obtain rfl := of_decide_eq_true (List.mem_filter.1 hc).2
      decide
    refine ⟨body.filter (· = '\n') ++ blanks, fun c hc => ?_, fun r => ?_, fun h => ?_⟩
    · exact (List.mem_append.1 hc).elim (hlines c) (hblanks c)
    · rw [List.cons_append, List.cons_append, List.append_assoc, List.cons_append, List.cons_append,
        withoutComments, withoutComments_blockComment hbody, hgap, List.append_assoc]
    · exact absurd (h '/' List.mem_cons_self) (by decide)

/-! ## Tokens -/

/-- The plain text, as characters. -/
def plainChars (cs : List Char) : List Char :=
  withoutTrailingCommas false (withoutComments .plain cs)

theorem plainText_eq (text : String) : plainText text = String.ofList (plainChars text.toList) :=
  rfl

theorem withoutTrailingCommas_cons {c : Char} (hquote : c ≠ '\x22') (hcomma : c ≠ ',')
    (r : List Char) :
    withoutTrailingCommas false (c :: r) = c :: withoutTrailingCommas false r := by
  rw [withoutTrailingCommas, if_neg fun h => hcomma h.1, beq_eq_false_iff_ne.2 hquote]

/-- No character starts a comment or a string, and none is a comma. -/
def IsUnmarked (cs : List Char) : Prop := ∀ c ∈ cs, c ∉ ['/', '\x22', ',']

instance (cs : List Char) : Decidable (IsUnmarked cs) := List.decidableBAll _ cs

/-- A character that starts neither a comment nor a string and is no comma stays. -/
theorem plainChars_cons {c : Char} (hc : c ∉ ['/', '\x22', ',']) (r : List Char) :
    plainChars (c :: r) = c :: plainChars r := by
  simp only [List.mem_cons, List.not_mem_nil, or_false, not_or] at hc
  obtain ⟨hslash, hquote, hcomma⟩ := hc
  rw [plainChars, withoutComments_cons hslash, if_neg hquote,
    withoutTrailingCommas_cons hquote hcomma]
  rfl

theorem plainChars_append {text : List Char} (htext : IsUnmarked text) (r : List Char) :
    plainChars (text ++ r) = text ++ plainChars r := by
  induction text with
  | nil => rfl
  | cons c text ih =>
    obtain ⟨hc, htext⟩ := List.forall_mem_cons.1 htext
    rw [List.cons_append, plainChars_cons hc, ih htext, List.cons_append]

theorem withoutTrailingCommas_blanks {blanks : List Char} (h : IsBlankGap blanks) (r : List Char) :
    withoutTrailingCommas false (blanks ++ r) = blanks ++ withoutTrailingCommas false r := by
  induction blanks with
  | nil => rfl
  | cons c blanks ih =>
    obtain ⟨hc, hblanks⟩ := List.forall_mem_cons.1 h
    have hmark : c ≠ '\x22' ∧ c ≠ ',' := by
      constructor <;> (rintro rfl; exact absurd hc (by decide))
    rw [List.cons_append, withoutTrailingCommas_cons hmark.1 hmark.2, ih hblanks, List.cons_append]

/-- The plain text of a gap is blank. -/
theorem IsRelaxedGap.exists_plainChars {gap : List Char} (h : IsRelaxedGap gap) :
    ∃ blanks, IsBlankGap blanks ∧ (∀ r, plainChars (gap ++ r) = blanks ++ plainChars r) ∧
      (IsBlankGap gap → blanks = gap) := by
  obtain ⟨blanks, hblanks, hgap, hsame⟩ := h.exists_blanks
  exact ⟨blanks, hblanks,
    fun r => by rw [plainChars, hgap, withoutTrailingCommas_blanks hblanks, plainChars], hsame⟩

/-- What keeps each character that is neither a quote nor a backslash, and each backslash with the
character behind it, keeps what stands between the quotes of a string. -/
theorem keeps_body {f : List Char → List Char}
    (hchar : ∀ c r, c ≠ '\x22' → c ≠ '\\' → f (c :: r) = c :: f r) (hescape : ∀ c r,
      f ('\\' :: c :: r) = '\\' :: c :: f r) {body : List Char} (h : IsBody body) (r : List Char) :
    f (body ++ r) = body ++ f r := by
  induction h with
  | nil => rfl
  | char hquote hbackslash _ _ ih =>
    rw [List.cons_append, hchar _ _ hquote hbackslash, ih, List.cons_append]
  | escape _ _ ih => simp only [List.cons_append, hescape, ih]
  | @unicode a b c d body hdigits _ ih =>
    have hkeep (x : Char) (hx : x ∈ [a, b, c, d]) (r : List Char) : f (x :: r) = x :: f r := by
      have hdigit := hdigits x hx
      refine hchar x r ?_ ?_ <;> (rintro rfl; exact absurd hdigit (by decide))
    simp only [List.cons_append, hescape, hkeep a (by simp), hkeep b (by simp), hkeep c (by simp),
      hkeep d (by simp), ih]

theorem withoutComments_body {body : List Char} (h : IsBody body) (r : List Char) :
    withoutComments .string (body ++ '\x22' :: r) = body ++ '\x22' :: withoutComments .plain r := by
  refine keeps_body (fun c r hquote hbackslash => ?_) (fun c r => ?_) h ('\x22' :: r)
  · rw [withoutComments, if_neg hquote]
    exact fun _ _ heq => absurd heq hbackslash
  · rw [withoutComments]

theorem withoutTrailingCommas_body {body : List Char} (h : IsBody body) (r : List Char) :
    withoutTrailingCommas true (body ++ '\x22' :: r) =
      body ++ '\x22' :: withoutTrailingCommas false r := by
  refine keeps_body (fun c r hquote hbackslash => ?_) (fun c r => ?_) h ('\x22' :: r)
  · rw [withoutTrailingCommas, bne_iff_ne.2 hquote]
    exact fun _ _ heq => absurd heq hbackslash
  · rw [withoutTrailingCommas]

/-- A string stays. -/
theorem plainChars_quoted {body : List Char} (h : IsBody body) (r : List Char) :
    plainChars (quoted body ++ r) = quoted body ++ plainChars r := by
  have htext : quoted body ++ r = '\x22' :: (body ++ '\x22' :: r) := by simp [quoted]
  have hstart (cs : List Char) : withoutTrailingCommas false ('\x22' :: cs) =
    '\x22' :: withoutTrailingCommas true cs := rfl
  rw [plainChars, htext, withoutComments_cons (by decide), if_pos rfl,
    withoutComments_body h, hstart,
    withoutTrailingCommas_body h]
  simp [quoted, plainChars]

/-! ## Commas -/

theorem isBlank_of_isSpace {c : Char} (h : JsonValue.isSpace c = true) : isBlank c = true := by
  simp only [JsonValue.isSpace, Bool.or_eq_true, beq_iff_eq] at h
  rcases h with ((rfl | rfl) | rfl) | rfl <;> decide

/-- Behind a gap stands the character that decides about a comma. -/
theorem closesNext_gap {gap : List Char} (hgap : IsRelaxedGap gap) {c : Char}
    (hc : isBlank c = false) (hslash : c ≠ '/') (r : List Char) :
    closesNext (withoutComments .plain (gap ++ c :: r)) = (c == ']' || c == '\x7d') := by
  obtain ⟨blanks, hblanks, heq, -⟩ := hgap.exists_blanks
  have hskip : ∀ d ∈ blanks, isBlank d = true := fun d hd => isBlank_of_isSpace (hblanks d hd)
  rw [heq, withoutComments_cons hslash, closesNext, List.dropWhile_append_of_pos hskip,
    List.dropWhile_cons_of_neg (by simp [hc])]

theorem plainChars_comma (r : List Char) : plainChars (',' :: r) =
    if closesNext (withoutComments .plain r) then plainChars r else ',' :: plainChars r := by
  have hfirst : withoutComments .plain (',' :: r) = ',' :: withoutComments .plain r :=
    withoutComments_cons (by decide) r
  rw [plainChars, hfirst, withoutTrailingCommas]
  simp only [true_and]
  rfl

theorem isBlank_of_visible {c : Char} (hlow : 0x20 < c.toNat) (hhigh : c.toNat < 0x80) :
    isBlank c = false := by
  simp only [isBlank, Bool.or_eq_false_iff, Bool.and_eq_false_iff, decide_eq_false_iff_not,
    beq_eq_false_iff_ne]
  omega

theorem isBlank_of_isDigit {c : Char} (h : c.isDigit = true) : isBlank c = false := by
  simp only [Char.isDigit, Bool.and_eq_true, decide_eq_true_eq, ge_iff_le,
    UInt32.le_iff_toNat_le] at h
  have hlow : 48 ≤ c.toNat := h.1
  have hhigh : c.toNat ≤ 57 := h.2
  exact isBlank_of_visible (by omega) (by omega)

theorem isBlank_of_isStart {c : Char} (h : IsStart c) : isBlank c = false := by
  rcases h with rfl | rfl | rfl | rfl | hdigit | hword
  · decide
  · decide
  · decide
  · decide
  · exact isBlank_of_isDigit hdigit
  · simp only [List.mem_cons, List.not_mem_nil, or_false] at hword
    rcases hword with rfl | rfl | rfl <;> decide

/-- What follows ends an array or an object. -/
def Closes (r : List Char) : Prop := ∃ c ∈ [']', '\x7d'], ∃ rest, r = c :: rest

/-- A comma goes when the next token ends an array or an object. -/
theorem plainChars_comma_closes {gap : List Char} (hgap : IsRelaxedGap gap) {r : List Char}
    (hr : Closes r) :
    plainChars (',' :: (gap ++ r)) = plainChars (gap ++ r) := by
  obtain ⟨c, hc, rest, rfl⟩ := hr
  have hcloses : (isBlank c = false ∧ c ≠ '/') ∧ (c == ']' || c == '\x7d') = true := by
    simp only [List.mem_cons, List.not_mem_nil, or_false] at hc
    rcases hc with rfl | rfl <;> decide
  rw [plainChars_comma, closesNext_gap hgap hcloses.1.1 hcloses.1.2, if_pos hcloses.2]

/-- A comma stays when a value or a member follows. -/
theorem plainChars_comma_isStart {gap : List Char} (hgap : IsRelaxedGap gap) {c : Char}
    (hc : IsStart c) (r : List Char) :
    plainChars (',' :: (gap ++ c :: r)) = ',' :: plainChars (gap ++ c :: r) := by
  have hother : ∀ d ∈ ['/', ']', '\x7d'], c ≠ d := by
    rintro d hd rfl
    simp only [List.mem_cons, List.not_mem_nil, or_false] at hd
    rcases hd with rfl | rfl | rfl <;> exact absurd hc (by decide)
  simp only [List.forall_mem_cons, List.not_mem_nil, false_implies, implies_true,
    and_true] at hother
  obtain ⟨hslash, hbracket, hbrace⟩ := hother
  rw [plainChars_comma, closesNext_gap hgap (isBlank_of_isStart hc) hslash,
    if_neg (by simp [hbracket, hbrace])]

/-! ## Numbers -/

theorem IsUnmarked.append {cs ds : List Char} (hcs : IsUnmarked cs) (hds : IsUnmarked ds) :
    IsUnmarked (cs ++ ds) :=
  fun c hc => (List.mem_append.1 hc).elim (hcs c) (hds c)

theorem IsUnmarked.cons {c : Char} {cs : List Char} (hc : c ∉ ['/', '\x22', ','])
    (hcs : IsUnmarked cs) : IsUnmarked (c :: cs) :=
  List.forall_mem_cons.2 ⟨hc, hcs⟩

theorem isUnmarked_digits {cs : List Char} (h : IsDigits cs) : IsUnmarked cs := by
  intro c hc hmark
  have hdigit := h.2 c hc
  simp only [List.mem_cons, List.not_mem_nil, or_false] at hmark
  rcases hmark with rfl | rfl | rfl <;> exact absurd hdigit (by decide)

theorem isUnmarked_number {cs : List Char} (h : IsNumber cs) : IsUnmarked cs := by
  obtain ⟨sign, hsign, whole, fraction, exponent, hwhole, hfraction, hexponent, rfl⟩ := h
  have hsign' : IsUnmarked sign := by
    simp only [List.mem_cons, List.not_mem_nil, or_false] at hsign
    rcases hsign with rfl | rfl <;> decide
  have hwhole' : IsUnmarked whole := by
    rcases hwhole with rfl | ⟨hdigits, -⟩
    · decide
    · exact isUnmarked_digits hdigits
  have hfraction' : IsUnmarked fraction := by
    rcases hfraction with rfl | ⟨ds, hdigits, rfl⟩
    · decide
    · exact (isUnmarked_digits hdigits).cons (by decide)
  have hexponent' : IsUnmarked exponent := by
    rcases hexponent with rfl | ⟨e, he, sign', hsign', ds, hdigits, rfl⟩
    · decide
    · simp only [List.mem_cons, List.not_mem_nil, or_false] at he hsign'
      refine .cons (by rcases he with rfl | rfl <;> decide) (.append ?_ (isUnmarked_digits hdigits))
      rcases hsign' with rfl | rfl | rfl <;> decide
  exact hsign'.append (hwhole'.append (hfraction'.append hexponent'))

/-! ## Texts -/

/-- What can follow a text of the part: the end of its array or object for items and members, and
anything else for a value and for a member. -/
def CanFollow : Part → List Char → Prop
  | .value _, _ | .member _ _, _ => True
  | .items _, r | .members _, r => Closes r

/-- The text of a part becomes a plain text of this part, in front of everything that can follow it;
when `same` holds, it stays as it is. -/
structure Becomes (same : Prop) (p : Part) (text plain : List Char) : Prop where
  isText : IsText IsBlankGap False p plain
  plainChars_append : ∀ r, CanFollow p r → plainChars (text ++ r) = plain ++ plainChars r
  eq_of_same : same → plain = text

/-- The gaps and the commas that are permitted are those of relaxed texts; when `same` holds, they
are those of plain texts. -/
structure Permits (IsGap : List Char → Prop) (canTrail same : Prop) : Prop where
  isRelaxedGap : ∀ gap, IsGap gap → IsRelaxedGap gap
  isBlankGap_of_same : same → ∀ gap, IsGap gap → IsBlankGap gap
  not_canTrail_of_same : same → ¬canTrail

theorem permits_relaxed : Permits IsRelaxedGap True False := ⟨fun _ => id, False.elim, False.elim⟩

theorem permits_plain : Permits IsBlankGap False True :=
  ⟨fun _ => isRelaxedGap_of_isBlankGap, fun _ _ => id, fun _ => id⟩

section Texts

variable {IsGap : List Char → Prop} {canTrail same : Prop} (hp : Permits IsGap canTrail same)

include hp

theorem Permits.exists_blanks {gap : List Char} (h : IsGap gap) : ∃ blanks, IsBlankGap blanks ∧
    (∀ r, plainChars (gap ++ r) = blanks ++ plainChars r) ∧ (same → blanks = gap) := by
  obtain ⟨blanks, hblanks, heq, hsame⟩ := (hp.isRelaxedGap gap h).exists_plainChars
  exact ⟨blanks, hblanks, heq, fun hs => hsame (hp.isBlankGap_of_same hs gap h)⟩

/-- What stands behind a last item becomes blank. -/
theorem Permits.exists_blanks_tail {tail : List Char} (h : IsTail IsGap canTrail tail) :
    ∃ blanks, IsBlankGap blanks ∧
    (∀ r, Closes r → plainChars (tail ++ r) = blanks ++ plainChars r) ∧ (same → blanks = tail) := by
  rcases h with htail | ⟨hcomma, before, after, hbefore, hafter, rfl⟩
  · obtain ⟨blanks, hblanks, heq, hsame⟩ := hp.exists_blanks htail
    exact ⟨blanks, hblanks, fun r _ => heq r, hsame⟩
  · obtain ⟨front, hfront, hfronteq, -⟩ := hp.exists_blanks hbefore
    obtain ⟨back, hback, hbackeq, -⟩ := hp.exists_blanks hafter
    refine ⟨front ++ back, fun c hc => (List.mem_append.1 hc).elim (hfront c) (hback c),
      fun r hr => ?_,
      fun hs => absurd hcomma (hp.not_canTrail_of_same hs)⟩
    rw [List.append_assoc, List.cons_append, hfronteq,
      plainChars_comma_closes (hp.isRelaxedGap after hafter) hr, hbackeq, List.append_assoc]

/-- A last item or member, by the rule that makes the plain text. -/
theorem Permits.exists_becomes_last {p q : Part} {before text tail : List Char}
    (hbefore : IsGap before) (htail : IsTail IsGap canTrail tail)
    (htext : ∃ plain, Becomes same p text plain) (hfollow : ∀ r, CanFollow p r)
    (hcloses : ∀ r, CanFollow q r → Closes r) (rule : ∀ {before text tail}, IsBlankGap before →
      IsText IsBlankGap False p text → IsTail IsBlankGap False tail →
      IsText IsBlankGap False q (before ++ (text ++ tail))) :
    ∃ plain, Becomes same q (before ++ (text ++ tail)) plain := by
  obtain ⟨front, hfront, hfronteq, hfrontsame⟩ := hp.exists_blanks hbefore
  obtain ⟨back, hback, hbackeq, hbacksame⟩ := hp.exists_blanks_tail htail
  obtain ⟨plain, hplain, heq, hsame⟩ := htext
  refine ⟨_, rule hfront hplain (.inl hback), fun r hr => ?_,
    fun hs => by rw [hfrontsame hs, hbacksame hs, hsame hs]⟩
  simp only [List.append_assoc]
  rw [hfronteq, heq _ (hfollow _), hbackeq r (hcloses r hr)]

/-- An item or member with others behind it, by the rule that makes the plain text. The comma stays,
since a first character of the next one follows. -/
theorem Permits.exists_becomes_next {p q q' : Part} {before text after rest : List Char}
    (hbefore : IsGap before) (hafter : IsGap after) (htext : ∃ plain, Becomes same p text plain)
    (hrest : ∃ plain, Becomes same q rest plain) (hstart : ∃ gap c rest', rest = gap ++ c :: rest' ∧
      IsGap gap ∧ IsStart c) (hfollow : ∀ r, CanFollow p r)
    (hcloses : ∀ r, CanFollow q' r → CanFollow q r)
    (rule : ∀ {before text after rest}, IsBlankGap before → IsText IsBlankGap False p text →
      IsBlankGap after →
      IsText IsBlankGap False q rest →
        IsText IsBlankGap False q' (before ++ (text ++ (after ++ ',' :: rest)))) :
    ∃ plain, Becomes same q' (before ++ (text ++ (after ++ ',' :: rest))) plain := by
  obtain ⟨front, hfront, hfronteq, hfrontsame⟩ := hp.exists_blanks hbefore
  obtain ⟨back, hback, hbackeq, hbacksame⟩ := hp.exists_blanks hafter
  obtain ⟨plain, hplain, heq, hsame⟩ := htext
  obtain ⟨more, hmore, hmoreeq, hmoresame⟩ := hrest
  obtain ⟨gap, c, rest', hresteq, hgap, hc⟩ := hstart
  refine ⟨_, rule hfront hplain hback hmore, fun r hr => ?_,
    fun hs => by rw [hfrontsame hs, hbacksame hs, hsame hs, hmoresame hs]⟩
  have hcomma : plainChars (',' :: (rest ++ r)) = ',' :: plainChars (rest ++ r) := by
    rw [hresteq, List.append_assoc, List.cons_append]
    exact plainChars_comma_isStart (hp.isRelaxedGap gap hgap) hc _
  simp only [List.cons_append, List.append_assoc]
  rw [hfronteq, heq _ (hfollow _), hbackeq, hcomma, hmoreeq r (hcloses r hr)]

omit hp

/-- A value whose text has no marks stays as it is. -/
theorem becomes_unmarked {v : WrittenJson} {text : List Char}
    (h : IsText IsBlankGap False (.value v) text) (htext : IsUnmarked text) :
    Becomes same (.value v) text text :=
  ⟨h, fun r _ => plainChars_append htext r, fun _ => rfl⟩

/-- An array or an object, from what stands between its marks. -/
theorem becomes_enclosed {v : WrittenJson} {text plain : List Char} {first last : Char}
    (h : IsText IsBlankGap False (.value v) (first :: (plain ++ [last])))
    (hfirst : first ∉ ['/', '\x22', ',']) (hlast : last ∈ [']', '\x7d'])
    (heq : ∀ r, Closes r → plainChars (text ++ r) = plain ++ plainChars r)
    (hsame : same → plain = text) :
    Becomes same (.value v) (first :: (text ++ [last])) (first :: (plain ++ [last])) := by
  refine ⟨h, fun r _ => ?_, fun hs => by rw [hsame hs]⟩
  have hmark : last ∉ ['/', '\x22', ','] := by
    simp only [List.mem_cons, List.not_mem_nil, or_false] at hlast
    rcases hlast with rfl | rfl <;> decide
  simp only [List.cons_append, List.append_assoc, List.nil_append]
  rw [plainChars_cons hfirst, heq _ ⟨last, hlast, r, rfl⟩, plainChars_cons hmark]

include hp

/-- Every text of a part becomes a plain text of this part. By induction on how the text is made. -/
theorem Permits.exists_becomes {p : Part} {text : List Char} (h : IsText IsGap canTrail p text) :
    ∃ plain, Becomes same p text plain := by
  induction h with
  | null => exact ⟨_, becomes_unmarked .null (by decide)⟩
  | bool b => exact ⟨_, becomes_unmarked (.bool b) (by cases b <;> decide)⟩
  | number hnumber => exact ⟨_, becomes_unmarked (.number hnumber) (isUnmarked_number hnumber)⟩
  | string hbody => exact ⟨_, .string hbody, fun r _ => plainChars_quoted hbody r, fun _ => rfl⟩
  | emptyArray hgap =>
    obtain ⟨blanks, hblanks, heq, hsame⟩ := hp.exists_blanks hgap
    exact ⟨_,
      becomes_enclosed (.emptyArray hblanks) (by decide) (by decide) (fun r _ => heq r) hsame⟩
  | array _ ih =>
    obtain ⟨plain, hplain, heq, hsame⟩ := ih
    exact ⟨_, becomes_enclosed (.array hplain) (by decide) (by decide) heq hsame⟩
  | emptyObject hgap =>
    obtain ⟨blanks, hblanks, heq, hsame⟩ := hp.exists_blanks hgap
    exact ⟨_,
      becomes_enclosed (.emptyObject hblanks) (by decide) (by decide) (fun r _ => heq r) hsame⟩
  | object _ ih =>
    obtain ⟨plain, hplain, heq, hsame⟩ := ih
    exact ⟨_, becomes_enclosed (.object hplain) (by decide) (by decide) heq hsame⟩
  | member hkey hbefore hafter _ ih =>
    obtain ⟨front, hfront, hfronteq, hfrontsame⟩ := hp.exists_blanks hbefore
    obtain ⟨back, hback, hbackeq, hbacksame⟩ := hp.exists_blanks hafter
    obtain ⟨plain, hplain, heq, hsame⟩ := ih
    refine ⟨_, .member hkey hfront hback hplain, fun r _ => ?_,
      fun hs => by rw [hfrontsame hs, hbacksame hs, hsame hs]⟩
    -- the key is a literal and stays, and the colon belongs to no gap
    simp only [List.cons_append, List.append_assoc]
    rw [plainChars_quoted hkey, hfronteq, plainChars_cons (by decide), hbackeq, heq r trivial]
  | lastItem hbefore _ htail ih =>
    exact hp.exists_becomes_last hbefore htail ih (fun _ => trivial) (fun _ => id) .lastItem
  | nextItem hbefore _ hafter hrest ih ihrest =>
    exact hp.exists_becomes_next hbefore hafter ih ihrest hrest.exists_start_items (fun _ =>
      trivial) (fun _ => id) .nextItem
  | lastMember hbefore _ htail ih =>
    exact hp.exists_becomes_last hbefore htail ih (fun _ => trivial) (fun _ => id) .lastMember
  | nextMember hbefore _ hafter hrest ih ihrest =>
    exact hp.exists_becomes_next hbefore hafter ih ihrest hrest.exists_start_members (fun _ =>
      trivial) (fun _ => id) .nextMember

/-- The plain text of a document is a plain text of its value. -/
theorem Permits.isPlain_plainChars {v : WrittenJson} {cs : List Char}
    (h : IsDocument IsGap canTrail v cs) :
    IsPlain v (plainChars cs) ∧ (same → plainChars cs = cs) := by
  obtain ⟨before, text, after, hbefore, htext, hafter, rfl⟩ := h
  obtain ⟨front, hfront, hfronteq, hfrontsame⟩ := hp.exists_blanks hbefore
  obtain ⟨back, hback, hbackeq, hbacksame⟩ := hp.exists_blanks hafter
  obtain ⟨plain, hplain, heq, hsame⟩ := hp.exists_becomes htext
  have hend : plainChars after = back := by
    simpa [plainChars, withoutComments, withoutTrailingCommas] using hbackeq []
  have hchars : plainChars (before ++ (text ++ after)) = front ++ (plain ++ back) := by
    rw [hfronteq, heq _ trivial, hend]
  rw [hchars]
  exact ⟨⟨front, plain, back, hfront, hplain, hback, rfl⟩,
    fun hs => by rw [hfrontsame hs, hsame hs, hbacksame hs]⟩

end Texts

/-! ## String literals -/

/-- The string literals of a text with comments, one after the other, with their quotes. -/
def literals : Region → List Char → List Char
  | _, [] => []
  | .plain, '/' :: '/' :: r => literals .lineComment r
  | .plain, '/' :: '*' :: r => literals .blockComment r
  | .plain, c :: r => if c = '\x22' then c :: literals .string r else literals .plain r
  | .string, '\\' :: c :: r => '\\' :: c :: literals .string r
  | .string, c :: r => c :: literals (if c = '\x22' then .plain else .string) r
  | .lineComment, c :: r => literals (if c = '\n' then .plain else .lineComment) r
  | .blockComment, '*' :: '/' :: r => literals .plain r
  | .blockComment, _ :: r => literals .blockComment r

/-- The string literals of a text without comments. -/
def plainLiterals : (inString : Bool) → List Char → List Char
  | _, [] => []
  | true, '\\' :: c :: r => '\\' :: c :: plainLiterals true r
  | true, c :: r => c :: plainLiterals (c != '\x22') r
  | false, c :: r => if c = '\x22' then c :: plainLiterals true r else plainLiterals false r

/-- A character of a string that escapes nothing stands by itself, also in front of what is left of
the rest. -/
theorem plainLiterals_cons {c : Char} {r r' : List Char}
    (h : ∀ d rest, c = '\\' → r = d :: rest → False) (hr : r = [] → r' = []) :
    plainLiterals true (c :: r') = c :: plainLiterals (c != '\x22') r' := by
  rw [plainLiterals]
  rintro d rest hc rfl
  cases r with
  | nil => cases hr rfl
  | cons d r => exact h d r hc rfl

/-- Taking out comments keeps the string literals, from every region on. -/
theorem plainLiterals_withoutComments (region : Region) (cs : List Char) :
    plainLiterals (decide (region = .string)) (withoutComments region cs) = literals region cs := by
  induction region, cs using withoutComments.induct with
  | case1 region => cases region <;> rfl
  | case2 r ih => exact ih
  | case3 r ih => exact ih
  | case4 c r hline hblock ih =>
    rw [withoutComments, literals]
    · by_cases hquote : c = '\x22'
      · simpa [plainLiterals, hquote] using ih
      · simpa [plainLiterals, hquote] using ih
    all_goals assumption
  | case5 c r ih => rw [withoutComments, literals, ← ih]; rfl
  | case6 c r hescape ih =>
    rw [withoutComments, literals, ← ih]
    · -- nothing is left of an empty text in any region
      have hnil : r = [] → withoutComments (if c = '\x22' then .plain else .string) r = [] := by
        rintro rfl
        exact withoutComments.eq_1 _
      refine (plainLiterals_cons hescape hnil).trans ?_
      by_cases hquote : c = '\x22'
      · simp [hquote]
      · simp [hquote, bne_iff_ne.2 hquote]
    all_goals assumption
  | case7 r ih => exact ih
  | case8 c r hline ih => simpa [withoutComments, literals, hline] using ih
  | case9 r ih => exact ih
  | case10 r hend ih => exact ih
  | case11 c r hend hline ih =>
    rw [withoutComments, literals, if_neg hline]
    · exact ih
    all_goals assumption

/-- Taking out trailing commas keeps the string literals. -/
theorem plainLiterals_withoutTrailingCommas (inString : Bool) (cs : List Char) :
    plainLiterals inString (withoutTrailingCommas inString cs) = plainLiterals inString cs := by
  induction inString, cs using withoutTrailingCommas.induct with
  | case1 inString => cases inString <;> rfl
  | case2 c r ih => rw [withoutTrailingCommas, plainLiterals, plainLiterals, ih]
  | case3 c r hescape ih =>
    have hnil : r = [] → withoutTrailingCommas (c != '\x22') r = [] := by
      rintro rfl
      exact withoutTrailingCommas.eq_1 _
    rw [withoutTrailingCommas, plainLiterals_cons hescape hnil, ih, plainLiterals_cons hescape id]
    exact hescape
  | case4 c r hcomma ih =>
    rw [withoutTrailingCommas, if_pos hcomma, ih, hcomma.1]
    rfl
  | case5 c r hkeep ih =>
    rw [withoutTrailingCommas, if_neg hkeep, plainLiterals, plainLiterals]
    by_cases hquote : c = '\x22'
    · simpa [hquote] using ih
    · rw [beq_eq_false_iff_ne.2 hquote] at ih ⊢
      rw [if_neg hquote, if_neg hquote, ih]

/-- The plain text of a text with comments and last commas is plain JSON of the same value. A plain
text is its own plain text. In every text, whether it is JSON or not, the string literals stay as
they are. -/
theorem plainText_laws :
    (∀ v text, IsRelaxed v text.toList →
      IsPlain v (plainText text).toList ∧ JsonValue.ofText? (plainText text) = some v.value) ∧
    (∀ v text, IsPlain v text.toList → plainText text = text) ∧
    ∀ text, plainLiterals false (plainText text).toList = literals .plain text.toList := by
  refine ⟨fun v text h => ?_, fun v text h => ?_, fun text => ?_⟩
  · have hplain : IsPlain v (plainText text).toList := by
      rw [plainText_eq, String.toList_ofList]
      exact (permits_relaxed.isPlain_plainChars h).1
    have hread := ofText?_of_isPlain hplain
    rw [String.ofList_toList] at hread
    exact ⟨hplain, hread⟩
  · rw [plainText_eq, (permits_plain.isPlain_plainChars h).2 trivial, String.ofList_toList]
  · rw [plainText_eq, String.toList_ofList, plainChars, plainLiterals_withoutTrailingCommas]
    exact plainLiterals_withoutComments .plain text.toList

/-- A key that looks as if a comment started in it, between comments that look like the ends of a
string and of an array. -/
def commented : String := "// \"\n\x7b\"\\\",/*\":[1,/*],*/],\x7d"

/-- The value of the text. -/
def commentedValue : WrittenJson := .object [("\\\",/*".toList, .array [.number ['1']])]

/-- The text is one of its value. -/
theorem isRelaxed_commented : IsRelaxed commentedValue commented.toList := by
  have hkey : IsBody "\\\",/*".toList :=
    .escape rfl
      (.char (by decide) (by decide) (by decide) (.char (by decide) (by decide) (by decide)
      (.char (by decide) (by decide) (by decide) .nil)))
  have hwhole : IsWhole ['1'] := .inr ⟨⟨by decide, List.forall_mem_singleton.2 rfl⟩, by decide⟩
  have hone : IsNumber ['1'] := ⟨[], by decide, ['1'], [], [], hwhole, .inl rfl, .inl rfl, rfl⟩
  have hblock : IsRelaxedGap "/*],*/".toList :=
    @IsRelaxedGap.blockComment "],".toList [] (by decide) .nil
  have hline : IsRelaxedGap "// \"\n".toList :=
    @IsRelaxedGap.lineComment " \"".toList [] (by decide) .nil
  have hitems : IsText IsRelaxedGap True (.items [.number ['1']]) _ :=
    .lastItem .nil (.number hone) (.inr ⟨trivial, [], _, .nil, hblock, rfl⟩)
  have hmembers :
      IsText IsRelaxedGap True (.members [("\\\",/*".toList, .array [.number ['1']])]) _ :=
    .lastMember .nil (.member hkey .nil .nil (.array hitems))
      (.inr ⟨trivial, [], [], .nil, .nil, rfl⟩)
  exact ⟨_, _, [], hline, .object hmembers, .nil, by decide⟩

theorem plainText_laws_commented :
    IsRelaxed commentedValue commented.toList ∧ plainText commented = "\n\x7b\"\\\",/*\":[1]\x7d" ∧
      IsPlain commentedValue (plainText commented).toList ∧
      JsonValue.ofText? (plainText commented) = some (.object [(some "\",/*", .array [.number])]) ∧
      plainText (plainText commented) = plainText commented := by
  obtain ⟨hplain, hread⟩ := plainText_laws.1 commentedValue commented isRelaxed_commented
  exact ⟨isRelaxed_commented, by decide, hplain, hread, plainText_laws.2.1 commentedValue _ hplain⟩

end DeclBundle.RelaxedJson
