import DeclBundle.Proofs.Searching
import DeclBundle.Script.Reader

/-!
# Words of scripts

Blanks and comments are passed over before a word is read. What is passed is a gap (`Script.IsGap`),
and a gap is passed before whatever follows it (`Script.token_gap`). So a text in which a word is
read can be taken apart into a gap, the word and the rest (`Script.exists_gap_of_word?`), and from
these parts it is read again, with another rest as well (`Script.word?_gap`).
-/

set_option autoImplicit false

namespace DeclBundle.Script

open Text

/-! ## Gaps -/

/-- Blanks and comments that are closed. The line feed behind a line comment belongs to the gap. -/
inductive IsGap : List Char → Prop
  | nil : IsGap []
  | blank {x : Char} {g : List Char} (hx : isBlank x = true) (hg : IsGap g) : IsGap (x :: g)
  | line {body g : List Char} (hbody : '\n' ∉ body) (hg : IsGap g) :
      IsGap ('/' :: '/' :: (body ++ '\n' :: g))
  | block {body g : List Char} (hbody : ¬['*', '/'] <:+: body ++ ['*']) (hg : IsGap g) :
    IsGap ('/' :: '*' :: (body ++ '*' :: '/' :: g))

/-- No gap goes on at the start of the text. -/
structure IsSolid (cs : List Char) : Prop where
  head : ∀ x, cs.head? = some x → isBlank x = false
  line : ¬['/', '/'] <+: cs
  block : ¬['/', '*'] <+: cs

theorem isSolid_nil : IsSolid [] := ⟨nofun, by simp, by simp⟩

/-- A text is solid when its first character is neither blank nor a slash. -/
theorem isSolid_cons {x : Char} {cs : List Char} (hx : isBlank x = false) (hslash : x ≠ '/') :
    IsSolid (x :: cs) where
  head y hy := by
    cases hy
    exact hx
  line h := hslash (List.cons_prefix_cons.1 h).1.symm
  block h := hslash (List.cons_prefix_cons.1 h).1.symm

theorem skipWhile_cons (p : Char → Bool) (x : Char) (cs : List Char) (o : Nat) :
    Cursor.skipWhile p ⟨x :: cs, o⟩ = if p x then Cursor.skipWhile p ⟨cs, o + x.utf8Size⟩
      else ⟨x :: cs, o⟩ := rfl

/-- A run of characters is passed up to the first one that does not belong to it. -/
theorem skipWhile_append {p : Char → Bool} {us : List Char} (hus : ∀ x ∈ us, p x = true) {y : Char}
    (hy : p y = false) (cs : List Char) (o : Nat) :
    Cursor.skipWhile p ⟨us ++ y :: cs, o⟩ = ⟨y :: cs, o + byteLength us⟩ := by
  induction us generalizing o with
  | nil => simp [skipWhile_cons, hy]
  | cons x us ih =>
    have hx := hus x List.mem_cons_self
    rw [List.cons_append, skipWhile_cons, if_pos hx,
      ih (fun z hz => hus z (List.mem_cons_of_mem x hz)), byteLength_cons, Nat.add_assoc]

-- the equations of the reader are made here, once for the lemmas below
attribute [local simp] skipGaps

theorem skipGaps_blank {x : Char} (hx : isBlank x = true) (cs : List Char) (o limit : Nat) :
    skipGaps (limit + 1) ⟨x :: cs, o⟩ = skipGaps (limit + 1) ⟨cs, o + x.utf8Size⟩ := by
  simp only [skipGaps, skipWhile_cons, hx, if_true]

/-- Before solid text nothing is passed. -/
theorem skipGaps_solid {cs : List Char} (h : IsSolid cs) (o limit : Nat) :
    skipGaps limit ⟨cs, o⟩ = ⟨cs, o⟩ := by
  cases limit with
  | zero => rfl
  | succ limit =>
    have hskip : Cursor.skipWhile isBlank ⟨cs, o⟩ = ⟨cs, o⟩ := by
      cases cs with
      | nil => rfl
      | cons x cs => rw [skipWhile_cons, if_neg (by simp [h.head x rfl])]
    simp only [skipGaps, hskip]
    split
    · next r => exact absurd ⟨r, rfl⟩ h.line
    · next r => exact absurd ⟨r, rfl⟩ h.block
    · rfl

theorem skipGaps_line {body : List Char} (hbody : '\n' ∉ body) (cs : List Char) (o limit : Nat) :
    skipGaps (limit + 2) ⟨'/' :: '/' :: (body ++ '\n' :: cs), o⟩ =
      skipGaps (limit + 1) ⟨cs, o + byteLength ('/' :: '/' :: (body ++ ['\n']))⟩ := by
  have hus : ∀ x ∈ '/' :: '/' :: body, (x != '\n') = true := by
    intro x hx
    rcases List.mem_cons.1 hx with rfl | hx
    · rfl
    rcases List.mem_cons.1 hx with rfl | hx
    · rfl
    · simpa using fun heq : x = '\n' => hbody (heq ▸ hx)
  have hskip := skipWhile_append (p := (· != '\n')) hus (y := '\n') rfl cs o
  rw [skipGaps, skipWhile_cons, if_neg (by decide)]
  simp only [List.cons_append] at hskip
  simp only [hskip]
  rw [skipGaps_blank (by decide)]
  simp [Nat.add_assoc]

theorem skipGaps_block {body : List Char} (hbody : ¬['*', '/'] <:+: body ++ ['*']) (cs : List Char)
    (o limit : Nat) :
    skipGaps (limit + 1) ⟨'/' :: '*' :: (body ++ '*' :: '/' :: cs), o⟩ =
      skipGaps limit ⟨cs, o + byteLength ('/' :: '*' :: (body ++ ['*', '/']))⟩ := by
  have hmark : ['*', '/'] ≠ [] := by simp
  have hfind := find?_of_first hmark hbody cs (o + 1 + 1)
  rw [skipGaps, skipWhile_cons, if_neg (by decide)]
  have hopen : (Cursor.mk ('/' :: '*' :: (body ++ '*' :: '/' :: cs)) o).skip 2 =
    ⟨body ++ (['*', '/'] ++ cs), o + 1 + 1⟩ := rfl
  simp only [hopen, show "*/".toList = ['*', '/'] from rfl, hfind]
  have hslash : '/'.utf8Size = 1 := rfl
  have hstar : '*'.utf8Size = 1 := rfl
  simp [Cursor.skip, Cursor.next, hslash, hstar]
  congr 2
  omega

/-- A gap is passed before solid text. By induction on the gap. -/
theorem skipGaps_gap {g cs : List Char} (hg : IsGap g) (h : IsSolid cs) (o limit : Nat)
    (hlimit : g.length < limit) :
    skipGaps limit ⟨g ++ cs, o⟩ = ⟨cs, o + byteLength g⟩ := by
  induction hg generalizing o limit with
  | nil => simpa using skipGaps_solid h o limit
  | @blank x g hx hg ih =>
    obtain ⟨limit, rfl⟩ : ∃ n, limit = n + 1 := ⟨limit - 1, by omega⟩
    rw [List.cons_append, skipGaps_blank hx, ih _ _ (by simp at hlimit; omega), byteLength_cons,
      Nat.add_assoc]
  | @line body g hbody hg ih =>
    simp only [List.length_cons, List.length_append] at hlimit
    obtain ⟨limit, rfl⟩ : ∃ n, limit = n + 2 := ⟨limit - 2, by omega⟩
    have hshape : '/' :: '/' :: (body ++ '\n' :: g) ++ cs =
      '/' :: '/' :: (body ++ '\n' :: (g ++ cs)) := by simp
    rw [hshape, skipGaps_line hbody, ih _ _ (by omega)]
    simp [Nat.add_assoc]
  | @block body g hbody hg ih =>
    simp only [List.length_cons, List.length_append] at hlimit
    obtain ⟨limit, rfl⟩ : ∃ n, limit = n + 1 := ⟨limit - 1, by omega⟩
    have hshape : '/' :: '*' :: (body ++ '*' :: '/' :: g) ++ cs =
      '/' :: '*' :: (body ++ '*' :: '/' :: (g ++ cs)) := by simp
    rw [hshape, skipGaps_block hbody, ih _ _ (by omega)]
    simp [Nat.add_assoc]

theorem token_gap {g cs : List Char} (hg : IsGap g) (h : IsSolid cs) (o : Nat) :
    token ⟨g ++ cs, o⟩ = ⟨cs, o + byteLength g⟩ :=
  skipGaps_gap hg h o _ (by simp)

theorem IsGap.append {g h : List Char} (hg : IsGap g) (hh : IsGap h) : IsGap (g ++ h) := by
  induction hg with
  | nil => exact hh
  | blank hx _ ih => exact .blank hx ih
  | @line body g hbody _ ih =>
    have := IsGap.line hbody ih
    simpa using this
  | @block body g hbody _ ih =>
    have := IsGap.block hbody ih
    simpa using this

theorem isGap_of_blank {g : List Char} (h : ∀ x ∈ g, isBlank x = true) : IsGap g := by
  induction g with
  | nil => exact .nil
  | cons x g ih =>
    exact .blank (h x List.mem_cons_self) (ih fun y hy => h y (List.mem_cons_of_mem x hy))

theorem isGap_space : IsGap [' '] := .blank (by decide) .nil

/-- The characters that are passed belong to the run, and the next one does not. -/
theorem exists_run_of_skipWhile (p : Char → Bool) (c : Cursor) :
    ∃ us, (∀ x ∈ us, p x = true) ∧ c.rest = us ++ (c.skipWhile p).rest ∧
      ∀ y, (c.skipWhile p).rest.head? = some y → p y = false := by
  obtain ⟨cs, o⟩ := c
  induction cs generalizing o with
  | nil => exact ⟨[], nofun, rfl, nofun⟩
  | cons x cs ih =>
    by_cases hx : p x = true
    · obtain ⟨us, hus, hrest, hhead⟩ := ih (o + x.utf8Size)
      rw [skipWhile_cons, if_pos hx]
      exact ⟨x :: us, List.forall_mem_cons.2 ⟨hx, hus⟩, congrArg (x :: ·) hrest, hhead⟩
    · rw [skipWhile_cons, if_neg hx]
      exact ⟨[], nofun, rfl, fun y hy => by cases hy; simpa using hx⟩

theorem skipGaps_nil (limit o : Nat) : skipGaps limit ⟨[], o⟩ = ⟨[], o⟩ :=
  skipGaps_solid isSolid_nil o limit

/-- What is passed before a word or a mark is a gap, and what is left is solid. By induction on the
limit. -/
theorem exists_gap_of_skipGaps {limit : Nat} {c : Cursor} (hlimit : c.rest.length < limit)
    (hrest : (skipGaps limit c).rest ≠ []) :
    ∃ g, IsGap g ∧ IsSolid (skipGaps limit c).rest ∧ c.rest = g ++ (skipGaps limit c).rest := by
  induction limit generalizing c with
  | zero => omega
  | succ limit ih =>
    obtain ⟨bs, hbs, hc, hhead⟩ := exists_run_of_skipWhile isBlank c
    have hgap := isGap_of_blank hbs
    have hlength := congrArg List.length hc
    rw [List.length_append] at hlength
    rw [skipGaps] at hrest ⊢
    generalize c.skipWhile isBlank = d at *
    obtain ⟨cs, o⟩ := d
    dsimp only at *
    split
    · next _ r =>
      -- a line comment that ends in front of a line feed, or with the text
      simp only at hrest ⊢
      obtain ⟨us, hus, hbody, hend⟩ := exists_run_of_skipWhile (· != '\n') ⟨'/' :: '/' :: r, o⟩
      generalize Cursor.skipWhile (· != '\n') ⟨'/' :: '/' :: r, o⟩ = e at *
      obtain ⟨_ | ⟨y, r'⟩, o'⟩ := e
      · exact absurd (by rw [skipGaps_nil]) hrest
      obtain rfl : y = '\n' := by simpa using hend y rfl
      match us with
      | [] => simp at hbody
      | [_] => simp at hbody
      | _ :: _ :: body =>
        simp only [List.cons_append, List.cons.injEq] at hbody
        obtain ⟨rfl, rfl, rfl⟩ := hbody
        have hnew : '\n' ∉ body := fun h => by simpa using hus '\n' (by simp [h])
        obtain ⟨g, hg, hsolid, heq⟩ := ih (by simp at hlength ⊢; omega) hrest
        generalize (skipGaps limit ⟨'\n' :: r', o'⟩).rest = s at *
        dsimp only at heq
        cases hg with
        | nil =>
          subst heq
          cases hsolid.head '\n' rfl
        | @blank x g hx hg =>
          obtain ⟨rfl, hr⟩ := List.cons.inj heq
          refine ⟨_, hgap.append (.line hnew hg), hsolid, ?_⟩
          rw [hc, hr]
          simp
        | line => cases heq
        | block => cases heq
    · next _ r =>
      simp only [show "*/".toList = ['*', '/'] from rfl] at hrest ⊢
      have hopen : (Cursor.mk ('/' :: '*' :: r) o).skip 2 = ⟨r, o + 1 + 1⟩ := rfl
      rw [hopen] at hrest ⊢
      rcases find?_cases (List.cons_ne_nil '*' ['/']) r (o + 1 + 1) with ⟨-, hfind⟩ | ⟨body, r',
        rfl, hbody, hfind⟩
      · simp [hfind, Cursor.atEnd] at hrest
      · simp only [hfind] at hrest ⊢
        obtain ⟨g, hg, hsolid, heq⟩ :=
          ih (by simp [Cursor.skip, Cursor.next] at hlength ⊢; omega) hrest
        refine ⟨_, hgap.append (.block hbody hg), hsolid, ?_⟩
        generalize (skipGaps limit _).rest = s at *
        rw [hc, show r' = g ++ s from heq]
        simp
    · next hline hblock =>
      refine ⟨bs, hgap, ⟨hhead, ?_, ?_⟩, hc⟩
      · rintro ⟨r, rfl⟩
        exact hline r rfl
      · rintro ⟨r, rfl⟩
        exact hblock r rfl

/-! ## Words -/

/-- What is passed before a word or a mark, and where the word or the mark stands. -/
theorem exists_gap_of_token {c : Cursor} (h : (token c).rest ≠ []) :
    ∃ g, IsGap g ∧ IsSolid (token c).rest ∧ c.rest = g ++ (token c).rest ∧
      (token c).offset = c.offset + byteLength g := by
  obtain ⟨g, hg, hsolid, hrest⟩ : ∃ g, IsGap g ∧ IsSolid (token c).rest ∧
      c.rest = g ++ (token c).rest :=
    exists_gap_of_skipGaps (Nat.lt_succ_self c.rest.length) h
  refine ⟨g, hg, hsolid, hrest, ?_⟩
  have hc : c = ⟨g ++ (token c).rest, c.offset⟩ := congrArg (Cursor.mk · c.offset) hrest
  generalize (token c).rest = s at hc hsolid
  rw [hc, token_gap hg hsolid]

/-- At solid text the next word or mark stands right there. -/
theorem token_solid {cs : List Char} (h : IsSolid cs) (o : Nat) : token ⟨cs, o⟩ = ⟨cs, o⟩ :=
  skipGaps_solid h o _

/-- Letters and digits beyond ASCII are none of the characters among which there are blanks. -/
theorem isAlphanumeric_eq_isAlphanum {x : Char} (hx : x.toNat ≤ 0xA0 ∨ x.toNat = 0x1680 ∨
    (0x2000 ≤ x.toNat ∧ x.toNat ≤ 0x205F) ∨ x.toNat = 0x3000) :
      isAlphanumeric x = x.isAlphanum := by
  have hranges :
    (alphanumericRanges.all fun range => 0xA0 < range.1 && (range.2 < 0x1680 || 0x1680 < range.1)
      && (range.2 < 0x2000 || 0x205F < range.1) && (range.2 < 0x3000 || 0x3000 < range.1)) =
          true := by
    decide +kernel
  have hnone :
      (alphanumericRanges.any fun range => range.1 ≤ x.toNat && x.toNat ≤ range.2) = false := by
    refine List.any_eq_false.2 fun range hrange => ?_
    have hapart := List.all_eq_true.1 hranges range hrange
    simp only [Bool.and_eq_true, Bool.or_eq_true, decide_eq_true_eq] at hapart ⊢
    omega
  exact (congrArg (x.isAlphanum || ·) hnone).trans (Bool.or_false _)

theorem isBlank_of_isWordPart {x : Char} (h : isWordPart x = true) : isBlank x = false := by
  by_contra hblank
  simp only [isBlank, Bool.not_eq_false, Bool.or_eq_true, Bool.and_eq_true, decide_eq_true_eq,
    beq_iff_eq] at hblank
  rw [isWordPart, isAlphanumeric_eq_isAlphanum (by omega)] at h
  simp only [Bool.or_eq_true, beq_iff_eq] at h
  rcases h with (hletter | rfl) | rfl
  · simp only [Char.isAlphanum, Char.isAlpha, Char.isUpper, Char.isLower, Char.isDigit,
      Bool.or_eq_true, Bool.and_eq_true, decide_eq_true_eq, ge_iff_le,
      UInt32.le_iff_toNat_le] at hletter
    have hends : 0x20 < '0'.val.toNat ∧ '0'.val.toNat < 'A'.val.toNat ∧
      'A'.val.toNat < 'a'.val.toNat ∧ '9'.val.toNat < 0x85 ∧
        'Z'.val.toNat < 0x85 ∧ 'z'.val.toNat < 0x85 := by decide
    rw [Char.toNat] at hblank
    omega
  · exact absurd hblank (by decide)
  · exact absurd hblank (by decide)

/-- Marks and spaces belong to no word. -/
theorem isWordPart_mark {x : Char} (hx : x ∈ ['/', '*', ':', '=', '?', '(', ';', '#', ' ']) :
    isWordPart x = false := by
  have hmarks : (['/', '*', ':', '=', '?', '(', ';', '#', ' '].all fun mark =>
      mark.toNat ≤ 0xA0 && !mark.isAlphanum && mark != '_' && mark != '$') = true := rfl
  have hx := List.all_eq_true.1 hmarks x hx
  simp only [Bool.and_eq_true, decide_eq_true_eq, Bool.not_eq_true', bne_iff_ne] at hx
  obtain ⟨⟨⟨hascii, hletter⟩, hline⟩, hdollar⟩ := hx
  simp [isWordPart, isAlphanumeric_eq_isAlphanum (.inl hascii), hletter, hline, hdollar]

/-- A word that can be a name. -/
structure IsWord (w : List Char) : Prop where
  ne_nil : w ≠ []
  part : ∀ x ∈ w, isWordPart x = true
  head : ∀ x, w.head? = some x → x.isDigit = false

theorem isWord_of_isAlpha {w : List Char} (hne : w ≠ []) (h : w.all Char.isAlpha = true) :
    IsWord w := by
  have hletter {x : Char} (hx : x ∈ w) : x.isAlpha = true := List.all_eq_true.1 h x hx
  refine ⟨hne, fun x hx => ?_, fun x hhead => ?_⟩
  · simp [isWordPart, isAlphanumeric_of_isAlphanum, Char.isAlphanum, hletter hx]
  · have hx := hletter (List.mem_of_head? hhead)
    rw [Bool.eq_false_iff]
    intro hdigit
    have hcodes : '9'.val.toNat < 'A'.val.toNat ∧ '9'.val.toNat < 'a'.val.toNat := by decide
    simp only [Char.isAlpha, Char.isUpper, Char.isLower, Char.isDigit, Bool.or_eq_true,
      Bool.and_eq_true, decide_eq_true_eq, ge_iff_le, UInt32.le_iff_toNat_le] at hx hdigit
    omega

/-- No word goes on at the start of the text. -/
def EndsWord (cs : List Char) : Prop := ∀ x, cs.head? = some x → isWordPart x = false

theorem endsWord_cons {x : Char} {cs : List Char} (hx : isWordPart x = false) :
    EndsWord (x :: cs) := by
  intro y hy
  cases hy
  exact hx

theorem isSolid_word {w : List Char} (hw : IsWord w) (u : List Char) : IsSolid (w ++ u) := by
  cases w with
  | nil => exact absurd rfl hw.ne_nil
  | cons x w =>
    have hx := hw.part x List.mem_cons_self
    refine isSolid_cons (isBlank_of_isWordPart hx) ?_
    rintro rfl
    cases (isWordPart_mark (x := '/') (by decide)).symm.trans hx

theorem takeWhile_word {w u : List Char} (hw : ∀ x ∈ w, isWordPart x = true) (hu : EndsWord u) :
    (w ++ u).takeWhile isWordPart = w := by
  rw [List.takeWhile_append_of_pos hw]
  cases u with
  | nil => simp
  | cons y u => simp [hu y rfl]

theorem skip_append (us cs : List Char) (o : Nat) :
    Cursor.skip ⟨us ++ cs, o⟩ us.length = ⟨cs, o + byteLength us⟩ := by
  induction us generalizing o with
  | nil => rfl
  | cons x us ih => rw [List.cons_append, List.length_cons, Cursor.skip, Cursor.next, ih,
    byteLength_cons, Nat.add_assoc]

/-- A word is read behind any gap and before anything with which no word goes on. -/
theorem word?_gap {g w u : List Char} (hg : IsGap g) (hw : IsWord w) (hu : EndsWord u) (o : Nat) :
    word? ⟨g ++ (w ++ u), o⟩ = some (w, ⟨u, o + byteLength g + byteLength w⟩) := by
  rw [word?, token_gap hg (isSolid_word hw u), takeWhile_word hw.part hu]
  cases w with
  | nil => exact absurd rfl hw.ne_nil
  | cons x w =>
    have hskip := skip_append (x :: w) u (o + byteLength g)
    simp only [hw.head x rfl]
    exact congrArg (fun d => some (x :: w, d)) hskip

/-- A text from which a word is read is a gap, the word and the rest. -/
theorem exists_gap_of_word? {c d : Cursor} {w : List Char} (h : word? c = some (w, d)) :
    ∃ g, IsGap g ∧ IsWord w ∧ EndsWord d.rest ∧ c.rest = g ++ (w ++ d.rest) ∧
      d.offset = c.offset + byteLength g + byteLength w := by
  simp only [word?] at h
  split at h
  · cases h
  · next first word hword =>
    split at h
    · cases h
    · next hdigit =>
      cases h
      have hne : (token c).rest ≠ [] := by
        intro hnil
        rw [hnil] at hword
        cases hword
      obtain ⟨g, hg, -, hrest, hoffset⟩ := exists_gap_of_token hne
      generalize token c = e at *
      -- the word is the longest front part of what follows the gap
      have hsplit := List.takeWhile_append_dropWhile (p := isWordPart) (l := e.rest)
      rw [hword] at hsplit
      have hskip : e.skip (word.length + 1) =
          ⟨e.rest.dropWhile isWordPart, e.offset + byteLength (first :: word)⟩ := by
        have := skip_append (first :: word) (e.rest.dropWhile isWordPart) e.offset
        rwa [hsplit] at this
      rw [hskip]
      refine ⟨g, hg, ⟨List.cons_ne_nil _ _, ?_, ?_⟩, ?_, ?_, ?_⟩
      · intro x hx
        rw [← hword] at hx
        exact List.mem_takeWhile_imp hx
      · intro x hx
        cases hx
        simpa using hdigit
      · intro x hx
        have := List.head?_dropWhile_not isWordPart e.rest
        simpa [hx] using this
      · rw [hrest, hsplit]
      · rw [hoffset]

theorem token_token (c : Cursor) : token (token c) = token c := by
  obtain hnil | hne := eq_or_ne (token c).rest []
  · generalize token c = d at *
    obtain ⟨_, o⟩ := d
    subst hnil
    exact token_solid isSolid_nil o
  · obtain ⟨_, -, hsolid, -⟩ := exists_gap_of_token hne
    generalize token c = d at *
    exact token_solid hsolid d.offset

theorem word?_token (c : Cursor) : word? (token c) = word? c := by
  simp only [word?, token_token]

/-! ## Keywords and marks -/

theorem keyword?_eq_some_iff {keyword : String} {c d : Cursor} :
    keyword? keyword c = some d ↔ word? c = some (keyword.toList, d) := by
  rw [keyword?, Option.bind_eq_some_iff]
  constructor
  · rintro ⟨⟨w, e⟩, hw, h⟩
    obtain ⟨rfl, rfl⟩ : w = keyword.toList ∧ e = d := by simpa using h
    exact hw
  · intro h
    exact ⟨_, h, if_pos (beq_self_eq_true _)⟩

theorem keyword?_eq_none {c d : Cursor} {w : List Char} (h : word? c = some (w, d))
    (keyword : String) (hw : w ≠ keyword.toList) : keyword? keyword c = none := by
  rw [Option.eq_none_iff_forall_not_mem]
  intro e he
  rw [Option.mem_def, keyword?_eq_some_iff, h] at he
  cases he
  exact hw rfl

theorem variableKeyword?_eq_some {c d : Cursor} {keyword : String}
    (h : variableKeyword? c = some (keyword, d)) :
    word? c = some (keyword.toList, d) ∧ keyword ∈ ["const", "let", "var"] := by
  obtain ⟨keyword', hmem, h⟩ := List.exists_of_findSome?_eq_some h
  obtain ⟨e, he, heq⟩ := Option.map_eq_some_iff.1 h
  cases heq
  exact ⟨keyword?_eq_some_iff.1 he, hmem⟩

theorem variableKeyword?_of_mem {c d : Cursor} {keyword : String}
    (h : word? c = some (keyword.toList, d)) (hmem : keyword ∈ ["const", "let", "var"]) :
    variableKeyword? c = some (keyword, d) := by
  have hother (other : String) (hne : keyword ≠ other) : keyword? other c = none :=
    keyword?_eq_none h _ fun heq => hne (String.toList_inj.1 heq)
  have hsame : keyword? keyword c = some d := keyword?_eq_some_iff.2 h
  simp only [List.mem_cons, List.not_mem_nil, or_false] at hmem
  rcases hmem with rfl | rfl | rfl
  · simp [variableKeyword?, hsame]
  · simp [variableKeyword?, hsame, hother "const" (by decide)]
  · simp [variableKeyword?, hsame, hother "const" (by decide), hother "let" (by decide)]

theorem variableKeyword?_eq_none {c d : Cursor} {w : List Char} (h : word? c = some (w, d))
    (hw : ∀ keyword ∈ ["const", "let", "var"], w ≠ keyword.toList) : variableKeyword? c = none := by
  rw [variableKeyword?, List.findSome?_eq_none_iff]
  intro keyword hkeyword
  rw [keyword?_eq_none h keyword (hw keyword hkeyword), Option.map_none]

/-- What is next behind a gap. -/
theorem peek?_gap {g : List Char} (hg : IsGap g) {x : Char} {cs : List Char}
    (hx : IsSolid (x :: cs)) (o : Nat) :
    peek? ⟨g ++ x :: cs, o⟩ = some x := by
  rw [peek?, token_gap hg hx]
  rfl

theorem mark?_eq_none {mark : String} {c : Cursor} (h : ¬mark.toList <+: (token c).rest) :
    mark? mark c = none := by
  simp only [mark?]
  refine if_neg fun hstart => h ?_
  obtain ⟨r, hr⟩ := startsWith_iff.1 hstart
  exact ⟨r, hr.symm⟩

theorem token_of_word? {c d : Cursor} {w : List Char} (h : word? c = some (w, d)) :
    (token c).rest = w ++ d.rest ∧ d.offset = (token c).offset + byteLength w := by
  obtain ⟨g, hg, hw, hend, hrest, hoffset⟩ := exists_gap_of_word? h
  obtain ⟨cs, o⟩ := c
  dsimp only at hrest hoffset
  rw [hrest, token_gap hg (isSolid_word hw d.rest)]
  exact ⟨rfl, hoffset⟩

/-- In front of a word no mark is next. -/
theorem passMark_of_word? {mark : String} {x : Char} (hmark : mark.toList.head? = some x)
    (hx : isWordPart x = false) {c d : Cursor} {w : List Char} (h : word? c = some (w, d)) :
    passMark mark c = c := by
  rw [passMark, mark?_eq_none, Option.getD_none]
  rintro ⟨r, hr⟩
  obtain ⟨_, _, hw, -⟩ := exists_gap_of_word? h
  have hhead := congrArg List.head? hr
  rw [(token_of_word? h).1, List.head?_append, hmark] at hhead
  cases w with
  | nil => exact hw.ne_nil rfl
  | cons y w =>
    cases hhead
    cases hx.symm.trans (hw.part x List.mem_cons_self)

theorem peek?_of_word? {c d : Cursor} {w : List Char} (h : word? c = some (w, d)) :
    ∃ x, peek? c = some x ∧ isWordPart x = true := by
  obtain ⟨_, _, hw, -⟩ := exists_gap_of_word? h
  cases w with
  | nil => exact absurd rfl hw.ne_nil
  | cons x w =>
    refine ⟨x, ?_, hw.part x List.mem_cons_self⟩
    rw [peek?, Cursor.head?, (token_of_word? h).1]
    rfl

/-! ## Words in front of a word -/

/-- Passes each of some keywords, in this order, if it is next. -/
def passKeywords (keywords : List String) (c : Cursor) : Cursor :=
  keywords.foldl (fun c keyword => passKeyword keyword c) c

/-- What stands in front of a word: a gap, or one of the keywords first. -/
def IsLead (keywords : List String) (p : List Char) : Prop :=
  IsGap p ∨ ∃ keyword ∈ keywords, ∃ g q, p = g ++ (keyword.toList ++ q) ∧ IsGap g ∧
    IsWord keyword.toList ∧ q ≠ [] ∧ EndsWord q

theorem EndsWord.append {q : List Char} (h : EndsWord q) (hq : q ≠ []) (u : List Char) :
    EndsWord (q ++ u) := by
  cases q with
  | nil => exact absurd rfl hq
  | cons x q => exact h

/-- Behind a lead, the first word is that of the lead, or the one that follows. -/
theorem IsLead.word?_cases {keywords : List String} {p : List Char} (h : IsLead keywords p) :
    IsGap p ∨ ∃ keyword ∈ keywords, ∀ u o, ∃ d, word? ⟨p ++ u, o⟩ = some (keyword.toList, d) := by
  rcases h with hg | ⟨keyword, hmem, g, q, rfl, hg, hv, hq, hend⟩
  · exact .inl hg
  · refine .inr ⟨keyword, hmem, fun u o => ?_⟩
    rw [List.append_assoc, List.append_assoc]
    exact ⟨_, word?_gap hg hv (hend.append hq _) o⟩

/-- A word that is read behind some keywords stands behind a lead, and another word that is none of
them is read there in the same way. By induction on the keywords. -/
theorem exists_lead_of_word? {keywords : List String} {c d : Cursor} {w : List Char}
    (h : word? (passKeywords keywords c) = some (w, d)) :
    ∃ p, IsLead keywords p ∧ IsWord w ∧ EndsWord d.rest ∧ c.rest = p ++ (w ++ d.rest) ∧
      d.offset = c.offset + byteLength p + byteLength w ∧
      ∀ w' u o, IsWord w' → EndsWord u → (∀ keyword ∈ keywords, w' ≠ keyword.toList) →
        word? (passKeywords keywords ⟨p ++ (w' ++ u), o⟩) =
          some (w', ⟨u, o + byteLength p + byteLength w'⟩) := by
  induction keywords generalizing c with
  | nil =>
    obtain ⟨g, hg, hw, hend, hrest, hoffset⟩ := exists_gap_of_word? h
    exact ⟨g, .inl hg, hw, hend, hrest, hoffset, fun w' u o hw' hu _ => word?_gap hg hw' hu o⟩
  | cons keyword keywords ih =>
    cases hkeyword : keyword? keyword c with
    | some e =>
      have hpass : passKeywords (keyword :: keywords) c = passKeywords keywords e := by
        simp [passKeywords, passKeyword, hkeyword]
      rw [hpass] at h
      obtain ⟨g, hg, hv, hend', hrest', hoffset'⟩ :=
        exists_gap_of_word? (keyword?_eq_some_iff.1 hkeyword)
      obtain ⟨p, -, hw, hend, hrest, hoffset, hagain⟩ := ih h
      -- a gap separates the keyword from the word that follows
      have hp : p ≠ [] := by
        rintro rfl
        cases w with
        | nil => exact hw.ne_nil rfl
        | cons x w =>
          have := hend' x (by rw [hrest]; rfl)
          rw [hw.part x List.mem_cons_self] at this
          cases this
      have hendp : EndsWord p := by
        intro x hx
        refine hend' x ?_
        rw [hrest, List.head?_append, hx]
        rfl
      refine ⟨g ++ (keyword.toList ++ p),
        .inr ⟨keyword, List.mem_cons_self, g, p, rfl, hg, hv, hp, hendp⟩, hw, hend, ?_, ?_, ?_⟩
      · rw [hrest', hrest]
        simp
      · rw [hoffset, hoffset']
        simp only [byteLength_append]
        omega
      · intro w' u o hw' hu hne
        have hshape : g ++ (keyword.toList ++ p) ++ (w' ++ u) =
          g ++ (keyword.toList ++ (p ++ (w' ++ u))) := by simp
        have hread := word?_gap hg hv (hendp.append hp (w' ++ u)) o
        have hpass' :
          passKeywords (keyword :: keywords) ⟨g ++ (keyword.toList ++ p) ++ (w' ++ u), o⟩ =
            passKeywords keywords
              ⟨p ++ (w' ++ u), o + byteLength g + byteLength keyword.toList⟩ := by
          rw [hshape]
          simp [passKeywords, passKeyword, keyword?_eq_some_iff.2 hread]
        rw [hpass', hagain _ _ _ hw' hu fun k hk => hne k (List.mem_cons_of_mem _ hk)]
        simp only [byteLength_append, Nat.add_assoc]
    | none =>
      have hpass : passKeywords (keyword :: keywords) c = passKeywords keywords c := by
        simp [passKeywords, passKeyword, hkeyword]
      rw [hpass] at h
      obtain ⟨p, hlead, hw, hend, hrest, hoffset, hagain⟩ := ih h
      have hlead' : IsLead (keyword :: keywords) p :=
        hlead.imp_right fun ⟨other, hmem, hlead⟩ => ⟨other, List.mem_cons_of_mem _ hmem, hlead⟩
      refine ⟨p, hlead', hw, hend, hrest, hoffset, fun w' u o hw' hu hne => ?_⟩
      -- the first word is not the keyword: it is `w'`, or it is the first word of the text as it
      -- was
      have hfirst : keyword? keyword ⟨p ++ (w' ++ u), o⟩ = none := by
        rcases hlead.word?_cases with hg | ⟨other, -, hfirst⟩
        · exact keyword?_eq_none (word?_gap hg hw' hu o) keyword (hne keyword List.mem_cons_self)
        · obtain ⟨e, he⟩ := hfirst (w' ++ u) o
          refine keyword?_eq_none he _ fun heq => ?_
          obtain ⟨e', he'⟩ := hfirst (w ++ d.rest) c.offset
          rw [← hrest, heq] at he'
          cases hkeyword.symm.trans (keyword?_eq_some_iff.2 he')
      have hpass' : passKeywords (keyword :: keywords) ⟨p ++ (w' ++ u), o⟩ =
          passKeywords keywords ⟨p ++ (w' ++ u), o⟩ := by
        simp [passKeywords, passKeyword, hfirst]
      rw [hpass', hagain w' u o hw' hu fun k hk => hne k (List.mem_cons_of_mem _ hk)]

end DeclBundle.Script
