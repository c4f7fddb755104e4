import DeclBundle.Diagnostic
import DeclBundle.Proofs.NameCalls
import DeclBundle.Proofs.Searching

/-!
# Filling templates

`fillTemplate` fills the placeholders of a template for one argument after the other, so a
placeholder that comes with an argument is filled by a later one. `fillAtOnce` reads the template
into pieces, characters and holes (`pieces`), and fills every hole where the template has it; no
text of an argument is read again.

The two agree for all first arguments of a list exactly when, before each argument is filled in, the
text so far has no more placeholders for it than the template, or the argument is that placeholder
itself (`fillTemplate_eq_fillAtOnce_iff`). Of the messages of the project only the one about a
missing export can differ (`Problem.message_eq_iff`).

Placeholders do not overlap, as a brace opens each of them and a brace closes it (`Text.IsBraced`);
that is why they can be counted, and why a text is replaced piece by piece.
-/

set_option autoImplicit false

namespace DeclBundle

namespace Text

/-! ## Marks in braces -/

/-- The mark is put in braces, and has no others. -/
def IsBraced (mark : List Char) : Prop :=
  ∃ inside, mark = '{' :: (inside ++ ['}']) ∧ '{' ∉ inside

theorem IsBraced.ne_nil {mark : List Char} (h : IsBraced mark) : mark ≠ [] := by
  obtain ⟨inside, rfl, -⟩ := h
  exact List.cons_ne_nil _ _

/-- How often a mark stands in a text. -/
def occurrences (mark : List Char) : List Char → Nat
  | [] => 0
  | c :: r => (if startsWith mark (c :: r) then 1 else 0) + occurrences mark r

section Marks

variable {mark : List Char}

/-- A mark at the start of a text does not reach into a mark behind it. -/
theorem startsWith_append_mark_iff (hmark : IsBraced mark) {us : List Char} (h : us ≠ [])
    (r : List Char) :
    startsWith mark (us ++ (mark ++ r)) = true ↔ startsWith mark us = true := by
  constructor
  · intro hstart
    obtain ⟨inside, hinside, hnot⟩ := hmark
    obtain ⟨rest, hrest⟩ := startsWith_iff.1 hstart
    rcases List.append_eq_append_iff.1 hrest with ⟨back, hback, hover⟩ | ⟨back, hback, -⟩
    · cases back with
      | nil => exact startsWith_iff.2 ⟨[], by rw [hback, List.append_nil, List.append_nil]⟩
      | cons c back =>
        -- what is left of the first mark would open with a brace, and there is none inside a mark
        exfalso
        obtain ⟨d, us, rfl⟩ := List.exists_cons_of_ne_nil h
        rw [hinside] at hback hover
        simp only [List.cons_append, List.cons.injEq] at hback hover
        have hmem : '{' ∈ inside ++ ['}'] := by
          rw [hback.2, hover.1]
          simp
        simp [hnot] at hmem
    · exact startsWith_iff.2 ⟨back, hback⟩
  · exact startsWith_append _

theorem occurrences_cons_of_startsWith {c : Char} {r : List Char}
    (h : startsWith mark (c :: r) = true) :
    occurrences mark (c :: r) = 1 + occurrences mark r := by
  rw [occurrences, if_pos h]

theorem occurrences_cons_of_not {c : Char} {r : List Char} (h : ¬ startsWith mark (c :: r) = true) :
    occurrences mark (c :: r) = occurrences mark r := by
  rw [occurrences, if_neg h, Nat.zero_add]

/-- Characters with which a mark does not open hold no mark. -/
theorem occurrences_append_of_not_mem (hmark : IsBraced mark) {us : List Char} (h : '{' ∉ us)
    (r : List Char) :
    occurrences mark (us ++ r) = occurrences mark r := by
  obtain ⟨inside, rfl, -⟩ := hmark
  induction us with
  | nil => rfl
  | cons c us ih =>
    obtain ⟨hc, hus⟩ := List.ne_and_not_mem_of_not_mem_cons h
    have hstart : ¬ startsWith ('{' :: (inside ++ ['}'])) (c :: (us ++ r)) = true := by
      simp [startsWith, after?, hc]
    rw [List.cons_append, occurrences_cons_of_not hstart, ih hus]

/-- A mark between two texts is counted once. -/
theorem occurrences_append_mark (hmark : IsBraced mark) (us r : List Char) :
    occurrences mark (us ++ (mark ++ r)) = occurrences mark us + (1 + occurrences mark r) := by
  induction us with
  | nil =>
    have hself : startsWith mark (mark ++ r) = true := startsWith_iff.2 ⟨r, rfl⟩
    have hall := hmark
    obtain ⟨inside, hinside, hnot⟩ := hmark
    have htail : '{' ∉ inside ++ ['}'] := by simp [hnot]
    have hcons : mark ++ r = '{' :: (inside ++ ['}'] ++ r) := by rw [hinside, List.cons_append]
    rw [hcons] at hself
    rw [List.nil_append, hcons, occurrences_cons_of_startsWith hself,
      occurrences_append_of_not_mem hall htail]
    simp [occurrences]
  | cons c us ih =>
    have hstart := startsWith_append_mark_iff hmark (List.cons_ne_nil c us) r
    rw [List.cons_append] at hstart
    rw [List.cons_append, occurrences, occurrences, ih, Bool.eq_iff_iff.2 hstart]
    omega

/-- A character that does not belong to the mark keeps the texts on its sides apart. -/
theorem occurrences_append_cons {c : Char} (h : c ∉ mark) (us r : List Char) :
    occurrences mark (us ++ c :: r) = occurrences mark us + occurrences mark (c :: r) := by
  induction us with
  | nil => simp [occurrences]
  | cons d us ih =>
    have hiff : startsWith mark (d :: (us ++ c :: r)) = true ↔
        startsWith mark (d :: us) = true := by
      rw [← List.cons_append]
      constructor
      · intro hstart
        obtain ⟨rest, hrest⟩ := startsWith_iff.1 hstart
        rcases List.append_eq_append_iff.1 hrest with ⟨back, hback, hover⟩ | ⟨back, hback, -⟩
        · cases back with
          | nil => exact startsWith_iff.2 ⟨[], by rw [hback, List.append_nil, List.append_nil]⟩
          | cons e back =>
            -- the mark would reach over the character
            obtain ⟨rfl, -⟩ := List.cons.inj hover
            exact absurd (hback ▸ List.mem_append_right _ List.mem_cons_self) h
        · exact startsWith_iff.2 ⟨back, hback⟩
      · exact startsWith_append _
    by_cases hstart : startsWith mark (d :: us) = true
    · rw [List.cons_append, occurrences_cons_of_startsWith (hiff.2 hstart),
        occurrences_cons_of_startsWith hstart, ih]
      omega
    · rw [List.cons_append, occurrences_cons_of_not (mt hiff.1 hstart),
        occurrences_cons_of_not hstart, ih]

/-- A text with marks has a first one. -/
theorem exists_first_mark {cs : List Char} (h : occurrences mark cs ≠ 0) :
    ∃ us r, cs = us ++ (mark ++ r) ∧ occurrences mark us = 0 := by
  induction cs with
  | nil => exact absurd rfl h
  | cons c cs ih =>
    by_cases hstart : startsWith mark (c :: cs) = true
    · obtain ⟨r, hr⟩ := startsWith_iff.1 hstart
      exact ⟨[], r, hr, rfl⟩
    · rw [occurrences_cons_of_not hstart] at h
      obtain ⟨us, r, rfl, hus⟩ := ih h
      refine ⟨c :: us, r, rfl, ?_⟩
      have hnot : ¬ startsWith mark (c :: us) = true :=
        fun hus' => hstart (startsWith_append _ hus')
      rw [occurrences_cons_of_not hnot, hus]

end Marks

/-! ## Replacing marks -/

section Replacing

variable (mark by_ : List Char)

theorem replaceAll_go_eq (cs : List Char) (passed : Nat) (out : List Char) :
    replaceAll.go mark by_ cs passed out = out.reverse ++ replaceAll.go mark by_ cs passed [] := by
  induction cs generalizing passed out with
  | nil => simp [replaceAll.go]
  | cons c cs ih =>
    cases passed with
    | succ passed => exact ih passed out
    | zero =>
      unfold replaceAll.go
      split
      · rw [ih, ih 0 [c]]
        simp
      · split
        · rw [ih, ih _ (by_.reverse ++ [])]
          simp
        · rw [ih, ih 0 [c]]
          simp

theorem replaceAll_go_skip (us r out : List Char) :
    replaceAll.go mark by_ (us ++ r) us.length out = replaceAll.go mark by_ r 0 out := by
  induction us with
  | nil => rfl
  | cons c us ih => exact ih

variable {mark}

theorem replaceAll_mark (h : mark ≠ []) (r : List Char) :
    replaceAll mark by_ (mark ++ r) = by_ ++ replaceAll mark by_ r := by
  obtain ⟨c, rest, rfl⟩ := List.exists_cons_of_ne_nil h
  have hself : after? (c :: rest) (c :: (rest ++ r)) = some r := after?_eq_some_iff.2 rfl
  show replaceAll.go (c :: rest) by_ (c :: (rest ++ r)) 0 [] = _
  unfold replaceAll.go
  rw [hself]
  simp only [List.isEmpty_cons, Bool.false_eq_true, if_false, List.length_cons, Nat.add_sub_cancel]
  rw [replaceAll_go_skip, replaceAll_go_eq]
  simp [replaceAll]

theorem replaceAll_cons {c : Char} {r : List Char} (h : ¬ startsWith mark (c :: r) = true) :
    replaceAll mark by_ (c :: r) = c :: replaceAll mark by_ r := by
  have hnone : after? mark (c :: r) = none := by simpa [startsWith] using h
  show replaceAll.go mark by_ (c :: r) 0 [] = _
  unfold replaceAll.go
  rw [hnone, replaceAll_go_eq]
  simp [replaceAll]

theorem replaceAll_of_no_mark {cs : List Char} (h : occurrences mark cs = 0) :
    replaceAll mark by_ cs = cs := by
  induction cs with
  | nil => rfl
  | cons c cs ih =>
    have hnot : ¬ startsWith mark (c :: cs) = true := by
      intro hstart
      rw [occurrences_cons_of_startsWith hstart] at h
      omega
    rw [occurrences_cons_of_not hnot] at h
    rw [replaceAll_cons by_ hnot, ih h]

/-- The texts on both sides of a mark are replaced by themselves. -/
theorem replaceAll_append_mark (hmark : IsBraced mark) (us r : List Char) :
    replaceAll mark by_ (us ++ (mark ++ r)) =
      replaceAll mark by_ us ++ (by_ ++ replaceAll mark by_ r) := by
  -- on the length, for a mark in the first text is passed as a whole
  induction hlength : us.length using Nat.strongRecOn generalizing us with
  | ind length ih =>
    cases us with
    | nil => exact replaceAll_mark by_ hmark.ne_nil r
    | cons c us =>
      have hiff := startsWith_append_mark_iff hmark (List.cons_ne_nil c us) r
      by_cases hstart : startsWith mark (c :: us) = true
      · obtain ⟨back, hback⟩ := startsWith_iff.1 hstart
        have hshorter : back.length < length := by
          have hpos := List.length_pos_iff.2 hmark.ne_nil
          have hsum := congrArg List.length hback
          rw [List.length_append] at hsum
          omega
        rw [hback, List.append_assoc, replaceAll_mark by_ hmark.ne_nil,
          replaceAll_mark by_ hmark.ne_nil, ih _ hshorter back rfl, List.append_assoc]
      · have hnot : ¬ startsWith mark (c :: (us ++ (mark ++ r))) = true :=
          fun h => hstart (hiff.1 h)
        rw [List.cons_append, replaceAll_cons by_ hnot, replaceAll_cons by_ hstart,
          ih us.length (by simp [← hlength]) us rfl, List.cons_append]

/-- A text is replaced up to its first mark, if it has one, and then from there on. -/
theorem replaceAll_induction (hmark : IsBraced mark) {P : List Char → Prop}
    (none : ∀ cs, occurrences mark cs = 0 → P cs) (first : ∀ us r, occurrences mark us = 0 → P r →
      P (us ++ (mark ++ r))) (cs : List Char) : P cs := by
  induction hlength : cs.length using Nat.strongRecOn generalizing cs with
  | ind length ih =>
    by_cases hnone : occurrences mark cs = 0
    · exact none cs hnone
    · obtain ⟨us, r, rfl, hus⟩ := exists_first_mark hnone
      apply first us r hus
      refine ih r.length ?_ r rfl
      have hpos := List.length_pos_iff.2 hmark.ne_nil
      simp only [← hlength, List.length_append]
      omega

theorem replaceAll_self (hmark : IsBraced mark) (cs : List Char) :
    replaceAll mark mark cs = cs := by
  induction cs using replaceAll_induction hmark with
  | none cs h => exact replaceAll_of_no_mark mark h
  | first us r h ih => rw [replaceAll_append_mark mark hmark, replaceAll_of_no_mark mark h, ih]

/-- Each mark gives its length for that of what replaces it. -/
theorem length_replaceAll (hmark : IsBraced mark) (cs : List Char) :
    (replaceAll mark by_ cs).length + occurrences mark cs * mark.length =
      cs.length + occurrences mark cs * by_.length := by
  induction cs using replaceAll_induction hmark with
  | none cs h => rw [replaceAll_of_no_mark by_ h, h, Nat.zero_mul, Nat.zero_mul]
  | first us r h ih =>
    rw [replaceAll_append_mark by_ hmark, replaceAll_of_no_mark by_ h,
      occurrences_append_mark hmark, h]
    simp only [List.length_append, Nat.zero_add, Nat.add_mul, Nat.one_mul]
    omega

/-- Only what replaces a mark by itself leaves a text with marks as it is. -/
theorem no_mark_of_replaceAll_eq (hmark : IsBraced mark) (hne : by_ ≠ mark) {cs : List Char}
    (h : replaceAll mark by_ cs = cs) :
    occurrences mark cs = 0 := by
  by_contra hmarks
  obtain ⟨us, r, rfl, hus⟩ := exists_first_mark hmarks
  rw [replaceAll_append_mark by_ hmark, replaceAll_of_no_mark by_ hus] at h
  have hrest := List.append_cancel_left h
  -- the texts behind the first mark are as long as each other, so both marks are
  have hlength := congrArg List.length hrest
  have hreplaced := length_replaceAll by_ hmark r
  rw [List.length_append, List.length_append] at hlength
  have hsum : (occurrences mark r + 1) * by_.length = (occurrences mark r + 1) * mark.length := by
    rw [Nat.add_mul, Nat.add_mul]
    omega
  exact hne (List.append_inj hrest (Nat.eq_of_mul_eq_mul_left (Nat.succ_pos _) hsum)).1

/-! ## Replacing in a text of pieces -/

theorem eq_of_mul_add_mul_eq {a b m n : Nat} (hne : m ≠ n)
    (h : a * m + b * n = a * n + b * m) : a = b := by
  have hproduct : ((a : Int) - b) * (m - n) = 0 := by
    have hcast := congrArg (Nat.cast : Nat → Int) h
    push_cast at hcast
    linear_combination hcast
  rcases mul_eq_zero.1 hproduct with hzero | hzero <;> omega

section Pieces

variable {α : Type} {text text' : α → List Char} {hole : α}

/-- Pieces up to the first hole, if there is one, and then from there on. -/
theorem hole_induction [DecidableEq α] {P : List α → Prop} (hole : α)
    (none : ∀ pieces, hole ∉ pieces → P pieces) (first : ∀ front rest, hole ∉ front → P rest →
      P (front ++ hole :: rest)) (pieces : List α) : P pieces := by
  induction hlength : pieces.length using Nat.strongRecOn generalizing pieces with
  | ind length ih =>
    by_cases hmem : hole ∈ pieces
    · obtain ⟨front, rest, rfl, hfront⟩ := List.eq_append_cons_of_mem hmem
      apply first front rest hfront
      refine ih rest.length ?_ rest rfl
      simp only [← hlength, List.length_append, List.length_cons]
      omega
    · exact none pieces hmem

theorem flatMap_of_not_mem (hsame : ∀ piece, piece ≠ hole → text' piece = text piece)
    {pieces : List α} (h : hole ∉ pieces) : pieces.flatMap text' = pieces.flatMap text := by
  refine List.flatMap_congr fun piece hpiece => hsame piece ?_
  rintro rfl
  exact h hpiece

variable [DecidableEq α]

/-- Every hole is a mark in the text of the pieces. -/
theorem count_le_occurrences (hmark : IsBraced mark) (hhole : text hole = mark) (pieces : List α) :
    pieces.count hole ≤ occurrences mark (pieces.flatMap text) := by
  induction pieces using hole_induction hole with
  | none pieces h => simp [List.count_eq_zero.2 h]
  | first front rest h ih =>
    rw [List.flatMap_append, List.flatMap_cons, hhole, occurrences_append_mark hmark,
      List.count_append, List.count_eq_zero.2 h, List.count_cons_self]
    omega

theorem length_flatMap_filled (hhole : text hole = mark) (hhole' : text' hole = by_)
    (hsame : ∀ piece, piece ≠ hole → text' piece = text piece) (pieces : List α) :
    (pieces.flatMap text').length + pieces.count hole * mark.length =
      (pieces.flatMap text).length + pieces.count hole * by_.length := by
  induction pieces with
  | nil => simp
  | cons piece pieces ih =>
    by_cases hpiece : piece = hole
    · subst hpiece
      simp only [List.flatMap_cons, List.length_append, List.count_cons_self, Nat.add_mul,
        hhole, hhole']
      omega
    · simp only [List.flatMap_cons, List.length_append, List.count_cons_of_ne hpiece,
        hsame piece hpiece]
      omega

/-- Replacing the marks in the text of some pieces fills the holes and nothing else exactly when the
text has no marks but the holes, or a mark is replaced by itself. -/
theorem replaceAll_flatMap_eq_iff (hmark : IsBraced mark) (hhole : text hole = mark)
    (hhole' : text' hole = by_) (hsame : ∀ piece, piece ≠ hole → text' piece = text piece)
    (pieces : List α) :
    replaceAll mark by_ (pieces.flatMap text) = pieces.flatMap text' ↔
      by_ = mark ∨ occurrences mark (pieces.flatMap text) = pieces.count hole := by
  by_cases hne : by_ = mark
  · subst hne
    have hall : text' = text := funext fun piece => by
      by_cases hpiece : piece = hole
      · rw [hpiece, hhole, hhole']
      · exact hsame piece hpiece
    simp [hall, replaceAll_self hmark]
  rw [or_iff_right hne]
  -- in front of the first hole both texts are the same, so there nothing may be replaced
  have hapart : ∀ front : List α, hole ∉ front →
      (replaceAll mark by_ (front.flatMap text) = front.flatMap text ↔
        occurrences mark (front.flatMap text) = 0) :=
    fun front _ => ⟨no_mark_of_replaceAll_eq by_ hmark hne, replaceAll_of_no_mark by_⟩
  induction pieces using hole_induction hole with
  | none pieces h => rw [flatMap_of_not_mem hsame h, hapart pieces h, List.count_eq_zero.2 h]
  | first front rest h ih =>
    have hcount : (front ++ hole :: rest).count hole = 1 + rest.count hole := by
      rw [List.count_append, List.count_eq_zero.2 h, List.count_cons_self]
      omega
    rw [List.flatMap_append, List.flatMap_append, List.flatMap_cons, List.flatMap_cons, hhole,
      hhole', flatMap_of_not_mem hsame h, replaceAll_append_mark by_ hmark,
      occurrences_append_mark hmark, hcount]
    constructor
    · intro heq
      have htotal := congrArg List.length heq
      have hfront := length_replaceAll by_ hmark (front.flatMap text)
      have hrest := length_replaceAll by_ hmark (rest.flatMap text)
      have hfilled := length_flatMap_filled by_ hhole hhole' hsame rest
      simp only [List.length_append] at htotal
      by_cases hlength : by_.length = mark.length
      · -- then the parts of both texts are as long as each other, and so they are the same
        rw [hlength] at hfront
        obtain ⟨hfront', hrest'⟩ := List.append_inj heq (by omega)
        have hzero := (hapart front h).1 hfront'
        have hsum := ih.1 (List.append_cancel_left hrest')
        omega
      · -- every mark that is no hole makes the text longer or shorter
        have hproduct :
          (occurrences mark (front.flatMap text) + occurrences mark (rest.flatMap text)) *
          by_.length +
            rest.count hole * mark.length =
            (occurrences mark (front.flatMap text) + occurrences mark (rest.flatMap text)) *
              mark.length +
              rest.count hole * by_.length := by
          rw [Nat.add_mul, Nat.add_mul]
          omega
        have hsum := eq_of_mul_add_mul_eq hlength hproduct
        omega
    · intro heq
      have hle := count_le_occurrences hmark hhole rest
      have hzero : occurrences mark (front.flatMap text) = 0 := by omega
      rw [replaceAll_of_no_mark by_ hzero, ih.2 (by omega)]

end Pieces

end Replacing

end Text

open Text

/-! ## Placeholders -/

theorem isBraced_placeholder (i : Nat) : IsBraced (placeholder i) := by
  refine ⟨(toString i).toList, rfl, fun hmem => ?_⟩
  rw [toList_toString] at hmem
  exact absurd (Nat.isDigit_of_mem_toDigits (by decide) (by decide) hmem) (by decide)

/-- The number of the placeholder that a text starts with. -/
def placeholderAt? (cs : List Char) : Option Nat :=
  let i := digitsValue ((cs.drop 1).takeWhile Char.isDigit)
  if startsWith (placeholder i) cs then some i else none

theorem placeholderAt?_eq_some_iff {cs : List Char} {i : Nat} :
    placeholderAt? cs = some i ↔ ∃ r, cs = placeholder i ++ r := by
  rw [← startsWith_iff]
  constructor
  · intro h
    unfold placeholderAt? at h
    dsimp only at h
    split at h
    · next hstart => exact Option.some.inj h ▸ hstart
    · cases h
  · intro h
    obtain ⟨r, rfl⟩ := startsWith_iff.1 h
    -- the digits after the opening brace end before the closing one
    have hdigits : ((placeholder i ++ r).drop 1).takeWhile Char.isDigit = Nat.toDigits 10 i := by
      have hall : ∀ c ∈ Nat.toDigits 10 i, c.isDigit = true := fun c hc =>
        Nat.isDigit_of_mem_toDigits (by decide) (by decide) hc
      have hbrace : ¬ '}'.isDigit = true := by decide
      rw [placeholder, toList_toString, List.cons_append, List.drop_one, List.tail_cons,
        List.append_assoc, List.takeWhile_append_of_pos hall, List.singleton_append,
        List.takeWhile_cons_of_neg hbrace, List.append_nil]
    unfold placeholderAt?
    dsimp only
    rw [hdigits, digitsValue_toDigits, if_pos h]

/-- A part of a template. -/
inductive Piece where
  | char (c : Char)
  /-- The placeholder of the argument with number `i`. -/
  | hole (i : Nat)
  deriving DecidableEq, Repr

/-- The pieces of a template, after `passed` characters that belong to the piece before. -/
def piecesFrom : List Char → (passed : Nat) → List Piece
  | [], _ => []
  | _ :: r, passed + 1 => piecesFrom r passed
  | c :: r, 0 =>
    match placeholderAt? (c :: r) with
    | none => .char c :: piecesFrom r 0
    | some i => .hole i :: piecesFrom r ((placeholder i).length - 1)

/-- The pieces of a template. -/
def pieces (template : List Char) : List Piece := piecesFrom template 0

/-- The text for a piece: the argument for a hole, or the placeholder when there is none. -/
def Piece.text (arguments : List (List Char)) : Piece → List Char
  | char c => [c]
  | hole i => (arguments[i]?).getD (placeholder i)

/-- Substitutes all arguments for the placeholders of a template, each where the template has it. -/
def fillAtOnce (template : String) (arguments : List String) : String :=
  String.ofList ((pieces template.toList).flatMap (Piece.text (arguments.map String.toList)))

/-! ## Pieces of a template -/

theorem piecesFrom_append (us r : List Char) : piecesFrom (us ++ r) us.length = pieces r := by
  induction us with
  | nil => rfl
  | cons c us ih => exact ih

theorem pieces_placeholder (i : Nat) (r : List Char) :
    pieces (placeholder i ++ r) = .hole i :: pieces r := by
  have hat : placeholderAt? (placeholder i ++ r) = some i := placeholderAt?_eq_some_iff.2 ⟨r, rfl⟩
  obtain ⟨c, rest, hcons⟩ := List.exists_cons_of_ne_nil (isBraced_placeholder i).ne_nil
  have hlength : (placeholder i).length - 1 = rest.length := by
    rw [hcons, List.length_cons, Nat.add_sub_cancel]
  rw [hcons, List.cons_append] at hat ⊢
  rw [pieces, piecesFrom, hat]
  dsimp only
  rw [hlength, piecesFrom_append]

theorem pieces_cons {c : Char} {r : List Char} (h : placeholderAt? (c :: r) = none) :
    pieces (c :: r) = .char c :: pieces r := by
  unfold pieces
  rw [piecesFrom, h]

/-- A template is empty, or it starts with a placeholder, or with some other character. -/
theorem template_induction {P : List Char → Prop} (nil : P [])
    (hole : ∀ i r, P r → P (placeholder i ++ r)) (char : ∀ c r, placeholderAt? (c :: r) = none →
      P r → P (c :: r)) (template : List Char) : P template := by
  induction hlength : template.length using Nat.strongRecOn generalizing template with
  | ind length ih =>
    cases template with
    | nil => exact nil
    | cons c r =>
      cases hat : placeholderAt? (c :: r) with
      | none => exact char c r hat (ih r.length (by simp [← hlength]) r rfl)
      | some i =>
        obtain ⟨rest, hrest⟩ := placeholderAt?_eq_some_iff.1 hat
        rw [hrest] at hlength ⊢
        have hpos := List.length_pos_iff.2 (isBraced_placeholder i).ne_nil
        rw [List.length_append] at hlength
        exact hole i rest (ih rest.length (by omega) rest rfl)

/-- Without arguments the pieces are the template again. -/
theorem flatMap_text_nil (template : List Char) :
    (pieces template).flatMap (Piece.text []) = template := by
  induction template using template_induction with
  | nil => rfl
  | hole i r ih =>
    rw [pieces_placeholder, List.flatMap_cons, ih]
    rfl
  | char c r h ih =>
    rw [pieces_cons h, List.flatMap_cons, ih]
    rfl

/-- The holes of a template are its placeholders. -/
theorem occurrences_eq_count (template : List Char) (i : Nat) :
    occurrences (placeholder i) template = (pieces template).count (.hole i) := by
  have hmark := isBraced_placeholder i
  induction template using template_induction with
  | nil => rfl
  | hole j r ih =>
    rw [pieces_placeholder]
    by_cases hij : j = i
    · subst hij
      rw [← List.nil_append (placeholder j ++ r), occurrences_append_mark hmark,
        List.count_cons_self, ih]
      simp [occurrences, Nat.add_comm]
    · -- another placeholder is not this one, and has no brace inside
      have hnot : ¬ startsWith (placeholder i) (placeholder j ++ r) = true := by
        intro hstart
        have hi := placeholderAt?_eq_some_iff.2 (startsWith_iff.1 hstart)
        have hj : placeholderAt? (placeholder j ++ r) = some j :=
          placeholderAt?_eq_some_iff.2 ⟨r, rfl⟩
        exact hij (Option.some.inj (hj.symm.trans hi))
      obtain ⟨inside, hinside, hbrace⟩ := isBraced_placeholder j
      have hne : Piece.hole j ≠ .hole i := fun heq => hij (Piece.hole.inj heq)
      have htail : '{' ∉ inside ++ ['}'] := by simp [hbrace]
      rw [hinside, List.cons_append] at hnot ⊢
      rw [occurrences_cons_of_not hnot, occurrences_append_of_not_mem hmark htail,
        List.count_cons_of_ne hne, ih]
  | char c r h ih =>
    have hnot : ¬ startsWith (placeholder i) (c :: r) = true := by
      intro hstart
      rw [placeholderAt?_eq_some_iff.2 (startsWith_iff.1 hstart)] at h
      cases h
    have hne : Piece.char c ≠ .hole i := fun heq => nomatch heq
    rw [pieces_cons h, occurrences_cons_of_not hnot, List.count_cons_of_ne hne, ih]

/-! ## One argument after the other -/

theorem fillTemplate_nil (template : String) : fillTemplate template [] = template :=
  String.ofList_toList

theorem fillAtOnce_nil (template : String) : fillAtOnce template [] = template := by
  rw [fillAtOnce, List.map_nil, flatMap_text_nil, String.ofList_toList]

/-- The last argument is filled into the text that the ones before it give. -/
theorem fillTemplate_concat (template : String) (arguments : List String) (last : String) :
    (fillTemplate template (arguments ++ [last])).toList =
      replaceAll (placeholder arguments.length) last.toList
        (fillTemplate template arguments).toList := by
  have hnumber : ∀ (arguments : List String) (state : List Char × Nat),
      (arguments.foldl (fun (state : List Char × Nat) argument =>
        (replaceAll (placeholder state.2) argument.toList state.1, state.2 + 1)) state).2 =
            state.2 + arguments.length := by
    intro arguments
    induction arguments with
    | nil => exact fun _ => rfl
    | cons argument arguments ih =>
      intro state
      rw [List.foldl_cons, ih, List.length_cons]
      omega
  unfold fillTemplate
  simp only [List.foldl_append, List.foldl_cons, List.foldl_nil, String.toList_ofList, hnumber,
    Nat.zero_add]

/-- With one more argument, filling one after the other goes on to give what filling at once gives,
exactly when the text so far has no more placeholders for it than the template, or the argument is
its own placeholder. -/
theorem replaceAll_fillAtOnce_iff (template : String) (arguments : List String) (last : String) :
    replaceAll (placeholder arguments.length) last.toList (fillAtOnce template arguments).toList =
        (fillAtOnce template (arguments ++ [last])).toList ↔
      last.toList = placeholder arguments.length ∨
        occurrences (placeholder arguments.length) (fillAtOnce template arguments).toList =
          occurrences (placeholder arguments.length) template.toList := by
  have hhole : Piece.text (arguments.map String.toList) (.hole arguments.length) =
      placeholder arguments.length := by
    simp [Piece.text]
  have hhole' : Piece.text ((arguments ++ [last]).map String.toList) (.hole arguments.length) =
      last.toList := by
    simp [Piece.text]
  -- the last argument changes the text of its own placeholder only
  have hsame : ∀ piece, piece ≠ .hole arguments.length →
      Piece.text ((arguments ++ [last]).map String.toList) piece =
        Piece.text (arguments.map String.toList) piece := by
    intro piece hpiece
    cases piece with
    | char c => rfl
    | hole i =>
      have hi : i ≠ arguments.length := fun heq => hpiece (congrArg Piece.hole heq)
      rcases Nat.lt_or_gt_of_ne hi with hlt | hlt
      · simp [Piece.text, List.getElem?_append_left, hlt]
      · have hbeyond : (arguments ++ [last]).length ≤ i := by simpa using hlt
        rw [Piece.text, Piece.text, List.getElem?_map, List.getElem?_map,
          List.getElem?_eq_none hbeyond, List.getElem?_eq_none hlt.le]
  have hiff :=
    replaceAll_flatMap_eq_iff last.toList (isBraced_placeholder arguments.length) hhole hhole' hsame
    (pieces template.toList)
  rw [fillAtOnce, fillAtOnce, String.toList_ofList, String.toList_ofList,
    occurrences_eq_count template.toList]
  exact hiff

/-- Filling the placeholders one argument after the other gives what filling them at once gives, for
every number of first arguments, exactly when before each argument the text so far has as many
placeholders for it as the template, or the argument is that placeholder itself. -/
theorem fillTemplate_eq_fillAtOnce_iff (template : String) (arguments : List String) :
    (∀ m ≤ arguments.length,
      fillTemplate template (arguments.take m) = fillAtOnce template (arguments.take m)) ↔
      ∀ i (h : i < arguments.length), arguments[i].toList = placeholder i ∨
        occurrences (placeholder i) (fillAtOnce template (arguments.take i)).toList =
          occurrences (placeholder i) template.toList := by
  have hstep : ∀ i (h : i < arguments.length),
      arguments.take (i + 1) = arguments.take i ++ [arguments[i]] ∧
        (arguments.take i).length = i := by
    intro i h
    exact ⟨(List.take_append_getElem h).symm, List.length_take_of_le h.le⟩
  constructor
  · intro hall i h
    obtain ⟨htake, hlength⟩ := hstep i h
    have hnext := congrArg String.toList (hall (i + 1) h)
    rw [htake, fillTemplate_concat, hall i h.le] at hnext
    have hiff := (replaceAll_fillAtOnce_iff template (arguments.take i) arguments[i]).1 hnext
    rwa [hlength] at hiff
  · intro hall m hm
    induction m with
    | zero => rw [List.take_zero, fillTemplate_nil, fillAtOnce_nil]
    | succ m ih =>
      obtain ⟨htake, hlength⟩ := hstep m hm
      have hiff := replaceAll_fillAtOnce_iff template (arguments.take m) arguments[m]
      rw [hlength] at hiff
      apply String.toList_inj.1
      rw [htake, fillTemplate_concat, ih (Nat.le_of_succ_le hm), hlength]
      exact hiff.2 (hall m hm)

/-- A module specifier with the second placeholder in it is reported with the name of the missing
export in its place. -/
theorem message_of_placeholder_specifier :
    let p := Problem.noExportedMember "./\x7b1\x7d" "x"
    p.message = "Module '\"./x\"' has no exported member 'x'." ∧
      fillAtOnce p.template p.arguments =
        "Module '\"./\x7b1\x7d\"' has no exported member 'x'." := by
  decide

/-! ## Messages of a project -/

namespace Problem

/-- Only the message about a missing export has more than one argument. -/
theorem length_arguments_le (p : Problem) :
    p.arguments.length ≤ 1 ∨ ∃ specifier name, p = noExportedMember specifier name := by
  cases p with
  | noExportedMember specifier name => exact .inr ⟨specifier, name, rfl⟩
  | _ => exact .inl (by simp [arguments])

/-- One argument alone is filled in at once. -/
theorem fillTemplate_of_short (template : String) {arguments : List String}
    (h : arguments.length ≤ 1) :
    fillTemplate template arguments = fillAtOnce template arguments := by
  cases arguments with
  | nil => rw [fillTemplate_nil, fillAtOnce_nil]
  | cons argument rest =>
    obtain rfl : rest = [] := List.length_eq_zero_iff.1 (by simpa using h)
    have hfirst :=
      (replaceAll_fillAtOnce_iff template [] argument).2 (.inr (by rw [fillAtOnce_nil]))
    have hfill := fillTemplate_concat template [] argument
    rw [fillTemplate_nil] at hfill
    rw [fillAtOnce_nil] at hfirst
    exact String.toList_inj.1 (hfill.trans hfirst)

/-- The message about a missing export, with the specifier filled in. -/
theorem toList_fillAtOnce_specifier (specifier name : String) :
    (fillAtOnce (noExportedMember specifier name).template [specifier]).toList =
      "Module '\"".toList ++
        (specifier.toList ++
          '"' :: ("' has no exported member '".toList ++ (placeholder 1 ++ "'.".toList))) := by
  have hpieces : pieces (noExportedMember "" "").template.toList =
      "Module '\"".toList.map .char ++
        .hole 0 :: .char '"' ::
          ("' has no exported member '".toList.map .char ++ .hole 1 :: "'.".toList.map .char) := by
    decide
  have hchars : ∀ (arguments : List (List Char)) (cs : List Char),
      (cs.map Piece.char).flatMap (Piece.text arguments) = cs := by
    intro arguments cs
    rw [List.flatMap_map]
    exact List.flatMap_singleton' cs
  have htemplate : (noExportedMember specifier name).template = (noExportedMember "" "").template :=
    rfl
  rw [fillAtOnce, String.toList_ofList, htemplate, hpieces]
  simp only [List.flatMap_append, List.flatMap_cons, hchars]
  simp [Piece.text]

/-- A message has its arguments filled in at once, unless it is about a missing export: then the
specifier must not hold the second placeholder, or the name must be that placeholder. -/
theorem message_eq_iff (p : Problem) :
    p.message = fillAtOnce p.template p.arguments ↔
      ∀ specifier name, p = noExportedMember specifier name →
        name.toList = placeholder 1 ∨ occurrences (placeholder 1) specifier.toList = 0 := by
  -- with at most one argument nothing can be replaced twice
  rcases p.length_arguments_le with hshort | ⟨specifier, name, rfl⟩
  · refine ⟨fun _ specifier name hp => ?_, fun _ => fillTemplate_of_short p.template hshort⟩
    rw [hp] at hshort
    exact absurd hshort (by simp [arguments])
  · let template := (noExportedMember specifier name).template
    have hmessage : (noExportedMember specifier name).message.toList =
        replaceAll (placeholder 1) name.toList (fillAtOnce template [specifier]).toList := by
      rw [← fillTemplate_of_short template (by simp)]
      exact fillTemplate_concat template [specifier] name
    have hcount : occurrences (placeholder 1) (fillAtOnce template [specifier]).toList =
        occurrences (placeholder 1) specifier.toList +
          occurrences (placeholder 1) template.toList := by
      have hrest : occurrences (placeholder 1) ('"' :: ("' has no exported member '".toList ++
          (placeholder 1 ++ "'.".toList))) =
            occurrences (placeholder 1) (noExportedMember "" "").template.toList := by
        decide
      rw [toList_fillAtOnce_specifier,
        occurrences_append_of_not_mem (isBraced_placeholder 1) (by decide),
        occurrences_append_cons (by decide), hrest]
      rfl
    have hiff : (noExportedMember specifier name).message.toList =
      (fillAtOnce template [specifier, name]).toList ↔
        name.toList = placeholder 1 ∨ occurrences (placeholder 1) specifier.toList = 0 := by
      have hlast := replaceAll_fillAtOnce_iff template [specifier] name
      rw [List.length_singleton, List.singleton_append, hcount] at hlast
      rw [hmessage, hlast]
      exact or_congr_right (by omega)
    constructor
    · rintro heq _ _ hp
      obtain ⟨rfl, rfl⟩ := noExportedMember.inj hp
      exact hiff.1 (congrArg String.toList heq)
    · intro h
      exact String.toList_inj.1 (hiff.2 (h specifier name rfl))

end Problem

end DeclBundle
