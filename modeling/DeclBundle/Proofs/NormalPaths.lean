import DeclBundle.Path
import Mathlib.Data.List.Basic

/-!
# Normalized paths

A path is normalized by taking its segments one by one onto a stack. The stack only ever holds
names, and below them, in a relative path, segments that go up (`Path.IsStack`). A stack that is
written and read again is the same stack; so a normalized path stays as it is
(`Path.normalize_normalize`).
-/

set_option autoImplicit false

namespace DeclBundle

namespace Text

/-! ## Splitting -/

theorem splitWhere_go (p : Char → Bool) (cs piece : List Char) (done : List (List Char)) :
    splitWhere.go p cs piece done = done.reverse ++ cs.splitOnPPrepend p piece := by
  induction cs generalizing piece done with
  | nil => simp [splitWhere.go]
  | cons c cs ih =>
    rw [splitWhere.go, List.splitOnPPrepend_cons_eq_if]
    split
    · rw [ih, List.reverse_cons, List.append_assoc, List.singleton_append]
      rfl
    · exact ih (c :: piece) done

theorem splitWhere_eq_splitOnP (p : Char → Bool) (cs : List Char) :
    splitWhere p cs = cs.splitOnP p :=
  splitWhere_go p cs [] []

theorem splitAt_eq_splitOn (mark : Char) (cs : List Char) : splitAt mark cs = cs.splitOn mark :=
  splitWhere_eq_splitOnP (· == mark) cs

theorem joinWith_eq_intercalate (mark : List Char) (pieces : List (List Char)) :
    joinWith mark pieces = mark.intercalate pieces := rfl

/-- The pieces of a text are parts of it, without the mark. -/
theorem of_mem_splitAt {mark : Char} {cs piece : List Char} (h : piece ∈ splitAt mark cs) :
    mark ∉ piece ∧ ∀ c ∈ piece, c ∈ cs := by
  rw [splitAt_eq_splitOn] at h
  induction cs generalizing piece with
  | nil =>
    obtain rfl := List.mem_singleton.1 h
    exact ⟨List.not_mem_nil, fun _ h => nomatch h⟩
  | cons c cs ih =>
    have hrest : ∀ piece ∈ cs.splitOn mark, mark ∉ piece ∧ ∀ d ∈ piece, d ∈ c :: cs :=
      fun piece hpiece =>
      ⟨(ih hpiece).1, fun d hd => List.mem_cons_of_mem c ((ih hpiece).2 d hd)⟩
    rw [List.splitOn_cons_eq_if_modifyHead] at h
    split at h
    · rcases List.mem_cons.1 h with rfl | h
      · exact ⟨List.not_mem_nil, fun _ h => nomatch h⟩
      · exact hrest piece h
    · next hother =>
      cases hpieces : cs.splitOn mark with
      | nil => exact absurd hpieces (List.splitOn_ne_nil mark cs)
      | cons first rest =>
        rw [hpieces] at h hrest
        rcases List.mem_cons.1 h with rfl | h
        · obtain ⟨hmark, hpart⟩ := hrest first List.mem_cons_self
          refine ⟨fun hmem => ?_, fun d hd => ?_⟩
          · rcases List.mem_cons.1 hmem with rfl | hmem
            · exact hother BEq.rfl
            · exact hmark hmem
          · rcases List.mem_cons.1 hd with rfl | hd
            · exact List.mem_cons_self
            · exact hpart d hd
        · exact hrest piece (List.mem_cons_of_mem first h)

end Text

namespace Path

open Text

/-! ## Stacks of segments -/

/-- The segment that goes up. -/
def up : List Char := ['.', '.']

/-- A segment of a normalized path. -/
structure IsSegment (segment : List Char) : Prop where
  ne_nil : segment ≠ []
  ne_dot : segment ≠ ['.']
  not_slash : '/' ∉ segment
  not_backslash : '\\' ∉ segment

/-- The segments of a normalized path, the last one first: what goes up is before all names, and
only in a relative path. -/
def IsStack (isAbsolute : Bool) : List (List Char) → Prop
  | [] => True
  | segment :: found =>
    IsSegment segment ∧ (segment = up → isAbsolute = false ∧ ∀ s ∈ found, s = up) ∧
      IsStack isAbsolute found

theorem IsStack.isSegment {isAbsolute : Bool} {found : List (List Char)}
    (h : IsStack isAbsolute found) {segment : List Char} (hmem : segment ∈ found) :
    IsSegment segment := by
  induction found with
  | nil => cases hmem
  | cons first found ih =>
    rcases List.mem_cons.1 hmem with rfl | hmem
    · exact h.1
    · exact ih h.2.2 hmem

/-- Taking in a segment leaves a stack. -/
theorem IsStack.addSegment {isAbsolute : Bool} {found : List (List Char)}
    (h : IsStack isAbsolute found) {segment : List Char} (hslash : '/' ∉ segment)
    (hbackslash : '\\' ∉ segment) :
    IsStack isAbsolute (addSegment isAbsolute found segment) := by
  unfold Path.addSegment
  split
  · exact h
  · next hwritten =>
    -- an empty segment and a dot were skipped
    rw [Bool.or_eq_true, not_or, List.isEmpty_iff, beq_iff_eq] at hwritten
    have hsegment : IsSegment segment := ⟨hwritten.1, hwritten.2, hslash, hbackslash⟩
    split
    · next hup =>
      have hup : segment = up := beq_iff_eq.1 hup
      cases found with
      | nil =>
        cases isAbsolute with
        | true => exact trivial
        | false => exact ⟨hsegment, fun _ => ⟨rfl, fun _ h => nomatch h⟩, trivial⟩
      | cons last rest =>
        dsimp only
        split
        · next hlast =>
          have hlast : last = up := beq_iff_eq.1 hlast
          obtain ⟨hrelative, hrest⟩ := h.2.1 hlast
          refine ⟨hsegment, fun _ => ⟨hrelative, fun s hs => ?_⟩, h⟩
          rcases List.mem_cons.1 hs with rfl | hs
          · exact hlast
          · exact hrest s hs
        · exact h.2.2
    · next hname => exact ⟨hsegment, fun hup => absurd (beq_iff_eq.2 hup) hname, h⟩

/-- Reading a segment of a stack puts it back. -/
theorem IsStack.addSegment_eq {isAbsolute : Bool} {segment : List Char} {found : List (List Char)}
    (h : IsStack isAbsolute (segment :: found)) :
    Path.addSegment isAbsolute found segment = segment :: found := by
  obtain ⟨hsegment, hup, -⟩ := h
  unfold Path.addSegment
  rw [if_neg (by simp [hsegment.ne_nil, hsegment.ne_dot])]
  split
  · next heq =>
    obtain ⟨hrelative, hfound⟩ := hup (beq_iff_eq.1 heq)
    cases found with
    | nil => rw [hrelative, beq_iff_eq.1 heq]; rfl
    | cons last rest =>
      have hlast : last = ['.', '.'] := hfound last List.mem_cons_self
      exact if_pos (beq_iff_eq.2 hlast)
  · rfl

theorem IsStack.foldl_reverse {isAbsolute : Bool} {found : List (List Char)}
    (h : IsStack isAbsolute found) :
    found.reverse.foldl (Path.addSegment isAbsolute) [] = found := by
  induction found with
  | nil => rfl
  | cons segment found ih => rw [List.reverse_cons, List.foldl_append, ih h.2.2, List.foldl_cons,
    List.foldl_nil, h.addSegment_eq]

theorem isStack_foldl (isAbsolute : Bool) (segments : List (List Char))
    (h : ∀ s ∈ segments, '/' ∉ s ∧ '\\' ∉ s) :
    IsStack isAbsolute (segments.foldl (Path.addSegment isAbsolute) []) :=
  List.foldlRecOn (motive := IsStack isAbsolute) segments _ trivial
    fun _ hfound segment hsegment => hfound.addSegment (h segment hsegment).1 (h segment hsegment).2

/-! ## Writing and reading -/

/-- A path with slashes only. -/
def slashed (path : List Char) : List Char := path.map fun c => if c == '\\' then '/' else c

theorem slashed_eq_self {path : List Char} (h : '\\' ∉ path) : slashed path = path := by
  refine (List.map_congr_left fun c hc => ?_).trans (List.map_id path)
  have hother : c ≠ '\\' := fun hback => h (hback ▸ hc)
  exact if_neg (by simpa using hother)

theorem not_backslash_slashed (path : List Char) : '\\' ∉ slashed path := by
  intro hmem
  obtain ⟨c, -, hc⟩ := List.mem_map.1 hmem
  split at hc
  · cases hc
  · next hother => exact hother (beq_iff_eq.2 hc)

/-- The segments of a path, the last one first. -/
def segmentsOf (isAbsolute : Bool) (path : List Char) : List (List Char) :=
  (splitAt '/' path).foldl (addSegment isAbsolute) []

/-- The path with the given segments, the last one first. -/
def written (isAbsolute : Bool) (found : List (List Char)) : List Char :=
  if isAbsolute then '/' :: joinWith ['/'] found.reverse
  else if (joinWith ['/'] found.reverse).isEmpty then ['.'] else joinWith ['/'] found.reverse

theorem normalizeChars_eq (path : List Char) :
    normalizeChars path = written (startsWith ['/'] (slashed path))
      (segmentsOf (startsWith ['/'] (slashed path)) (slashed path)) := rfl

theorem isStack_segmentsOf (isAbsolute : Bool) (path : List Char) (h : '\\' ∉ path) :
    IsStack isAbsolute (segmentsOf isAbsolute path) :=
  isStack_foldl isAbsolute _ fun _ hs =>
    ⟨(of_mem_splitAt hs).1, fun hmem => h ((of_mem_splitAt hs).2 _ hmem)⟩

theorem splitAt_slash_cons (path : List Char) :
    splitAt '/' ('/' :: path) = [] :: splitAt '/' path := by
  simp only [splitAt_eq_splitOn]
  exact List.splitOn_append_cons_self [] path

theorem startsWith_slash_cons (c : Char) (cs : List Char) :
    startsWith ['/'] (c :: cs) = decide ('/' = c) := by
  by_cases h : '/' = c
  · subst h
    rfl
  · simp [startsWith, after?, h]

theorem mem_intercalate {mark : List Char} {pieces : List (List Char)} {c : Char}
    (h : c ∈ mark.intercalate pieces) :
    c ∈ mark ∨ ∃ piece ∈ pieces, c ∈ piece := by
  induction pieces with
  | nil => simp at h
  | cons piece pieces ih =>
    cases pieces with
    | nil => exact .inr ⟨piece, List.mem_cons_self, by simpa using h⟩
    | cons second pieces =>
      rw [List.intercalate_cons_cons, List.mem_append, List.mem_append] at h
      rcases h with (h | h) | h
      · exact .inr ⟨piece, List.mem_cons_self, h⟩
      · exact .inl h
      · rcases ih h with h | ⟨other, hother, hc⟩
        · exact .inl h
        · exact .inr ⟨other, List.mem_cons_of_mem _ hother, hc⟩

section

variable {isAbsolute : Bool} {found : List (List Char)} (h : IsStack isAbsolute found)

include h

theorem not_backslash_joinWith : '\\' ∉ joinWith ['/'] found.reverse := by
  intro hmem
  rcases mem_intercalate hmem with hslash | ⟨segment, hsegment, hin⟩
  · simp at hslash
  · exact (h.isSegment (List.mem_reverse.1 hsegment)).not_backslash hin

theorem splitAt_joinWith (hne : found ≠ []) :
    splitAt '/' (joinWith ['/'] found.reverse) = found.reverse := by
  rw [splitAt_eq_splitOn]
  refine List.splitOn_intercalate '/' (fun segment hsegment => ?_) (by simpa using hne)
  exact (h.isSegment (List.mem_reverse.1 hsegment)).not_slash

/-- What is written for some segments does not start with a slash. -/
theorem exists_joinWith_eq_cons (hne : found ≠ []) :
    ∃ c cs, joinWith ['/'] found.reverse = c :: cs ∧ c ≠ '/' := by
  cases hrev : found.reverse with
  | nil => exact absurd (List.reverse_eq_nil_iff.1 hrev) hne
  | cons first rest =>
    have hfirst :=
      h.isSegment (List.mem_reverse.1 (hrev ▸ List.mem_cons_self : first ∈ found.reverse))
    cases hchars : first with
    | nil => exact absurd hchars hfirst.ne_nil
    | cons c cs =>
      have hc : c ≠ '/' := fun heq => hfirst.not_slash (hchars ▸ heq ▸ List.mem_cons_self)
      cases rest with
      | nil => exact ⟨c, cs, by simp [joinWith_eq_intercalate], hc⟩
      | cons second rest =>
        exact ⟨c, _, by rw [joinWith_eq_intercalate, List.intercalate_cons_cons, List.cons_append,
          List.cons_append], hc⟩

theorem slashed_written : slashed (written isAbsolute found) = written isAbsolute found := by
  refine slashed_eq_self ?_
  unfold written
  split
  · intro hmem
    rcases List.mem_cons.1 hmem with heq | hmem
    · cases heq
    · exact not_backslash_joinWith h hmem
  · split
    · simp
    · exact not_backslash_joinWith h

theorem startsWith_written : startsWith ['/'] (written isAbsolute found) = isAbsolute := by
  unfold written
  cases isAbsolute with
  | true => exact startsWith_slash_cons '/' _
  | false =>
    rw [if_neg Bool.false_ne_true]
    by_cases hne : found = []
    · subst hne
      rfl
    · obtain ⟨c, cs, hjoin, hc⟩ := exists_joinWith_eq_cons h hne
      rw [hjoin, List.isEmpty_cons, if_neg Bool.false_ne_true, startsWith_slash_cons]
      exact decide_eq_false fun heq => hc heq.symm

/-- Reading what is written for segments gives them back. -/
theorem segmentsOf_written : segmentsOf isAbsolute (written isAbsolute found) = found := by
  unfold written
  by_cases hne : found = []
  · subst hne
    cases isAbsolute <;> rfl
  · obtain ⟨c, cs, hjoin, -⟩ := exists_joinWith_eq_cons h hne
    have hread : segmentsOf isAbsolute (joinWith ['/'] found.reverse) = found := by
      rw [segmentsOf, splitAt_joinWith h hne, h.foldl_reverse]
    cases isAbsolute with
    | true =>
      -- the slash at the start leaves an empty piece before the others
      rw [if_pos rfl, segmentsOf, splitAt_slash_cons, List.foldl_cons]
      exact hread
    | false =>
      rw [if_neg Bool.false_ne_true, hjoin, List.isEmpty_cons, if_neg Bool.false_ne_true, ← hjoin]
      exact hread

theorem normalizeChars_written :
    normalizeChars (written isAbsolute found) = written isAbsolute found := by
  rw [normalizeChars_eq, slashed_written h, startsWith_written h, segmentsOf_written h]

end

/-- A normalized path stays as it is. -/
theorem normalize_normalize (path : String) : normalize (normalize path) = normalize path := by
  have hstack := isStack_segmentsOf (startsWith ['/'] (slashed path.toList)) _
    (not_backslash_slashed path.toList)
  rw [normalize, normalize, String.toList_ofList, normalizeChars_eq path.toList,
    normalizeChars_written hstack]

theorem normalize_join (dir relative : String) :
    normalize (join dir relative) = join dir relative := by
  unfold join
  split
  · exact normalize_normalize _
  · exact normalize_normalize _

/-! ## Endings -/

/-- A text that can end a name: it is longer than the segment that goes up, and lies inside one
segment. -/
def IsEnding (ending : List Char) : Prop := 2 < ending.length ∧ '/' ∉ ending ∧ '\\' ∉ ending

instance (ending : List Char) : Decidable (IsEnding ending) :=
  inferInstanceAs (Decidable (_ ∧ _ ∧ _))

/-- What is written before the segment that comes after the given ones. -/
def opening (isAbsolute : Bool) (found : List (List Char)) : List Char :=
  (if isAbsolute then ['/'] else []) ++ found.reverse.flatMap (· ++ ['/'])

theorem joinWith_append_singleton (segments : List (List Char)) (last : List Char) :
    joinWith ['/'] (segments ++ [last]) = segments.flatMap (· ++ ['/']) ++ last := by
  rw [joinWith_eq_intercalate]
  induction segments with
  | nil => exact List.intercalate_singleton
  | cons segment segments ih =>
    rw [List.cons_append, List.intercalate_cons_of_ne_nil (by simp), ih, List.flatMap_cons]
    simp only [List.append_assoc]

theorem written_cons {isAbsolute : Bool} {segment : List Char} (hne : segment ≠ [])
    (found : List (List Char)) :
    written isAbsolute (segment :: found) = opening isAbsolute found ++ segment := by
  have hjoin := joinWith_append_singleton found.reverse segment
  rw [written, List.reverse_cons, hjoin, opening]
  cases isAbsolute with
  | true => rfl
  | false => simp [hne]

/-- A slash, or nothing, is written before a segment. -/
theorem opening_eq_nil_or (isAbsolute : Bool) (found : List (List Char)) :
    opening isAbsolute found = [] ∨ ∃ front, opening isAbsolute found = front ++ ['/'] := by
  cases found with
  | nil =>
    cases isAbsolute with
    | true => exact .inr ⟨[], rfl⟩
    | false => exact .inl rfl
  | cons segment found =>
    refine .inr
      ⟨(if isAbsolute then ['/'] else []) ++ (found.reverse.flatMap (· ++ ['/']) ++ segment), ?_⟩
    simp [opening, List.flatMap_append]

/-- The start of a path up to a place inside its last segment. -/
def IsStart (path : List Char) : Prop :=
  ∃ isAbsolute found front, IsStack isAbsolute found ∧ '/' ∉ front ∧ '\\' ∉ front ∧
    path = opening isAbsolute found ++ front

theorem normalizeChars_toList {path : String} (h : normalize path = path) :
    normalizeChars path.toList = path.toList := by
  rw [← String.toList_ofList (l := normalizeChars path.toList)]
  exact congrArg String.toList h

theorem exists_isStack_of_normal {path : List Char} (h : normalizeChars path = path) :
    ∃ isAbsolute found, IsStack isAbsolute found ∧ path = written isAbsolute found :=
  ⟨_, _, isStack_segmentsOf _ _ (not_backslash_slashed path), h.symm.trans (normalizeChars_eq path)⟩

theorem isStart_of_normal {path : List Char} (h : normalizeChars path = path) : IsStart path := by
  obtain ⟨isAbsolute, found, hstack, rfl⟩ := exists_isStack_of_normal h
  cases found with
  | nil =>
    cases isAbsolute with
    | true => exact ⟨true, [], [], trivial, by simp, by simp, rfl⟩
    | false => exact ⟨false, [], ['.'], trivial, by simp, by simp, rfl⟩
  | cons segment found =>
    obtain ⟨hsegment, -, hfound⟩ := hstack
    exact ⟨isAbsolute, found, segment, hfound, hsegment.not_slash, hsegment.not_backslash,
      written_cons hsegment.ne_nil found⟩

/-- An ending without a slash lies behind the last slash. -/
theorem exists_stem_of_append_eq {path ending head front : List Char} (hslash : '/' ∉ ending)
    (hhead : head = [] ∨ ∃ before, head = before ++ ['/']) (h : path ++ ending = head ++ front) :
    ∃ stem, path = head ++ stem ∧ front = stem ++ ending := by
  rcases List.append_eq_append_iff.1 h with ⟨extra, hcut, hextra⟩ | ⟨stem, hpath, hfront⟩
  · -- otherwise the ending would hold the slash before the segment
    have hnil : extra = [] := by
      rcases hhead with hnil | ⟨before, hbefore⟩
      · exact (List.append_eq_nil_iff.1 (hcut.symm.trans hnil)).2
      · refine List.eq_nil_iff_forall_not_mem.2 fun c hc => ?_
        have hlast : extra.getLast? = some '/' := by
          have := congrArg List.getLast? (hcut.symm.trans hbefore)
          rwa [List.getLast?_concat,
            List.getLast?_append_of_ne_nil _ (List.ne_nil_of_mem hc)] at this
        exact hslash (hextra ▸ List.mem_append_left front (List.mem_of_getLast? hlast))
    subst hnil
    exact ⟨[], by rw [hcut, List.append_nil, List.append_nil], hextra.symm⟩
  · exact ⟨stem, hpath, hfront⟩

/-- An ending that is taken away leaves the start of a path. -/
theorem isStart_of_normal_append {path ending : List Char} (hending : IsEnding ending)
    (h : normalizeChars (path ++ ending) = path ++ ending) : IsStart path := by
  obtain ⟨isAbsolute, found, front, hstack, hfront, hback, heq⟩ := isStart_of_normal h
  obtain ⟨stem, rfl, rfl⟩ :=
    exists_stem_of_append_eq hending.2.1 (opening_eq_nil_or isAbsolute found) heq
  exact ⟨isAbsolute, found, stem, hstack, fun hmem => hfront (List.mem_append_left ending hmem),
    fun hmem => hback (List.mem_append_left ending hmem), rfl⟩

theorem IsEnding.isSegment_append {front ending : List Char} (hending : IsEnding ending)
    (hslash : '/' ∉ front) (hbackslash : '\\' ∉ front) :
    IsSegment (front ++ ending) ∧ front ++ ending ≠ up := by
  obtain ⟨hlong, hslash', hbackslash'⟩ := hending
  have hlength : 2 < (front ++ ending).length := by
    rw [List.length_append]
    omega
  refine ⟨⟨fun h => ?_, fun h => ?_, by simp [hslash, hslash'], by simp [hbackslash, hbackslash']⟩,
    fun h => ?_⟩
  · simp [h] at hlength
  · simp [h] at hlength
  · simp [h, up] at hlength

/-- With an ending the start of a path is a normalized path. -/
theorem normalizeChars_append {path ending : List Char} (hpath : IsStart path)
    (hending : IsEnding ending) :
    normalizeChars (path ++ ending) = path ++ ending := by
  obtain ⟨isAbsolute, found, front, hstack, hslash, hbackslash, rfl⟩ := hpath
  obtain ⟨hsegment, hup⟩ := hending.isSegment_append hslash hbackslash
  rw [List.append_assoc, ← written_cons hsegment.ne_nil]
  exact normalizeChars_written ⟨hsegment, fun h => absurd h hup, hstack⟩

/-- A name after a slash stays as it is, and what comes before it does not depend on it. -/
theorem exists_opening_of_name (path : List Char) : ∃ isAbsolute found, IsStack isAbsolute found ∧
    ∀ name, IsSegment name → name ≠ up →
      normalizeChars (path ++ '/' :: name) = opening isAbsolute found ++ name := by
  refine ⟨startsWith ['/'] (slashed path ++ ['/']), segmentsOf _ (slashed path),
    isStack_segmentsOf _ _ (not_backslash_slashed path), fun name hname hup => ?_⟩
  have hslashed : slashed (path ++ '/' :: name) = slashed path ++ '/' :: name := by
    rw [slashed, List.map_append, List.map_cons]
    exact congrArg (slashed path ++ '/' :: ·) (slashed_eq_self hname.not_backslash)
  have habsolute : startsWith ['/'] (slashed path ++ '/' :: name) =
      startsWith ['/'] (slashed path ++ ['/']) := by
    cases slashed path with
    | nil => rfl
    | cons c cs =>
      rw [List.cons_append, List.cons_append, startsWith_slash_cons, startsWith_slash_cons]
  have hsplit : splitAt '/' (slashed path ++ '/' :: name) =
      splitAt '/' (slashed path) ++ [name] := by
    simp only [splitAt_eq_splitOn]
    rw [List.splitOn_append_cons_self, List.splitOn_eq_singleton hname.not_slash]
  have hname' : ∀ isAbsolute found, addSegment isAbsolute found name = name :: found :=
    fun isAbsolute found => by
    unfold addSegment
    rw [if_neg (by simp [hname.ne_nil, hname.ne_dot]), if_neg (by simpa [up] using hup)]
  rw [normalizeChars_eq, hslashed, habsolute, segmentsOf, hsplit, List.foldl_append,
    List.foldl_cons, List.foldl_nil, hname', written_cons hname.ne_nil]
  rfl

end Path

end DeclBundle
