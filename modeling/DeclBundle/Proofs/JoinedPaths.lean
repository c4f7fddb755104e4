import DeclBundle.Proofs.NormalPaths

/-!
# Joined paths

A normalized path is the current directory, the root, or made of names, behind segments that go up
where it is relative (`Path.IsNormal`): that is what a stack of segments looks like when it is
written. Normalizing the first part of a path before the rest is added changes nothing
(`Path.normalizeChars_append_slash`), so paths can be joined in any order. Both facts together are
the laws of paths (`Path.normalize_join_laws`).
-/

set_option autoImplicit false

namespace DeclBundle.Path

open Text

/-! ## Normalized paths -/

/-- A segment that leads into a directory or to a file. -/
def IsName (segment : List Char) : Prop := segment ≠ [] ∧ segment ≠ ['.'] ∧ segment ≠ up

/-- The forms of a normalized path: the current directory, the root, names below the root, and names
below directories that are reached by going up. -/
inductive IsNormal (path : List Char) : Prop where
  | current (h : path = ['.'])
  | root (h : path = ['/'])
  | absolute (names : List (List Char)) (hne : names ≠ []) (hnames : ∀ name ∈ names, IsName name)
      (h : splitAt '/' path = [] :: names)
  | relative (ups : Nat) (names : List (List Char)) (hnames : ∀ name ∈ names, IsName name)
      (h : splitAt '/' path = List.replicate ups up ++ names)

theorem IsSegment.isName {segment : List Char} (h : IsSegment segment) (hup : segment ≠ up) :
    IsName segment :=
  ⟨h.ne_nil, h.ne_dot, hup⟩

theorem IsStack.isName_of_absolute {found : List (List Char)} (h : IsStack true found)
    {name : List Char} (hname : name ∈ found) :
    IsName name := by
  induction found with
  | nil => cases hname
  | cons segment found ih =>
    obtain ⟨hsegment, hup, hfound⟩ := h
    rcases List.mem_cons.1 hname with rfl | hname
    · exact hsegment.isName fun heq => Bool.noConfusion (hup heq).1
    · exact ih hfound hname

/-- In a relative path the names come behind all segments that go up. By induction on the stack:
once a segment goes up, nothing but such segments is below it. -/
theorem IsStack.exists_ups {found : List (List Char)} (h : IsStack false found) :
    ∃ ups names, (∀ name ∈ names, IsName name) ∧
      found.reverse = List.replicate ups up ++ names := by
  induction found with
  | nil => exact ⟨0, [], by simp, rfl⟩
  | cons segment found ih =>
    obtain ⟨hsegment, hup, hfound⟩ := h
    by_cases heq : segment = up
    · have hall : found.reverse = List.replicate found.length up :=
        List.eq_replicate_iff.2
          ⟨List.length_reverse, fun s hs => (hup heq).2 s (List.mem_reverse.1 hs)⟩
      refine ⟨found.length + 1, [], by simp, ?_⟩
      rw [List.reverse_cons, hall, heq, List.replicate_succ', List.append_nil]
    · obtain ⟨ups, names, hnames, hreverse⟩ := ih hfound
      refine ⟨ups, names ++ [segment], fun name hname => ?_, ?_⟩
      · rcases List.mem_append.1 hname with hname | hname
        · exact hnames name hname
        · exact List.mem_singleton.1 hname ▸ hsegment.isName heq
      · rw [List.reverse_cons, hreverse, List.append_assoc]

theorem isNormal_written {isAbsolute : Bool} {found : List (List Char)}
    (h : IsStack isAbsolute found) :
    IsNormal (written isAbsolute found) := by
  by_cases hne : found = []
  · subst hne
    cases isAbsolute with
    | true => exact .root rfl
    | false => exact .current rfl
  · have hsplit := splitAt_joinWith h hne
    cases isAbsolute with
    | true =>
      refine .absolute found.reverse (by simpa using hne)
        (fun name hname => h.isName_of_absolute (List.mem_reverse.1 hname)) ?_
      rw [written, if_pos rfl, splitAt_slash_cons, hsplit]
    | false =>
      obtain ⟨ups, names, hnames, hreverse⟩ := h.exists_ups
      obtain ⟨c, cs, hjoin, -⟩ := exists_joinWith_eq_cons h hne
      refine .relative ups names hnames ?_
      rw [written, if_neg Bool.false_ne_true, hjoin, List.isEmpty_cons,
        if_neg Bool.false_ne_true, ← hjoin, hsplit, hreverse]

theorem isNormal_normalizeChars (path : List Char) : IsNormal (normalizeChars path) :=
  isNormal_written (isStack_segmentsOf _ _ (not_backslash_slashed path))

/-! ## Adding to a path -/

theorem slashed_append (path rest : List Char) :
    slashed (path ++ rest) = slashed path ++ slashed rest := List.map_append

theorem written_ne_nil (isAbsolute : Bool) (found : List (List Char)) :
    written isAbsolute found ≠ [] := by
  unfold written
  split
  · exact List.cons_ne_nil _ _
  · split
    · exact List.cons_ne_nil _ _
    · next hne => exact fun heq => hne (List.isEmpty_iff.2 heq)

/-- What is added to a path does not change where it starts. -/
theorem startsWith_slash_append {path : List Char} (hne : path ≠ []) (rest : List Char) :
    startsWith ['/'] (path ++ rest) = startsWith ['/'] path := by
  cases path with
  | nil => exact absurd rfl hne
  | cons c cs => rw [List.cons_append, startsWith_slash_cons, startsWith_slash_cons]

theorem segmentsOf_append_slash (isAbsolute : Bool) (path rest : List Char) :
    segmentsOf isAbsolute (path ++ '/' :: rest) = (splitAt '/' rest).foldl (addSegment isAbsolute)
      (segmentsOf isAbsolute path) := by
  simp only [segmentsOf, splitAt_eq_splitOn]
  rw [List.splitOn_append_cons_self, List.foldl_append]

/-- The first part of a path can be normalized before the rest is added. Without a first part the
path would start at the root, so there has to be one. -/
theorem normalizeChars_append_slash {path : List Char} (hne : path ≠ []) (rest : List Char) :
    normalizeChars (normalizeChars path ++ '/' :: rest) = normalizeChars (path ++ '/' :: rest) := by
  have hslashed : slashed path ≠ [] := by simpa [slashed] using hne
  have hrest (front : List Char) : slashed (front ++ '/' :: rest) =
    slashed front ++ '/' :: slashed rest := slashed_append front _
  obtain ⟨isAbsolute, hstart⟩ : ∃ isAbsolute, startsWith ['/'] (slashed path) = isAbsolute :=
    ⟨_, rfl⟩
  have hstack := isStack_segmentsOf isAbsolute _ (not_backslash_slashed path)
  have hnormal :
      normalizeChars path = written isAbsolute (segmentsOf isAbsolute (slashed path)) := by
    rw [normalizeChars_eq, hstart]
  rw [hnormal, normalizeChars_eq, normalizeChars_eq, hrest, hrest, slashed_written hstack,
    startsWith_slash_append (written_ne_nil _ _), startsWith_written hstack,
    startsWith_slash_append hslashed, hstart, segmentsOf_append_slash, segmentsOf_append_slash,
    segmentsOf_written hstack]

theorem normalize_append_slash {path : String} (hne : path ≠ "") (rest : String) :
    normalize (normalize path ++ "/" ++ rest) = normalize (path ++ "/" ++ rest) := by
  have hchars : path.toList ≠ [] := fun heq => hne (String.toList_eq_nil_iff.1 heq)
  have h := normalizeChars_append_slash hchars rest.toList
  simpa [normalize] using congrArg String.ofList h

theorem isAbsolute_append {path : String} (hne : path ≠ "") (rest : String) :
    isAbsolute (path ++ rest) = isAbsolute path := by
  have hchars : path.toList ≠ [] := fun heq => hne (String.toList_eq_nil_iff.1 heq)
  rw [isAbsolute, String.toList_append, startsWith_slash_append hchars, isAbsolute]

/-- Joining a path to a directory and then another one to the result is joining both at once. -/
theorem join_join_of_relative (dir : String) {front rest : String} (hne : front ≠ "")
    (hrest : isAbsolute rest = false) :
    join (join dir front) rest = join dir (front ++ "/" ++ rest) := by
  have houter (path : String) : join path rest = normalize (path ++ "/" ++ rest) :=
    if_neg (by simp [hrest])
  have hinner : isAbsolute (front ++ "/" ++ rest) = isAbsolute front := by
    rw [String.append_assoc, isAbsolute_append hne]
  rw [houter, join, join, hinner]
  split
  · exact normalize_append_slash hne rest
  · have hpath : dir ++ "/" ++ front ≠ "" := by simp
    rw [normalize_append_slash hpath]
    simp only [String.append_assoc]

/-- The laws of paths. A normalized path stays as it is and has one of the normal forms; and paths
are joined in any order, whatever the directory is. -/
theorem normalize_join_laws :
    (∀ path, normalize (normalize path) = normalize path ∧ IsNormal (normalize path).toList) ∧
    ∀ dir front rest, front ≠ "" → isAbsolute rest = false →
      join (join dir front) rest = join dir (front ++ "/" ++ rest) := by
  refine ⟨fun path => ⟨normalize_normalize path, ?_⟩,
    fun dir front rest => join_join_of_relative dir⟩
  rw [normalize, String.toList_ofList]
  exact isNormal_normalizeChars path.toList

/-- Going up out of a directory that is written with a backslash, and further. -/
theorem normalize_join_laws_climbing : "../../.." ≠ "" ∧ isAbsolute "../c" = false ∧
    join (join "a\\b" "../../..") "../c" = join "a\\b" ("../../.." ++ "/" ++ "../c") ∧
      join (join "a\\b" "../../..") "../c" = "../../c" := by
  have hfront : "../../.." ≠ "" := by decide
  have hrest : isAbsolute "../c" = false := by decide
  exact ⟨hfront, hrest, normalize_join_laws.2 "a\\b" "../../.." "../c" hfront hrest, by
    decide⟩

end DeclBundle.Path
