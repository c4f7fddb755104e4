import DeclBundle.Proofs.FoundFiles
import DeclBundle.Proofs.NormalPaths
import DeclBundle.Proofs.Searching

/-!
# Specifiers without their endings

One pass over a script leaves out the endings of the files that it imports, and the search for a
module puts endings back. The two do not belong together: the pass leaves out eight endings, and the
search tries three or five, the same ones for every specifier. So a file that was found may be found
no longer, or another one instead.

A path is searched in two steps: the first of some paths at which there is a file
(`Resolution.candidates`), and else the entry of the directory (`Resolution.entryOf?`). All these
paths are normalized, so the file that is found is one of them, and it is known which ones do not
exist. What a shortened specifier has to do to lead to the same file is then exact
(`Resolution.find?_shortened_iff`): the file is tried, and what is tried before it, and was not
tried before it for the specifier as it is written, does not exist. For a plain name this holds of
the endings `.ts` and `.js` (`Resolution.file?_withoutEnding`).
-/

set_option autoImplicit false

namespace DeclBundle

namespace Text

/-- Leaving a part of a text out. -/
theorem Edit.applyAll_leaveOut (us vs r : List Char) :
    applyAll (us ++ vs ++ r) [⟨byteLength us, byteLength (us ++ vs), ""⟩] = us ++ r := by
  have hslice : (Cursor.atStart (us ++ vs ++ r)).slice? (byteLength us) = some us := by
    have := Cursor.slice?_append us (vs ++ r) 0
    rwa [Nat.zero_add, ← List.append_assoc] at this
  have hseek : (Cursor.atStart (us ++ vs ++ r)).seek (byteLength (us ++ vs)) =
      ⟨r, byteLength (us ++ vs)⟩ := by
    have := Cursor.seek_append (us ++ vs) r 0
    rwa [Nat.zero_add] at this
  have hfirst : ¬ byteLength us < (Cursor.atStart (us ++ vs ++ r)).offset := Nat.not_lt_zero _
  calc applyAll (us ++ vs ++ r) [⟨byteLength us, byteLength (us ++ vs), ""⟩]
      = splice (.atStart (us ++ vs ++ r)) [⟨byteLength us, byteLength (us ++ vs), ""⟩] := by
        rw [applyAll, List.mergeSort_singleton]
    _ = (some us).getD [] ++ "".toList ++ splice ⟨r, byteLength (us ++ vs)⟩ [] := by
        rw [← hslice, ← hseek]
        exact if_neg hfirst
    _ = us ++ r := congrArg (· ++ r) (List.append_nil us)

end Text

namespace Script

open Text

/-! ## The pass -/

/-- Without an ending a text starts as before, when the lead ends with a slash. -/
theorem startsWith_of_append {lead stem ending : List Char} (hslash : '/' ∉ ending)
    (hlead : ∃ before, lead = before ++ ['/']) (h : startsWith lead (stem ++ ending) = true) :
    startsWith lead stem = true := by
  obtain ⟨front, hfront⟩ := startsWith_iff.1 h
  obtain ⟨rest, hrest, -⟩ := Path.exists_stem_of_append_eq hslash (.inr hlead) hfront
  exact startsWith_iff.2 ⟨rest, hrest⟩

theorem find?_go_of_not_mem {quote : Char} {cs : List Char} (h : quote ∉ cs)
    (r : List Char) (o : Nat) :
    find?.go [quote] (cs ++ quote :: r) o = some ⟨quote :: r, o + byteLength cs⟩ := by
  induction cs generalizing o with
  | nil => simp [find?.go, startsWith, after?]
  | cons c cs ih =>
    obtain ⟨hc, hcs⟩ := not_or.1 (mt List.mem_cons.2 h)
    rw [List.cons_append, find?.go, if_neg (by simp [startsWith, after?, hc]), ih hcs,
      byteLength_cons, Nat.add_assoc]

/-- A quote is the next mark. -/
theorem token_quote {quote : Char} (hquote : quote = '\x22' ∨ quote = '\x27')
    (r : List Char) (o : Nat) :
    token ⟨quote :: r, o⟩ = ⟨quote :: r, o⟩ := by
  rcases hquote with rfl | rfl
  · rfl
  · rfl

/-- The specifiers that the pass shortens: paths from the directory of the script. -/
def IsDotted (specifier : List Char) : Prop :=
  startsWith "./".toList specifier = true ∨ startsWith "../".toList specifier = true

/-- The text of a specifier between two quotes and what comes after it. -/
def quoted (quote : Char) (specifier r : List Char) : List Char :=
  quote :: (specifier ++ quote :: r)

section Quoted

variable {quote : Char} (hquote : quote = '\x22' ∨ quote = '\x27') {specifier : List Char}
  (hclosed : quote ∉ specifier) (hdotted : IsDotted specifier)

include hquote hclosed hdotted

/-- The edit of a specifier leaves its ending out. -/
theorem endingEdit?_quoted (r : List Char) (o : Nat) :
    endingEdit? ⟨quoted quote specifier r, o⟩ =
      (scriptEndings.find? fun ending => endsWith ending.toList specifier).map fun ending =>
        ⟨o + quote.utf8Size + byteLength specifier - ending.length,
          o + quote.utf8Size + byteLength specifier, ""⟩ := by
  have hmark : passMark "(" ⟨quoted quote specifier r, o⟩ = ⟨quoted quote specifier r, o⟩ := by
    rcases hquote with rfl | rfl
    · rfl
    · rfl
  have hlast : find? [quote] ⟨specifier ++ quote :: r, o + quote.utf8Size⟩ =
      some ⟨quote :: r, o + quote.utf8Size + byteLength specifier⟩ :=
        find?_go_of_not_mem hclosed r _
  have hleads : startsWith ['.', '/'] specifier = true ∨ startsWith ['.', '.', '/'] specifier =
    true := hdotted
  rw [endingEdit?, hmark, quoted, token_quote hquote, Option.map_eq_bind]
  simp [Cursor.head?, Cursor.next, hlast, hquote, hleads, Cursor.slice?_append, guard]

/-- What the pass writes for a relative specifier is a relative specifier. -/
theorem exists_applyAll_endingEdit? (before r : List Char) : ∃ short, IsDotted short ∧
    Edit.applyAll (before ++ quoted quote specifier r)
      (endingEdit? ⟨quoted quote specifier r, byteLength before⟩).toList =
        before ++ quoted quote short r := by
  rw [endingEdit?_quoted hquote hclosed hdotted]
  cases hfind : scriptEndings.find? fun ending => endsWith ending.toList specifier with
  | none => exact ⟨specifier, hdotted, Edit.applyAll_nil _⟩
  | some ending =>
    have hends : endsWith ending.toList specifier = true := by simpa using List.find?_some hfind
    obtain ⟨short, rfl⟩ := endsWith_iff.1 hends
    have hplain : ∀ e ∈ scriptEndings, '/' ∉ e.toList ∧ byteLength e.toList = e.length := by decide
    obtain ⟨hslash, hlength⟩ := hplain ending (List.mem_of_find?_eq_some hfind)
    refine ⟨short, ?_, ?_⟩
    · -- An ending has no slash, so it takes nothing away from the dots and the slash.
      exact hdotted.imp (startsWith_of_append hslash ⟨['.'], rfl⟩)
        (startsWith_of_append hslash ⟨['.', '.'], rfl⟩)
    · have hcut := Edit.applyAll_leaveOut (before ++ quote :: short) ending.toList (quote :: r)
      have hstart : byteLength before + quote.utf8Size + byteLength (short ++ ending.toList) -
        ending.length =
          byteLength (before ++ quote :: short) := by
        simp only [byteLength_append, byteLength_cons]
        omega
      have hstop : byteLength before + quote.utf8Size + byteLength (short ++ ending.toList) =
          byteLength (before ++ quote :: short ++ ending.toList) := by
        simp only [byteLength_append, byteLength_cons]
        omega
      rw [← hstart, ← hstop] at hcut
      simpa [quoted] using hcut

end Quoted

end Script

namespace Path

theorem normalize_append {path ending : String} (hpath : IsStart path.toList)
    (hending : IsEnding ending.toList) :
    normalize (path ++ ending) = path ++ ending := by
  have h := normalizeChars_append hpath hending
  rw [normalize, String.toList_append, h, ← String.toList_append, String.ofList_toList]

end Path

namespace Resolution

open Text

variable (rules : Rules) (host : Host)

/-! ## What is tried -/

/-- The paths at which the file of a path may be, in the order in which they are tried. -/
def candidates (path : String) : List String :=
  if Path.hasEnding typedEndings path then [path]
  else
    match scriptStem? path with
    | some (stem, replacements) =>
      replacements.map (stem ++ ·) ++ (if rules.allowJs then [path] else [])
    | none => (impliedEndings rules).map (path ++ ·)

/-- The paths that are tried before a file is. -/
def triedBefore (path file : String) : List String := (candidates rules path).takeWhile (· != file)

/-- The entry of the directory at a path. -/
def entryOf? (path : String) : Option String :=
  match manifest? host path with
  | some m => (manifestAnswer? rules host (entryAnswer? rules host host.paths.length) path m).join
  | none => file? rules host (Path.join path "index")

theorem file?_eq_firstFile? (path : String) :
    file? rules host path = firstFile? host (candidates rules path) := by
  unfold file? candidates
  split
  · rfl
  · cases scriptStem? path with
    | some stem => rfl
    | none => rfl

/-- A path names a file, or else the directory that has the entry. -/
theorem fileOrDirectory?_eq (path : String) :
    fileOrDirectory? rules host path = (file? rules host path).or (entryOf? rules host path) := by
  rw [fileOrDirectory?, manifestLimit, entryAnswer?, entryOf?]
  cases file? rules host path with
  | some found => rw [Option.join_some, Option.some_or]
  | none =>
    rw [Option.none_or]
    cases manifest? host path with
    | some m => rfl
    | none => rw [Option.join_some]

variable {rules host}

theorem exists_ending_of_scriptStem? {path stem : String} {replacements : List String}
    (h : scriptStem? path = some (stem, replacements)) :
    ∃ ending, (ending, replacements) ∈ typedReplacements ∧ path = stem ++ ending := by
  obtain ⟨⟨ending, found⟩, hmem, hcut⟩ := List.exists_of_findSome?_eq_some h
  obtain ⟨front, hfront, heq⟩ := Option.map_eq_some_iff.1 hcut
  obtain ⟨rfl, rfl⟩ := Prod.mk.inj heq
  refine ⟨ending, hmem, String.toList_injective ?_⟩
  rw [String.toList_append, String.toList_ofList]
  exact before?_eq_some_iff.1 hfront

/-- All paths that are tried for a normalized path are normalized. -/
theorem normalize_of_mem_candidates {path c : String} (hpath : Path.normalize path = path)
    (hc : c ∈ candidates rules path) : Path.normalize c = c := by
  have hnormal := Path.normalizeChars_toList hpath
  unfold candidates at hc
  split at hc
  · exact List.mem_singleton.1 hc ▸ hpath
  · split at hc
    · next stem replacements hstem =>
      -- The path is the stem with an ending, so the stem can carry any other ending.
      obtain ⟨ending, hending, rfl⟩ := exists_ending_of_scriptStem? hstem
      have hendings : ∀ e ∈ typedReplacements, Path.IsEnding e.1.toList ∧ ∀ x ∈ e.2,
        Path.IsEnding x.toList := by decide
      rw [String.toList_append] at hnormal
      rcases List.mem_append.1 hc with hc | hc
      · obtain ⟨x, hx, rfl⟩ := List.mem_map.1 hc
        exact Path.normalize_append (Path.isStart_of_normal_append (hendings _ hending).1 hnormal)
          ((hendings _ hending).2 x hx)
      · split at hc
        · exact List.mem_singleton.1 hc ▸ hpath
        · cases hc
    · obtain ⟨x, hx, rfl⟩ := List.mem_map.1 hc
      have hendings : ∀ x ∈ [".ts", ".tsx", ".d.ts", ".js", ".jsx"], Path.IsEnding x.toList := by
        decide
      refine Path.normalize_append (Path.isStart_of_normal hnormal) (hendings x ?_)
      unfold impliedEndings at hx
      split at hx
      · exact List.mem_append_left [".js", ".jsx"] hx
      · exact List.mem_append_left [".js", ".jsx"] hx
      · exact hx

/-! ## What is found -/

/-- The first element with a property is one that has it, and none before it does. -/
theorem find?_eq_some_iff_before {p : String → Bool} {tried : List String} {found : String} :
    tried.find? p = some found ↔
      found ∈ tried ∧ p found = true ∧ ∀ other ∈ tried.takeWhile (· != found), p other = false := by
  induction tried with
  | nil => simp
  | cons first tried ih =>
    -- Either the search ends here at the latest, or the first element is one of those before the
    -- found one.
    by_cases hfirst : first = found
    · subst hfirst
      cases hp : p first with
      | true => simp [hp]
      | false =>
        constructor
        · intro h
          exact absurd (List.find?_some h) (by simp [hp])
        · rintro ⟨-, h, -⟩
          cases h
    · cases hp : p first with
      | true => simp [hp, hfirst]
      | false => simp [hp, hfirst, Ne.symm hfirst, ih]

section Found

variable {path long short file : String}

theorem file?_eq_some_iff (hpath : Path.normalize path = path) :
    file? rules host path = some file ↔ file ∈ candidates rules path ∧ host.fileExists file = true ∧
      ∀ other ∈ triedBefore rules path file, host.fileExists other = false := by
  rw [file?_eq_firstFile?, firstFile?, triedBefore, ← find?_eq_some_iff_before,
    Option.map_eq_some_iff]
  constructor
  · rintro ⟨c, hc, rfl⟩
    rwa [normalize_of_mem_candidates hpath (List.mem_of_find?_eq_some hc)]
  · exact fun h => ⟨file, h, normalize_of_mem_candidates hpath (List.mem_of_find?_eq_some h)⟩

theorem file?_eq_none_iff :
    file? rules host path = none ↔ ∀ other ∈ candidates rules path,
      host.fileExists other = false := by
  rw [file?_eq_firstFile?, firstFile?, Option.map_eq_none_iff, List.find?_eq_none]
  exact forall₂_congr fun other _ => Bool.not_eq_true _ ▸ Iff.rfl

/-- What is found exists, and nothing that was tried before it does. -/
theorem fileExists_of_fileOrDirectory? (hpath : Path.normalize path = path)
    (h : fileOrDirectory? rules host path = some file) :
    host.fileExists file = true ∧ ∀ other ∈ triedBefore rules path file,
      host.fileExists other = false := by
  have hentered := h
  rw [fileOrDirectory?_eq, Option.or_eq_some_iff] at h
  rcases h with hfile | ⟨hnone, -⟩
  · exact ((file?_eq_some_iff hpath).1 hfile).2
  · -- The entry of a directory is the file of some other path, and all paths of this one have
    -- failed.
    obtain ⟨at_, hat, hfile⟩ := exists_file?_of_entryAnswer? (Option.join_eq_some_iff.1 hentered)
    have hnormal : Path.normalize at_ = at_ := by
      rcases hat with rfl | ⟨dir, relative, rfl⟩
      · exact hpath
      · exact Path.normalize_join dir relative
    exact ⟨((file?_eq_some_iff hnormal).1 hfile).2.1,
      fun other hother =>
        file?_eq_none_iff.1 hnone other ((List.takeWhile_sublist _).subset hother)⟩

/-- How the search for one path ends at the file that was found for another one. -/
inductive StillFinds (rules : Rules) (host : Host) (long short file : String) : Prop where
  /-- The file is tried, and what is tried before it does not exist. What was tried before it for
  the other path is known not to exist. -/
  | tried (listed : file ∈ candidates rules short)
      (first : ∀ other ∈ triedBefore rules short file, other ∉ triedBefore rules long file →
        host.fileExists other = false)
  /-- Nothing that is tried exists, and the path is that of a directory whose entry is the file. -/
  | entered (missing : ∀ other ∈ candidates rules short, host.fileExists other = false)
      (entry : entryOf? rules host short = some file)

theorem fileOrDirectory?_eq_some_iff (hlong : Path.normalize long = long)
    (hshort : Path.normalize short = short)
    (hfound : fileOrDirectory? rules host long = some file) :
    fileOrDirectory? rules host short = some file ↔ StillFinds rules host long short file := by
  obtain ⟨hexists, hpassed⟩ := fileExists_of_fileOrDirectory? hlong hfound
  rw [fileOrDirectory?_eq, Option.or_eq_some_iff]
  constructor
  · rintro (hfile | ⟨hnone, hentry⟩)
    · obtain ⟨hlisted, -, hfirst⟩ := (file?_eq_some_iff hshort).1 hfile
      exact .tried hlisted fun other hother _ => hfirst other hother
    · exact .entered (file?_eq_none_iff.1 hnone) hentry
  · rintro (⟨hlisted, hfirst⟩ | ⟨hmissing, hentry⟩)
    · refine .inl ((file?_eq_some_iff hshort).2 ⟨hlisted, hexists, fun other hother => ?_⟩)
      -- The search for the first path has passed over some of these paths already.
      by_cases hother' : other ∈ triedBefore rules long file
      · exact hpassed other hother'
      · exact hfirst other hother hother'
    · exact .inr ⟨file?_eq_none_iff.2 hmissing, hentry⟩

end Found

/-- A specifier that starts with a dot names a path. -/
theorem find?_of_isDotted {specifier : String} (hdotted : Script.IsDotted specifier.toList)
    (dir : String) :
    find? rules host specifier dir =
      (fileOrDirectory? rules host (Path.join dir specifier)).map moduleAt := by
  have hrelative : isRelativeSpecifier specifier = true := by
    refine Bool.or_eq_true_iff.2 (.inr (List.any_eq_true.2 ?_))
    rcases hdotted with h | h
    · exact ⟨"./", by simp, h⟩
    · exact ⟨"../", by simp, h⟩
  have hblank : ¬ isBlankText specifier.toList = true := by
    rcases hdotted with h | h
    · obtain ⟨r, hr⟩ := startsWith_iff.1 h
      simp [hr, isBlankText, isBlank]
    · obtain ⟨r, hr⟩ := startsWith_iff.1 h
      simp [hr, isBlankText, isBlank]
  rw [find?, answer?, answerTo?, if_neg hblank, if_pos hrelative, fileOrDirectory?]
  cases entryAnswer? rules host (manifestLimit host) (Path.join dir specifier) with
  | some found => rw [Option.map_some, Option.join_some, Option.join_some]
  | none => rw [Option.map_none, Option.join_none, Option.join_none, Option.map_none]

theorem find?_eq_some_iff_of_isDotted {specifier dir : String}
    (hdotted : Script.IsDotted specifier.toList) {m : ResolvedModule} :
    find? rules host specifier dir = some m ↔
      fileOrDirectory? rules host (Path.join dir specifier) = some m.path ∧
        m = moduleAt m.path := by
  rw [find?_of_isDotted hdotted, Option.map_eq_some_iff]
  constructor
  · rintro ⟨path, hpath, rfl⟩
    exact ⟨hpath, rfl⟩
  · exact fun ⟨hpath, hm⟩ => ⟨m.path, hpath, hm.symm⟩

/-- When a file is found for a specifier, the specifier that the pass writes in its place leads to
the same file exactly when the file is among the paths that are tried for it and no other one that
exists is tried earlier, or when nothing that is tried exists and the file is the entry of a
directory. -/
theorem find?_shortened_iff {quote : Char} (hquote : quote = '\x22' ∨ quote = '\x27')
    {specifier short : String} (hclosed : quote ∉ specifier.toList)
    (hdotted : Script.IsDotted specifier.toList) {before after : List Char}
    (hpass : Edit.applyAll (before ++ Script.quoted quote specifier.toList after)
      (Script.endingEdit? ⟨Script.quoted quote specifier.toList after, byteLength before⟩).toList =
        before ++ Script.quoted quote short.toList after)
    {dir : String} {m : ResolvedModule} (hfound : find? rules host specifier dir = some m) :
    find? rules host short dir = some m ↔
      StillFinds rules host (Path.join dir specifier) (Path.join dir short) m.path := by
  obtain ⟨written, hwritten, happly⟩ :=
    Script.exists_applyAll_endingEdit? hquote hclosed hdotted before after
  -- What the pass has written is known up to the quotes around it.
  have hshort : Script.IsDotted short.toList := by
    have heq := List.append_cancel_left (happly.symm.trans hpass)
    exact List.append_cancel_right (List.cons.inj heq).2 ▸ hwritten
  obtain ⟨hlong, hm⟩ := (find?_eq_some_iff_of_isDotted hdotted).1 hfound
  rw [find?_eq_some_iff_of_isDotted hshort, and_iff_left hm]
  exact fileOrDirectory?_eq_some_iff (Path.normalize_join _ _) (Path.normalize_join _ _) hlong

/-- `import "./a.js";` is rewritten to `import "./a";`, and both lead to `/a.ts`. -/
theorem find?_shortened_typed :
    find? ⟨.node10, true⟩ (MemoryFiles.add {} "/a.ts" "").host "./a" "/" =
      some ⟨"/a.ts", none⟩ := by
  have hfound : find? ⟨.node10, true⟩ (MemoryFiles.add {} "/a.ts" "").host "./a.js" "/" =
      some ⟨"/a.ts", none⟩ := by
    rw [find?_of_isDotted (.inl rfl), fileOrDirectory?_eq]
    rfl
  have hpass : Edit.applyAll ("import ".toList ++ Script.quoted '\x22' "./a.js".toList [';'])
      (Script.endingEdit? ⟨Script.quoted '\x22' "./a.js".toList [';'],
        byteLength "import ".toList⟩).toList =
        "import ".toList ++ Script.quoted '\x22' "./a".toList [';'] := by decide +kernel
  exact (find?_shortened_iff (.inl rfl) (by decide) (.inl rfl) hpass hfound).2
    (.tried (by decide) (by decide))

/-- A module script is found under its full name. The pass leaves the ending out, and then nothing
is found. -/
theorem exists_lost_file :
    Script.Pass.importEndings.run "import \x22./a.mjs\x22;" = "import \x22./a\x22;" ∧
      find? ⟨.node10, true⟩ (MemoryFiles.add {} "/a.mjs" "").host "./a.mjs" "/" =
        some ⟨"/a.mjs", none⟩ ∧
      find? ⟨.node10, true⟩ (MemoryFiles.add {} "/a.mjs" "").host "./a" "/" = none := by
  refine ⟨by decide +kernel, ?_, ?_⟩
  · rw [find?_of_isDotted (.inl rfl), fileOrDirectory?_eq]
    rfl
  · rw [find?_of_isDotted (.inl rfl), fileOrDirectory?_eq]
    rfl

/-! ## Plain names -/

/-- The specifier ends with a name that has none of the endings that a search knows. -/
def IsPlain (specifier : List Char) : Prop :=
  ∃ front name, specifier = front ++ '/' :: name ∧ Path.IsSegment name ∧ name ≠ Path.up ∧
    ∀ ending ∈ typedEndings ++ typedReplacements.map Prod.fst, endsWith ending.toList name = false

theorem candidates_of_plain {path : String}
    (hplain : ∀ ending ∈ typedEndings ++ typedReplacements.map Prod.fst,
      endsWith ending.toList path.toList = false) :
    candidates rules path = (impliedEndings rules).map (path ++ ·) := by
  have htyped : Path.hasEnding typedEndings path = false :=
    List.any_eq_false.2 fun ending hending => by
      simp [hplain ending (List.mem_append_left _ hending)]
  have hstem : scriptStem? path = none := by
    refine List.findSome?_eq_none_iff.2 fun ⟨ending, replacements⟩ hmem => ?_
    have hends := hplain ending (List.mem_append_right _ (List.mem_map_of_mem hmem))
    rw [endsWith, Option.isSome_eq_false_iff, Option.isNone_iff_eq_none] at hends
    exact Option.map_eq_none_iff.2 hends
  rw [candidates, htyped, hstem]
  rfl

theorem candidates_ts (path : String) : candidates rules (path ++ ".ts") = [path ++ ".ts"] := by
  have htyped : Path.hasEnding typedEndings (path ++ ".ts") = true :=
    List.any_eq_true.2
      ⟨".ts", by simp [typedEndings], endsWith_iff.2 ⟨path.toList, String.toList_append⟩⟩
  rw [candidates, if_pos htyped]

theorem candidates_js (path : String) : candidates rules (path ++ ".js") =
    [".ts", ".tsx", ".d.ts"].map (path ++ ·) ++
      (if rules.allowJs then [path ++ ".js"] else []) := by
  have htyped : Path.hasEnding typedEndings (path ++ ".js") = false := by
    simp [Path.hasEnding, typedEndings, endsWith, before?, after?]
  have hstem : scriptStem? (path ++ ".js") = some (path, [".ts", ".tsx", ".d.ts"]) := by
    simp [scriptStem?, typedReplacements, before?, after?]
  rw [candidates, htyped, hstem]
  rfl

theorem exists_impliedEndings_eq (rules : Rules) :
    ∃ others, impliedEndings rules = [".ts", ".tsx", ".d.ts"] ++ others ∧
    (rules.kind ≠ .classic → rules.allowJs = true → others = [".js", ".jsx"]) := by
  obtain ⟨kind, allowJs⟩ := rules
  cases kind <;> cases allowJs
  case classic.false | classic.true => exact ⟨[], rfl, fun h => absurd rfl h⟩
  case node10.false | bundler.false => exact ⟨[], rfl, fun _ h => nomatch h⟩
  case node10.true | bundler.true => exact ⟨[".js", ".jsx"], rfl, fun _ _ => rfl⟩

theorem firstFile?_append (paths others : List String) :
    firstFile? host (paths ++ others) = (firstFile? host paths).or (firstFile? host others) := by
  rw [firstFile?, List.find?_append, Option.map_or]
  rfl

theorem toList_join_of_isDotted {specifier : List Char} (hdotted : Script.IsDotted specifier)
    (dir : String) :
    (Path.join dir (String.ofList specifier)).toList =
      Path.normalizeChars (dir.toList ++ '/' :: specifier) := by
  have hrelative : ¬ Path.isAbsolute (String.ofList specifier) = true := by
    rcases hdotted with h | h
    · obtain ⟨r, rfl⟩ := startsWith_iff.1 h
      simp [Path.isAbsolute, startsWith, after?]
    · obtain ⟨r, rfl⟩ := startsWith_iff.1 h
      simp [Path.isAbsolute, startsWith, after?]
  rw [Path.join, if_neg hrelative, Path.normalize, String.toList_ofList]
  simp

section Plain

variable {specifier : String} (hdotted : Script.IsDotted specifier.toList)
  (hplain : IsPlain specifier.toList) (dir : String)

include hdotted hplain

/-- The path of a plain name ends with the name, and with what is added to the name. -/
theorem exists_toList_join : ∃ head name, (head = [] ∨ ∃ before, head = before ++ ['/']) ∧
    (∀ ending ∈ typedEndings ++ typedReplacements.map Prod.fst,
      endsWith ending.toList name = false) ∧
      (Path.join dir specifier).toList = head ++ name ∧
      ∀ ending, Path.IsEnding ending.toList →
        (Path.join dir (specifier ++ ending)).toList = head ++ name ++ ending.toList := by
  obtain ⟨front, name, hspecifier, hname, hup, hendings⟩ := hplain
  obtain ⟨isAbsolute, found, -, hopening⟩ :=
    Path.exists_opening_of_name (dir.toList ++ '/' :: front)
  refine ⟨Path.opening isAbsolute found, name, Path.opening_eq_nil_or _ _, hendings, ?_,
    fun ending hending => ?_⟩
  · have hjoin := toList_join_of_isDotted hdotted dir
    rw [String.ofList_toList, hspecifier] at hjoin
    rw [hjoin, ← hopening name hname hup, List.append_assoc, List.cons_append]
  · obtain ⟨hsegment, hup'⟩ := hending.isSegment_append hname.not_slash hname.not_backslash
    have hdotted' : Script.IsDotted (specifier.toList ++ ending.toList) :=
      hdotted.imp (startsWith_append _) (startsWith_append _)
    have hjoin := toList_join_of_isDotted hdotted' dir
    rw [← String.toList_append, String.ofList_toList, String.toList_append, hspecifier] at hjoin
    have hlong := hopening _ hsegment hup'
    rw [hjoin]
    simpa only [List.append_assoc, List.cons_append] using hlong

/-- An ending of a plain name is an ending of its path. -/
theorem join_append {ending : String} (hending : Path.IsEnding ending.toList) :
    Path.join dir (specifier ++ ending) = Path.join dir specifier ++ ending := by
  obtain ⟨head, name, -, -, hshort, hlong⟩ := exists_toList_join hdotted hplain dir
  refine String.toList_injective ?_
  rw [String.toList_append, hshort, hlong ending hending]

theorem candidates_join :
    candidates rules (Path.join dir specifier) =
      (impliedEndings rules).map (Path.join dir specifier ++ ·) := by
  obtain ⟨head, name, hhead, hendings, hshort, -⟩ := exists_toList_join hdotted hplain dir
  refine candidates_of_plain fun ending hending => Bool.eq_false_iff.2 fun hends => ?_
  -- an ending of the path would be one of the name
  have hslash : ∀ e ∈ typedEndings ++ typedReplacements.map Prod.fst, '/' ∉ e.toList := by decide
  obtain ⟨front, hfront⟩ := endsWith_iff.1 hends
  obtain ⟨stem, -, hstem⟩ :=
    Path.exists_stem_of_append_eq (hslash ending hending) hhead (hfront.symm.trans hshort)
  have hname : endsWith ending.toList name = true := endsWith_iff.2 ⟨stem, hstem⟩
  rw [hendings ending hending] at hname
  cases hname

/-- Where a plain name leads to a file with the ending `.ts` or `.js`, it leads to the same file
without the ending. Only the script itself is not found in this way when names are looked up as
files. -/
theorem find?_withoutEnding {ending file : String} (hending : ending = ".ts" ∨ ending = ".js")
    (hfile : file? rules host (Path.join dir (specifier ++ ending)) = some file)
    (hclassic : rules.kind = .classic → file ≠ Path.join dir specifier ++ ".js") :
    find? rules host specifier dir = some (moduleAt file) := by
  obtain ⟨others, himplied, hothers⟩ := exists_impliedEndings_eq rules
  have hshort : file? rules host (Path.join dir specifier) = some file := by
    rw [file?_eq_firstFile?, candidates_join hdotted hplain dir, himplied, List.map_append,
      firstFile?_append]
    -- `.ts` is the first candidate of the plain name itself, and `.js` stands for its first three
    rcases hending with rfl | rfl
    · rw [join_append hdotted hplain dir (by decide), file?_eq_firstFile?, candidates_ts] at hfile
      rw [List.map_cons, ← List.singleton_append, firstFile?_append, hfile, Option.some_or,
        Option.some_or]
    · have hnormal := Path.normalize_join dir (specifier ++ ".js")
      rw [join_append hdotted hplain dir (by decide)] at hfile hnormal
      rw [file?_eq_firstFile?, candidates_js, firstFile?_append, Option.or_eq_some_iff] at hfile
      rcases hfile with hfile | ⟨hnone, hscript⟩
      · rw [hfile, Option.some_or]
      · -- only the script itself is left
        rw [hnone, Option.none_or]
        split at hscript
        · next hallow =>
          have hfile : file = Path.join dir specifier ++ ".js" := by
            obtain ⟨c, hc, rfl⟩ := Option.map_eq_some_iff.1 hscript
            rw [List.mem_singleton.1 (List.mem_of_find?_eq_some hc), hnormal]
          rw [hothers (fun hkind => hclassic hkind hfile) hallow, List.map_cons,
            ← List.singleton_append, firstFile?_append, hscript, Option.some_or]
        · cases hscript
  rw [find?_of_isDotted hdotted, fileOrDirectory?_eq, hshort]
  rfl

end Plain

end Resolution

end DeclBundle
