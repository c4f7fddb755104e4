import DeclBundle.Package.Resolution
import DeclBundle.Proofs.Depths
import DeclBundle.Proofs.JoinedPaths

/-!
# Searches that end

The search for the entry of a directory follows manifests from one directory to the next. It ends
when some number of manifests is enough (`Resolution.Ends`), and otherwise it comes back to a
manifest on its way, again and again. A way on which no manifest is met twice is no longer than
there are files. So the limit that `Resolution.answer?` sets cuts off nothing but searches without
an end (`Resolution.ends_iff`).
-/

set_option autoImplicit false

namespace DeclBundle

/-- All files of the place are listed. -/
def Host.IsListed (host : Host) : Prop :=
  ∀ path, (host.readFile path).isSome = true → Path.normalize path ∈ host.paths

namespace Path

open Text

/-- The normalized path of a name in a directory has the segments of the directory and the name. -/
theorem normalizeChars_child {isAbsolute : Bool} {found : List (List Char)}
    (h : IsStack isAbsolute found) {name : List Char} (hslash : '/' ∉ name) (hback : '\\' ∉ name)
    (hadd : addSegment isAbsolute found name = name :: found) :
    normalizeChars (written isAbsolute found ++ '/' :: name) =
      written isAbsolute (name :: found) := by
  have hslashed : slashed (written isAbsolute found ++ '/' :: name) =
      written isAbsolute found ++ '/' :: name := by
    rw [slashed_append, slashed_written h]
    exact congrArg (_ ++ '/' :: ·) (slashed_eq_self hback)
  have hsegments : segmentsOf isAbsolute (written isAbsolute found ++ '/' :: name) =
      name :: found := by
    rw [segmentsOf_append_slash, segmentsOf_written h, splitAt_eq_splitOn,
      List.splitOn_eq_singleton hslash, List.foldl_cons, List.foldl_nil, hadd]
  rw [normalizeChars_eq, hslashed, startsWith_slash_append (written_ne_nil _ _),
    startsWith_written h, hsegments]

/-- Segments are written in one way. -/
theorem written_injective {a b : Bool} {found other : List (List Char)} (h : IsStack a found)
    (h' : IsStack b other) (heq : written a found = written b other) : a = b ∧ found = other := by
  have hstart : a = b := by rw [← startsWith_written h, heq, startsWith_written h']
  subst hstart
  exact ⟨rfl, by rw [← segmentsOf_written h, heq, segmentsOf_written h']⟩

end Path

namespace Resolution

variable {rules : Rules} {host : Host}

/-- The manifest of a directory has the segments of the directory and its own name. -/
theorem exists_toList_manifestPath {path : String} (h : Path.normalize path = path) :
    ∃ isAbsolute found, Path.IsStack isAbsolute found ∧
      path.toList = Path.written isAbsolute found ∧
      Path.IsStack isAbsolute ("package.json".toList :: found) ∧
      (manifestPath path).toList = Path.written isAbsolute ("package.json".toList :: found) := by
  obtain ⟨isAbsolute, found, hstack, hpath⟩ :=
    Path.exists_isStack_of_normal (Path.normalizeChars_toList h)
  have hsegment : Path.IsSegment "package.json".toList :=
    ⟨by decide, by decide, by decide, by decide⟩
  have hname : Path.IsStack isAbsolute ("package.json".toList :: found) :=
    ⟨hsegment, fun hup => absurd hup (by decide), hstack⟩
  refine ⟨isAbsolute, found, hstack, hpath, hname, ?_⟩
  have hrelative : Path.isAbsolute "package.json" = false := by decide
  rw [manifestPath, Path.join, hrelative, if_neg Bool.false_ne_true, Path.normalize,
    String.toList_ofList, String.toList_append, String.toList_append, hpath]
  have hslash : '/' ∉ "package.json".toList := by decide
  have hchild := Path.normalizeChars_child hstack hslash (by decide) hname.addSegment_eq
  simpa using hchild

/-- Different directories have different manifests. -/
theorem manifestPath_injective {path other : String} (h : Path.normalize path = path)
    (h' : Path.normalize other = other) (heq : manifestPath path = manifestPath other) :
    path = other := by
  obtain ⟨a, found, -, hpath, hstack, hmanifest⟩ := exists_toList_manifestPath h
  obtain ⟨b, found', -, hother, hstack', hmanifest'⟩ := exists_toList_manifestPath h'
  have hwritten := Path.written_injective hstack hstack' (by rw [← hmanifest, heq, hmanifest'])
  obtain ⟨rfl, hsegments⟩ := hwritten
  obtain ⟨-, rfl⟩ := List.cons.inj hsegments
  exact String.toList_injective (hpath.trans hother.symm)

/-! ## Answers that stay -/

/-- Every answer of one search at a normalized path is an answer of the other one. -/
def Extends {α : Type} (search more : String → Option α) : Prop :=
  ∀ path, Path.normalize path = path → ∀ answer, search path = some answer → more path = some answer

/-- A search at several places has the same answer when all answers at the places stay. -/
theorem firstAnswer?_mono {α β : Type} {places : List α} {search more : α → Option (Option β)}
    (h : ∀ place ∈ places, ∀ answer, search place = some answer → more place = some answer)
    {answer : Option β} (hanswer : firstAnswer? places search = some answer) :
    firstAnswer? places more = some answer := by
  induction places with
  | nil => exact hanswer
  | cons place rest ih =>
    have hrest : ∀ other ∈ rest, ∀ answer, search other = some answer → more other = some answer :=
      fun other hother => h other (List.mem_cons_of_mem _ hother)
    unfold firstAnswer? at hanswer ⊢
    cases hplace : search place with
    | none =>
      rw [hplace] at hanswer
      cases hanswer
    | some found =>
      rw [h place List.mem_cons_self found hplace]
      rw [hplace] at hanswer
      cases found with
      | none => exact ih hrest hanswer
      | some result => exact hanswer

/-- When a search at several places has no answer, and would have one if more answers were known,
one of these is that at one of the places. -/
theorem exists_of_firstAnswer?_none {α β : Type} {places : List α}
    {search more : α → Option (Option β)}
    (h : ∀ place ∈ places, ∀ answer, search place = some answer → more place = some answer)
    (hnone : firstAnswer? places search = none) (hsome : (firstAnswer? places more).isSome = true) :
    ∃ place ∈ places, search place = none ∧ (more place).isSome = true := by
  induction places with
  | nil => cases hnone
  | cons place rest ih =>
    unfold firstAnswer? at hnone hsome
    cases hplace : search place with
    | none =>
      refine ⟨place, List.mem_cons_self, hplace, ?_⟩
      cases hmore : more place with
      | none => simp [hmore] at hsome
      | some found => rfl
    | some found =>
      rw [hplace] at hnone
      rw [h place List.mem_cons_self found hplace] at hsome
      cases found with
      | none =>
        obtain ⟨other, hother, hfound⟩ :=
          ih (fun other hother => h other (List.mem_cons_of_mem _ hother)) hnone hsome
        exact ⟨other, List.mem_cons_of_mem _ hother, hfound⟩
      | some result => cases hnone

theorem manifestAnswer?_mono {search more : String → Option (Option String)}
    (h : Extends search more) {dir : String} {m : Manifest} {answer : Option String}
    (hanswer : manifestAnswer? rules host search dir m = some answer) :
    manifestAnswer? rules host more dir m = some answer := by
  obtain ⟨found, hfound, rfl⟩ := Option.map_eq_some_iff.1 hanswer
  refine Option.map_eq_some_iff.2 ⟨found, firstAnswer?_mono ?_ hfound, rfl⟩
  exact fun entry _ => h _ (Path.normalize_join dir entry)

/-- More manifests change no answer. -/
theorem entryAnswer?_succ {limit : Nat} {path : String} {answer : Option String}
    (h : entryAnswer? rules host limit path = some answer) :
    entryAnswer? rules host (limit + 1) path = some answer := by
  induction limit generalizing path answer with
  | zero => cases h
  | succ limit ih =>
    unfold entryAnswer? at h ⊢
    split at h
    · exact h
    · split at h
      · exact manifestAnswer?_mono (fun _ _ _ => ih) h
      · exact h

/-! ## The limit for manifests -/

/-- When one more manifest makes a search end, the manifest of its directory is followed, and one of
its entries needs all manifests but that. -/
theorem exists_entry_of_needed {limit : Nat} {path : String}
    (hnone : entryAnswer? rules host (limit + 1) path = none)
    (hsome : (entryAnswer? rules host (limit + 2) path).isSome = true) :
    (manifest? host path).isSome = true ∧ ∃ relative,
      entryAnswer? rules host limit (Path.join path relative) = none ∧
      (entryAnswer? rules host (limit + 1) (Path.join path relative)).isSome = true := by
  rw [entryAnswer?] at hnone hsome
  cases hfile : file? rules host path with
  | some found => simp [hfile] at hnone
  | none =>
    cases hm : manifest? host path with
    | none => simp [hfile, hm] at hnone
    | some m =>
      simp only [hfile, hm, manifestAnswer?, Option.map_eq_none_iff,
        Option.isSome_map] at hnone hsome
      obtain ⟨entry, -, hentry, hmore⟩ := exists_of_firstAnswer?_none
        (fun _ _ _ => entryAnswer?_succ) hnone hsome
      exact ⟨rfl, entry, hentry, hmore⟩

/-- Searches at normalized paths that need a number of manifests. -/
theorem deepens_entryAnswer? (rules : Rules) (hlisted : host.IsListed) :
    Deepens (fun limit path => (entryAnswer? rules host limit path).isSome = true)
      (fun path => Path.normalize path = path) manifestPath host.paths where
  zero path h := nomatch h
  succ limit path h := by
    obtain ⟨answer, hanswer⟩ := Option.isSome_iff_exists.1 h
    rw [entryAnswer?_succ hanswer]
    rfl
  injective path other h h' heq := manifestPath_injective h h' heq
  asks limit path hpath hshort hends := by
    obtain ⟨hmanifest, relative, hentry, hmore⟩ :=
      exists_entry_of_needed (Option.not_isSome_iff_eq_none.1 hshort) hends
    refine ⟨?_, Path.join path relative, Path.normalize_join _ _, ?_, hmore⟩
    · obtain ⟨m, hm⟩ := Option.isSome_iff_exists.1 hmanifest
      obtain ⟨text, htext, -⟩ := Option.bind_eq_some_iff.1 hm
      have hpaths := hlisted (manifestPath path) (by rw [htext]; rfl)
      rwa [manifestPath, Path.normalize_join] at hpaths
    · exact Option.not_isSome_iff_eq_none.2 hentry

/-- The limit for manifests cuts off no answer. -/
theorem extends_manifestLimit (hlisted : host.IsListed) (limit : Nat) :
    Extends (entryAnswer? rules host limit) (entryAnswer? rules host (manifestLimit host)) := by
  intro path hpath answer hanswer
  have hdeepens := deepens_entryAnswer? rules hlisted
  have hends := hdeepens.endsIn hpath (n := limit) (by rw [hanswer]; rfl)
  obtain ⟨other, hother⟩ := Option.isSome_iff_exists.1 hends
  -- both answers are kept by the greater one of the limits
  have hkept : ∀ m n answer, m ≤ n → entryAnswer? rules host m path = some answer →
      entryAnswer? rules host n path = some answer := by
    intro m n answer hle h
    induction hle with
    | refl => exact h
    | step _ ih => exact entryAnswer?_succ ih
  have hsame := hkept limit (max limit (host.paths.length + 1)) answer (Nat.le_max_left _ _) hanswer
  rw [hkept _ _ other (Nat.le_max_right limit _) hother] at hsame
  rw [manifestLimit, hother, hsame]

/-! ## Searches for modules -/

/-- The search for the module that a specifier names in the files of a directory comes to an end: it
does so when fewer manifests than some limit are followed on each way. -/
def Ends (rules : Rules) (host : Host) (specifier dir : String) : Prop :=
  ∃ limit, (answerTo? rules host limit specifier dir).isSome = true

theorem packageAnswer?_mono {limit more : Nat}
    (h : Extends (entryAnswer? rules host limit) (entryAnswer? rules host more)) {dir : String}
    {subpath : Option String} {answer : Option String}
    (hanswer : packageAnswer? rules host limit dir subpath = some answer) :
    packageAnswer? rules host more dir subpath = some answer := by
  unfold packageAnswer? at hanswer ⊢
  dsimp only at hanswer ⊢
  split at hanswer
  · exact hanswer
  · split at hanswer
    · exact h _ (Path.normalize_join _ _) _ hanswer
    · split at hanswer
      · exact manifestAnswer?_mono h hanswer
      · exact hanswer

theorem installedAnswer?_mono {limit more : Nat}
    (h : Extends (entryAnswer? rules host limit) (entryAnswer? rules host more))
    {specifier dir : String} {answer : Option ResolvedModule}
    (hanswer : installedAnswer? rules host limit specifier dir = some answer) :
    installedAnswer? rules host more specifier dir = some answer := by
  unfold installedAnswer? at hanswer ⊢
  refine firstAnswer?_mono (fun above _ answer habove => ?_) hanswer
  refine firstAnswer?_mono (fun name _ answer hname => ?_) habove
  obtain ⟨file, hfile, rfl⟩ := Option.map_eq_some_iff.1 hname
  exact Option.map_eq_some_iff.2 ⟨file, packageAnswer?_mono h hfile, rfl⟩

theorem answerTo?_mono {limit more : Nat}
    (h : Extends (entryAnswer? rules host limit) (entryAnswer? rules host more))
    {specifier dir : String} {answer : Option ResolvedModule}
    (hanswer : answerTo? rules host limit specifier dir = some answer) :
    answerTo? rules host more specifier dir = some answer := by
  unfold answerTo? at hanswer ⊢
  split at hanswer
  · next hblank => rw [if_pos hblank, hanswer]
  · next hblank =>
    rw [if_neg hblank]
    split at hanswer
    · next hrelative =>
      obtain ⟨file, hfile, rfl⟩ := Option.map_eq_some_iff.1 hanswer
      rw [if_pos hrelative, h _ (Path.normalize_join _ _) _ hfile, Option.map_some]
    · next hrelative =>
      rw [if_neg hrelative]
      split at hanswer
      · next hpackages =>
        rw [if_pos hpackages]
        exact installedAnswer?_mono h hanswer
      · next hpackages => rw [if_neg hpackages, hanswer]

/-- A search that comes to an end has an answer. -/
theorem ends_iff (hlisted : host.IsListed) (specifier dir : String) :
    Ends rules host specifier dir ↔ (answer? rules host specifier dir).isSome = true := by
  constructor
  · rintro ⟨limit, hlimit⟩
    obtain ⟨answer, hanswer⟩ := Option.isSome_iff_exists.1 hlimit
    rw [answer?, answerTo?_mono (extends_manifestLimit hlisted limit) hanswer]
    rfl
  · intro h
    exact ⟨manifestLimit host, h⟩

end Resolution

end DeclBundle
