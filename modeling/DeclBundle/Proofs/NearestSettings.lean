import DeclBundle.CommandLine.Settings
import Mathlib.Data.List.Forall2

/-!
# The nearest file decides

A configuration file and the ones that it builds on form a chain of paths (`ConfigSource.pathAt?`).
Reading it fails exactly when a path of the chain leads to no file, or two of them lead to one;
otherwise each setting is that of the first file that has it, with paths in the directory of this
file (`ConfigSource.load_isNearest`).

Reading stops because the places that were read are places with a file, and no place is read twice:
before the bound on the number of files is reached, the places have run out
(`ConfigSource.exists_stop_of_chain`).
-/

set_option autoImplicit false

namespace DeclBundle

namespace ConfigSource

variable (s : ConfigSource) {path : String}

/-! ## Chains of files -/

/-- What the file says that a path leads to. -/
def fileAt? (path : String) : Option ConfigFile :=
  ((s.locate? path).bind s.textAt?).bind ConfigFile.ofText?

/-- A path leads to no file. -/
def IsMissing (path : String) : Prop := (s.locate? path).bind s.textAt? = none

/-- Two paths lead to one place. -/
def IsSame (p q : String) : Prop := ∃ place, s.locate? p = some place ∧ s.locate? q = some place

/-- The path of the file that the file with a path builds on. -/
def basePath? (path : String) : Option String :=
  (s.fileAt? path).bind fun file => file.base.map (basePath (directoryOf path))

/-- The path that stands behind `n` others in the chain that starts with the given one. -/
def pathAt? : (n : Nat) → (path : String) → Option String
  | 0, path => some path
  | n + 1, path => (s.basePath? path).bind (pathAt? n)

/-- The first value that a file of a chain has for a setting. -/
def nearest? {α : Type} (paths : List String) (setting : (dir : String) → ConfigFile → Option α) :
    Option α :=
  paths.findSome? fun path => (s.fileAt? path).bind (setting (directoryOf path))

/-- A configuration takes each setting from the first file of a chain that has it. Paths are written
in the directory of the file that they are in. -/
structure IsNearest (paths : List String) (c : ConfigFile) : Prop where
  target : c.options.bind (·.target) = s.nearest? paths fun _ file => file.options.bind (·.target)
  resolution : c.options.bind (·.resolution) = s.nearest? paths fun _ file =>
    file.options.bind (·.resolution)
  allowJs : c.options.bind (·.allowJs) = s.nearest? paths fun _ file =>
    file.options.bind (·.allowJs)
  declaration : c.options.bind (·.declaration) = s.nearest? paths fun _ file =>
    file.options.bind (·.declaration)
  declarationDir : c.options.bind (·.declarationDir) =
    s.nearest? paths fun dir file => file.options.bind (·.declarationDir.map (Path.absolute dir))
  outFile : c.options.bind (·.outFile) =
    s.nearest? paths fun dir file => file.options.bind (·.outFile.map (Path.absolute dir))
  files : c.files = s.nearest? paths fun dir file => file.files.map (List.map (Path.absolute dir))

/-- The files of a chain, with the paths in them made absolute. -/
def AreAnchored (paths : List String) (files : List ConfigFile) : Prop :=
  List.Forall₂ (fun path c => ∃ file, s.fileAt? path = some file ∧
    c = file.anchor (directoryOf path)) paths files

variable {s}

/-! ## Reading a chain -/

theorem fileAt?_eq_some_iff {file : ConfigFile} :
    s.fileAt? path = some file ↔ ∃ place text, s.locate? path = some place ∧
      s.textAt? place = some text ∧
      ConfigFile.ofText? text = some file := by
  simp only [fileAt?, Option.bind_eq_some_iff]
  exact ⟨fun ⟨text, ⟨place, hplace, htext⟩, hfile⟩ => ⟨place, text, hplace, htext, hfile⟩,
    fun ⟨place, text, hplace, htext, hfile⟩ => ⟨text, ⟨place, hplace, htext⟩, hfile⟩⟩

theorem AreAnchored.not_isMissing {paths : List String} {files : List ConfigFile}
    (h : s.AreAnchored paths files) (hpath : path ∈ paths) : ¬s.IsMissing path := by
  induction h with
  | nil => cases hpath
  | cons hfile _ ih =>
    rcases List.mem_cons.1 hpath with rfl | hpath
    · obtain ⟨file, hfile, -⟩ := hfile
      obtain ⟨place, text, hplace, htext, -⟩ := fileAt?_eq_some_iff.1 hfile
      simp [IsMissing, hplace, htext]
    · exact ih hpath

/-- A file at a new place is read, and then the one that it builds on. -/
theorem chain_of_new {limit : Nat} {visited : List String} {place : String} {file : ConfigFile}
    (hplace : s.locate? path = some place) (hnew : place ∉ visited)
    (hfile : s.fileAt? path = some file) :
    s.chain (limit + 1) visited path = match s.basePath? path with
      | none => .ok [file.anchor (directoryOf path)]
      | some next =>
        (s.chain limit (place :: visited) next).map (file.anchor (directoryOf path) :: ·) := by
  obtain ⟨place', text, hplace', htext, hread⟩ := fileAt?_eq_some_iff.1 hfile
  obtain rfl := Option.some.inj (hplace.symm.trans hplace')
  have hbase : s.basePath? path = file.base.map (basePath (directoryOf path)) := by
    rw [basePath?, hfile, Option.bind_some]
  rw [chain, hplace, hbase]
  dsimp only [Option.getD_some, Option.bind_some]
  rw [if_neg hnew, htext]
  dsimp only
  rw [hread]
  dsimp only
  cases file.base <;> rfl

/-- Files are read at new places only. -/
theorem exists_new_of_chain {limit : Nat} {visited : List String} {files : List ConfigFile}
    (h : s.chain (limit + 1) visited path = .ok files) :
    ∃ place file, s.locate? path = some place ∧ place ∉ visited ∧ s.fileAt? path = some file := by
  rw [chain] at h
  dsimp only at h
  split at h
  · cases h
  · next hnew =>
    split at h
    · cases h
    · next text htext =>
      split at h
      · cases h
      · next file hfile =>
        obtain ⟨place, hplace, htext⟩ := Option.bind_eq_some_iff.1 htext
        rw [hplace, Option.getD_some] at hnew
        exact ⟨place, file, hplace, hnew, fileAt?_eq_some_iff.2 ⟨place, text, hplace, htext, hfile⟩⟩

/-- The files that were read are those of the chain, and they are at different places. -/
theorem exists_paths_of_chain {limit : Nat} {visited : List String} {files : List ConfigFile}
    (h : s.chain limit visited path = .ok files) :
    ∃ paths, (∀ n, s.pathAt? n path = paths[n]?) ∧
      (∀ p ∈ paths, ∃ place, s.locate? p = some place ∧ place ∉ visited) ∧
      (paths.Pairwise fun p q => ¬s.IsSame p q) ∧
      s.AreAnchored paths files := by
  induction limit generalizing visited path files with
  | zero => cases h
  | succ limit ih =>
    obtain ⟨place, file, hplace, hnew, hfile⟩ := exists_new_of_chain h
    rw [chain_of_new hplace hnew hfile] at h
    split at h
    · next hlast =>
      cases h
      refine ⟨[path], fun n => ?_, by simpa using ⟨place, hplace, hnew⟩,
        List.pairwise_singleton _ _,
        .cons ⟨file, hfile, rfl⟩ .nil⟩
      cases n with
      | zero => rfl
      | succ n => rw [pathAt?, hlast]; rfl
    · next next hnext =>
      -- the rest of the chain may not come back to this place, which makes all places different
      cases hrest : s.chain limit (place :: visited) next with
      | error e => rw [hrest] at h; cases h
      | ok rest =>
        rw [hrest] at h
        cases h
        obtain ⟨paths, hpaths, hplaces, hdistinct, hfiles⟩ := ih hrest
        refine ⟨path :: paths, fun n => ?_, fun p hp => ?_,
          List.pairwise_cons.2 ⟨fun p hp hsame => ?_, hdistinct⟩,
          .cons ⟨file, hfile, rfl⟩ hfiles⟩
        · cases n with
          | zero => rfl
          | succ n => rw [pathAt?, hnext, Option.bind_some, hpaths]; rfl
        · rcases List.mem_cons.1 hp with rfl | hp
          · exact ⟨place, hplace, hnew⟩
          · obtain ⟨other, hother, hnot⟩ := hplaces p hp
            exact ⟨other, hother, fun hmem => hnot (List.mem_cons_of_mem place hmem)⟩
        · obtain ⟨other, hother, hnot⟩ := hplaces p hp
          obtain ⟨both, hfirst, hsecond⟩ := hsame
          obtain rfl := Option.some.inj (hplace.symm.trans hfirst)
          obtain rfl := Option.some.inj (hother.symm.trans hsecond)
          exact hnot List.mem_cons_self

section Stops

variable (hreadable : ∀ place text, s.textAt? place = some text → (ConfigFile.ofText? text).isSome)

include hreadable

theorem exists_fileAt?_or_isMissing (path : String) :
    (∃ place file, s.locate? path = some place ∧ (s.textAt? place).isSome ∧
      s.fileAt? path = some file) ∨ s.IsMissing path := by
  cases htext : (s.locate? path).bind s.textAt? with
  | none => exact .inr htext
  | some text =>
    obtain ⟨place, hplace, htext⟩ := Option.bind_eq_some_iff.1 htext
    obtain ⟨file, hfile⟩ := Option.isSome_iff_exists.1 (hreadable place text htext)
    exact .inl ⟨place, file, hplace, by rw [htext]; rfl,
      fileAt?_eq_some_iff.2 ⟨place, text, hplace, htext, hfile⟩⟩

/-- Reading a chain stops at a path that leads to no file, or to a place where it was before. By
induction on the bound: it counts at least the places that were not read yet, so it is not
reached. -/
theorem exists_stop_of_chain {limit : Nat} {visited : List String} {e : ConfigError}
    (hnodup : visited.Nodup) (hplaces : visited ⊆ s.places)
    (hlimit : s.places.length < limit + visited.length)
    (h : s.chain limit visited path = .error e) :
    ∃ n p, s.pathAt? n path = some p ∧
      (s.IsMissing p ∨ (∃ place ∈ visited, s.locate? p = some place) ∨
      ∃ m < n, ∃ q, s.pathAt? m path = some q ∧ s.IsSame q p) := by
  induction limit generalizing visited path e with
  | zero =>
    have := hnodup.length_le_of_subset hplaces
    omega
  | succ limit ih =>
    rcases exists_fileAt?_or_isMissing hreadable path with ⟨place, file, hplace, htext,
      hfile⟩ | hmissing
    · by_cases hvisited : place ∈ visited
      · exact ⟨0, path, rfl, .inr (.inl ⟨place, hvisited, hplace⟩)⟩
      · rw [chain_of_new hplace hvisited hfile] at h
        split at h
        · cases h
        · next next hnext =>
          cases hrest : s.chain limit (place :: visited) next with
          | ok rest => rw [hrest] at h; cases h
          | error e' =>
            have hsubset : place :: visited ⊆ s.places :=
              List.cons_subset.2 ⟨s.mem_places place htext, hplaces⟩
            have hpath (n : Nat) : s.pathAt? (n + 1) path = s.pathAt? n next := by
              rw [pathAt?, hnext, Option.bind_some]
            obtain ⟨n, p, hp, hstop⟩ := ih (List.nodup_cons.2 ⟨hvisited, hnodup⟩) hsubset (by
              rw [List.length_cons]; omega) hrest
            refine ⟨n + 1, p, (hpath n).trans hp, ?_⟩
            -- where the rest stops is one further on, and the place of this path counts as read
            rcases hstop with hmissing | ⟨seen, hseen, hat⟩ | ⟨m, hm, q, hq, hsame⟩
            · exact .inl hmissing
            · rcases List.mem_cons.1 hseen with rfl | hseen
              · exact .inr (.inr ⟨0, Nat.succ_pos n, path, rfl, seen, hplace, hat⟩)
              · exact .inr (.inl ⟨seen, hseen, hat⟩)
            · exact .inr (.inr ⟨m + 1, Nat.succ_lt_succ hm, q, (hpath m).trans hq, hsame⟩)
    · exact ⟨0, path, rfl, .inl hmissing⟩

end Stops

/-! ## Settings -/

/-- Where a file decides before the one that it builds on, the first file that has a setting
decides. -/
theorem value_overlay {α : Type} (value : ConfigFile → Option α) (hnone : value {} = none)
    (honto : ∀ c base, value (c.onto base) = (value c).or (value base)) (files : List ConfigFile) :
    value (ConfigFile.overlay files) = files.findSome? value := by
  induction files with
  | nil => exact hnone
  | cons c files ih =>
    have honto' : value (ConfigFile.overlay (c :: files)) =
      (value c).or (value (ConfigFile.overlay files)) := honto c _
    rw [honto', ih, List.findSome?_cons]
    cases value c <;> rfl

section Settings

variable {paths : List String} {files : List ConfigFile} {α : Type}

theorem AreAnchored.findSome?_eq (h : s.AreAnchored paths files) {value : ConfigFile → Option α}
    {written : String → ConfigFile → Option α}
    (hanchor : ∀ dir file, value (ConfigFile.anchor dir file) = written dir file) :
    files.findSome? value = s.nearest? paths written := by
  rw [nearest?]
  induction h with
  | nil => rfl
  | cons hfile _ ih =>
    obtain ⟨file, hfile, rfl⟩ := hfile
    rw [List.findSome?_cons, List.findSome?_cons, ih, hfile, Option.bind_some, hanchor]

/-- An option of a file decides before that of the file that it builds on, when it does so where
both files have options. -/
theorem bind_options_onto {option : ConfigOptions → Option α}
    (honto : ∀ o base, option (o.onto base) = (option o).or (option base)) (c base : ConfigFile) :
    (c.onto base).options.bind option = (c.options.bind option).or (base.options.bind option) := by
  rw [ConfigFile.onto]
  cases c.options with
  | none => cases base.options <;> simp
  | some o =>
    cases base.options with
    | none => simp
    | some b => exact honto o b

theorem AreAnchored.option_eq (h : s.AreAnchored paths files) (option : ConfigOptions → Option α)
    (written : String → ConfigOptions → Option α)
    (honto : ∀ o base, option (o.onto base) = (option o).or (option base))
    (hanchor : ∀ dir o, option { o with
      declarationDir := o.declarationDir.map (Path.absolute dir), outFile :=
  o.outFile.map (Path.absolute dir) } = written dir o) :
    (ConfigFile.overlay files).options.bind option = s.nearest? paths fun dir file =>
      file.options.bind (written dir) := by
  rw [value_overlay (fun c => c.options.bind option) rfl (bind_options_onto honto)]
  refine h.findSome?_eq fun dir file => ?_
  rw [ConfigFile.anchor, Option.bind_map]
  exact congrArg file.options.bind (funext (hanchor dir))

/-- The files of a chain say together what the nearest of them says. -/
theorem AreAnchored.isNearest (h : s.AreAnchored paths files) :
    s.IsNearest paths (ConfigFile.overlay files) where
  target := h.option_eq (·.target) (fun _ => (·.target)) (fun _ _ => rfl) fun _ _ => rfl
  resolution := h.option_eq (·.resolution) (fun _ => (·.resolution)) (fun _ _ => rfl) fun _ _ => rfl
  allowJs := h.option_eq (·.allowJs) (fun _ => (·.allowJs)) (fun _ _ => rfl) fun _ _ => rfl
  declaration := h.option_eq (·.declaration) (fun _ => (·.declaration)) (fun _ _ => rfl) fun _ _ =>
    rfl
  declarationDir :=
    h.option_eq (·.declarationDir) (fun dir => (·.declarationDir.map (Path.absolute dir)))
      (fun _ _ => rfl) fun _ _ => rfl
  outFile := h.option_eq (·.outFile) (fun dir => (·.outFile.map (Path.absolute dir)))
    (fun _ _ => rfl) fun _ _ => rfl
  files := (value_overlay _ rfl (fun _ _ => rfl) files).trans (h.findSome?_eq fun _ _ => rfl)

end Settings

/-- When all files are configurations, reading one fails exactly when its chain leads to a file that
is missing, or to one for the second time. Otherwise each setting is that of the nearest file. -/
theorem load_isNearest (s : ConfigSource)
    (hreadable : ∀ place text, s.textAt? place = some text → (ConfigFile.ofText? text).isSome)
    (path : String) :
    ((∃ e, s.load path = .error e) ↔ (∃ n p, s.pathAt? n path = some p ∧ s.IsMissing p) ∨
      ∃ m n p q, m < n ∧ s.pathAt? m path = some p ∧ s.pathAt? n path = some q ∧ s.IsSame p q) ∧
    ∀ c, s.load path = .ok c → ∃ paths, (∀ n, s.pathAt? n path = paths[n]?) ∧
      s.IsNearest paths c := by
  rw [load]
  cases hchain : s.chain (s.places.length + 1) [] path with
  | error e =>
    refine ⟨⟨fun _ => ?_, fun _ => ⟨e, rfl⟩⟩, fun c hc => by cases hc⟩
    obtain ⟨n, p, hp, hstop⟩ :=
      exists_stop_of_chain hreadable List.nodup_nil (List.nil_subset _) (Nat.lt_succ_self _) hchain
    rcases hstop with hmissing | ⟨place, hplace, -⟩ | ⟨m, hm, q, hq, hsame⟩
    · exact .inl ⟨n, p, hp, hmissing⟩
    · cases hplace
    · exact .inr ⟨m, n, q, p, hm, hq, hp, hsame⟩
  | ok files =>
    obtain ⟨paths, hpaths, -, hdistinct, hfiles⟩ := exists_paths_of_chain hchain
    refine ⟨⟨fun ⟨e, he⟩ => (by cases he), ?_⟩, fun c hc => ?_⟩
    · rintro (⟨n, p, hp, hmissing⟩ | ⟨m, n, p, q, hmn, hp, hq, hsame⟩)
      · rw [hpaths] at hp
        exact absurd hmissing (hfiles.not_isMissing (List.mem_of_getElem? hp))
      · rw [hpaths] at hp hq
        obtain ⟨hm, rfl⟩ := List.getElem?_eq_some_iff.1 hp
        obtain ⟨hn, rfl⟩ := List.getElem?_eq_some_iff.1 hq
        exact absurd hsame (List.pairwise_iff_getElem.1 hdistinct m n hm hn hmn)
    · cases hc
      exact ⟨paths, hpaths, hfiles.isNearest⟩

/-- Two files in different directories, of which the first builds on the second. -/
def twoLevels : ConfigSource where
  locate? path := some (Path.normalize path)
  textAt? place :=
    if place = "/a/c.json" then some "\x7b\"extends\":\"../b\",\"files\":[\"x\"]\x7d"
    else if place =
      "/b.json" then some "\x7b\"compilerOptions\":\x7b\"outFile\":\"o\"\x7d,\"files\":[]\x7d"
    else none
  places := ["/a/c.json", "/b.json"]
  mem_places place h := by
    split at h
    · next heq => exact heq ▸ List.mem_cons_self
    · split at h
      · next heq => exact heq ▸ List.mem_cons_of_mem _ List.mem_cons_self
      · cases h

/-- The first file sets the files, and the second one sets where the bundle goes. -/
theorem load_isNearest_twoLevels :
    (∀ place text, twoLevels.textAt? place = some text → (ConfigFile.ofText? text).isSome) ∧
      (∃ paths, (∀ n, twoLevels.pathAt? n "/a/c.json" = paths[n]?) ∧
        twoLevels.IsNearest paths ⟨none, some { outFile := "/o" }, some ["/a/x"]⟩) := by
  have hreadable : ∀ place text, twoLevels.textAt? place = some text →
      (ConfigFile.ofText? text).isSome := by
    intro place text h
    simp only [twoLevels] at h
    split at h
    · cases h
      decide +kernel
    · split at h
      · cases h
        decide +kernel
      · cases h
  have hload : twoLevels.load "/a/c.json" =
    .ok ⟨none, some { outFile := "/o" }, some ["/a/x"]⟩ := by decide +kernel
  exact ⟨hreadable, (load_isNearest twoLevels hreadable "/a/c.json").2 _ hload⟩

end ConfigSource

end DeclBundle
