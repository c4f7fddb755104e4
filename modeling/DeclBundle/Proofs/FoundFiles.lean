import DeclBundle.Package.Resolution

/-!
# What is found exists

Every search for a module tries paths one after the other, and takes the first one at which there is
a file. So the module that is found is an existing file under its normalized path
(`Resolution.isFile_find?`).
-/

set_option autoImplicit false

namespace DeclBundle

/-- The normalized path of a file that exists. -/
def Host.IsFile (host : Host) (found : String) : Prop :=
  ∃ path, host.fileExists path = true ∧ found = Path.normalize path

namespace Resolution

variable {rules : Rules} {host : Host} {found : String}

/-! ## Paths -/

theorem isFile_firstFile? {paths : List String} (h : firstFile? host paths = some found) :
    host.IsFile found := by
  obtain ⟨path, hpath, rfl⟩ := Option.map_eq_some_iff.1 h
  exact ⟨path, List.find?_some hpath, rfl⟩

theorem isFile_file? {path : String} (h : file? rules host path = some found) :
    host.IsFile found := by
  unfold file? at h
  split at h
  · exact isFile_firstFile? h
  · split at h
    · exact isFile_firstFile? h
    · exact isFile_firstFile? h

/-- The first result of several searches is the result of one of them. -/
theorem exists_of_firstAnswer? {α β : Type} {places : List α} {search : α → Option (Option β)}
    {result : β} (h : firstAnswer? places search = some (some result)) :
    ∃ place ∈ places, search place = some (some result) := by
  induction places with
  | nil => cases h
  | cons place rest ih =>
    unfold firstAnswer? at h
    split at h
    · obtain ⟨other, hmem, hother⟩ := ih h
      exact ⟨other, List.mem_cons_of_mem _ hmem, hother⟩
    · exact ⟨place, List.mem_cons_self, h⟩

/-- What is found for a manifest is found at one of its entries, or at the index. -/
theorem exists_of_manifestAnswer? {search : String → Option (Option String)} {dir : String}
    {m : Manifest} (h : manifestAnswer? rules host search dir m = some (some found)) :
    (∃ relative, search (Path.join dir relative) = some (some found)) ∨
      file? rules host (Path.join dir "index") = some found := by
  obtain ⟨first, hfirst, hor⟩ := Option.map_eq_some_iff.1 h
  rcases Option.or_eq_some_iff.1 hor with rfl | ⟨-, hindex⟩
  · obtain ⟨relative, -, hrelative⟩ := exists_of_firstAnswer? hfirst
    exact .inl ⟨relative, hrelative⟩
  · exact .inr hindex

/-- What is found for a path is found as a file: at the path itself, or at a path that a manifest
leads to or an index has. -/
theorem exists_file?_of_entryAnswer? {limit : Nat} {path : String}
    (h : entryAnswer? rules host limit path = some (some found)) :
    ∃ at_, (at_ = path ∨ ∃ dir relative, at_ = Path.join dir relative) ∧
      file? rules host at_ = some found := by
  induction limit generalizing path with
  | zero => cases h
  | succ limit ih =>
    unfold entryAnswer? at h
    split at h
    · next hfile =>
      obtain rfl := Option.some.inj (Option.some.inj h)
      exact ⟨path, .inl rfl, hfile⟩
    · split at h
      · rcases exists_of_manifestAnswer? h with ⟨relative, hrelative⟩ | hindex
        · -- the manifest names a file or a directory with a manifest of its own
          obtain ⟨at_, rfl | hjoined, hfile⟩ := ih hrelative
          · exact ⟨_, .inr ⟨path, relative, rfl⟩, hfile⟩
          · exact ⟨at_, .inr hjoined, hfile⟩
        · exact ⟨_, .inr ⟨path, "index", rfl⟩, hindex⟩
      · exact ⟨_, .inr ⟨path, "index", rfl⟩, Option.some.inj h⟩

theorem isFile_entryAnswer? {limit : Nat} {path : String}
    (h : entryAnswer? rules host limit path = some (some found)) : host.IsFile found := by
  obtain ⟨at_, -, hfile⟩ := exists_file?_of_entryAnswer? h
  exact isFile_file? hfile

theorem isFile_packageAnswer? {limit : Nat} {dir : String} {subpath : Option String}
    (h : packageAnswer? rules host limit dir subpath = some (some found)) : host.IsFile found := by
  unfold packageAnswer? at h
  dsimp only at h
  split at h
  · exact isFile_file? (Option.some.inj h)
  · split at h
    · exact isFile_entryAnswer? h
    · split at h
      · rcases exists_of_manifestAnswer? h with ⟨_, hentry⟩ | hindex
        · exact isFile_entryAnswer? hentry
        · exact isFile_file? hindex
      · exact isFile_file? (Option.some.inj h)

/-! ## Searches -/

variable {specifier dir : String} {m : ResolvedModule}

theorem isFile_installedAnswer? {limit : Nat}
    (h : installedAnswer? rules host limit specifier dir = some (some m)) :
    host.IsFile m.path := by
  obtain ⟨above, -, habove⟩ := exists_of_firstAnswer? h
  obtain ⟨name, -, hname⟩ := exists_of_firstAnswer? habove
  obtain ⟨file, hfile, hm⟩ := Option.map_eq_some_iff.1 hname
  obtain ⟨path, rfl, rfl⟩ := Option.map_eq_some_iff.1 hm
  exact isFile_packageAnswer? hfile

theorem isFile_nearest? (h : nearest? rules host specifier dir = some m) :
    host.IsFile m.path := by
  obtain ⟨path, hpath, rfl⟩ := Option.map_eq_some_iff.1 h
  obtain ⟨above, -, habove⟩ := List.exists_of_findSome?_eq_some hpath
  exact isFile_file? habove

theorem isFile_answerTo? {limit : Nat}
    (h : answerTo? rules host limit specifier dir = some (some m)) : host.IsFile m.path := by
  unfold answerTo? at h
  split at h
  · cases h
  · split at h
    · obtain ⟨file, hfile, hm⟩ := Option.map_eq_some_iff.1 h
      obtain ⟨path, rfl, rfl⟩ := Option.map_eq_some_iff.1 hm
      exact isFile_entryAnswer? hfile
    · split at h
      · exact isFile_installedAnswer? h
      · exact isFile_nearest? (Option.some.inj h)

/-- The file of a module that is found exists. -/
theorem isFile_find? (h : find? rules host specifier dir = some m) : host.IsFile m.path :=
  isFile_answerTo? (Option.join_eq_some_iff.1 h)

end Resolution

end DeclBundle
