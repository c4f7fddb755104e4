import DeclBundle.Proofs.ConnectedFiles
import DeclBundle.Proofs.NormalPaths
import DeclBundle.Proofs.ReachedFiles
import Mathlib.Data.List.Nodup

/-!
# What a project loads

A project has exactly the files that are reached from the entry and from the listed files, each of
them once. The entry is the first one. What a specifier means is known or reported. All this holds
when loading comes to an end, which it does unless a file that is reached is not read to its end or
the search for one of its specifiers goes on forever (`Project.load_exact`).

A file of a package is external, and any other file that the entry reaches is the project's own. The
rest should be ambient. But a file of a package passes on `own` even when the entry does not reach
it. So the origins are as they are documented exactly when no file is first imported by a package
that neither belongs to one, nor is reached from the entry, nor is listed
(`LoadingStart.Sequence.isDocumented_iff`).
-/

set_option autoImplicit false

namespace DeclBundle

/-! ## Origins -/

namespace LoadingStart

variable (t : LoadingStart)

/-- The origin of a file as it is documented. -/
def IsDocumented (path : String) (origin : FileOrigin) : Prop :=
  (origin = .external ↔ Path.IsInstalled path) ∧
    (¬ Path.IsInstalled path → (origin = .own ↔ t.IsOwn path))

/-- A file outside all packages is neither reached from the entry nor listed. -/
def IsAside (path : String) : Prop := ¬ Path.IsInstalled path ∧ ¬ t.IsOwn path ∧ path ∉ t.listed

/-- No file aside is first imported by a package. -/
def FindsNothingAside (entries : List (String × FileOrigin)) : Prop :=
  ∀ entry ∈ entries, t.IsAside entry.1 → ∀ importer, t.FirstImport entries entry.1 importer →
    ¬ Path.IsInstalled importer.1

end LoadingStart

theorem Loader.originAt_of_isInstalled {path : String} (h : Path.IsInstalled path)
    (origin : FileOrigin) :
    originAt path origin = .external := if_pos h

theorem Loader.originAt_of_not_isInstalled {path : String} (h : ¬ Path.IsInstalled path)
    (origin : FileOrigin) :
    originAt path origin = origin := if_neg h

namespace LoadingStart

variable {t : LoadingStart} {before entries : List (String × FileOrigin)} {path : String}
  {origin : FileOrigin}

theorem isDocumented_of_isInstalled (h : Path.IsInstalled path) :
    t.IsDocumented path (Loader.originAt path origin) := by
  rw [Loader.originAt_of_isInstalled h]
  exact ⟨iff_of_true rfl h, fun hother => absurd h hother⟩

theorem isDocumented_own (h : t.IsOwn path) : t.IsDocumented path (Loader.originAt path .own) := by
  by_cases hinstalled : Path.IsInstalled path
  · exact isDocumented_of_isInstalled hinstalled
  · rw [Loader.originAt_of_not_isInstalled hinstalled]
    exact ⟨iff_of_false (by decide) hinstalled, fun _ => iff_of_true rfl h⟩

theorem isDocumented_ambient (h : ¬ t.IsOwn path) :
    t.IsDocumented path (Loader.originAt path .ambient) := by
  by_cases hinstalled : Path.IsInstalled path
  · exact isDocumented_of_isInstalled hinstalled
  · rw [Loader.originAt_of_not_isInstalled hinstalled]
    exact ⟨iff_of_false (by decide) hinstalled, fun _ => iff_of_false (by decide) h⟩

/-- Where the entry does not reach, only packages have files that are not ambient. -/
theorem IsDocumented.eq_ambient (h : t.IsDocumented path origin)
    (hinstalled : ¬ Path.IsInstalled path) (hown : ¬ t.IsOwn path) :
    origin = .ambient := by
  cases origin with
  | own => exact absurd ((h.2 hinstalled).1 rfl) hown
  | external => exact absurd (h.1.1 rfl) hinstalled
  | ambient => rfl

theorem FirstImport.append {importer : String × FileOrigin} (h : t.FirstImport before path importer)
    (after : List (String × FileOrigin)) : t.FirstImport (before ++ after) path importer := by
  obtain ⟨front, back, rfl, himports, hfirst⟩ := h
  exact ⟨front, back ++ after, by rw [List.append_assoc, List.cons_append], himports, hfirst⟩

theorem FirstImport.mem {importer : String × FileOrigin} (h : t.FirstImport before path importer) :
    importer ∈ before := by
  obtain ⟨front, back, rfl, -, -⟩ := h
  exact List.mem_append_right front List.mem_cons_self

theorem FirstImport.unique {importer other : String × FileOrigin}
    (h : t.FirstImport before path importer) (h' : t.FirstImport before path other) :
    importer = other := by
  obtain ⟨front, back, rfl, himports, hfirst⟩ := h
  obtain ⟨front', back', heq, himports', hfirst'⟩ := h'
  rcases List.append_eq_append_iff.1 heq with ⟨between, rfl, hback⟩ | ⟨between, rfl, hback⟩
  · cases between with
    | nil => exact (List.cons.inj hback).1
    | cons next between =>
      obtain ⟨rfl, -⟩ := List.cons.inj hback
      exact absurd himports (hfirst' _ (List.mem_append_right _ List.mem_cons_self))
  · cases between with
    | nil => exact (List.cons.inj hback).1.symm
    | cons next between =>
      obtain ⟨rfl, -⟩ := List.cons.inj hback
      exact absurd himports' (hfirst _ (List.mem_append_right _ List.mem_cons_self))

/-- Every file was asked for after those before it. -/
theorem Sequence.asked (h : t.Sequence entries) {entry : String × FileOrigin}
    (hmem : entry ∈ entries) :
    ∃ before after origin, entries = before ++ entry :: after ∧ t.Asked before entry.1 origin ∧
      entry.2 = Loader.originAt entry.1 origin := by
  induction h with
  | nil => cases hmem
  | @next before path origin _ hasked ih =>
    rcases List.mem_append.1 hmem with hmem | hmem
    · obtain ⟨front, after, origin', rfl, hasked', horigin⟩ := ih hmem
      exact ⟨front, after ++ [_], origin', by rw [List.append_assoc, List.cons_append],
        hasked', horigin⟩
    · obtain rfl := List.mem_singleton.1 hmem
      exact ⟨before, [], origin, rfl, hasked, rfl⟩

/-- Where nothing aside is found, what comes next has its documented origin when all before it
have. -/
theorem Asked.isDocumented (hasked : t.Asked before path origin)
    (hbefore : ∀ entry ∈ before, t.IsDocumented entry.1 entry.2) (haside : t.IsAside path →
      ∀ importer, t.FirstImport before path importer → ¬ Path.IsInstalled importer.1) :
    t.IsDocumented path (Loader.originAt path origin) := by
  cases hasked with
  | own hown => exact isDocumented_own hown
  | listed hother _ => exact isDocumented_ambient hother
  | @imported hother hunlisted importer hfirst =>
    by_cases hinstalled : Path.IsInstalled path
    · exact isDocumented_of_isInstalled hinstalled
    · have hunreached : ¬ t.IsOwn importer.1 := by
        intro hown
        obtain ⟨front, back, -, himports, -⟩ := hfirst
        exact hother (hown.tail himports)
      have hambient : importer.2 = .ambient :=
        (hbefore importer hfirst.mem).eq_ambient
          (haside ⟨hinstalled, hother, hunlisted⟩ importer hfirst) hunreached
      rw [hambient]
      exact isDocumented_ambient hother

/-- The origins are documented exactly when no file aside is first imported by a package. -/
theorem Sequence.isDocumented_iff (h : t.Sequence entries) :
    (∀ entry ∈ entries, t.IsDocumented entry.1 entry.2) ↔ t.FindsNothingAside entries := by
  constructor
  · intro hall entry hentry ⟨hinstalled, hother, hunlisted⟩ importer hfirst hpackage
    obtain ⟨before, after, origin, rfl, hasked, horigin⟩ := h.asked hentry
    cases hasked with
    | own hown => exact hother hown
    | listed _ hlisted => exact hunlisted hlisted
    | @imported _ _ first hbefore =>
      obtain rfl := (hbefore.append _).unique hfirst
      have hexternal : first.2 = .external := (hall first hfirst.mem).1.2 hpackage
      rw [hexternal, Loader.originAt_of_not_isInstalled hinstalled] at horigin
      exact hother (((hall entry hentry).2 hinstalled).1 horigin)
  · intro haside
    -- the files before the next one, with the rest
    suffices ∀ before, t.Sequence before → ∀ after, t.FindsNothingAside (before ++ after) →
        ∀ entry ∈ before,
          t.IsDocumented entry.1 entry.2 from this entries h [] (by rwa [List.append_nil])
    intro before hbefore
    induction hbefore with
    | nil => exact fun _ _ entry hentry => nomatch hentry
    | @next before path origin _ hasked ih =>
      intro after haside entry hentry
      rw [List.append_assoc] at haside
      have hdocumented := ih _ haside
      rcases List.mem_append.1 hentry with hentry | hentry
      · exact hdocumented entry hentry
      · obtain rfl := List.mem_singleton.1 hentry
        refine hasked.isDocumented hdocumented fun hpath importer hfirst => ?_
        exact haside _ (List.mem_append_right _ List.mem_cons_self) hpath importer (hfirst.append _)

end LoadingStart

/-! ## Loading exactly -/

namespace Project

/-- The paths of all files with their origins. -/
def origins (p : Project) : List (String × FileOrigin) :=
  p.files.toList.map fun file => (file.path, file.origin)

/-- The project has the files that are reached, each of them once, with the entry as the first one;
and of every specifier it is known what it means, or it is reported. -/
structure IsLoadedFrom (t : LoadingStart) (p : Project) : Prop where
  nodup : (p.files.toList.map SourceFile.path).Nodup
  mem_paths_iff : ∀ path, path ∈ p.files.toList.map SourceFile.path ↔ t.IsReached path
  id_eq : ∀ (index : Nat) (file : SourceFile), p.files[index]? = some file → file.id = ⟨index⟩
  fileAt?_eq : ∀ file ∈ p.files, p.fileAt? file.path = some file
  entry_eq : p.entry = ⟨0⟩
  first : ∃ file, p.files[0]? = some file ∧ file.path = t.entry
  specifiers : ∀ file ∈ p.files, ∀ specifier ∈ moduleSpecifiers file.arena,
    file.Knows specifier.1 ∨ ∃ path span,
      Diagnostic.at_ path span (.cannotFindModule specifier.1) ∈ p.diagnostics

theorem find?_eq_of_nodup {files : Array SourceFile} (h : (files.toList.map SourceFile.path).Nodup)
    {file : SourceFile} (hfile : file ∈ files) : files.find? (·.path == file.path) = some file := by
  cases hfind : files.find? (·.path == file.path) with
  | none => exact absurd BEq.rfl (Array.find?_eq_none.1 hfind file hfile)
  | some found =>
    have hpath : found.path = file.path := by simpa using Array.find?_some hfind
    have hmem := Array.mem_toList_iff.2 (Array.mem_of_find?_eq_some hfind)
    exact congrArg some (List.inj_on_of_nodup_map h hmem (Array.mem_toList_iff.2 hfile) hpath)

end Project

namespace Loader

variable {t : LoadingStart} {l : Loader} (h : l.Loads t)

include h

/-- The project has the files that were read, with their origins. -/
theorem Loads.origins_ofLoader :
    (Assembly.ofLoader l).files.toList.map (fun file => (file.path, file.origin)) = l.origins := by
  have hread := congrArg (List.map fun file : SourceFile => (file.path, file.origin))
    (Assembly.asRead_ofLoader l)
  rw [Assembly.asRead, List.map_map, List.map_map] at hread
  rw [origins, h.queue_eq, List.map_nil, List.append_nil]
  exact hread

theorem Loads.paths_ofLoader :
    (Assembly.ofLoader l).files.toList.map SourceFile.path = l.asked.reverse := by
  rw [h.rests.follows.asked, ← h.origins_ofLoader, List.map_map]
  rfl

theorem Loads.nodup_paths : ((Assembly.ofLoader l).files.toList.map SourceFile.path).Nodup := by
  rw [h.paths_ofLoader]
  exact List.nodup_reverse.2 h.rests.follows.nodup

/-- Every path in a project is normalized. -/
theorem Loads.normalize_eq {file : SourceFile} (hfile : file ∈ (Assembly.ofLoader l).files) :
    Path.normalize file.path = file.path := by
  have hasked : file.path ∈ l.asked := by
    rw [← List.mem_reverse, ← h.paths_ofLoader]
    exact List.mem_map_of_mem (Array.mem_toList_iff.2 hfile)
  obtain ⟨written, -, hwritten⟩ := h.rests.follows.isFile _ hasked
  rw [hwritten, Path.normalize_normalize]

theorem Loads.reads {index : Nat} {file : SourceFile}
    (hfile : (Assembly.ofLoader l).files[index]? = some file) :
    ∃ read, l.files[index]? = some read ∧ read.asRead = file.asRead ∧ t.Reads index read := by
  obtain ⟨read, hread, heq⟩ := Assembly.exists_read (Assembly.asRead_ofLoader l) hfile
  exact ⟨read, hread, heq, h.rests.follows.files index read hread⟩

theorem Loads.id_eq {index : Nat} {file : SourceFile}
    (hfile : (Assembly.ofLoader l).files[index]? = some file) :
    file.id = ⟨index⟩ := by
  obtain ⟨read, -, heq, hread⟩ := h.reads hfile
  have hid : read.asRead.id = file.asRead.id := congrArg SourceFile.id heq
  exact hid.symm.trans hread.id_eq

/-- The entry is the first file. -/
theorem Loads.exists_first : ∃ file, (Assembly.ofLoader l).files[0]? = some file ∧
    file.path = t.entry := by
  obtain ⟨origin, rest, hfirst⟩ := h.rests.follows.first
  have hentry : ((Assembly.ofLoader l).files.toList.map fun file => (file.path, file.origin))[0]? =
      some (t.entry, origin) := by
    rw [h.origins_ofLoader, hfirst, List.getElem?_cons_zero]
  rw [List.getElem?_map, Array.getElem?_toList] at hentry
  obtain ⟨file, hfile, heq⟩ := Option.map_eq_some_iff.1 hentry
  exact ⟨file, hfile, (Prod.mk.inj heq).1⟩

/-- Of every specifier it is known what it means, or it is reported. -/
theorem Loads.specifiers {file : SourceFile} (hfile : file ∈ (Assembly.ofLoader l).files)
    {specifier : String × Text.Span} (hspecifier : specifier ∈ moduleSpecifiers file.arena) :
    file.Knows specifier.1 ∨
      ∃ path span, Diagnostic.at_ path span (.cannotFindModule specifier.1) ∈
        (Assembly.ofLoader l).diagnostics := by
  obtain ⟨index, hindex⟩ := Array.mem_iff_getElem?.1 hfile
  obtain ⟨read, hread, heq, hreads⟩ := h.reads hindex
  have harena : read.asRead.arena = file.asRead.arena := congrArg SourceFile.arena heq
  have hknown : ∀ name, (Assembly.ofLoader l).Knows ⟨index⟩ name → file.Knows name := by
    rintro name ⟨found, hfound, hknows⟩
    rw [show (⟨index⟩ : FileId).index = index from rfl, hindex] at hfound
    exact Option.some.inj hfound ▸ hknows
  have hsettled := h.rests.handles read (Array.mem_iff_getElem?.2 ⟨index, hread⟩) specifier
    (by rwa [show read.arena = file.arena from harena])
  rw [hreads.id_eq, Settles] at hsettled
  split at hsettled
  · next m _ =>
    -- the file that the specifier leads to was asked for, and so it was loaded
    obtain ⟨hasked, hconnected⟩ := hsettled
    have hloaded : m.path ∈ l.files.toList.map SourceFile.path := by
      rw [← List.mem_reverse, h.rests.follows.asked, origins, h.queue_eq, List.map_nil,
        List.append_nil, List.map_map] at hasked
      exact hasked
    obtain ⟨target, htarget, hpath⟩ := List.mem_map.1 hloaded
    exact .inl
      (hknown _ (Assembly.knows_of_connection hread (Array.mem_toList_iff.1 htarget)
      (hpath.symm ▸ hconnected)))
  · obtain ⟨failure, hunresolved, hname⟩ := hsettled
    rw [← hname]
    exact (Assembly.knows_of_unresolved hread hunresolved).imp (hknown _) fun hreported =>
      ⟨_, _, hreported⟩

end Loader

namespace Project

variable {entry : String} {options : ProjectOptions} {host : Host}

/-- The entry is found among the files of its project. -/
theorem find?_entry
    (hloads : (Loader.run host options (Path.normalize entry)).Loads (start entry options host))
    {first : SourceFile} (hfirst : (assembly entry options host).files[0]? = some first)
    (hpath : first.path = (start entry options host).entry) :
    (assembly entry options host).files.find? (·.path == Path.normalize entry) = some first := by
  have hmem : first ∈ (assembly entry options host).files :=
    Array.mem_iff_getElem?.2 ⟨0, hfirst⟩
  have hstart : first.path = Path.normalize entry := hpath
  rw [← hstart]
  exact find?_eq_of_nodup hloads.nodup_paths hmem

/-- Files keep their origins when they are connected. -/
theorem origins_of_load {p : Project} (hload : load entry options host = .ok p)
    (hloads : (Loader.run host options (Path.normalize entry)).Loads (start entry options host)) :
    p.origins = (Loader.run host options (Path.normalize entry)).origins := by
  obtain ⟨-, -, -, hfiles, -⟩ := of_load hload
  rw [origins, hfiles]
  exact hloads.origins_ofLoader

/-- What is loaded has exactly the files that are reached, and the origins are as they are
documented exactly when no file aside is first imported by a package. -/
theorem isLoadedFrom_of_load {p : Project} (hload : load entry options host = .ok p)
    (hloads : (Loader.run host options (Path.normalize entry)).Loads (start entry options host)) :
    p.IsLoadedFrom (start entry options host) ∧
      ((∀ file ∈ p.files, (start entry options host).IsDocumented file.path file.origin) ↔
        (start entry options host).FindsNothingAside p.origins) := by
  obtain ⟨first, hfirst, hpath⟩ := hloads.exists_first
  have hfind := find?_entry hloads hfirst hpath
  have hpaths : (assembly entry options host).files.toList.map SourceFile.path = _ :=
    hloads.paths_ofLoader
  obtain ⟨file, hfile, hentryId, hfiles, -, missing, hdiagnostics⟩ := of_load hload
  obtain rfl : first = file := Option.some.inj (hfind.symm.trans hfile)
  refine ⟨⟨?_, fun path => ?_, fun index file hindex => ?_, fun file hmem => ?_, ?_, ?_, ?_⟩, ?_⟩
  · rw [hfiles]
    exact hloads.nodup_paths
  · rw [hfiles, hpaths, List.mem_reverse]
    exact hloads.mem_asked_iff path
  · rw [hfiles] at hindex
    exact hloads.id_eq hindex
  · rw [hfiles] at hmem
    rw [fileAt?, hloads.normalize_eq hmem, hfiles]
    exact find?_eq_of_nodup hloads.nodup_paths hmem
  · rw [hentryId]
    exact hloads.id_eq hfirst
  · rw [hfiles]
    exact ⟨first, hfirst, hpath⟩
  · intro file hmem specifier hspecifier
    rw [hfiles] at hmem
    refine (hloads.specifiers hmem hspecifier).imp_right fun ⟨path, span, hreported⟩ =>
      ⟨path, span, ?_⟩
    rw [hdiagnostics]
    exact List.mem_append_left _ hreported
  · have horigins := origins_of_load hload hloads
    rw [← LoadingStart.Sequence.isDocumented_iff (horigins ▸ hloads.rests.follows.sequence)]
    simp [origins]

/-- A place where answers depend on normalized paths only, and exactly the files that exist can be
read, has an entry and not too many files that are reached. Loading then has a result exactly when
it comes to an end: all files that are reached are read to their ends, and so are the searches for
their specifiers. The result is a project with exactly the files that are reached. The origins are
as they are documented exactly when no file aside is first imported by a package. -/
theorem load_exact (hregular : host.IsRegular)
    (hexists : host.fileExists (Path.normalize entry) = true)
    (hbelow : (start entry options host).IsBelow Loader.maxFiles) :
    ((start entry options host).Ends ↔ (load? entry options host).isSome = true) ∧
      ((start entry options host).Ends → ∃ p, load? entry options host = some (.ok p) ∧
        p.IsLoadedFrom (start entry options host) ∧
        ((∀ file ∈ p.files, (start entry options host).IsDocumented file.path file.origin) ↔
          (start entry options host).FindsNothingAside p.origins)) := by
  have hloads := Loader.run_loads hregular (hregular.isFile_normalize hexists) hbelow
  have hload? : load? entry options host =
      if (Loader.run host options (Path.normalize entry)).hasEnded host then
        some (load entry options host)
      else none := by
    rw [load?, hexists, Bool.not_true, Bool.false_or]
  have hends := hloads.hasEnded_iff hregular.isListed
  constructor
  · rw [← hends, hload?]
    split
    · next hended => exact iff_of_true hended rfl
    · next hended => exact iff_of_false hended Bool.false_ne_true
  · intro h
    obtain ⟨first, hfirst, hpath⟩ := hloads.exists_first
    obtain ⟨p, hload⟩ := exists_load hexists (find?_entry hloads hfirst hpath)
    have hended : (Loader.run host options (Path.normalize entry)).hasEnded host = true := hends.2 h
    exact ⟨p, by rw [hload?, if_pos hended, hload], isLoadedFrom_of_load hload hloads⟩

end Project

/-! ## Files in memory -/

namespace MemoryFiles

theorem isRegular_host (m : MemoryFiles) : m.host.IsRegular where
  isListed _ h := (m.files.contains_iff_mem_keys _).1 h
  readFile_normalize path := congrArg m.files.get? (Path.normalize_normalize path)
  fileExists_eq _ := rfl

/-- No more files are reached than there are. -/
theorem isBelow_host (m : MemoryFiles) (entry : String) (options : ProjectOptions)
    (hexists : m.host.fileExists (Path.normalize entry) = true) {limit : Nat}
    (h : m.files.size ≤ limit) :
    (Project.start entry options m.host).IsBelow limit := by
  have hkey : ∀ path, m.host.IsFile path → path ∈ m.files.keys := by
    rintro path ⟨written, hwritten, rfl⟩
    exact (m.files.contains_iff_mem_keys _).1 hwritten
  have hnormal : ∀ path, m.host.fileExists (Path.normalize path) = true →
      Path.normalize path ∈ m.files.keys := fun path h =>
    hkey _ ⟨Path.normalize path, h, (Path.normalize_normalize path).symm⟩
  have hreaches : ∀ path target, path ∈ m.files.keys →
      Relation.ReflTransGen (Project.start entry options m.host).Imports path target →
        target ∈ m.files.keys := by
    intro path target hpath h
    cases h with
    | refl => exact hpath
    | tail _ himports =>
      obtain ⟨_, _, _, _, found, hfound, rfl⟩ := himports
      exact hkey _ (Resolution.isFile_find? hfound)
  refine ⟨m.files.keys, by rwa [Table.keys, List.length_map], ?_⟩
  rintro path (hpath | ⟨root, hroot, hpath⟩)
  · exact hreaches _ path (hnormal entry hexists) hpath
  · obtain ⟨hmem, hroot⟩ := List.mem_filter.1 hroot
    obtain ⟨written, -, rfl⟩ := List.mem_map.1 hmem
    exact hreaches _ path (hnormal written hroot) hpath

end MemoryFiles

namespace Project

/-- An entry without imports, and a listed file that imports a package, which imports a file
outside. -/
def outsidePackage : MemoryFiles :=
  [("/a.ts", "export {}\n"),
    ("/b.ts", "import { P } from \x22pkg\x22;\nexport type B = P;\n"),
    ("/c.ts", "export interface C {}\n"),
    ("/node_modules/pkg/index.d.ts", "export { C as P } from \x22../../c\x22;\n")].foldl
    (fun m file => m.add file.1 file.2) {}

/-- The project of these files, with the second one listed. -/
def outsidePackageStart : LoadingStart := start "/a.ts" { files := ["/b.ts"] } outsidePackage.host

theorem normalize_entry_outsidePackage : Path.normalize "/a.ts" = "/a.ts" := by decide

theorem fileExists_outsidePackage :
    outsidePackage.host.fileExists (Path.normalize "/a.ts") = true := by
  decide

theorem isBelow_outsidePackage : outsidePackageStart.IsBelow Loader.maxFiles :=
  outsidePackage.isBelow_host "/a.ts" { files := ["/b.ts"] } fileExists_outsidePackage (by
    decide)

theorem loads_outsidePackage :
    (Loader.run outsidePackage.host { files := ["/b.ts"] } (Path.normalize "/a.ts")).Loads
      outsidePackageStart :=
  Loader.run_loads outsidePackage.isRegular_host
    (outsidePackage.isRegular_host.isFile_normalize fileExists_outsidePackage)
      isBelow_outsidePackage

set_option maxRecDepth 1000000 in
theorem run_outsidePackage :
    (Loader.run outsidePackage.host { files := ["/b.ts"] } (Path.normalize "/a.ts")).hasEnded
        outsidePackage.host = true ∧
      (Loader.run outsidePackage.host { files := ["/b.ts"] } (Path.normalize "/a.ts")).origins =
        [("/a.ts", .own), ("/b.ts", .ambient), ("/node_modules/pkg/index.d.ts", .external),
          ("/c.ts", .own)] := by
  decide +kernel

/-- Loading the four files comes to an end, and they are loaded exactly. -/
theorem load_exact_outsidePackage :
    outsidePackageStart.Ends ∧
      ∃ p, load? "/a.ts" { files := ["/b.ts"] } outsidePackage.host = some (.ok p) ∧
        p.IsLoadedFrom outsidePackageStart ∧
        ((∀ file ∈ p.files, outsidePackageStart.IsDocumented file.path file.origin) ↔
          outsidePackageStart.FindsNothingAside p.origins) := by
  have hends : outsidePackageStart.Ends :=
    (loads_outsidePackage.hasEnded_iff outsidePackage.isRegular_host.isListed).1
      run_outsidePackage.1
  have hexact := load_exact outsidePackage.isRegular_host fileExists_outsidePackage
    isBelow_outsidePackage
  exact ⟨hends, hexact.2 hends⟩

set_option maxRecDepth 1000000 in
/-- Loading goes on forever at a backslash that stands in the place of a token, and in the search
for a directory whose manifest names the directory itself. -/
theorem exists_endless_load :
    load? "/a.ts" {} (MemoryFiles.add {} "/a.ts" "\\").host = none ∧
      load? "/a.ts" {} ((MemoryFiles.add {} "/a.ts" "import \x22./b\x22;").add "/b/package.json"
        "\x7b \x22main\x22: \x22.\x22 \x7d").host = none := by
  decide +kernel

/-- The file that only the package imports is the project's own, although the entry imports
nothing. -/
theorem exists_own_unreached :
    ∃ p, load "/a.ts" { files := ["/b.ts"] } outsidePackage.host = .ok p ∧
      ("/c.ts", .own) ∈ p.origins ∧ ¬ Path.IsInstalled "/c.ts" ∧
      ¬ (start "/a.ts" { files := ["/b.ts"] } outsidePackage.host).IsOwn "/c.ts" := by
  obtain ⟨first, hfirst, hpath⟩ := loads_outsidePackage.exists_first
  obtain ⟨p, hload⟩ :=
    exists_load fileExists_outsidePackage (find?_entry loads_outsidePackage hfirst hpath)
  have horigins := origins_of_load hload loads_outsidePackage
  rw [run_outsidePackage.2] at horigins
  refine ⟨p, hload, horigins ▸ by decide, by decide, fun hown => ?_⟩
  have htext : outsidePackage.host.readFile "/a.ts" = some "export {}\n" := by decide
  have hnone : moduleSpecifiers (parseFile "/a.ts" "export {}\n").arena = [] := by decide
  -- a first step from the entry would be an import
  rcases Relation.ReflTransGen.cases_head hown with
    heq | ⟨next, ⟨text, hread, specifier, hspecifier, -⟩, -⟩
  · exact absurd (normalize_entry_outsidePackage.symm.trans heq) (by decide)
  · have hentry : (start "/a.ts" { files := ["/b.ts"] } outsidePackage.host).entry = "/a.ts" :=
      normalize_entry_outsidePackage
    rw [hentry] at hread hspecifier
    obtain rfl := Option.some.inj (htext.symm.trans hread)
    rw [hnone] at hspecifier
    cases hspecifier

end Project

end DeclBundle
