import DeclBundle.Project.Loading
import DeclBundle.Proofs.EndingSearches
import DeclBundle.Proofs.FoundFiles
import DeclBundle.Proofs.Remembering
import Mathlib.Data.List.Perm.Subperm
import Mathlib.Logic.Relation

/-!
# The files that are reached

Files are read in the order in which they are asked for, and a file asks for those that its
specifiers lead to. At every moment the paths that were asked for are those of the files that were
read and then those in the queue, each of them once (`Loader.Follows`). A file that was read has
asked for everything that it imports (`Loader.Handles`). So when the queue is empty, the files are
those that are reached from the entry and from the existing files that are listed beside it
(`Loader.run_loads`).

The origin of a file is settled when it is asked for. What the entry reaches is asked for first. Of
the rest, listed files are ambient, and any other file is asked for by the first file that imports
it (`LoadingStart.Asked`).
-/

set_option autoImplicit false

namespace DeclBundle

/-! ## Reaching files -/

/-- The answers depend on normalized paths only, exactly the files that exist can be read, and all
of them are listed. -/
structure Host.IsRegular (host : Host) : Prop where
  isListed : host.IsListed
  readFile_normalize : ∀ path, host.readFile (Path.normalize path) = host.readFile path
  fileExists_eq : ∀ path, host.fileExists path = (host.readFile path).isSome

theorem Host.IsRegular.exists_text {host : Host} (h : host.IsRegular) {path : String}
    (hfile : host.IsFile path) :
    ∃ text, host.readFile path = some text := by
  obtain ⟨written, hexists, rfl⟩ := hfile
  rw [h.fileExists_eq] at hexists
  rw [h.readFile_normalize]
  exact Option.isSome_iff_exists.1 hexists

theorem Host.IsRegular.isFile_normalize {host : Host} (h : host.IsRegular) {path : String}
    (hexists : host.fileExists (Path.normalize path) = true) :
    host.IsFile (Path.normalize path) := by
  rw [h.fileExists_eq, h.readFile_normalize, ← h.fileExists_eq] at hexists
  exact ⟨path, hexists, rfl⟩

/-- The path is inside a package. -/
def Path.IsInstalled (path : String) : Prop :=
  Text.contains "/node_modules/".toList path.toList = true

instance (path : String) : Decidable (Path.IsInstalled path) :=
  inferInstanceAs (Decidable (_ = true))

/-- What decides which files are loaded; the listed files are those that exist. -/
structure LoadingStart where
  host : Host
  rules : Resolution.Rules
  entry : String
  listed : List String

namespace LoadingStart

variable (t : LoadingStart)

/-- A specifier in the first file leads to the second one. -/
def Imports (path target : String) : Prop :=
  ∃ text, t.host.readFile path = some text ∧
    ∃ specifier ∈ moduleSpecifiers (parseFile path text).arena,
      ∃ m, Resolution.find? t.rules t.host specifier.1 (Path.parent path) = some m ∧ m.path = target

/-- The file is reached from the entry. -/
def IsOwn (path : String) : Prop := Relation.ReflTransGen t.Imports t.entry path

/-- The file is reached from the entry or from a listed file. -/
def IsReached (path : String) : Prop :=
  t.IsOwn path ∨ ∃ root ∈ t.listed, Relation.ReflTransGen t.Imports root path

theorem IsReached.imports {t : LoadingStart} {path target : String} (h : t.IsReached path)
    (himports : t.Imports path target) :
    t.IsReached target := by
  rcases h with h | ⟨root, hroot, h⟩
  · exact .inl (h.tail himports)
  · exact .inr ⟨root, hroot, h.tail himports⟩

/-- Loading comes to an end: every file that is reached is read to its end, and so is the search for
each of its specifiers. -/
def Ends : Prop :=
  ∀ path, t.IsReached path → ∀ text, t.host.readFile path = some text →
    (parseFile? path text).isSome = true ∧
      ∀ specifier ∈ moduleSpecifiers (parseFile path text).arena,
        Resolution.Ends t.rules t.host specifier.1 (Path.parent path)

/-- All files that exist have only so many paths. -/
def IsBelow (limit : Nat) : Prop :=
  ∃ paths : List String, paths.length ≤ limit ∧ ∀ path, t.IsReached path → path ∈ paths

/-! ## Origins -/

/-- The first of some files that imports a path. -/
def FirstImport (before : List (String × FileOrigin)) (path : String)
    (importer : String × FileOrigin) : Prop :=
  ∃ front back, before = front ++ importer :: back ∧ t.Imports importer.1 path ∧ ∀ other ∈ front,
    ¬ t.Imports other.1 path

end LoadingStart

/-- The origin with which a file asks for others. -/
def FileOrigin.passedOn (origin : FileOrigin) : FileOrigin :=
  if origin = .ambient then .ambient else .own

namespace LoadingStart

variable (t : LoadingStart)

/-- The origin with which a path is asked for after other files. -/
inductive Asked (before : List (String × FileOrigin)) (path : String) : FileOrigin → Prop
  | own (h : t.IsOwn path) : Asked before path .own
  | listed (hother : ¬ t.IsOwn path) (h : path ∈ t.listed) : Asked before path .ambient
  | imported (hother : ¬ t.IsOwn path) (hunlisted : path ∉ t.listed)
    {importer : String × FileOrigin}
      (h : t.FirstImport before path importer) : Asked before path importer.2.passedOn

/-- Paths that were asked for one after the other, with the origins of their files. -/
inductive Sequence : List (String × FileOrigin) → Prop
  | nil : Sequence []
  | next {before : List (String × FileOrigin)} {path : String} {origin : FileOrigin}
    (h : Sequence before)
      (hasked : t.Asked before path origin) :
    Sequence (before ++ [(path, Loader.originAt path origin)])

/-- A file as it was read. -/
structure Reads (index : Nat) (file : SourceFile) : Prop where
  id_eq : file.id = ⟨index⟩
  text_eq : t.host.readFile file.path = some file.text
  arena_eq : file.arena = (parseFile file.path file.text).arena

end LoadingStart

theorem Loader.originAt_ne_ambient {origin : FileOrigin} (h : origin ≠ .ambient) (path : String) :
    originAt path origin ≠ .ambient := by
  unfold originAt
  split
  · exact fun heq => nomatch heq
  · exact h

theorem LoadingStart.Sequence.origin_ne_ambient {t : LoadingStart}
    {entries : List (String × FileOrigin)} (h : t.Sequence entries) {path : String}
    {origin : FileOrigin} (hmem : (path, origin) ∈ entries) (hown : t.IsOwn path) :
    origin ≠ .ambient := by
  induction h with
  | nil => cases hmem
  | next _ hasked ih =>
    rcases List.mem_append.1 hmem with hmem | hmem
    · exact ih hmem
    · obtain ⟨rfl, rfl⟩ := Prod.mk.inj (List.mem_singleton.1 hmem)
      cases hasked with
      | own => exact Loader.originAt_ne_ambient (by decide) path
      | listed hother => exact absurd hown hother
      | imported hother => exact absurd hown hother

namespace Loader

/-! ## What holds while files are read -/

/-- The files that were read and then those in the queue, with their origins. -/
def origins (l : Loader) : List (String × FileOrigin) :=
  l.files.toList.map (fun file => (file.path, file.origin)) ++ l.queue.map fun entry =>
    (entry.1, originAt entry.1 entry.2)

/-- What holds at every moment of loading. -/
structure Follows (t : LoadingStart) (l : Loader) : Prop where
  resolver : ∃ history, l.resolver = Resolver.after t.host { rules := t.rules } history
  asked : l.asked.reverse = l.origins.map Prod.fst
  nodup : l.asked.Nodup
  isFile : ∀ path ∈ l.asked, t.host.IsFile path
  reached : ∀ path ∈ l.asked, t.IsReached path
  first : ∃ origin rest, l.origins = (t.entry, origin) :: rest
  sequence : t.Sequence l.origins
  files : ∀ index file, l.files[index]? = some file → t.Reads index file

/-- A specifier in a file is dealt with: what it leads to was asked for, or the failure is kept. -/
def Settles (t : LoadingStart) (l : Loader) (id : FileId) (path specifier : String) : Prop :=
  match Resolution.find? t.rules t.host specifier (Path.parent path) with
  | some m => m.path ∈ l.asked ∧ (id, specifier, m.path) ∈ l.connections
  | none => ∃ failure, (id, failure) ∈ l.unresolved ∧ failure.specifier = specifier

/-- All specifiers in a file are dealt with. -/
def Handles (t : LoadingStart) (l : Loader) (file : SourceFile) : Prop :=
  ∀ specifier ∈ moduleSpecifiers file.arena, l.Settles t file.id file.path specifier.1

/-- More was asked for. -/
structure Grows (l l' : Loader) : Prop where
  asked : ∀ path ∈ l.asked, path ∈ l'.asked
  connections : ∀ c ∈ l.connections, c ∈ l'.connections
  unresolved : ∀ u ∈ l.unresolved, u ∈ l'.unresolved

theorem Grows.refl (l : Loader) : l.Grows l := ⟨fun _ h => h, fun _ h => h, fun _ h => h⟩

theorem Grows.trans {l l' l'' : Loader} (h : l.Grows l') (h' : l'.Grows l'') : l.Grows l'' :=
  ⟨fun x hx => h'.asked x (h.asked x hx), fun x hx => h'.connections x (h.connections x hx),
    fun x hx => h'.unresolved x (h.unresolved x hx)⟩

variable {t : LoadingStart} {l l' : Loader}

theorem Settles.mono {id : FileId} {path specifier : String} (h : l.Settles t id path specifier)
    (hgrows : l.Grows l') :
    l'.Settles t id path specifier := by
  unfold Settles at h ⊢
  split
  · next m hm =>
    rw [hm] at h
    exact ⟨hgrows.asked _ h.1, hgrows.connections _ h.2⟩
  · next hnone =>
    rw [hnone] at h
    obtain ⟨failure, hmem, hspecifier⟩ := h
    exact ⟨failure, hgrows.unresolved _ hmem, hspecifier⟩

theorem Handles.mono {file : SourceFile} (h : l.Handles t file) (hgrows : l.Grows l') :
    l'.Handles t file :=
  fun specifier hspecifier => (h specifier hspecifier).mono hgrows

/-- A file that was read has asked for what it imports. -/
theorem Handles.mem_asked {file : SourceFile} (h : l.Handles t file) {index : Nat}
    (hread : t.Reads index file) {target : String} (himports : t.Imports file.path target) :
    target ∈ l.asked := by
  obtain ⟨text, htext, specifier, hspecifier, m, hm, rfl⟩ := himports
  obtain rfl := Option.some.inj (htext.symm.trans hread.text_eq)
  have hsettled := h specifier (hread.arena_eq ▸ hspecifier)
  rw [Settles, hm] at hsettled
  exact hsettled.1

/-! ## Asking -/

theorem origins_ask (path : String) (origin : FileOrigin) :
    (l.ask path origin).origins =
      if path ∈ l.asked then l.origins else l.origins ++ [(path, originAt path origin)] := by
  unfold ask
  by_cases h : path ∈ l.asked
  · rw [if_pos (List.contains_iff_mem.2 h), if_pos h]
  · rw [if_neg (List.contains_iff_mem.not.2 h), if_neg h, origins, origins, List.map_append,
      List.append_assoc]
    rfl

theorem mem_asked_ask (path : String) (origin : FileOrigin) (other : String) :
    other ∈ (l.ask path origin).asked ↔ other = path ∨ other ∈ l.asked := by
  unfold ask
  split
  · next h =>
    refine ⟨.inr, fun hother => hother.elim (fun heq => ?_) id⟩
    exact heq ▸ List.contains_iff_mem.1 h
  · exact List.mem_cons

theorem grows_ask (l : Loader) (path : String) (origin : FileOrigin) :
    l.Grows (l.ask path origin) := by
  refine ⟨fun other h => (mem_asked_ask path origin other).2 (.inr h), fun c hc => ?_,
    fun u hu => ?_⟩
  · unfold ask
    split
    · exact hc
    · exact hc
  · unfold ask
    split
    · exact hu
    · exact hu

theorem files_ask (l : Loader) (path : String) (origin : FileOrigin) :
    (l.ask path origin).files = l.files := by
  unfold ask
  split
  · rfl
  · rfl

/-- Asking for an existing file that is reached, with its origin. -/
theorem Follows.ask (h : l.Follows t) {path : String} {origin : FileOrigin}
    (hfile : t.host.IsFile path) (hreached : t.IsReached path)
    (hasked : path ∉ l.asked → t.Asked l.origins path origin) :
    (l.ask path origin).Follows t := by
  -- a file that was asked for before is not asked for again
  by_cases hmem : path ∈ l.asked
  · rwa [Loader.ask, if_pos (List.contains_iff_mem.2 hmem)]
  · have horigins := origins_ask (l := l) path origin
    rw [if_neg hmem] at horigins
    obtain ⟨first, rest, hfirst⟩ := h.first
    have hask : l.ask path origin =
        { l with asked := path :: l.asked, queue := l.queue ++ [(path, origin)] } :=
      if_neg (List.contains_iff_mem.not.2 hmem)
    refine ⟨?_, ?_, ?_, ?_, ?_, ?_, ?_, ?_⟩
    · rw [hask]
      exact h.resolver
    · rw [horigins, List.map_append, ← h.asked, hask]
      exact List.reverse_cons
    · rw [hask]
      exact List.nodup_cons.2 ⟨hmem, h.nodup⟩
    · intro other hother
      rcases (mem_asked_ask path origin other).1 hother with rfl | hother
      · exact hfile
      · exact h.isFile other hother
    · intro other hother
      rcases (mem_asked_ask path origin other).1 hother with rfl | hother
      · exact hreached
      · exact h.reached other hother
    · exact ⟨first,
        rest ++ [(path, originAt path origin)], by rw [horigins, hfirst, List.cons_append]⟩
    · rw [horigins]
      exact .next h.sequence (hasked hmem)
    · rw [files_ask]
      exact h.files

/-! ## Reading a file -/

/-- Either only files were asked for that the entry reaches, or all of these and the listed
files. -/
def InPhase (t : LoadingStart) (l : Loader) : Prop :=
  (∀ path ∈ l.asked, t.IsOwn path) ∨ ∀ path, t.IsOwn path ∨ path ∈ t.listed → path ∈ l.asked

/-- The file that is being read is the last one, and all files before it are dealt with. -/
structure Reading (t : LoadingStart) (file : SourceFile) (l : Loader) : Prop where
  follows : l.Follows t
  phase : l.InPhase t
  last : ∃ before : Array SourceFile, l.files = before.push file ∧ ∀ other ∈ before,
    l.Handles t other

theorem mem_files_iff {file : SourceFile} : file ∈ l.files ↔ ∃ index : Nat,
    l.files[index]? = some file :=
  Array.mem_iff_getElem?

theorem Follows.mem_origins (_h : l.Follows t) {file : SourceFile} (hfile : file ∈ l.files) :
    (file.path, file.origin) ∈ l.origins :=
  List.mem_append_left _ (List.mem_map.2 ⟨file, Array.mem_toList_iff.2 hfile, rfl⟩)

theorem Follows.mem_asked (h : l.Follows t) {file : SourceFile} (hfile : file ∈ l.files) :
    file.path ∈ l.asked := by
  rw [← List.mem_reverse, h.asked]
  exact List.mem_map.2 ⟨_, h.mem_origins hfile, rfl⟩

theorem Reading.mem_files {file : SourceFile} (h : l.Reading t file) : file ∈ l.files := by
  obtain ⟨before, hfiles, -⟩ := h.last
  rw [hfiles]
  exact Array.mem_push_self

/-- What the file that is being read imports is asked for with the right origin. -/
theorem Reading.asked {file : SourceFile} (h : l.Reading t file) {target : String}
    (himports : t.Imports file.path target) (hnew : target ∉ l.asked) :
    t.Asked l.origins target file.origin.passedOn := by
  have hmem := h.mem_files
  rcases h.phase with hown | hall
  · have hown := hown file.path (h.follows.mem_asked hmem)
    have hne := h.follows.sequence.origin_ne_ambient (h.follows.mem_origins hmem) hown
    rw [FileOrigin.passedOn, if_neg hne]
    exact .own (hown.tail himports)
  · suffices hfirst : t.FirstImport l.origins target (file.path, file.origin) from
      .imported (fun hown => hnew (hall target (.inl hown)))
        (fun hlisted => hnew (hall target (.inr hlisted))) hfirst
    obtain ⟨before, hfiles, hhandled⟩ := h.last
    refine ⟨before.toList.map fun other => (other.path, other.origin), l.queue.map fun entry =>
      (entry.1, originAt entry.1 entry.2), ?_, himports, fun other hother himports => ?_⟩
    · rw [origins, hfiles, Array.toList_push, List.map_append, List.append_assoc]
      rfl
    · -- a file before it would have asked for the target
      obtain ⟨earlier, hearlier, rfl⟩ := List.mem_map.1 hother
      have hearlier := Array.mem_toList_iff.1 hearlier
      obtain ⟨index, hindex⟩ :=
        mem_files_iff.1 (show earlier ∈ l.files from hfiles ▸ Array.mem_push.2 (.inl hearlier))
      exact hnew
        ((hhandled earlier hearlier).mem_asked (h.follows.files index earlier hindex) himports)

section

variable (host : Host) (file : FileId) (path : String) (origin : FileOrigin)
  (specifier : String × Text.Span)

/-- The request for the module of a specifier. -/
def request : ModuleRequest := ⟨specifier.1, path, specifier.2⟩

/-- A module that is given is asked for. -/
theorem connect_of_ok {m : ResolvedModule}
    (h : (l.resolver.ask host (request path specifier)).2 = .ok m) :
    ∃ packages, l.connect host file path origin specifier =
      { ({ l with resolver := (l.resolver.ask host (request path specifier)).1, packages } :
          Loader).ask m.path origin with
        connections := l.connections ++ [(file, specifier.1, m.path)] } := by
  have hanswer : (l.resolver.resolve host specifier.1 path specifier.2).2 = .ok m := h
  unfold connect
  dsimp only
  rw [hanswer]
  dsimp only
  cases m.package with
  | some entry => exact ⟨_, rfl⟩
  | none => exact ⟨_, rfl⟩

/-- A failure is kept. -/
theorem connect_of_error {failure : ResolutionFailure}
    (h : (l.resolver.ask host (request path specifier)).2 = .error failure) :
    l.connect host file path origin specifier =
      { l with
        resolver := (l.resolver.ask host (request path specifier)).1
        unresolved := l.unresolved ++ [(file, failure)] } := by
  have hanswer : (l.resolver.resolve host specifier.1 path specifier.2).2 = .error failure := h
  unfold connect
  dsimp only
  rw [hanswer]
  rfl

end

theorem Follows.withResolver (h : l.Follows t) (q : ModuleRequest) (packages : PackageTable) :
    ({ l with resolver := (l.resolver.ask t.host q).1, packages } : Loader).Follows t := by
  obtain ⟨history, hresolver⟩ := h.resolver
  refine ⟨⟨history ++ [q], ?_⟩, h.asked, h.nodup, h.isFile, h.reached, h.first, h.sequence, h.files⟩
  show (l.resolver.ask t.host q).1 = _
  rw [hresolver, Resolver.fst_ask_after]

/-- What the file imports is asked for. -/
theorem InPhase.grows (h : l.InPhase t) (hgrows : l.Grows l')
    (hnew : ∀ path ∈ l'.asked, path ∈ l.asked ∨ ∃ source ∈ l.asked, t.Imports source path) :
    l'.InPhase t := by
  rcases h with hown | hall
  · refine .inl fun path hpath => ?_
    rcases hnew path hpath with hold | ⟨source, hsource, himports⟩
    · exact hown path hold
    · exact (hown source hsource).tail himports
  · exact .inr fun path hpath => hgrows.asked path (hall path hpath)

theorem Reading.grows {file : SourceFile} (h : l.Reading t file) (hfollows : l'.Follows t)
    (hfiles : l'.files = l.files) (hgrows : l.Grows l')
    (hnew : ∀ path ∈ l'.asked, path ∈ l.asked ∨ ∃ source ∈ l.asked, t.Imports source path) :
    l'.Reading t file := by
  obtain ⟨before, hlast, hhandled⟩ := h.last
  exact ⟨hfollows, h.phase.grows hgrows hnew, before, hfiles.trans hlast, fun other hother =>
    (hhandled other hother).mono hgrows⟩

/-- One specifier of the file that is being read. -/
theorem Reading.connect {file : SourceFile} (h : l.Reading t file) {specifier : String × Text.Span}
    (hspecifier : specifier ∈ moduleSpecifiers file.arena) :
    (l.connect t.host file.id file.path file.origin.passedOn specifier).Reading t file ∧
      l.Grows (l.connect t.host file.id file.path file.origin.passedOn specifier) ∧
      (l.connect t.host file.id file.path file.origin.passedOn specifier).Settles t file.id
        file.path specifier.1 := by
  have hmem := h.mem_files
  obtain ⟨history, hresolver⟩ := h.follows.resolver
  cases hfound : (request file.path specifier).found? t.rules t.host with
  | some m =>
    -- the resolver has asked before, but what it remembers is what the rules find
    have himports : t.Imports file.path m.path := by
      obtain ⟨index, hindex⟩ := mem_files_iff.1 hmem
      have hread := h.follows.files index file hindex
      exact ⟨file.text, hread.text_eq, specifier, hread.arena_eq ▸ hspecifier, m, hfound, rfl⟩
    have hanswer := Resolver.ask_after_of_found? t.host history hfound
    rw [← hresolver] at hanswer
    obtain ⟨packages, hconnect⟩ :=
      connect_of_ok t.host file.id file.path file.origin.passedOn specifier hanswer
    rw [hconnect]
    have hasked := (h.follows.withResolver (request file.path specifier) packages).ask
      (Resolution.isFile_find? hfound)
      ((h.follows.reached _ (h.follows.mem_asked hmem)).imports himports) fun hnew =>
        h.asked himports hnew
    have hgrows := grows_ask
      { l with resolver := (l.resolver.ask t.host (request file.path specifier)).1, packages }
      m.path file.origin.passedOn
    refine ⟨h.grows ?_ (files_ask _ _ _) ?_ fun path hpath => ?_, ?_, ?_⟩
    · exact ⟨hasked.resolver, hasked.asked, hasked.nodup, hasked.isFile, hasked.reached,
        hasked.first, hasked.sequence,
        hasked.files⟩
    · exact ⟨hgrows.asked, fun c hc => List.mem_append_left _ hc, hgrows.unresolved⟩
    · rcases (mem_asked_ask _ _ path).1 hpath with rfl | hold
      · exact .inr ⟨file.path, h.follows.mem_asked hmem, himports⟩
      · exact .inl hold
    · exact ⟨hgrows.asked, fun c hc => List.mem_append_left _ hc, hgrows.unresolved⟩
    · have hfind : Resolution.find? t.rules t.host specifier.1 (Path.parent file.path) = some m :=
        hfound
      rw [Settles, hfind]
      exact ⟨(mem_asked_ask _ _ _).2 (.inl rfl), List.mem_append_right _ List.mem_cons_self⟩
  | none =>
    obtain ⟨failure, hanswer, hnamed⟩ := Resolver.ask_after_of_not_found? t.host history hfound
    rw [← hresolver] at hanswer
    rw [connect_of_error t.host file.id file.path file.origin.passedOn specifier hanswer]
    have hkept := h.follows.withResolver (request file.path specifier) l.packages
    refine ⟨h.grows ?_ rfl ?_ fun path hpath => .inl hpath, ?_, ?_⟩
    · exact ⟨hkept.resolver, hkept.asked, hkept.nodup, hkept.isFile, hkept.reached, hkept.first,
        hkept.sequence, hkept.files⟩
    · exact ⟨fun _ h => h, fun _ h => h, fun u hu => List.mem_append_left _ hu⟩
    · exact ⟨fun _ h => h, fun _ h => h, fun u hu => List.mem_append_left _ hu⟩
    · have hfind : Resolution.find? t.rules t.host specifier.1 (Path.parent file.path) = none :=
        hfound
      rw [Settles, hfind]
      exact ⟨failure, List.mem_append_right _ List.mem_cons_self, hnamed⟩

/-- All specifiers of the file that is being read. -/
theorem Reading.connectAll {file : SourceFile} (h : l.Reading t file)
    (specifiers : List (String × Text.Span))
    (hall : ∀ specifier ∈ specifiers, specifier ∈ moduleSpecifiers file.arena) :
    (specifiers.foldl (Loader.connect t.host file.id file.path file.origin.passedOn) l).Reading t
      file ∧
      l.Grows (specifiers.foldl (Loader.connect t.host file.id file.path file.origin.passedOn) l) ∧
      ∀ specifier ∈ specifiers,
        (specifiers.foldl (Loader.connect t.host file.id file.path file.origin.passedOn) l).Settles
          t file.id file.path
          specifier.1 := by
  induction specifiers generalizing l with
  | nil => exact ⟨h, .refl l, fun _ hspecifier => nomatch hspecifier⟩
  | cons first rest ih =>
    obtain ⟨hreading, hgrows, hsettles⟩ := h.connect (hall first List.mem_cons_self)
    obtain ⟨hreading', hgrows', hsettles'⟩ := ih hreading fun s hs =>
      hall s (List.mem_cons_of_mem _ hs)
    refine ⟨hreading', hgrows.trans hgrows', fun specifier hspecifier => ?_⟩
    rcases List.mem_cons.1 hspecifier with rfl | hrest
    · exact hsettles.mono hgrows'
    · exact hsettles' specifier hrest

theorem files_connect (host : Host) (file : FileId) (path : String) (origin : FileOrigin)
    (l : Loader) (specifier : String × Text.Span) :
    (l.connect host file path origin specifier).files = l.files := by
  unfold Loader.connect
  dsimp only
  split
  · split
    · exact files_ask _ _ _
    · exact files_ask _ _ _
  · rfl

theorem files_connectAll (host : Host) (file : SourceFile) (l : Loader)
    (specifiers : List (String × Text.Span)) :
    (specifiers.foldl (Loader.connect host file.id file.path file.origin.passedOn) l).files =
      l.files := by
  refine List.foldlRecOn (motive := fun l' : Loader => l'.files = l.files) _ _ rfl
    fun l' hl' specifier _ => ?_
  rw [files_connect]
  exact hl'

/-! ## Draining the queue -/

/-- What holds between two files. -/
structure Rests (t : LoadingStart) (l : Loader) : Prop where
  follows : l.Follows t
  phase : l.InPhase t
  handles : ∀ file ∈ l.files, l.Handles t file

/-- The file that is read leaves the queue, and nothing else changes before its specifiers. -/
theorem Rests.push (h : l.Rests t) {path : String} {origin : FileOrigin}
    {queue : List (String × FileOrigin)} (hqueue : l.queue = (path, origin) :: queue)
    {file : SourceFile} (hread : t.Reads l.files.size file) (hpath : file.path = path)
    (horigin : file.origin = originAt path origin) (diagnostics : List Diagnostic) :
    ({ l with queue, files := l.files.push file, diagnostics } : Loader).Reading t file := by
  -- the file goes from the head of the queue to the end of the files, so the order of all is the
  -- same
  have horigins : ({ l with queue, files := l.files.push file, diagnostics } : Loader).origins =
      l.origins := by
    rw [origins, origins, Array.toList_push, List.map_append, List.append_assoc, hqueue,
      List.map_cons]
    show _ ++ ((file.path, file.origin) :: _) = _ ++ ((path, originAt path origin) :: _)
    rw [← horigin, hpath]
    rfl
  obtain ⟨hfollows, hphase, hhandles⟩ := h
  refine ⟨⟨hfollows.resolver, ?_, hfollows.nodup, hfollows.isFile, hfollows.reached, ?_, ?_, ?_⟩,
    hphase, l.files, rfl,
    hhandles⟩
  · rw [horigins]
    exact hfollows.asked
  · rw [horigins]
    exact hfollows.first
  · rw [horigins]
    exact hfollows.sequence
  · intro index other hother
    rw [Array.getElem?_push] at hother
    split at hother
    · next heq =>
      obtain rfl := Option.some.inj hother
      exact heq ▸ hread
    · exact hfollows.files index other hother

/-- The file that is made of a text and its nodes. -/
def nextFile (l : Loader) (path text : String) (origin : FileOrigin) (parsed : ParsedFile) :
    SourceFile where
  id := ⟨l.files.size⟩
  path
  text
  arena := parsed.arena
  root := parsed.root
  origin := originAt path origin
  isModule :=
    match parsed.arena.form? (some parsed.root) with
    | some (.sourceFile _ isModule) => isModule
    | _ => false

/-- A file that can be read is added, and then its specifiers are connected. -/
theorem load_of_text (host : Host) (l : Loader) (queue : List (String × FileOrigin))
    {path text : String} (origin : FileOrigin) (h : host.readFile path = some text) :
    ∃ (file : SourceFile) (diagnostics : List Diagnostic),
      (file.id = ⟨l.files.size⟩ ∧ file.path = path ∧ file.origin = originAt path origin ∧
        file.text = text ∧ file.arena = (parseFile path text).arena) ∧
      ({ l with queue } : Loader).load host path origin =
        (moduleSpecifiers file.arena).foldl
          (Loader.connect host file.id file.path file.origin.passedOn)
          { l with queue, files := l.files.push file, diagnostics } := by
  unfold Loader.load
  rw [h]
  dsimp only
  generalize parseFile path text = parsed
  exact ⟨l.nextFile path text origin parsed, l.diagnostics ++ parsed.diagnostics,
    ⟨rfl, rfl, rfl, rfl, rfl⟩, rfl⟩

/-- A file from the queue is read. -/
theorem Rests.load (hregular : t.host.IsRegular) (h : l.Rests t) {path : String}
    {origin : FileOrigin} {queue : List (String × FileOrigin)}
    (hqueue : l.queue = (path, origin) :: queue) :
    (({ l with queue } : Loader).load t.host path origin).Rests t ∧
      (({ l with queue } : Loader).load t.host path origin).files.size = l.files.size + 1 ∧
      l.Grows (({ l with queue } : Loader).load t.host path origin) := by
  have hasked : path ∈ l.asked := by
    rw [← List.mem_reverse, h.follows.asked]
    refine List.mem_map.2 ⟨(path, originAt path origin), List.mem_append_right _ ?_, rfl⟩
    rw [hqueue]
    exact List.mem_cons_self
  obtain ⟨text, htext⟩ := hregular.exists_text (h.follows.isFile path hasked)
  obtain ⟨file, diagnostics, ⟨hid, hpath, horigin, rfl, harena⟩, hload⟩ :=
    load_of_text t.host l queue origin htext
  have hread : t.Reads l.files.size file := ⟨hid, hpath ▸ htext, hpath ▸ harena⟩
  -- the specifiers of the new file are followed one by one, after it has left the queue
  obtain ⟨hreading, hgrows, hsettles⟩ :=
    (h.push hqueue hread hpath horigin diagnostics).connectAll
      (moduleSpecifiers file.arena) fun _ h => h
  have hfiles :=
    files_connectAll t.host file { l with queue, files := l.files.push file, diagnostics }
    (moduleSpecifiers file.arena)
  rw [← hload] at hreading hgrows hsettles hfiles
  -- the files before were handled already, so only the new one counts
  obtain ⟨before, hlast, hhandled⟩ := hreading.last
  obtain ⟨-, heq⟩ := Array.push_eq_push.1 (hfiles.symm.trans hlast)
  refine ⟨⟨hreading.follows, hreading.phase, fun other hother => ?_⟩, by
    rw [hfiles, Array.size_push],
    hgrows.asked, hgrows.connections, hgrows.unresolved⟩
  rcases Array.mem_push.1 (hfiles ▸ hother) with hother | rfl
  · exact hhandled other (heq ▸ hother)
  · exact hsettles

/-- When the limit allows for all files that are reached, the queue is emptied. -/
theorem Rests.drain (hregular : t.host.IsRegular) {bound : Nat} (hbelow : t.IsBelow bound)
    (limit : Nat) (h : l.Rests t) (hlimit : bound ≤ l.files.size + limit) :
    (l.drain t.host limit).Rests t ∧ (l.drain t.host limit).queue = [] ∧
      l.Grows (l.drain t.host limit) := by
  induction limit generalizing l with
  | zero =>
    obtain ⟨paths, hlength, hpaths⟩ := hbelow
    have hasked : l.asked.length ≤ paths.length :=
      (h.follows.nodup.subperm fun path hpath =>
        hpaths path (h.follows.reached path hpath)).length_le
    have hcount : l.asked.length = l.files.size + l.queue.length := by
      rw [← List.length_reverse, h.follows.asked, List.length_map, origins, List.length_append,
        List.length_map, List.length_map, Array.length_toList]
    refine ⟨h, List.length_eq_zero_iff.1 ?_, .refl l⟩
    show l.queue.length = 0
    omega
  | succ limit ih =>
    unfold Loader.drain
    split
    · next hempty => exact ⟨h, hempty, .refl l⟩
    · next path origin queue hqueue =>
      obtain ⟨hload, hsize, hgrows⟩ := h.load hregular hqueue
      obtain ⟨hrests, hempty, hgrows'⟩ := ih hload (by omega)
      exact ⟨hrests, hempty, hgrows.trans hgrows'⟩

/-! ## The whole run -/

/-- With an empty queue everything that was asked for was read. -/
theorem Rests.exists_file (h : l.Rests t) (hempty : l.queue = []) {path : String}
    (hpath : path ∈ l.asked) :
    ∃ (index : Nat) (file : SourceFile), l.files[index]? = some file ∧ file.path = path := by
  rw [← List.mem_reverse, h.follows.asked, origins, hempty, List.map_nil, List.append_nil,
    List.map_map] at hpath
  obtain ⟨file, hfile, rfl⟩ := List.mem_map.1 hpath
  obtain ⟨index, hindex⟩ := mem_files_iff.1 (Array.mem_toList_iff.1 hfile)
  exact ⟨index, file, hindex, rfl⟩

/-- With an empty queue everything that was asked for has asked for its imports. -/
theorem Rests.mem_asked_of_reaches (h : l.Rests t) (hempty : l.queue = []) {path target : String}
    (hpath : path ∈ l.asked) (hreaches : Relation.ReflTransGen t.Imports path target) :
    target ∈ l.asked := by
  induction hreaches with
  | refl => exact hpath
  | tail _ himports ih =>
    obtain ⟨index, file, hindex, rfl⟩ := h.exists_file hempty ih
    have hhandles := h.handles file (mem_files_iff.2 ⟨index, hindex⟩)
    exact hhandles.mem_asked (h.follows.files index file hindex) himports

/-- What holds before anything is read. -/
theorem rests_ask_entry (hentry : t.host.IsFile t.entry) :
    (({ resolver := { rules := t.rules } } : Loader).ask t.entry .own).Rests t := by
  have hown : t.IsOwn t.entry := .refl
  have hasked : ∀ path ∈ [t.entry], path = t.entry := fun path h => List.mem_singleton.1 h
  refine ⟨⟨⟨[], rfl⟩, rfl, List.nodup_cons.2 ⟨List.not_mem_nil, .nil⟩, ?_, ?_, ⟨_, [], rfl⟩,
    .next .nil (.own hown), ?_⟩, .inl ?_, ?_⟩
  · exact fun path h => hasked path h ▸ hentry
  · exact fun path h => hasked path h ▸ .inl hown
  · intro index file hfile
    cases hfile
  · exact fun path h => hasked path h ▸ hown
  · exact fun file h => absurd h (Array.not_mem_empty file)

/-- What holds while listed files are asked for: the entry reaches nothing new. -/
structure Lists (t : LoadingStart) (l : Loader) : Prop where
  follows : l.Follows t
  own : ∀ path, t.IsOwn path → path ∈ l.asked
  handles : ∀ file ∈ l.files, l.Handles t file

/-- A listed file. -/
theorem Lists.askListed (h : l.Lists t) {path : String}
    (hlisted : t.host.fileExists (Path.normalize path) = true → Path.normalize path ∈ t.listed)
    (hregular : t.host.IsRegular) :
    (l.askListed t.host path).Lists t ∧ l.Grows (l.askListed t.host path) ∧
      (t.host.fileExists (Path.normalize path) = true →
        Path.normalize path ∈ (l.askListed t.host path).asked) := by
  unfold Loader.askListed
  dsimp only
  split
  · next hexists =>
    have hgrows := grows_ask l (Path.normalize path) .ambient
    have hfile : t.host.IsFile (Path.normalize path) := hregular.isFile_normalize hexists
    have hasked : (l.ask (Path.normalize path) .ambient).Follows t :=
      h.follows.ask hfile (.inr ⟨_, hlisted hexists, .refl⟩) fun hnew =>
        .listed (fun hown => hnew (h.own _ hown)) (hlisted hexists)
    refine ⟨⟨hasked, fun path hpath => hgrows.asked path (h.own path hpath), fun file hfile => ?_⟩,
      hgrows, fun _ => ?_⟩
    · exact (h.handles file (files_ask l _ _ ▸ hfile)).mono hgrows
    · exact (mem_asked_ask _ _ _).2 (.inl rfl)
  · next hmissing =>
    refine ⟨⟨?_, h.own, h.handles⟩, ⟨fun _ h => h, fun _ h => h, fun _ h => h⟩,
      fun hexists => absurd hexists hmissing⟩
    exact ⟨h.follows.resolver, h.follows.asked, h.follows.nodup, h.follows.isFile,
      h.follows.reached, h.follows.first,
      h.follows.sequence, h.follows.files⟩

/-- All listed files. -/
theorem Lists.askAll (h : l.Lists t) (hregular : t.host.IsRegular) (paths : List String)
    (hlisted : ∀ path ∈ paths, t.host.fileExists (Path.normalize path) = true →
      Path.normalize path ∈ t.listed) :
    (paths.foldl (Loader.askListed t.host) l).Lists t ∧
      l.Grows (paths.foldl (Loader.askListed t.host) l) ∧
      ∀ path ∈ paths, t.host.fileExists (Path.normalize path) = true →
        Path.normalize path ∈ (paths.foldl (Loader.askListed t.host) l).asked := by
  induction paths generalizing l with
  | nil => exact ⟨h, .refl l, fun _ hpath => nomatch hpath⟩
  | cons first rest ih =>
    obtain ⟨hlists, hgrows, hfirst⟩ := h.askListed (hlisted first List.mem_cons_self) hregular
    obtain ⟨hlists', hgrows', hrest⟩ := ih hlists fun path hpath =>
      hlisted path (List.mem_cons_of_mem _ hpath)
    refine ⟨hlists', hgrows.trans hgrows', fun path hpath hexists => ?_⟩
    rcases List.mem_cons.1 hpath with rfl | hpath
    · exact hgrows'.asked _ (hfirst hexists)
    · exact hrest path hpath hexists

end Loader

/-- What decides which files a project loads. -/
def Project.start (entry : String) (options : ProjectOptions) (host : Host) : LoadingStart where
  host
  rules := ⟨options.resolution, options.allowJs⟩
  entry := Path.normalize entry
  listed := (options.files.map Path.normalize).filter host.fileExists

/-- Everything that is reached is loaded, and nothing else is. -/
structure Loader.Loads (t : LoadingStart) (l : Loader) : Prop where
  rests : l.Rests t
  queue_eq : l.queue = []
  mem_asked_iff : ∀ path, path ∈ l.asked ↔ t.IsReached path

/-- A loader that has read everything has come to an end exactly when loading does. -/
theorem Loader.Loads.hasEnded_iff {t : LoadingStart} {l : Loader} (h : l.Loads t)
    (hlisted : t.host.IsListed) : l.hasEnded t.host = true ↔ t.Ends := by
  obtain ⟨history, hresolver⟩ := h.rests.follows.resolver
  have hrules : l.resolver.rules = t.rules := by rw [hresolver, Resolver.rules_after]
  rw [hasEnded, Array.all_eq_true']
  constructor
  · intro hall path hpath text htext
    obtain ⟨index, file, hindex, rfl⟩ :=
      h.rests.exists_file h.queue_eq ((h.mem_asked_iff path).2 hpath)
    have hread := h.rests.follows.files index file hindex
    obtain rfl := Option.some.inj (htext.symm.trans hread.text_eq)
    have hfile := hall file (mem_files_iff.2 ⟨index, hindex⟩)
    rw [hrules, Bool.and_eq_true, List.all_eq_true, hread.arena_eq] at hfile
    refine ⟨hfile.1, fun specifier hspecifier => ?_⟩
    exact (Resolution.ends_iff hlisted _ _).2 (hfile.2 specifier hspecifier)
  · intro hends file hfile
    obtain ⟨index, hindex⟩ := mem_files_iff.1 hfile
    have hread := h.rests.follows.files index file hindex
    have hreached := (h.mem_asked_iff file.path).1 (h.rests.follows.mem_asked hfile)
    obtain ⟨hparsed, hspecifiers⟩ := hends file.path hreached file.text hread.text_eq
    rw [hrules, Bool.and_eq_true, List.all_eq_true, hread.arena_eq]
    refine ⟨hparsed, fun specifier hspecifier => ?_⟩
    exact (Resolution.ends_iff hlisted _ _).1 (hspecifiers specifier hspecifier)

theorem Loader.run_loads {entry : String} {options : ProjectOptions} {host : Host}
    (hregular : host.IsRegular) (hentry : host.IsFile (Path.normalize entry))
    (hbelow : (Project.start entry options host).IsBelow maxFiles) :
    (run host options (Path.normalize entry)).Loads (Project.start entry options host) := by
  let t := Project.start entry options host
  let start : Loader := { resolver := { rules := t.rules } }
  let reached := (start.ask t.entry .own).drain host maxFiles
  let listed := options.files.foldl (Loader.askListed host) reached
  -- first the queue is emptied from the entry on, which asks for all files of its own
  obtain ⟨hreached, hempty, hgrows⟩ : reached.Rests t ∧ reached.queue = [] ∧
      (start.ask t.entry .own).Grows reached :=
    (rests_ask_entry hentry).drain hregular hbelow maxFiles (Nat.le_add_left _ _)
  have hown : ∀ path, t.IsOwn path → path ∈ reached.asked := fun path hpath =>
    hreached.mem_asked_of_reaches hempty (hgrows.asked _ ((mem_asked_ask _ _ _).2 (.inl rfl))) hpath
  obtain ⟨hlists, -, hasked⟩ : listed.Lists t ∧ reached.Grows listed ∧
      ∀ path ∈ options.files, host.fileExists (Path.normalize path) = true →
        Path.normalize path ∈ listed.asked :=
    Lists.askAll ⟨hreached.follows, hown, hreached.handles⟩ hregular options.files
        fun path hpath hexists =>
      List.mem_filter.2 ⟨List.mem_map_of_mem hpath, hexists⟩
  have hall : ∀ path, t.IsOwn path ∨ path ∈ t.listed → path ∈ listed.asked := by
    rintro path (hpath | hpath)
    · exact hlists.own path hpath
    · obtain ⟨hmem, hexists⟩ := List.mem_filter.1 hpath
      obtain ⟨written, hwritten, rfl⟩ := List.mem_map.1 hmem
      exact hasked written hwritten hexists
  -- the listed files have been asked for too, and the queue is emptied once more
  have hrests : listed.Rests t := ⟨hlists.follows, .inr hall, hlists.handles⟩
  obtain ⟨hloaded, hdone, hgrows'⟩ :=
    hrests.drain hregular hbelow (maxFiles - listed.files.size) (by omega)
  refine ⟨hloaded, hdone, fun path => ⟨hloaded.follows.reached path, ?_⟩⟩
  rintro (hpath | ⟨root, hroot, hpath⟩)
  · exact hgrows'.asked path (hall path (.inl hpath))
  · exact hloaded.mem_asked_of_reaches hdone (hgrows'.asked root (hall root (.inr hroot))) hpath

end DeclBundle
