import DeclBundle.Project.Loading
import Mathlib.Data.List.Basic

/-!
# Connecting files

After all files are read only notes about them change: what they declare, what their specifiers mean
and what their identifiers refer to (`Assembly.asRead_ofLoader`). A specifier that names a file
means that file, and one that names none means a module with a quoted name or is reported
(`Assembly.knows_of_connection`, `Assembly.knows_of_unresolved`).
-/

set_option autoImplicit false

namespace DeclBundle

/-- What every later step keeps, and one step on the way reaches. -/
theorem foldl_reaches {σ α : Type} {step : σ → α → σ} {P Q : σ → Prop} {x : α} {xs : List α}
    (hx : x ∈ xs) (hP : ∀ s y, P s → P (step s y)) (hreach : ∀ s, P s → Q (step s x))
    (hQ : ∀ s y, Q s → Q (step s y)) {s : σ} (hs : P s) :
    Q (xs.foldl step s) := by
  obtain ⟨front, back, rfl⟩ := List.append_of_mem hx
  rw [List.foldl_append, List.foldl_cons]
  have hfront : P (front.foldl step s) :=
    List.foldlRecOn (motive := P) front step hs fun s hs y _ => hP s y hs
  exact List.foldlRecOn (motive := Q) back step (hreach _ hfront) fun s hs y _ => hQ s y hs

/-- The file without the notes that are made after reading it. -/
def SourceFile.asRead (file : SourceFile) : SourceFile :=
  { file with symbol := none, declared := {}, resolved := {}, modules := [] }

namespace Assembly

/-- The files as they were read. -/
def asRead (s : Assembly) : List SourceFile := s.files.toList.map SourceFile.asRead

theorem getElem?_asRead (s : Assembly) (index : Nat) :
    s.asRead[index]? = (s.files[index]?).map SourceFile.asRead := by
  rw [asRead, List.getElem?_map, Array.getElem?_toList]

/-! ## Files as they were read -/

theorem asRead_declareFile (s : Assembly) (file : SourceFile) :
    (s.declareFile file).asRead = s.asRead ++ [file.asRead] := by
  rw [asRead, declareFile, Array.toList_push, List.map_append]
  rfl

theorem asRead_declareAll (s : Assembly) (files : List SourceFile) :
    (files.foldl declareFile s).asRead = s.asRead ++ files.map SourceFile.asRead := by
  induction files generalizing s with
  | nil => exact (List.append_nil _).symm
  | cons file files ih => rw [List.foldl_cons, ih, asRead_declareFile, List.append_assoc]; rfl

/-- New notes about a file. -/
theorem asRead_modify (s : Assembly) (index : Nat) {f : SourceFile → SourceFile}
    (hf : ∀ file, (f file).asRead = file.asRead) :
    (s.files.modify index f).toList.map SourceFile.asRead = s.asRead := by
  refine List.ext_getElem? fun i => ?_
  rw [getElem?_asRead, List.getElem?_map, Array.getElem?_toList, Array.getElem?_modify]
  split
  · rw [Option.map_map]
    exact congrArg (Option.map · _) (funext hf)
  · rfl

theorem asRead_setModule (s : Assembly) (file : FileId) (specifier : String)
    (target : ModuleTarget) :
    (s.setModule file specifier target).asRead = s.asRead := asRead_modify s file.index fun _ => rfl

theorem asRead_connectFile (s : Assembly) (connection : FileId × String × String) :
    (s.connectFile connection).asRead = s.asRead := by
  unfold connectFile
  dsimp only
  split
  · exact asRead_setModule s _ _ _
  · rfl

theorem asRead_connectAmbient (s : Assembly) (unresolved : FileId × ResolutionFailure) :
    (s.connectAmbient unresolved).asRead = s.asRead := by
  unfold connectAmbient
  dsimp only
  split
  · exact asRead_setModule s _ _ _
  · rfl

theorem asRead_linkFile (s : Assembly) (index : Nat) : (s.linkFile index).asRead = s.asRead := by
  unfold linkFile
  split
  · rfl
  · exact asRead_modify s index fun _ => rfl

/-! ## The steps of an assembly -/

/-- The files of a loader with what they declare. -/
def ofFiles (l : Loader) : Assembly :=
  l.files.toList.foldl declareFile { packages := l.packages, diagnostics := l.diagnostics }

/-- The files with those specifiers connected that name files. -/
def withFiles (l : Loader) : Assembly := l.connections.foldl connectFile (ofFiles l)

/-- The files with all specifiers connected. -/
def withModules (l : Loader) : Assembly := l.unresolved.foldl connectAmbient (withFiles l)

theorem ofLoader_eq (l : Loader) :
    ofLoader l = (List.range (withModules l).files.size).foldl linkFile (withModules l) := by
  have hfiles : ofFiles l =
      l.files.foldl declareFile { packages := l.packages, diagnostics := l.diagnostics } :=
    Array.foldl_toList _
  rw [withModules, withFiles, hfiles]
  rfl

theorem asRead_ofFiles (l : Loader) : (ofFiles l).asRead = l.files.toList.map SourceFile.asRead :=
  asRead_declareAll _ _

theorem asRead_withFiles (l : Loader) :
    (withFiles l).asRead = l.files.toList.map SourceFile.asRead :=
  List.foldlRecOn (motive := fun s : Assembly => s.asRead = _) _ _
      (asRead_ofFiles l) fun s hs c _ =>
    (asRead_connectFile s c).trans hs

theorem asRead_withModules (l : Loader) :
    (withModules l).asRead = l.files.toList.map SourceFile.asRead :=
  List.foldlRecOn (motive := fun s : Assembly => s.asRead = _) _ _
      (asRead_withFiles l) fun s hs u _ =>
    (asRead_connectAmbient s u).trans hs

/-- Only notes about files change. -/
theorem asRead_ofLoader (l : Loader) :
    (ofLoader l).asRead = l.files.toList.map SourceFile.asRead := by
  rw [ofLoader_eq]
  exact List.foldlRecOn (motive := fun s : Assembly => s.asRead = _) _ _
      (asRead_withModules l) fun s hs index _ =>
    (asRead_linkFile s index).trans hs

end Assembly

/-! ## Specifiers -/

namespace SourceFile

/-- It is known what a specifier in the file means. -/
def Knows (file : SourceFile) (specifier : String) : Prop :=
  ∃ target, (specifier, target) ∈ file.modules

/-- Sets what a specifier means. -/
def withModule (file : SourceFile) (specifier : String) (target : ModuleTarget) : SourceFile :=
  { file with modules := file.modules.filter (·.1 != specifier) ++ [(specifier, target)] }

theorem knows_withModule (file : SourceFile) (specifier : String) (target : ModuleTarget) :
    (file.withModule specifier target).Knows specifier :=
  ⟨target, List.mem_append_right _ List.mem_cons_self⟩

theorem Knows.withModule {file : SourceFile} {specifier : String} (h : file.Knows specifier)
    (other : String) (target : ModuleTarget) : (file.withModule other target).Knows specifier := by
  by_cases heq : specifier = other
  · exact heq ▸ knows_withModule file _ target
  · obtain ⟨known, hknown⟩ := h
    exact ⟨known, List.mem_append_left _ (List.mem_filter.2 ⟨hknown, by simpa using heq⟩)⟩

end SourceFile

namespace Assembly

/-- It is known what a specifier in a file means. -/
def Knows (s : Assembly) (id : FileId) (specifier : String) : Prop :=
  ∃ file, s.files[id.index]? = some file ∧ file.Knows specifier

/-- New notes about a file keep what is known. -/
theorem Knows.modify {s s' : Assembly} {id : FileId} {specifier : String} (h : s.Knows id specifier)
    {index : Nat} {f : SourceFile → SourceFile}
    (hf : ∀ file, file.Knows specifier → (f file).Knows specifier)
    (hs : s'.files = s.files.modify index f) : s'.Knows id specifier := by
  obtain ⟨file, hfile, hknows⟩ := h
  by_cases hid : index = id.index
  · exact ⟨f file, by rw [hs, Array.getElem?_modify, if_pos hid, hfile]; rfl, hf file hknows⟩
  · exact ⟨file, by rw [hs, Array.getElem?_modify, if_neg hid, hfile], hknows⟩

theorem files_setModule (s : Assembly) (file : FileId) (specifier : String)
    (target : ModuleTarget) :
    (s.setModule file specifier target).files =
      s.files.modify file.index (·.withModule specifier target) := rfl

theorem knows_setModule {s : Assembly} {id : FileId} {file : SourceFile}
    (h : s.files[id.index]? = some file) (specifier : String) (target : ModuleTarget) :
    (s.setModule id specifier target).Knows id specifier := by
  refine ⟨file.withModule specifier target, ?_, file.knows_withModule specifier target⟩
  rw [files_setModule, Array.getElem?_modify, if_pos rfl, h]
  rfl

theorem Knows.setModule {s : Assembly} {id : FileId} {specifier : String} (h : s.Knows id specifier)
    (other : FileId) (otherSpecifier : String) (target : ModuleTarget) :
    (s.setModule other otherSpecifier target).Knows id specifier :=
  h.modify (fun _ hfile => hfile.withModule otherSpecifier target)
    (files_setModule s other otherSpecifier target)

theorem Knows.connectFile {s : Assembly} {id : FileId} {specifier : String}
    (h : s.Knows id specifier) (connection : FileId × String × String) :
    (s.connectFile connection).Knows id specifier := by
  unfold Assembly.connectFile
  dsimp only
  split
  · exact h.setModule _ _ _
  · exact h

theorem Knows.connectAmbient {s : Assembly} {id : FileId} {specifier : String}
    (h : s.Knows id specifier) (unresolved : FileId × ResolutionFailure) :
    (s.connectAmbient unresolved).Knows id specifier := by
  unfold Assembly.connectAmbient
  dsimp only
  split
  · exact h.setModule _ _ _
  · exact h

theorem Knows.linkFile {s : Assembly} {id : FileId} {specifier : String} (h : s.Knows id specifier)
    (index : Nat) :
    (s.linkFile index).Knows id specifier := by
  unfold Assembly.linkFile
  split
  · exact h
  · next file _ =>
    let links := Links.ofFile ⟨file.id, file.arena, s.tables.globals⟩ s.tables.symbols file.declared
      file.root file.symbol
    let link (f : SourceFile) : SourceFile :=
      { f with declared := links.declared, resolved := links.resolved }
    exact h.modify (f := link) (fun _ hfile => hfile) rfl

theorem Knows.ofLoader {l : Loader} {id : FileId} {specifier : String}
    (h : (withModules l).Knows id specifier) :
    (ofLoader l).Knows id specifier := by
  rw [ofLoader_eq]
  exact List.foldlRecOn (motive := fun s : Assembly => s.Knows id specifier) _ _ h
    fun s hs index _ => hs.linkFile index

/-- A file that was read is there at every moment. -/
theorem exists_file {s : Assembly} {l : Loader}
    (hs : s.asRead = l.files.toList.map SourceFile.asRead) {index : Nat} {file : SourceFile}
    (hfile : l.files[index]? = some file) :
    ∃ found, s.files[index]? = some found ∧ found.asRead = file.asRead := by
  have hread := getElem?_asRead s index
  rw [hs, List.getElem?_map, Array.getElem?_toList, hfile] at hread
  exact Option.map_eq_some_iff.1 hread.symm

/-- Every file was read. -/
theorem exists_read {s : Assembly} {l : Loader}
    (hs : s.asRead = l.files.toList.map SourceFile.asRead) {index : Nat} {file : SourceFile}
    (hfile : s.files[index]? = some file) :
    ∃ read, l.files[index]? = some read ∧ read.asRead = file.asRead := by
  have hread := getElem?_asRead s index
  rw [hs, List.getElem?_map, Array.getElem?_toList, hfile] at hread
  exact Option.map_eq_some_iff.1 hread

variable {l : Loader} {index : Nat} {file : SourceFile}

/-- A specifier that names a file is known. -/
theorem knows_of_connection (hfile : l.files[index]? = some file) {specifier : String}
    {target : SourceFile} (htarget : target ∈ l.files)
    (hconnected : (⟨index⟩, specifier, target.path) ∈ l.connections) :
    (ofLoader l).Knows ⟨index⟩ specifier := by
  have hknown : (withFiles l).Knows ⟨index⟩ specifier := by
    refine foldl_reaches (P := fun s : Assembly => s.asRead = l.files.toList.map SourceFile.asRead)
      (Q := fun s : Assembly => s.Knows ⟨index⟩ specifier) hconnected
        (fun s c hs => (asRead_connectFile s c).trans hs) (fun s hs => ?_)
        (fun s c hs => hs.connectFile c) (asRead_ofFiles l)
    obtain ⟨found, hfound, -⟩ := exists_file hs hfile
    obtain ⟨place, hplace⟩ := Array.mem_iff_getElem?.1 htarget
    obtain ⟨reached, hreached, hread⟩ := exists_file hs hplace
    have hpath : reached.asRead.path = target.asRead.path := congrArg SourceFile.path hread
    unfold Assembly.connectFile
    dsimp only
    split
    · exact knows_setModule hfound _ _
    · next hnone =>
      have hother :=
        Array.find?_eq_none.1 hnone reached (Array.mem_iff_getElem?.2 ⟨place, hreached⟩)
      exact absurd (beq_iff_eq.2 hpath) hother
  exact Knows.ofLoader
    (List.foldlRecOn (motive := fun s : Assembly => s.Knows ⟨index⟩ specifier) _ _ hknown
    fun s hs u _ => hs.connectAmbient u)

theorem mem_diagnostics_connectAmbient {s : Assembly} {d : Diagnostic} (h : d ∈ s.diagnostics)
    (unresolved : FileId × ResolutionFailure) : d ∈ (s.connectAmbient unresolved).diagnostics := by
  unfold Assembly.connectAmbient
  dsimp only
  split
  · exact h
  · exact List.mem_append_left _ h

theorem diagnostics_linkFile (s : Assembly) (index : Nat) :
    (s.linkFile index).diagnostics = s.diagnostics := by
  unfold Assembly.linkFile
  split
  · rfl
  · rfl

theorem diagnostics_ofLoader (l : Loader) :
    (ofLoader l).diagnostics = (withModules l).diagnostics := by
  rw [ofLoader_eq]
  exact List.foldlRecOn (motive := fun s : Assembly => s.diagnostics = _) _ _ rfl
      fun s hs index _ =>
    (diagnostics_linkFile s index).trans hs

/-- A specifier that names no file is known or reported. -/
theorem knows_of_unresolved (hfile : l.files[index]? = some file) {failure : ResolutionFailure}
    (hunresolved : (⟨index⟩, failure) ∈ l.unresolved) :
    (ofLoader l).Knows ⟨index⟩ failure.specifier ∨
      failure.diagnostic ∈ (ofLoader l).diagnostics := by
  have hsettled : (withModules l).Knows ⟨index⟩ failure.specifier ∨
      failure.diagnostic ∈ (withModules l).diagnostics := by
    refine foldl_reaches (P := fun s : Assembly => s.asRead = l.files.toList.map SourceFile.asRead)
      (Q := fun s : Assembly => s.Knows ⟨index⟩ failure.specifier ∨
        failure.diagnostic ∈ s.diagnostics) hunresolved
      (fun s u hs => (asRead_connectAmbient s u).trans hs) (fun s hs => ?_) (fun s u hs => ?_)
        (asRead_withFiles l)
    · obtain ⟨found, hfound, -⟩ := exists_file hs hfile
      unfold Assembly.connectAmbient
      dsimp only
      split
      · exact .inl (knows_setModule hfound _ _)
      · exact .inr (List.mem_append_right _ List.mem_cons_self)
    · exact hs.imp (fun h => h.connectAmbient u) fun h => mem_diagnostics_connectAmbient h u
  exact hsettled.imp Knows.ofLoader fun h => diagnostics_ofLoader l ▸ h

end Assembly

/-! ## Loaded projects -/

namespace Project

variable {entry : String} {options : ProjectOptions} {host : Host} {p : Project}

/-- The files of a project with all notes. -/
def assembly (entry : String) (options : ProjectOptions) (host : Host) : Assembly :=
  .ofLoader (Loader.run host options (Path.normalize entry))

/-- What a loaded project is made of. -/
theorem of_load (hload : Project.load entry options host = .ok p) :
    ∃ file, (assembly entry options host).files.find? (·.path == Path.normalize entry) = some file ∧
      p.entry = file.id ∧
      p.files = (assembly entry options host).files ∧
        p.tables = (assembly entry options host).tables ∧
      ∃ missing, p.diagnostics = (assembly entry options host).diagnostics ++ missing := by
  unfold Project.load at hload
  dsimp only at hload
  split at hload
  · cases hload
  · split at hload
    · cases hload
    · next file hfile =>
      obtain rfl := Except.ok.inj hload
      exact ⟨file, hfile, rfl, rfl, rfl, _, rfl⟩

/-- There is a project when the entry exists and is among the files. -/
theorem exists_load {file : SourceFile} (hexists : host.fileExists (Path.normalize entry) = true)
    (hfile : (assembly entry options host).files.find? (·.path == Path.normalize entry) =
      some file) :
    ∃ p, Project.load entry options host = .ok p := by
  have hfile : (Assembly.ofLoader (Loader.run host options (Path.normalize entry))).files.find?
      (·.path == Path.normalize entry) = some file := hfile
  unfold Project.load
  dsimp only
  rw [if_neg (by simp [hexists]), hfile]
  exact ⟨_, rfl⟩

end Project

end DeclBundle
