import DeclBundle.Proofs.ConnectedFiles
import DeclBundle.Proofs.ParsingFiles
import DeclBundle.Proofs.ReachedFiles

/-!
# The files of a loaded project

A project reads its files with the parser, and afterwards only notes about them change: their names
are declared, and their specifiers and identifiers are connected. So the nodes of every file of a
loaded project are those that the parser made of a text (`Project.exists_text_of_load`), and form
trees (`Project.isTree_of_load`).
-/

set_option autoImplicit false

namespace DeclBundle

-- files are compared without reading them
attribute [local irreducible] parseFile

/-- The nodes of all files were made by the parser. -/
def AreParsed (files : Array SourceFile) : Prop :=
  ∀ file ∈ files, ∃ path text, file.arena = (parseFile path text).arena

theorem areParsed_empty : AreParsed #[] := fun file h => absurd h (Array.not_mem_empty file)

theorem AreParsed.push {files : Array SourceFile} (h : AreParsed files) {file : SourceFile}
    {path text : String} (hfile : file.arena = (parseFile path text).arena) :
    AreParsed (files.push file) := by
  intro other hother
  rcases Array.mem_push.1 hother with hother | rfl
  · exact h other hother
  · exact ⟨path, text, hfile⟩

/-- Notes about files may change. -/
theorem AreParsed.of_asRead {files files' : Array SourceFile} (h : AreParsed files)
    (hread : files'.toList.map SourceFile.asRead = files.toList.map SourceFile.asRead) :
    AreParsed files' := by
  intro file hfile
  have hmem : file.asRead ∈ files.toList.map SourceFile.asRead :=
    hread ▸ List.mem_map_of_mem (Array.mem_toList_iff.2 hfile)
  obtain ⟨old, hold, heq⟩ := List.mem_map.1 hmem
  have harena : old.asRead.arena = file.asRead.arena := congrArg SourceFile.arena heq
  obtain ⟨path, text, hparsed⟩ := h old (Array.mem_toList_iff.1 hold)
  exact ⟨path, text, harena.symm.trans hparsed⟩

/-! ## Reading files -/

namespace Loader

variable (host : Host)

theorem areParsed_load {l : Loader} (h : AreParsed l.files) (path : String) (origin : FileOrigin) :
    AreParsed (l.load host path origin).files := by
  unfold load
  split
  · exact h
  · next text _ =>
    dsimp only
    refine List.foldlRecOn (motive := fun l : Loader => AreParsed l.files) _ _ ?_ ?_
    · exact h.push rfl
    · intro l hl specifier _
      rw [files_connect]
      exact hl

theorem areParsed_drain (limit : Nat) {l : Loader} (h : AreParsed l.files) :
    AreParsed (l.drain host limit).files := by
  induction limit generalizing l with
  | zero => exact h
  | succ limit ih =>
    unfold drain
    split
    · exact h
    · next path origin queue _ =>
      have hrest : AreParsed ({ l with queue } : Loader).files := h
      exact ih (areParsed_load host hrest path origin)

theorem areParsed_run (options : ProjectOptions) (entry : String) :
    AreParsed (run host options entry).files := by
  refine areParsed_drain host _
    (List.foldlRecOn (motive := fun l : Loader => AreParsed l.files) _ _ ?_ ?_)
  · refine areParsed_drain host _ ?_
    rw [files_ask]
    exact areParsed_empty
  · intro l hl path _
    unfold askListed
    dsimp only
    split
    · rw [files_ask]
      exact hl
    · exact hl

end Loader

namespace Project

variable {entry : String} {options : ProjectOptions} {host : Host} {p : Project}
  {file : FileId} {a : Arena}

/-- The nodes of every file of a loaded project are those of a text. -/
theorem exists_text_of_load (hload : load entry options host = .ok p)
    (harena : p.arena? file = some a) :
    ∃ path text, a = (parseFile path text).arena := by
  obtain ⟨-, -, -, hfiles, -⟩ := of_load hload
  have hparsed : AreParsed p.files := by
    rw [hfiles]
    exact (Loader.areParsed_run host options (Path.normalize entry)).of_asRead
      (Assembly.asRead_ofLoader _)
  obtain ⟨found, hfound, rfl⟩ := Option.map_eq_some_iff.1 harena
  exact hparsed found (Array.mem_iff_getElem?.2 ⟨_, hfound⟩)

/-- The nodes of every file of a loaded project form trees. -/
theorem isTree_of_load (hload : load entry options host = .ok p) (harena : p.arena? file = some a) :
    a.IsTree := by
  obtain ⟨path, text, rfl⟩ := exists_text_of_load hload harena
  exact isTree_parseFile path text

end Project

end DeclBundle
