import DeclBundle.Proofs.LoadedFiles
import DeclBundle.Proofs.OpenScopes
import DeclBundle.Proofs.PlacedSymbols

/-!
# Symbols of a loaded project

In a loaded project every symbol of a node lies where the node lies (`Project.placed_of_load`), and
every symbol is younger than what is around it (`Project.ascends_of_load`). Declaring makes it so
file by file; connecting files changes neither symbols nor nodes, and linking only adds parameters,
which lie nowhere.
-/

set_option autoImplicit false

namespace DeclBundle

/-! ## Linking -/

namespace Links

variable (f : LinkingFile) (base : SymbolArena)

/-- Symbols lie where their nodes lie and are younger than what is around them, and the ones of
`base` are at home. -/
structure Stands (l : Links) : Prop where
  placed : Placed f.arena l.declared l.symbols
  ascends : l.symbols.Ascends
  keeps : base.KeepsHomes l.symbols

/-- A parameter lies nowhere, and nothing lies in it. -/
theorem Stands.declareIn {l : Links} (h : Stands f base l) (level : Nat) (flag : SymbolFlag)
    {declaration : Slot} (hparameter : ∀ n, declaration = some n → f.arena.IsParameter n) :
    Stands f base (l.declareIn f level flag declaration) := by
  cases hname : f.arena.named? declaration with
  | none => rwa [declareIn_of_none f l level flag hname]
  | some parameter =>
    obtain ⟨name, node⟩ := parameter
    obtain rfl := f.arena.eq_of_named? hname
    have hnode := hparameter node rfl
    have hnew := (l.symbols.isWith_alloc (.single flag) name f.id).modify fun s =>
      { s with declarations := [⟨f.id, some node⟩] }
    have hother : ∀ {n : NodeId}, n ≠ node →
        (l.declared.insert node l.nextId)[n]? = l.declared[n]? := fun {n} hn => by
      rw [Std.TreeMap.getElem?_insert,
        if_neg fun heq => hn (Std.LawfulEqOrd.eq_of_compare heq).symm]
    rw [declareIn_of_some f l level flag hname]
    refine ⟨fun n id hid => ?_, hnew.ascends h.ascends (by simp), h.keeps.trans hnew.keepsHomes⟩
    -- the parameter itself is placed by its list, and every other node as it was
    by_cases hn : n = node
    · subst hn
      obtain rfl := Option.some.inj (Std.TreeMap.getElem?_insert_self.symm.trans hid)
      obtain ⟨m, hplaces⟩ := hnode
      exact ⟨none, _, .parameter hplaces, hnew.home?_self, fun q hq => by cases hq⟩
    · obtain ⟨around, home, hinnermost, hhome, hfits⟩ := h.placed n id ((hother hn).symm.trans hid)
      refine ⟨around, home, hinnermost, hnew.keepsHomes id home hhome,
        hfits.mono hnew.keepsHomes fun m q hm hq => ?_⟩
      have hne : m ≠ node := by
        rintro rfl
        exact hm hnode
      exact (hother hne).trans hq

theorem keeps_stands :
    KeepsAmong f (fun slot => ∀ n, slot = some n → f.arena.IsParameter n) (Stands f base) where
  link := keeps_of_resolved f fun _ _ h => ⟨h.placed, h.ascends, h.keeps⟩
  declare _ level flag _ hparameter h := h.declareIn f base level flag hparameter
  regions _ _ _ h := ⟨h.placed, h.ascends, h.keeps⟩

theorem stands_ofFile {declared : Std.TreeMap NodeId SymbolId}
    (hplaced : Placed f.arena declared base) (hascends : base.Ascends) (root : NodeId)
    (fileSymbol : Option SymbolId) : Stands f base (ofFile f base declared root fileSymbol) := by
  refine (keeps_stands f base).visitTo (fun node form hform slot hslot n hn => ?_)
    ⟨hplaced, hascends, .refl base⟩ _ _
  obtain ⟨m, rfl⟩ := Arena.exists_of_form? hform
  subst hn
  have hparameter := Form.mem_parameters_of_declared hslot
  exact ⟨m, form, hform, Form.mem_children_of_parameters hparameter,
    Arena.placement_of_mem_parameters hparameter⟩

end Links

/-! ## Files -/

namespace Assembly

/-- Symbols lie where their nodes lie, and are younger than what is around them. -/
structure Stands (s : Assembly) : Prop where
  placed : ∀ file ∈ s.files, Placed file.arena file.declared s.tables.symbols
  ascends : s.tables.symbols.Ascends

variable {s : Assembly}

theorem Stands.of_keeps (h : s.Stands) {symbols : SymbolArena}
    (hkeeps : s.tables.symbols.KeepsHomes symbols) {file : SourceFile} (hfile : file ∈ s.files) :
    Placed file.arena file.declared symbols := by
  intro n id hid
  obtain ⟨around, home, hinnermost, hhome, hfits⟩ := h.placed file hfile n id hid
  exact ⟨around, home, hinnermost, hkeeps id home hhome, hfits.mono hkeeps fun _ _ _ hq => hq⟩

theorem Stands.declareFile (h : s.Stands) (hhomed : s.tables.Homed) {file : SourceFile}
    (htree : file.arena.IsTree) :
    (s.declareFile file).Stands ∧ (s.declareFile file).tables.Homed := by
  have hsettles :=
    Declarations.settles_declareFile (f := ⟨file.id, file.path, file.arena⟩) htree hhomed file.root
  refine ⟨⟨fun other hother => ?_, hsettles.homed.ascends⟩, hsettles.homed⟩
  rcases Array.mem_push.1 hother with hother | rfl
  · exact h.of_keeps hsettles.keeps hother
  · exact hsettles.placed

theorem Stands.setModule (h : s.Stands) (file : FileId) (specifier : String)
    (target : ModuleTarget) :
    (s.setModule file specifier target).Stands := by
  refine ⟨fun other hother => ?_, h.ascends⟩
  obtain ⟨i, hi⟩ := Array.mem_iff_getElem?.1 hother
  rw [files_setModule, Array.getElem?_modify] at hi
  split at hi
  · obtain ⟨old, hold, rfl⟩ := Option.map_eq_some_iff.1 hi
    exact h.placed old (Array.mem_iff_getElem?.2 ⟨i, hold⟩)
  · exact h.placed other (Array.mem_iff_getElem?.2 ⟨i, hi⟩)

theorem Stands.connectFile (h : s.Stands) (connection : FileId × String × String) :
    (s.connectFile connection).Stands := by
  unfold Assembly.connectFile
  dsimp only
  split
  · exact h.setModule _ _ _
  · exact h

theorem Stands.connectAmbient (h : s.Stands) (unresolved : FileId × ResolutionFailure) :
    (s.connectAmbient unresolved).Stands := by
  unfold Assembly.connectAmbient
  dsimp only
  split
  · have hset := h.setModule unresolved.1 unresolved.2.specifier (.ambient ‹_›)
    exact ⟨hset.placed, hset.ascends⟩
  · exact ⟨h.placed, h.ascends⟩

theorem Stands.linkFile (h : s.Stands) (index : Nat) : (s.linkFile index).Stands := by
  unfold Assembly.linkFile
  split
  · exact h
  · next file hfile =>
    have hlinks := Links.stands_ofFile ⟨file.id, file.arena, s.tables.globals⟩ s.tables.symbols
      (h.placed file (Array.mem_iff_getElem?.2 ⟨index, hfile⟩)) h.ascends file.root file.symbol
    refine ⟨fun other hother => ?_, hlinks.ascends⟩
    obtain ⟨i, hi⟩ := Array.mem_iff_getElem?.1 hother
    dsimp only at hi
    rw [Array.getElem?_modify] at hi
    split at hi
    · next heq =>
      subst heq
      rw [hfile, Option.map_some] at hi
      obtain rfl := Option.some.inj hi
      exact hlinks.placed
    · exact h.of_keeps hlinks.keeps (Array.mem_iff_getElem?.2 ⟨i, hi⟩)

theorem stands_ofLoader {l : Loader} (htrees : ∀ file ∈ l.files, file.arena.IsTree) :
    (ofLoader l).Stands := by
  have hempty : Stands { packages := l.packages, diagnostics := l.diagnostics } :=
    ⟨fun file hfile => absurd hfile (Array.not_mem_empty file), SharedTables.homed_empty.ascends⟩
  have hdeclared : (ofFiles l).Stands ∧ (ofFiles l).tables.Homed :=
    List.foldlRecOn (motive := fun s : Assembly => s.Stands ∧ s.tables.Homed) _ _
      ⟨hempty, SharedTables.homed_empty⟩
      fun s hs file hfile => hs.1.declareFile hs.2 (htrees file (Array.mem_toList_iff.1 hfile))
  have hfiles : (withFiles l).Stands :=
    List.foldlRecOn (motive := Stands) _ _ hdeclared.1 fun s hs connection _ =>
      hs.connectFile connection
  have hmodules : (withModules l).Stands :=
    List.foldlRecOn (motive := Stands) _ _ hfiles fun s hs unresolved _ =>
      hs.connectAmbient unresolved
  rw [ofLoader_eq]
  exact List.foldlRecOn (motive := Stands) _ _ hmodules fun s hs index _ => hs.linkFile index

end Assembly

/-! ## Projects -/

namespace Project

variable {entry : String} {options : ProjectOptions} {host : Host} {p : Project}

theorem stands_assembly (entry : String) (options : ProjectOptions) (host : Host) :
    (assembly entry options host).Stands := by
  refine Assembly.stands_ofLoader fun file hfile => ?_
  obtain ⟨path, text, hparsed⟩ :=
    Loader.areParsed_run host options (Path.normalize entry) file hfile
  rw [hparsed]
  exact isTree_parseFile path text

/-- Every symbol of a loaded project is younger than what is around it. -/
theorem ascends_of_load (hload : load entry options host = .ok p) : p.tables.symbols.Ascends := by
  obtain ⟨-, -, -, -, htables, -⟩ := of_load hload
  rw [htables]
  exact (stands_assembly entry options host).ascends

/-- The symbols of the nodes of a loaded project lie where the nodes lie. -/
theorem placed_of_load (hload : load entry options host = .ok p) {file : SourceFile}
    (hfile : file ∈ p.files) :
    Placed file.arena file.declared p.tables.symbols := by
  obtain ⟨-, -, -, hfiles, htables, -⟩ := of_load hload
  rw [hfiles] at hfile
  rw [htables]
  exact (stands_assembly entry options host).placed file hfile

end Project

end DeclBundle
