import DeclBundle.Proofs.ConnectedFiles
import DeclBundle.Proofs.DeclaringSteps

/-!
# Tables hold symbols that exist

Symbols are only added. Every symbol that a table gives for a name, that a node declares or that
belongs to a file is in the arena (`Declarations.closed_declareFile`,
`Assembly.closed_withModules`), so nothing that is added later gets a name in a table that is there
already.
-/

set_option autoImplicit false

namespace DeclBundle

/-! ## Arenas of symbols -/

namespace SymbolArena

/-- The arena has the symbol. -/
def Has (a : SymbolArena) (id : SymbolId) : Prop := id.index < a.size

theorem has_iff_exists {a : SymbolArena} {id : SymbolId} : a.Has id ↔ ∃ s, a.get? id = some s :=
  ⟨fun h => ⟨_, Array.getElem?_eq_getElem h⟩, fun ⟨_, h⟩ => (Array.getElem?_eq_some_iff.1 h).1⟩

theorem has_of_get? {a : SymbolArena} {id : SymbolId} {s : Symbol}
    (h : a.get? id = some s) : a.Has id :=
  has_iff_exists.2 ⟨s, h⟩

@[simp] theorem has_modify (a : SymbolArena) (id : SymbolId) (f : Symbol → Symbol)
    (other : SymbolId) :
    (a.modify id f).Has other ↔ a.Has other := by
  simp [Has, size, modify]

theorem size_alloc (a : SymbolArena) (flags : SymbolFlags) (name : String) (file : FileId) :
    (a.alloc flags name file).1.size = a.size + 1 := Array.size_push _

theorem Has.alloc {a : SymbolArena} {id : SymbolId} (h : a.Has id) (flags : SymbolFlags)
    (name : String) (file : FileId) :
    (a.alloc flags name file).1.Has id := by
  rw [Has, size_alloc]
  exact Nat.lt_succ_of_lt h

theorem has_alloc_self (a : SymbolArena) (flags : SymbolFlags) (name : String) (file : FileId) :
    (a.alloc flags name file).1.Has (a.alloc flags name file).2 := by
  rw [Has, size_alloc]
  exact Nat.lt_succ_self a.size

theorem get?_alloc (a : SymbolArena) (flags : SymbolFlags) (name : String) (file : FileId)
    (id : SymbolId) :
    (a.alloc flags name file).1.get? id =
      if id = (a.alloc flags name file).2 then
        some { id := (a.alloc flags name file).2, name, flags, file }
      else a.get? id := by
  cases id
  simp [SymbolArena.alloc, get?, Array.getElem?_push]

theorem get?_modify (a : SymbolArena) (id : SymbolId) (f : Symbol → Symbol) (other : SymbolId) :
    (a.modify id f).get? other = if id = other then (a.get? other).map f else a.get? other := by
  cases id
  cases other
  simp [SymbolArena.modify, get?, Array.getElem?_modify]

/-- The arena has every symbol of a table. -/
def Knows (a : SymbolArena) (t : SymbolTable) : Prop := ∀ name id, t.get? name = some id → a.Has id

theorem knows_empty (a : SymbolArena) : a.Knows {} := fun _ _ h => by cases h

theorem Knows.mono {a b : SymbolArena} {t : SymbolTable} (h : a.Knows t)
    (hgrows : ∀ id, a.Has id → b.Has id) : b.Knows t :=
  fun name id hid => hgrows id (h name id hid)

theorem Knows.set {a : SymbolArena} {t : SymbolTable} (h : a.Knows t) {id : SymbolId}
    (hid : a.Has id) (name : String) :
    a.Knows (t.set name id) := by
  intro other found hfound
  rw [Table.get?_set] at hfound
  split at hfound
  · exact Option.some.inj hfound ▸ hid
  · exact h other found hfound

/-- The arena has every symbol of the tables of a symbol. -/
def KnowsOf (a : SymbolArena) (s : Symbol) : Prop := a.Knows s.locals ∧ a.Knows s.exports_

/-- The arena has every symbol of its tables. -/
def Closed (a : SymbolArena) : Prop := ∀ id s, a.get? id = some s → a.KnowsOf s

theorem Closed.alloc {a : SymbolArena} (h : a.Closed) (flags : SymbolFlags) (name : String)
    (file : FileId) :
    (a.alloc flags name file).1.Closed := by
  intro id s hs
  rw [get?_alloc] at hs
  split at hs
  · obtain rfl := Option.some.inj hs
    exact ⟨knows_empty _, knows_empty _⟩
  · obtain ⟨hlocals, hexports⟩ := h id s hs
    exact ⟨hlocals.mono fun id hid => hid.alloc _ _ _, hexports.mono fun id hid => hid.alloc _ _ _⟩

theorem Closed.modify {a : SymbolArena} (h : a.Closed) (id : SymbolId) {f : Symbol → Symbol}
    (hf : ∀ s, a.KnowsOf s → a.KnowsOf (f s)) : (a.modify id f).Closed := by
  have hgrows : ∀ s, a.KnowsOf s → (a.modify id f).KnowsOf s := fun s hs =>
    ⟨hs.1.mono fun _ => (has_modify ..).2, hs.2.mono fun _ => (has_modify ..).2⟩
  intro other s hs
  rw [get?_modify] at hs
  split at hs
  · obtain ⟨old, hold, rfl⟩ := Option.map_eq_some_iff.1 hs
    exact hgrows _ (hf old (h other old hold))
  · exact hgrows s (h other s hs)

end SymbolArena

/-! ## Declaring -/

/-- All tables hold symbols that exist. -/
structure SharedTables.Closed (t : SharedTables) : Prop where
  symbols : t.symbols.Closed
  globals : t.symbols.Knows t.globals
  ambientModules : t.symbols.Knows t.ambientModules

theorem SharedTables.closed_empty : SharedTables.Closed {} :=
  ⟨fun _ _ h => by simp [SymbolArena.get?] at h, SymbolArena.knows_empty _,
    SymbolArena.knows_empty _⟩

/-- The arena has every symbol that a node declares. -/
def SymbolArena.KnowsDeclared (a : SymbolArena) (declared : Std.TreeMap NodeId SymbolId) : Prop :=
  ∀ (node : NodeId) id, declared[node]? = some id → a.Has id

theorem SymbolArena.KnowsDeclared.mono {a b : SymbolArena} {declared : Std.TreeMap NodeId SymbolId}
    (h : a.KnowsDeclared declared) (hgrows : ∀ id, a.Has id → b.Has id) :
    b.KnowsDeclared declared :=
  fun node id hid => hgrows id (h node id hid)

theorem SymbolArena.KnowsDeclared.insert {a : SymbolArena} {declared : Std.TreeMap NodeId SymbolId}
    (h : a.KnowsDeclared declared) {id : SymbolId} (hid : a.Has id) (node : NodeId) :
    a.KnowsDeclared (declared.insert node id) := by
  intro other found hfound
  rw [Std.TreeMap.getElem?_insert] at hfound
  split at hfound
  · exact Option.some.inj hfound ▸ hid
  · exact h other found hfound

namespace Declarations

/-- Every symbol in a table exists, and every symbol that a node declares. -/
structure Closed (d : Declarations) : Prop where
  tables : d.tables.Closed
  declared : d.tables.symbols.KnowsDeclared d.declared

/-- The symbol exists. -/
abbrev Has (d : Declarations) (id : SymbolId) : Prop := d.tables.symbols.Has id

variable (f : DeclaringFile) (c : Container) {d : Declarations}

@[simp] theorem has_modify (id : SymbolId) (change : Symbol → Symbol) (other : SymbolId) :
    (d.modify id change).Has other ↔ d.Has other := SymbolArena.has_modify ..

@[simp] theorem has_addDeclaration (id : SymbolId) (node : NodeId) (other : SymbolId) :
    (d.addDeclaration f id node).Has other ↔ d.Has other := has_modify ..

@[simp] theorem has_setLocal (name : String) (id other : SymbolId) :
    (d.setLocal c name id).Has other ↔ d.Has other := by
  cases c with
  | module_ symbol exportsAll => exact has_modify ..
  | global => exact Iff.rfl

@[simp] theorem has_setExport? (name : Option String) (id : SymbolId) (node : NodeId)
    (other : SymbolId) :
    (d.setExport? f c name id node).Has other ↔ d.Has other := by
  cases name with
  | none => exact Iff.rfl
  | some name =>
    show (d.setExport f c name id node).Has other ↔ d.Has other
    unfold setExport
    split
    · exact Iff.rfl
    · split
      · split
        · exact Iff.rfl
        · exact Iff.rfl
      · exact has_modify ..

theorem has_addUnnamed_self (flags : SymbolFlags) (name : String) (node : NodeId) :
    (d.addUnnamed f c flags name node).1.Has (d.addUnnamed f c flags name node).2 :=
  (has_modify ..).2 ((has_modify ..).2 (SymbolArena.has_alloc_self ..))

theorem has_addUnnamed (flags : SymbolFlags) (name : String) (node : NodeId) {id : SymbolId}
    (h : d.Has id) :
    (d.addUnnamed f c flags name node).1.Has id :=
  (has_modify ..).2 ((has_modify ..).2 (SymbolArena.Has.alloc h ..))

namespace Closed

variable (h : d.Closed)

include h

theorem modify (id : SymbolId) {g : Symbol → Symbol}
    (hg : ∀ s, d.tables.symbols.KnowsOf s → d.tables.symbols.KnowsOf (g s)) :
    (d.modify id g).Closed where
  tables := ⟨h.tables.symbols.modify id hg, h.tables.globals.mono fun _ => (has_modify ..).2,
    h.tables.ambientModules.mono fun _ => (has_modify ..).2⟩
  declared := h.declared.mono fun _ => (has_modify ..).2

theorem addDeclaration (id : SymbolId) (node : NodeId) : (d.addDeclaration f id node).Closed := by
  refine h.modify id fun s hs => ?_
  split
  · exact hs
  · exact hs

theorem setDeclared {id : SymbolId} (hid : d.Has id) (node : NodeId) :
    (d.setDeclared node id).Closed :=
  ⟨h.tables, h.declared.insert hid node⟩

theorem setLocal {id : SymbolId} (hid : d.Has id) (name : String) :
    (d.setLocal c name id).Closed := by
  cases c with
  | module_ symbol exportsAll => exact h.modify symbol fun s hs => ⟨hs.1.set hid name, hs.2⟩
  | global =>
    exact ⟨⟨h.tables.symbols, h.tables.globals.set hid name, h.tables.ambientModules⟩, h.declared⟩

theorem setExport {id : SymbolId} (hid : d.Has id) (name : String) (node : NodeId) :
    (d.setExport f c name id node).Closed := by
  unfold Declarations.setExport
  split
  · exact h
  · split
    · split
      · exact h
      · exact ⟨h.tables, h.declared⟩
    · exact h.modify _ fun s hs => ⟨hs.1, hs.2.set hid name⟩

theorem setExport? {id : SymbolId} (hid : d.Has id) (name : Option String) (node : NodeId) :
    (d.setExport? f c name id node).Closed := by
  cases name with
  | none => exact h
  | some name => exact h.setExport f c hid name node

theorem alloc (flags : SymbolFlags) (name : String) : (d.alloc f flags name).1.Closed where
  tables := ⟨h.tables.symbols.alloc _ _ _, h.tables.globals.mono fun _ hid => hid.alloc _ _ _,
    h.tables.ambientModules.mono fun _ hid => hid.alloc _ _ _⟩
  declared := h.declared.mono fun _ hid => hid.alloc _ _ _

theorem addUnnamed (flags : SymbolFlags) (name : String) (node : NodeId) :
    (d.addUnnamed f c flags name node).1.Closed := by
  have hadded := (h.alloc f flags name).addDeclaration f (d.alloc f flags name).2 node
  have hplaced :
    (((d.alloc f flags name).1.addDeclaration f (d.alloc f flags name).2 node).setParent
      (d.alloc f flags name).2 c).Closed := hadded.modify _ fun _ hs => hs
  exact hplaced.setDeclared (has_addUnnamed_self f c flags name node) node

/-- The symbol of a name exists. -/
theorem has_of_lookup {name : String} {id : SymbolId} (hid : d.lookup c name = some id) :
    d.Has id := by
  cases c with
  | module_ symbol exportsAll =>
    obtain ⟨s, hs, hname⟩ := Option.bind_eq_some_iff.1 hid
    exact (h.tables.symbols symbol s hs).1 name id hname
  | global => exact h.tables.globals name id hid

theorem declare (flags : SymbolFlags) (name : String) (node : NodeId) (exportName : Option String) :
    (d.declare f c flags name node exportName).1.Closed := by
  unfold Declarations.declare
  split
  · next known hknown =>
    have hid := h.has_of_lookup c hknown
    dsimp only
    -- the declaration joins the symbol of the name, or is reported
    split
    · have hjoined := (h.modify known (g := fun s => { s with flags := s.flags.union flags })
        fun _ hs => hs).addDeclaration f known node
      have hhas :
          ((d.modify known fun s => { s with flags := s.flags.union flags }).addDeclaration f known
          node).Has known := by
        simpa using hid
      exact (hjoined.setDeclared hhas node).setExport? f c hhas exportName node
    · have hreported : (d.reportDuplicate f node name).Closed := ⟨h.tables, h.declared⟩
      exact (hreported.setDeclared hid node).setExport? f c hid exportName node
  · have hid := has_addUnnamed_self f c flags name node (d := d)
    exact ((h.addUnnamed f c flags name node).setLocal c hid name).setExport? f c
      ((has_setLocal ..).2 hid) exportName node

theorem declareAlias (node : NodeId) (declared : AliasDeclaration) :
    (d.declareAlias f c node declared).Closed := by
  unfold Declarations.declareAlias
  split
  · next known hknown =>
    have hlookup : d.lookup c declared.name = some known := by
      split at hknown
      · exact hknown
      · cases hknown
    have hreported : (d.reportDuplicate f node declared.name).Closed := ⟨h.tables, h.declared⟩
    exact hreported.setDeclared (h.has_of_lookup c hlookup) node
  · have hadded := (h.addUnnamed f c (.single .alias_) declared.name node).modify
      (d.addUnnamed f c (.single .alias_) declared.name node).2
      (g := fun s => { s with aliasOf := some declared.target, typeOnly := declared.typeOnly })
        fun _ hs => hs
    have hid := has_addUnnamed_self f c (.single .alias_) declared.name node (d := d)
    rw [← has_modify (d.addUnnamed f c (.single .alias_) declared.name node).2
      fun s => { s with aliasOf := some declared.target, typeOnly := declared.typeOnly }] at hid
    dsimp only
    split
    · exact (hadded.setLocal c hid declared.name).setExport? f c
        ((has_setLocal ..).2 hid) declared.exportName node
    · exact hadded.setExport? f c hid declared.exportName node

theorem addMember (owner : SymbolId) (name : String) (node : NodeId) :
    (d.addMember f owner name node).Closed := by
  have hadded := (h.alloc f (.single .enumMember) name).addDeclaration f
    (d.alloc f (.single .enumMember) name).2 node
  have hid :
    ((d.alloc f (.single .enumMember) name).1.addDeclaration f
    (d.alloc f (.single .enumMember) name).2 node).Has
      (d.alloc f (.single .enumMember) name).2 :=
    (has_addDeclaration ..).2 (SymbolArena.has_alloc_self ..)
  have hexported := hadded.modify owner
    (g := fun s =>
      { s with exports_ := s.exports_.set name (d.alloc f (.single .enumMember) name).2 })
    fun _ hs => ⟨hs.1, hs.2.set hid name⟩
  have howned := hexported.modify (d.alloc f (.single .enumMember) name).2
    (g := fun s => { s with parent := some owner }) fun _ hs => hs
  exact howned.setDeclared ((has_modify ..).2 ((has_modify ..).2 hid)) node

theorem redeclare {known : SymbolId} (hknown : d.Has known) (node : NodeId) :
    (d.redeclare f known node).Closed :=
  (h.addDeclaration f known node).setDeclared ((has_addDeclaration ..).2 hknown) node

theorem declareAmbientModule (node : NodeId) (text : String) :
    (d.declareAmbientModule f node text).1.Closed := by
  unfold Declarations.declareAmbientModule
  split
  · next known hknown => exact h.redeclare f (h.tables.ambientModules text known hknown) node
  · have hadded := (h.alloc f (.single .ambientModule) ("\x22" ++ text ++ "\x22")).addDeclaration f
      (d.alloc f (.single .ambientModule) ("\x22" ++ text ++ "\x22")).2 node
    have hid : ((d.alloc f (.single .ambientModule) ("\x22" ++ text ++ "\x22")).1.addDeclaration f
        (d.alloc f (.single .ambientModule) ("\x22" ++ text ++ "\x22")).2 node).Has
        (d.alloc f (.single .ambientModule) ("\x22" ++ text ++ "\x22")).2 :=
      (has_addDeclaration ..).2 (SymbolArena.has_alloc_self ..)
    exact ⟨⟨hadded.tables.symbols, hadded.tables.globals,
      hadded.tables.ambientModules.set hid text⟩,
      hadded.declared.insert hid node⟩

theorem addFile (root : NodeId) : (d.addFile f root).Closed :=
  ((h.alloc f (.single .sourceFile) ("\x22" ++ f.path ++ "\x22")).addDeclaration f _
    root).setDeclared
    ((has_addDeclaration ..).2 (SymbolArena.has_alloc_self ..)) root

theorem step {d' : Declarations} (hstep : Step f d d') : d'.Closed := by
  cases hstep with
  | declare c flag name node exportName => exact h.declare f c (.single flag) name node exportName
  | alias_ c node declared => exact h.declareAlias f c node declared
  | unnamed c flag name node =>
    exact (h.addUnnamed f c (.single flag) name node).setExport f c
      (has_addUnnamed_self ..) name node
  | member owner name node => exact h.addMember f owner name node
  | again known node owner name hknown =>
    obtain ⟨s, hs, hname⟩ := Option.bind_eq_some_iff.1 hknown
    exact h.redeclare f ((h.tables.symbols owner s hs).2 name known hname) node
  | ambientModule node text => exact h.declareAmbientModule f node text
  | star module specifier =>
    exact ⟨⟨h.tables.symbols, h.tables.globals, h.tables.ambientModules⟩, h.declared⟩
  | file root => exact h.addFile f root

end Closed

/-- Symbols are only added. -/
theorem Step.has {d' : Declarations} (hstep : Step f d d') {id : SymbolId} (h : d.Has id) :
    d'.Has id := by
  cases hstep with
  | declare c flag name node exportName =>
    unfold Declarations.declare
    -- the first symbol with a name is changed in place, and any other one is new
    split
    · refine (has_setExport? ..).2 ?_
      show SymbolArena.Has (Declarations.tables (ite _ _ _)).symbols id
      split
      · exact (has_addDeclaration ..).2 ((has_modify ..).2 h)
      · exact h
    · exact (has_setExport? ..).2 ((has_setLocal ..).2 (has_addUnnamed f c _ name node h))
  | alias_ c node declared =>
    unfold declareAlias
    split
    · exact h
    · have hadded := has_addUnnamed f c (.single .alias_) declared.name node h
      refine (has_setExport? ..).2 ?_
      show SymbolArena.Has (Declarations.tables (ite _ _ _)).symbols id
      split
      · exact (has_setLocal ..).2 ((has_modify ..).2 hadded)
      · exact (has_modify ..).2 hadded
  | unnamed c flag name node =>
    exact (has_setExport? f c (some name) _ node id).2 (has_addUnnamed f c _ name node h)
  | member owner name node =>
    exact (has_modify ..).2 ((has_modify ..).2 ((has_addDeclaration ..).2 (h.alloc _ _ _)))
  | again known node owner name _ => exact (has_addDeclaration ..).2 h
  | ambientModule node text =>
    unfold Declarations.declareAmbientModule
    split
    · exact (has_addDeclaration ..).2 h
    · exact (has_addDeclaration ..).2 (h.alloc _ _ _)
  | star module specifier => exact h
  | file root => exact (has_addDeclaration ..).2 (h.alloc _ _ _)

theorem Steps.has {d' : Declarations} (h : Steps f d d') {id : SymbolId} (hid : d.Has id) :
    d'.Has id :=
  h.keeps (P := fun d => d.Has id) (fun _ _ hstep => hstep.has f) hid

/-- What a file declares exists, and so does its symbol. -/
theorem closed_declareFile {tables : SharedTables} (h : tables.Closed) (root : NodeId) :
    (declareFile f tables root).1.Closed ∧
      ∀ id, (declareFile f tables root).2 = some id → (declareFile f tables root).1.Has id := by
  have hstart : Closed { tables } := ⟨h, fun _ _ hid => by simp at hid⟩
  refine ⟨(steps_declareFile f tables root).keeps (fun _ _ hstep hd => hd.step f hstep) hstart,
    fun id hid => ?_⟩
  unfold declareFile at hid ⊢
  dsimp only at hid ⊢
  split at hid
  · split at hid
    · next hmodule =>
      obtain rfl := Option.some.inj hid
      simp only [hmodule, if_true]
      exact (steps_declareStatements f _ _ _ _ _).has f
        ((has_addDeclaration ..).2 (SymbolArena.has_alloc_self ..))
    · cases hid
  · cases hid

end Declarations

/-! ## Files -/

/-- The arena has the symbol of the file and those that its nodes declare. -/
structure SymbolArena.KnowsFile (a : SymbolArena) (file : SourceFile) : Prop where
  symbol : ∀ id, file.symbol = some id → a.Has id
  declared : a.KnowsDeclared file.declared

namespace Assembly

/-- Every symbol in a table exists, and so do those of the files and of their nodes. -/
structure Closed (s : Assembly) : Prop where
  tables : s.tables.Closed
  files : ∀ file ∈ s.files, s.tables.symbols.KnowsFile file

theorem Closed.declareFile {s : Assembly} (h : s.Closed) (file : SourceFile) :
    (s.declareFile file).Closed := by
  obtain ⟨hclosed, hsymbol⟩ :=
    Declarations.closed_declareFile ⟨file.id, file.path, file.arena⟩ h.tables file.root
  refine ⟨hclosed.tables, fun other hother => ?_⟩
  rcases Array.mem_push.1 hother with hother | rfl
  · have hgrows : ∀ id, s.tables.symbols.Has id → (s.declareFile file).tables.symbols.Has id :=
      fun id hid =>
      (Declarations.steps_declareFile ⟨file.id, file.path, file.arena⟩ s.tables file.root).has _ hid
    exact ⟨fun id hid => hgrows id ((h.files other hother).symbol id hid),
      (h.files other hother).declared.mono hgrows⟩
  · exact ⟨hsymbol, hclosed.declared⟩

theorem Closed.setModule {s : Assembly} (h : s.Closed) (file : FileId) (specifier : String)
    (target : ModuleTarget) :
    (s.setModule file specifier target).Closed := by
  refine ⟨h.tables, fun other hother => ?_⟩
  obtain ⟨i, hi⟩ := Array.mem_iff_getElem?.1 hother
  rw [files_setModule, Array.getElem?_modify] at hi
  split at hi
  · obtain ⟨old, hold, rfl⟩ := Option.map_eq_some_iff.1 hi
    have hknown := h.files old (Array.mem_iff_getElem?.2 ⟨i, hold⟩)
    exact ⟨hknown.symbol, hknown.declared⟩
  · exact h.files other (Array.mem_iff_getElem?.2 ⟨i, hi⟩)

theorem Closed.connectFile {s : Assembly} (h : s.Closed) (connection : FileId × String × String) :
    (s.connectFile connection).Closed := by
  unfold Assembly.connectFile
  dsimp only
  split
  · exact h.setModule _ _ _
  · exact h

theorem Closed.connectAmbient {s : Assembly} (h : s.Closed)
    (unresolved : FileId × ResolutionFailure) :
    (s.connectAmbient unresolved).Closed := by
  unfold Assembly.connectAmbient
  dsimp only
  split
  · exact ⟨h.tables, (h.setModule _ _ _).files⟩
  · exact ⟨h.tables, h.files⟩

/-- Before names are linked, every symbol in a table exists. -/
theorem closed_withModules (l : Loader) : (withModules l).Closed := by
  have hstart : Closed { packages := l.packages, diagnostics := l.diagnostics } :=
    ⟨SharedTables.closed_empty, fun file hfile => absurd hfile (Array.not_mem_empty file)⟩
  have hdeclared : (ofFiles l).Closed :=
    List.foldlRecOn (motive := Closed) _ _ hstart fun s hs file _ => hs.declareFile file
  have hfiles : (withFiles l).Closed :=
    List.foldlRecOn (motive := Closed) _ _ hdeclared fun s hs connection _ =>
      hs.connectFile connection
  exact List.foldlRecOn (motive := Closed) _ _ hfiles fun s hs unresolved _ =>
    hs.connectAmbient unresolved

end Assembly

end DeclBundle
