import DeclBundle.Proofs.KnownSymbols
import DeclBundle.Proofs.LinkingSchemes
import Mathlib.Data.List.Basic

/-!
# Symbols are sound

The number of a symbol is its place in the arena. An alias is nothing else: it is no module, and
only an alias stands for another symbol. Symbols are only added at the end, the flags of an alias
are never joined with others, and no change of a symbol touches its number; so every symbol of a
loaded project is sound (`Project.isSound_of_load`).
-/

set_option autoImplicit false

namespace DeclBundle

/-! ## Flags -/

namespace SymbolFlags

/-- The flags are not those of an alias and of a module at once. -/
def IsProper (flags : SymbolFlags) : Prop :=
  flags.contains .alias_ = true → flags.meets file = false

instance (flags : SymbolFlags) : Decidable flags.IsProper := inferInstanceAs (Decidable (_ → _))

theorem isProper_single (flag : SymbolFlag) : IsProper (.single flag) := by
  cases flag
  all_goals decide

/-- Flags that are joined are none of an alias. -/
theorem contains_alias_union {existing new : SymbolFlags} (h : existing.canMerge new = true) :
    existing.contains .alias_ = false ∧ (existing.union new).contains .alias_ = false := by
  unfold canMerge at h
  simp only [Bool.and_eq_true, Bool.not_eq_true'] at h
  obtain ⟨⟨hexisting, hnew⟩, -⟩ := h
  exact ⟨hexisting, by rw [FlagSet.contains_union, hexisting, hnew, Bool.or_false]⟩

end SymbolFlags

/-! ## Arenas of symbols -/

/-- The symbol carries the number `id`, it is not an alias and a module at once, and it stands for
another symbol only as an alias. -/
structure Symbol.IsSound (id : SymbolId) (s : Symbol) : Prop where
  id_eq : s.id = id
  isProper : s.flags.IsProper
  isAlias : s.aliasOf.isSome = true → s.isAlias = true

/-- Flags that can be joined leave a symbol sound. -/
theorem Symbol.IsSound.union {id : SymbolId} {s : Symbol} (h : s.IsSound id) {flags : SymbolFlags}
    (hmerge : s.flags.canMerge flags = true) :
    ({ s with flags := s.flags.union flags } : Symbol).IsSound id := by
  obtain ⟨hold, hnew⟩ := SymbolFlags.contains_alias_union hmerge
  refine ⟨h.id_eq, fun halias => ?_, fun hsome => ?_⟩
  · exact absurd halias (by simp [hnew])
  · have halias : s.flags.contains .alias_ = true := h.isAlias hsome
    rw [hold] at halias
    cases halias

namespace SymbolArena

/-- Every symbol is sound, for the number under which it is found. -/
def Sound (a : SymbolArena) : Prop := ∀ id s, a.get? id = some s → s.IsSound id

theorem sound_empty : Sound {} := by
  intro id s h
  simp [get?] at h

theorem Sound.alloc {a : SymbolArena} (h : a.Sound) {flags : SymbolFlags} (hflags : flags.IsProper)
    (name : String) (file : FileId) : (a.alloc flags name file).1.Sound := by
  intro id s hs
  rw [get?_alloc] at hs
  split at hs
  · next heq =>
    obtain rfl := Option.some.inj hs
    exact ⟨heq.symm, hflags, fun h => by cases h⟩
  · exact h id s hs

/-- A change that leaves the symbol sound. -/
theorem Sound.modify {a : SymbolArena} (h : a.Sound) (id : SymbolId) {f : Symbol → Symbol}
    (hf : ∀ s, a.get? id = some s → s.IsSound id → (f s).IsSound id) : (a.modify id f).Sound := by
  intro other s hs
  rw [get?_modify] at hs
  split at hs
  · next heq =>
    subst heq
    obtain ⟨old, hold, rfl⟩ := Option.map_eq_some_iff.1 hs
    exact hf old hold (h id old hold)
  · exact h other s hs

end SymbolArena

/-! ## Declaring -/

namespace Declarations

/-- Every symbol so far is sound. -/
def Sound (d : Declarations) : Prop := d.tables.symbols.Sound

namespace Sound

variable {d : Declarations} (h : d.Sound) (f : DeclaringFile) (c : Container)

include h

/-- A change that touches neither numbers nor flags nor what an alias stands for. -/
theorem modify (id : SymbolId) {change : Symbol → Symbol}
    (hchange : ∀ s, (change s).id = s.id ∧ (change s).flags = s.flags ∧
      (change s).aliasOf = s.aliasOf) :
    (d.modify id change).Sound := by
  refine SymbolArena.Sound.modify h id fun s _ hs => ?_
  obtain ⟨hid, hflags, halias⟩ := hchange s
  refine ⟨hid.trans hs.id_eq, hflags ▸ hs.isProper, fun hsome => ?_⟩
  rw [Symbol.isAlias, hflags]
  exact hs.isAlias (halias ▸ hsome)

theorem addDeclaration (id : SymbolId) (node : NodeId) : (d.addDeclaration f id node).Sound := by
  refine h.modify id fun s => ?_
  split
  · exact ⟨rfl, rfl, rfl⟩
  · exact ⟨rfl, rfl, rfl⟩

theorem setParent (id : SymbolId) : (d.setParent id c).Sound := h.modify id fun _ => ⟨rfl, rfl, rfl⟩

theorem setLocal (name : String) (id : SymbolId) : (d.setLocal c name id).Sound := by
  cases c with
  | module_ symbol exportsAll => exact h.modify symbol fun _ => ⟨rfl, rfl, rfl⟩
  | global => exact h

theorem setExport (name : String) (id : SymbolId) (node : NodeId) :
    (d.setExport f c name id node).Sound := by
  unfold Declarations.setExport
  split
  · exact h
  · split
    · split
      · exact h
      · exact h
    · exact h.modify _ fun _ => ⟨rfl, rfl, rfl⟩

theorem setExport? (name : Option String) (id : SymbolId) (node : NodeId) :
    (d.setExport? f c name id node).Sound := by
  cases name with
  | none => exact h
  | some name => exact h.setExport f c name id node

theorem alloc (flag : SymbolFlag) (name : String) : (d.alloc f (.single flag) name).1.Sound :=
  SymbolArena.Sound.alloc h (SymbolFlags.isProper_single flag) name f.id

theorem addUnnamed (flag : SymbolFlag) (name : String) (node : NodeId) :
    (d.addUnnamed f c (.single flag) name node).1.Sound :=
  ((h.alloc f flag name).addDeclaration f _ node).setParent c _

omit h in
/-- What was added has the flags that it was added with. -/
theorem flags_addUnnamed (flags : SymbolFlags) (name : String) (node : NodeId) {s : Symbol}
    (hs : (d.addUnnamed f c flags name node).1.symbol? (d.addUnnamed f c flags name node).2 =
      some s) :
    s.flags = flags := by
  have hget := hs
  simp only [Declarations.addUnnamed, Declarations.setParent, Declarations.addDeclaration,
    Declarations.modify, Declarations.setDeclared, Declarations.symbol?, Declarations.alloc,
    SymbolArena.get?_modify, SymbolArena.get?_alloc, if_true, Option.map_some,
    Option.some.injEq] at hget
  subst hget
  dsimp only
  split
  · rfl
  · rfl

theorem declare (flag : SymbolFlag) (name : String) (node : NodeId) (exportName : Option String) :
    (d.declare f c (.single flag) name node exportName).1.Sound := by
  unfold Declarations.declare
  split
  · next known _ =>
    -- the declaration joins the symbol of the name, or is reported
    refine Sound.setExport? ?_ f c exportName known node
    show Sound (ite _ _ _)
    split
    · next hmerge =>
      have hjoined :
          (d.modify known fun s => { s with flags := s.flags.union (.single flag) }).Sound := by
        refine SymbolArena.Sound.modify h known fun s hs hsound => hsound.union ?_
        rwa [Declarations.symbol?, hs] at hmerge
      exact hjoined.addDeclaration f known node
    · exact h
  · exact ((h.addUnnamed f c flag name node).setLocal c name _).setExport? f c exportName _ node

theorem declareAlias (node : NodeId) (declared : AliasDeclaration) :
    (d.declareAlias f c node declared).Sound := by
  unfold Declarations.declareAlias
  split
  · exact h
  · have hadded : ((d.addUnnamed f c (.single .alias_) declared.name node).1.modify
        (d.addUnnamed f c (.single .alias_) declared.name node).2
        fun s =>
          { s with aliasOf := some declared.target, typeOnly := declared.typeOnly }).Sound := by
      refine SymbolArena.Sound.modify
        (h.addUnnamed f c .alias_ declared.name node) _ fun s hs hsound => ?_
      refine ⟨hsound.id_eq, hsound.isProper, fun _ => ?_⟩
      rw [Symbol.isAlias, flags_addUnnamed f c _ _ _ hs]
      rfl
    refine Sound.setExport? ?_ f c declared.exportName _ node
    show Sound (ite _ _ _)
    split
    · exact hadded.setLocal c declared.name _
    · exact hadded

theorem addMember (owner : SymbolId) (name : String) (node : NodeId) :
    (d.addMember f owner name node).Sound := by
  have hadded :=
    (h.alloc f .enumMember name).addDeclaration f (d.alloc f (.single .enumMember) name).2 node
  let export_ (s : Symbol) : Symbol :=
    { s with exports_ := s.exports_.set name (d.alloc f (.single .enumMember) name).2 }
  let own (s : Symbol) : Symbol := { s with parent := some owner }
  have hexported := @modify _ hadded owner export_ fun _ => ⟨rfl, rfl, rfl⟩
  exact @modify _ hexported (d.alloc f (.single .enumMember) name).2 own fun _ => ⟨rfl, rfl, rfl⟩

theorem declareAmbientModule (node : NodeId) (text : String) :
    (d.declareAmbientModule f node text).1.Sound := by
  unfold Declarations.declareAmbientModule
  split
  · exact h.addDeclaration f _ node
  · exact (h.alloc f _ _).addDeclaration f _ node

theorem addFile (root : NodeId) : (d.addFile f root).Sound :=
  (h.alloc f _ _).addDeclaration f _ root

theorem step {d' : Declarations} (hstep : Step f d d') : d'.Sound := by
  cases hstep with
  | declare c flag name node exportName => exact h.declare f c flag name node exportName
  | alias_ c node declared => exact h.declareAlias f c node declared
  | unnamed c flag name node => exact (h.addUnnamed f c flag name node).setExport f c name _ node
  | member owner name node => exact h.addMember f owner name node
  | again known node _ _ _ => exact h.addDeclaration f known node
  | ambientModule node text => exact h.declareAmbientModule f node text
  | star module specifier => exact h
  | file root => exact h.addFile f root

end Sound

theorem sound_declareFile {tables : SharedTables} (h : tables.symbols.Sound) (f : DeclaringFile)
    (root : NodeId) :
    (declareFile f tables root).1.Sound :=
  (steps_declareFile f tables root).keeps (fun _ _ hstep hd => hd.step f hstep) h

end Declarations

/-! ## Linking -/

namespace Links

/-- Every symbol so far is sound. -/
def Sound (l : Links) : Prop := l.symbols.Sound

variable (f : LinkingFile)

/-- Linking a name changes no symbol. -/
theorem symbols_linkEntity (l : Links) (entity : Slot) (meaning : Meaning) :
    (l.linkEntity f entity meaning).symbols = l.symbols := by
  unfold linkEntity
  dsimp only
  split
  · split
    · rfl
    · rfl
  · rfl

theorem Sound.declareIn {l : Links} (h : l.Sound) (level : Nat) (flag : SymbolFlag)
    (declaration : Slot) :
    (l.declareIn f level flag declaration).Sound := by
  unfold Links.declareIn
  split
  · next text _ =>
    exact (SymbolArena.Sound.alloc h (SymbolFlags.isProper_single flag) text f.id).modify _
        fun _ _ hs =>
      ⟨hs.id_eq, hs.isProper, hs.isAlias⟩
  · exact h

theorem keeps_sound : Keeps f Sound where
  link l entity meaning h := by
    unfold Sound
    rw [symbols_linkEntity]
    exact h
  declare _ level flag declaration _ h := h.declareIn f level flag declaration
  regions _ _ _ h := h

theorem sound_ofFile {symbols : SymbolArena} (h : symbols.Sound)
    (declared : Std.TreeMap NodeId SymbolId) (root : NodeId) (fileSymbol : Option SymbolId) :
    (ofFile f symbols declared root fileSymbol).Sound := by
  have hstart : Sound { symbols, declared, scopes := fileSymbol.toList.map .container } := h
  exact (keeps_sound f).visitTo hstart _ _

end Links

/-! ## Projects -/

namespace Assembly

/-- Every symbol so far is sound. -/
def Sound (s : Assembly) : Prop := s.tables.symbols.Sound

theorem tables_connectFile (s : Assembly) (connection : FileId × String × String) :
    (s.connectFile connection).tables = s.tables := by
  unfold connectFile
  dsimp only
  split
  · rfl
  · rfl

theorem tables_connectAmbient (s : Assembly) (unresolved : FileId × ResolutionFailure) :
    (s.connectAmbient unresolved).tables = s.tables := by
  unfold connectAmbient
  dsimp only
  split
  · rfl
  · rfl

theorem Sound.linkFile {s : Assembly} (h : s.Sound) (index : Nat) : (s.linkFile index).Sound := by
  unfold Assembly.linkFile
  split
  · exact h
  · exact Links.sound_ofFile _ h _ _ _

theorem sound_ofLoader (l : Loader) : (ofLoader l).Sound := by
  have hdeclared :
      (l.files.foldl declareFile
      { packages := l.packages, diagnostics := l.diagnostics }).Sound := by
    rw [← Array.foldl_toList]
    apply List.foldlRecOn (motive := Sound)
    · exact SymbolArena.sound_empty
    · intro s hs file _
      exact Declarations.sound_declareFile hs _ file.root
  have hfiles := List.foldlRecOn (motive := Sound) l.connections connectFile hdeclared
      fun s hs connection _ => by
    unfold Sound
    rw [tables_connectFile]
    exact hs
  have hconnected :=
    List.foldlRecOn (motive := Sound) l.unresolved connectAmbient hfiles fun s hs unresolved _ => by
    unfold Sound
    rw [tables_connectAmbient]
    exact hs
  exact List.foldlRecOn (motive := Sound) _ _ hconnected fun s hs index _ => hs.linkFile index

end Assembly

namespace Project

variable {entry : String} {options : ProjectOptions} {host : Host} {p : Project}

/-- Every symbol of a loaded project is sound. -/
theorem isSound_of_load (hload : Project.load entry options host = .ok p) {id : SymbolId}
    {s : Symbol} (hs : p.symbol? id = some s) : s.IsSound id := by
  obtain ⟨-, -, -, -, htables, -⟩ := of_load hload
  rw [symbol?, htables] at hs
  exact Assembly.sound_ofLoader _ id s hs

/-- Every symbol of a loaded project carries the number under which it is found. -/
theorem id_of_load (hload : Project.load entry options host = .ok p) {id : SymbolId} {s : Symbol}
    (hs : p.symbol? id = some s) : s.id = id :=
  (isSound_of_load hload hs).id_eq

end Project

end DeclBundle
