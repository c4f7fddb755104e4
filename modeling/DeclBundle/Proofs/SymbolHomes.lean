import DeclBundle.Proofs.KnownSymbols

/-!
# Homes of symbols

A symbol has a home: the module or namespace around it, and whether it is a module itself
(`SymbolHome`). A symbol gets its home when it is added, and keeps it. The tables list symbols by
their homes (`SharedTables.Lists`): a module or namespace lists what lies in it, the global scope
what lies nowhere, and modules with quoted names have a table of their own. Where this is so
(`SharedTables.Homed`), a declaration that joins a symbol which some table lists belongs to the same
home as a declaration that gets a new symbol.

`Declarations.Adds` says this of any part of declaring: homes stay, and the nodes that get a symbol
get one with a given home. Each kind of step is such a part, and so are parts one after the other.
-/

set_option autoImplicit false

namespace DeclBundle

/-- The flags are those of no module. -/
def SymbolFlags.IsPlain (flags : SymbolFlags) : Prop := flags.meets file = false

instance (flags : SymbolFlags) : Decidable flags.IsPlain := inferInstanceAs (Decidable (_ = _))

theorem SymbolFlags.meets_union {flags : SymbolFlags} (h : flags.IsPlain) (known : SymbolFlags) :
    (known.union flags).meets file = known.meets file := by
  have hzero : flags.bits &&& file.bits = 0 := by
    simpa [IsPlain, FlagSet.meets, FlagSet.inter, FlagSet.isEmpty] using h
  have hbits : (known.bits ||| flags.bits) &&& file.bits = known.bits &&& file.bits := by
    rw [Nat.and_or_distrib_right, hzero, Nat.or_zero]
  simp only [FlagSet.meets, FlagSet.inter, FlagSet.union, FlagSet.isEmpty, hbits]

/-- Where a symbol belongs. -/
structure SymbolHome where
  /-- The module or namespace around it. -/
  parent : Option SymbolId
  /-- It is a module itself. -/
  isModule : Bool

namespace SymbolArena

/-- The home of a symbol. -/
def home? (a : SymbolArena) (id : SymbolId) : Option SymbolHome :=
  (a.get? id).map fun s => ⟨s.parent, s.isModule⟩

/-- All symbols keep their homes. -/
def KeepsHomes (a b : SymbolArena) : Prop :=
  ∀ id home, a.home? id = some home → b.home? id = some home

theorem KeepsHomes.refl (a : SymbolArena) : a.KeepsHomes a := fun _ _ h => h

theorem KeepsHomes.trans {a b c : SymbolArena} (h : a.KeepsHomes b) (h' : b.KeepsHomes c) :
    a.KeepsHomes c :=
  fun id home hid => h' id home (h id home hid)

theorem has_of_home? {a : SymbolArena} {id : SymbolId} {home : SymbolHome}
    (h : a.home? id = some home) : a.Has id := by
  obtain ⟨s, hs, -⟩ := Option.map_eq_some_iff.1 h
  exact has_of_get? hs

theorem exists_home? {a : SymbolArena} {id : SymbolId} (h : a.Has id) :
    ∃ home, a.home? id = some home := by
  obtain ⟨s, hs⟩ := has_iff_exists.1 h
  exact ⟨_, Option.map_eq_some_iff.2 ⟨s, hs, rfl⟩⟩

/-- A change that keeps the home of each symbol. -/
theorem home?_modify (a : SymbolArena) (id : SymbolId) {change : Symbol → Symbol}
    (h : ∀ s, (change s).parent = s.parent ∧ (change s).isModule = s.isModule) (other : SymbolId) :
    (a.modify id change).home? other = a.home? other := by
  rw [home?, home?, get?_modify]
  split
  · rw [Option.map_map]
    refine congrArg (fun f => Option.map f (a.get? other)) (funext fun s => ?_)
    obtain ⟨hparent, hmodule⟩ := h s
    simp [hparent, hmodule]
  · rfl

/-- Symbols are younger than what is around them. -/
def Ascends (a : SymbolArena) : Prop :=
  ∀ id home parent, a.home? id = some home → home.parent = some parent → parent.index < id.index

/-- Two changes of which neither depends on the other can be made in either order. -/
theorem modify_comm (a : SymbolArena) (id other : SymbolId) {change change' : Symbol → Symbol}
    (h : ∀ s, change' (change s) = change (change' s)) :
    (a.modify id change).modify other change' = (a.modify other change').modify id change := by
  have hsymbols : ((a.modify id change).modify other change').symbols =
      ((a.modify other change').modify id change).symbols := by
    apply Array.ext_getElem?
    intro i
    have hget : ∀ b : SymbolArena, b.symbols[i]? = b.get? ⟨i⟩ := fun _ => rfl
    rw [hget, hget]
    simp only [get?_modify]
    split
    · split
      · simp only [Option.map_map, Function.comp_def, h]
      · rfl
    · rfl
  exact congrArg SymbolArena.mk hsymbols

/-- The symbols of `b` are those of `a` and a new one. -/
def IsWith (a b : SymbolArena) (s : Symbol) : Prop :=
  ∀ id, b.get? id = if id = ⟨a.size⟩ then some s else a.get? id

theorem isWith_alloc (a : SymbolArena) (flags : SymbolFlags) (name : String) (file : FileId) :
    a.IsWith (a.alloc flags name file).1 { id := ⟨a.size⟩, name, flags, file } :=
  fun id => a.get?_alloc flags name file id

theorem IsWith.modify {a b : SymbolArena} {s : Symbol} (h : a.IsWith b s)
    (change : Symbol → Symbol) :
    a.IsWith (b.modify ⟨a.size⟩ change) (change s) := by
  intro id
  rw [get?_modify, h]
  by_cases hid : id = ⟨a.size⟩
  · subst hid
    rw [if_pos rfl, if_pos rfl, if_pos rfl, Option.map_some]
  · rw [if_neg fun heq => hid heq.symm, if_neg hid, if_neg hid]

namespace IsWith

variable {a b : SymbolArena} {s : Symbol} (h : a.IsWith b s)

include h

theorem keepsHomes : a.KeepsHomes b := by
  intro id home hid
  have hne : id ≠ ⟨a.size⟩ := by
    rintro rfl
    exact absurd (has_of_home? hid) (Nat.lt_irrefl _)
  rw [home?, h, if_neg hne]
  exact hid

theorem home?_self : b.home? ⟨a.size⟩ = some ⟨s.parent, s.isModule⟩ := by
  rw [home?, h, if_pos rfl]
  rfl

/-- The new symbol lies in one that is there already, or nowhere. -/
theorem ascends (hascends : a.Ascends) (hparent : ∀ parent, s.parent = some parent → a.Has parent) :
    b.Ascends := by
  intro id home parent hid hhome
  rw [home?, h] at hid
  split at hid
  · next heq =>
    obtain rfl := Option.some.inj hid
    rw [heq]
    exact hparent parent hhome
  · exact hascends id home parent hid hhome

end IsWith

end SymbolArena

/-- What a table lists after a name was set is listed before, or it is what the name was set to. -/
theorem Table.get?_set_or {t : SymbolTable} {name other : String} {id found : SymbolId}
    (h : (t.set name id).get? other = some found) : t.get? other = some found ∨ found = id := by
  rw [get?_set] at h
  split at h
  · exact .inr (Option.some.inj h).symm
  · exact .inl h

namespace SharedTables

/-- A table lists a symbol among those with a home. -/
inductive Lists (t : SharedTables) : SymbolHome → SymbolId → Prop
  | local_ {owner id : SymbolId} {s : Symbol} {name : String} (hs : t.symbols.get? owner = some s)
    (h : s.locals.get? name = some id) : Lists t ⟨some owner, false⟩ id
  | export_ {owner id : SymbolId} {s : Symbol} {name : String} (hs : t.symbols.get? owner = some s)
    (h : s.exports_.get? name = some id) : Lists t ⟨some owner, false⟩ id
  | global {id : SymbolId} {name : String} (h : t.globals.get? name = some id) :
      Lists t ⟨none, false⟩ id
  | ambientModule {id : SymbolId} {name : String} (h : t.ambientModules.get? name = some id) :
      Lists t ⟨none, true⟩ id

/-- Symbols have the homes under which they are listed, and are younger than what is around them. -/
structure Homed (t : SharedTables) : Prop where
  home_eq : ∀ home id, t.Lists home id → t.symbols.home? id = some home
  ascends : t.symbols.Ascends

theorem homed_empty : Homed {} := by
  have hempty : ∀ id, (({} : SharedTables).symbols.get? id) = none := fun id => by
    simp [SymbolArena.get?]
  refine ⟨fun home id h => ?_, fun id home parent h => ?_⟩
  · cases h with
    | local_ hs _ => simp [hempty] at hs
    | export_ hs _ => simp [hempty] at hs
    | global h => cases h
    | ambientModule h => cases h
  · simp [SymbolArena.home?, hempty] at h

variable {t u : SharedTables}

/-- Tables stay homed when homes stay and all that is new in them belongs there. -/
theorem Homed.of_lists (h : t.Homed) (hhomes : ∀ id, u.symbols.home? id = t.symbols.home? id)
    (hlists : ∀ home id, u.Lists home id → t.Lists home id ∨ t.symbols.home? id = some home) :
    u.Homed where
  home_eq home id hid := by
    rw [hhomes]
    exact (hlists home id hid).elim (h.home_eq home id) fun hnew => hnew
  ascends id home parent hid := h.ascends id home parent (hhomes id ▸ hid)

/-- A new symbol with empty tables, inside a symbol that is there already or nowhere. -/
theorem Homed.of_new (h : t.Homed) {s : Symbol} (hnew : t.symbols.IsWith u.symbols s)
    (hlocals : s.locals = {}) (hexports : s.exports_ = {})
    (hparent : ∀ parent, s.parent = some parent → t.symbols.Has parent)
    (hglobals : u.globals = t.globals) (hambient : u.ambientModules = t.ambientModules) :
    u.Homed ∧ t.symbols.KeepsHomes u.symbols ∧ u.symbols.home? ⟨t.symbols.size⟩ =
      some ⟨s.parent, s.isModule⟩ := by
  have hgrows := hnew.keepsHomes
  refine ⟨⟨fun home id hid => ?_, hnew.ascends h.ascends hparent⟩, hgrows, hnew.home?_self⟩
  refine hgrows id home (h.home_eq home id ?_)
  cases hid with
  | local_ hs hname =>
    rw [hnew] at hs
    split at hs
    · obtain rfl := Option.some.inj hs
      rw [hlocals] at hname
      cases hname
    · exact .local_ hs hname
  | export_ hs hname =>
    rw [hnew] at hs
    split at hs
    · obtain rfl := Option.some.inj hs
      rw [hexports] at hname
      cases hname
    · exact .export_ hs hname
  | global hname => exact .global (hglobals ▸ hname)
  | ambientModule hname => exact .ambientModule (hambient ▸ hname)

end SharedTables

/-- The home of what a container lists. -/
def Container.home (c : Container) : SymbolHome := ⟨c.symbol?, false⟩

namespace Declarations

/-! ## Parts of declaring -/

/-- The home of a symbol. -/
abbrev home? (d : Declarations) (id : SymbolId) : Option SymbolHome := d.tables.symbols.home? id

/-- From `d` to `d'` all homes stay, and only the given nodes get symbols, each one with the given
home. -/
structure Adds (home : SymbolHome) (nodes : NodeId → Prop) (d d' : Declarations) : Prop where
  homed : d'.tables.Homed
  keeps : d.tables.symbols.KeepsHomes d'.tables.symbols
  declared : ∀ n, d'.declared[n]? = d.declared[n]? ∨
    nodes n ∧ ∃ id, d'.declared[n]? = some id ∧ d'.home? id = some home

namespace Adds

variable {home : SymbolHome} {nodes nodes' : NodeId → Prop} {d d' d'' : Declarations}

theorem refl (h : d.tables.Homed) : Adds home nodes d d := ⟨h, .refl _, fun _ => .inl rfl⟩

theorem mono (h : Adds home nodes d d') (hnodes : ∀ n, nodes n → nodes' n) :
    Adds home nodes' d d' :=
  ⟨h.homed, h.keeps, fun n => (h.declared n).imp_right fun ⟨hn, hid⟩ => ⟨hnodes n hn, hid⟩⟩

theorem trans (h : Adds home nodes d d') (h' : Adds home nodes d' d'') : Adds home nodes d d'' := by
  refine ⟨h'.homed, h.keeps.trans h'.keeps, fun n => ?_⟩
  rcases h'.declared n with heq | hnew
  · rcases h.declared n with heq' | ⟨hn, id, hid, hhome⟩
    · exact .inl (heq.trans heq')
    · exact .inr ⟨hn, id, heq.trans hid, h'.keeps id home hhome⟩
  · exact .inr hnew

/-- Only notes change. -/
theorem of_eq (h : d.tables.Homed) (hsymbols : d'.tables.symbols = d.tables.symbols)
    (hglobals : d'.tables.globals = d.tables.globals)
    (hambient : d'.tables.ambientModules = d.tables.ambientModules)
    (hdeclared : d'.declared = d.declared) : Adds home nodes d d' := by
  refine ⟨h.of_lists (fun id => by rw [hsymbols]) fun other id hid => .inl ?_, hsymbols ▸ .refl _,
    fun n => .inl ?_⟩
  · cases hid with
    | local_ hs hname => exact .local_ (hsymbols ▸ hs) hname
    | export_ hs hname => exact .export_ (hsymbols ▸ hs) hname
    | global hname => exact .global (hglobals ▸ hname)
    | ambientModule hname => exact .ambientModule (hambient ▸ hname)
  · rw [hdeclared]

/-- A list of parts. -/
theorem foldl {α : Type} {step : Declarations → α → Declarations} {xs : List α} (h : d.tables.Homed)
    (hstep : ∀ d', Adds home nodes d d' → ∀ x ∈ xs, Adds home nodes d' (step d' x)) :
    Adds home nodes d (xs.foldl step d) :=
  List.foldlRecOn (motive := Adds home nodes d) xs step (.refl h) fun d' hd' x hx =>
    hd'.trans (hstep d' hd' x hx)

end Adds

/-! ## Changes of symbols -/

section Changes

variable (f : DeclaringFile) (c : Container) {d d' : Declarations} {home : SymbolHome}
  {nodes : NodeId → Prop}

theorem home?_modify_note (id : SymbolId) {change : Symbol → Symbol}
    (h : ∀ s, (change s).parent = s.parent ∧ (change s).isModule = s.isModule) (other : SymbolId) :
    (d.modify id change).home? other = d.home? other := d.tables.symbols.home?_modify id h other

@[simp] theorem home?_addDeclaration (id : SymbolId) (node : NodeId) (other : SymbolId) :
    (d.addDeclaration f id node).home? other = d.home? other := by
  refine home?_modify_note id (fun s => ?_) other
  split
  · exact ⟨rfl, rfl⟩
  · exact ⟨rfl, rfl⟩

@[simp] theorem home?_setLocal (name : String) (id other : SymbolId) :
    (d.setLocal c name id).home? other = d.home? other := by
  cases c with
  | module_ symbol exportsAll =>
    refine home?_modify_note symbol (fun s => ?_) other
    exact ⟨rfl, rfl⟩
  | global => rfl

@[simp] theorem home?_setExport (name : String) (id : SymbolId) (node : NodeId) (other : SymbolId) :
    (d.setExport f c name id node).home? other = d.home? other := by
  unfold setExport
  split
  · rfl
  · split
    · split
      · rfl
      · rfl
    · refine home?_modify_note _ (fun s => ?_) other
      exact ⟨rfl, rfl⟩

@[simp] theorem home?_setExport? (name : Option String) (id : SymbolId) (node : NodeId)
    (other : SymbolId) :
    (d.setExport? f c name id node).home? other = d.home? other := by
  cases name with
  | none => rfl
  | some name => exact home?_setExport f c name id node other

namespace Adds

/-- A change of a symbol that keeps its home, and lists nothing that does not belong there. -/
theorem modify (h : Adds home nodes d d') (id : SymbolId) {change : Symbol → Symbol}
    (hhome : ∀ s, (change s).parent = s.parent ∧ (change s).isModule = s.isModule)
    (hlocals : ∀ s name found, (change s).locals.get? name = some found →
      s.locals.get? name = some found ∨ d'.home? found = some ⟨some id, false⟩)
    (hexports : ∀ s name found, (change s).exports_.get? name = some found →
      s.exports_.get? name = some found ∨ d'.home? found = some ⟨some id, false⟩) :
    Adds home nodes d (d'.modify id change) := by
  have hhomes := d'.tables.symbols.home?_modify id hhome
  -- a symbol is as it was, unless it is the one that changes
  have hsymbol : ∀ {owner : SymbolId} {s : Symbol},
    (d'.modify id change).tables.symbols.get? owner = some s →
      ∃ old, d'.tables.symbols.get? owner = some old ∧ (s = old ∨ owner = id ∧ s = change old) := by
    intro owner s hs
    have hget : (d'.modify id change).tables.symbols.get? owner = _ :=
      SymbolArena.get?_modify _ _ _ _
    rw [hget] at hs
    split at hs
    · next heq =>
      obtain ⟨old, hold, rfl⟩ := Option.map_eq_some_iff.1 hs
      exact ⟨old, hold, .inr ⟨heq.symm, rfl⟩⟩
    · exact ⟨s, hs, .inl rfl⟩
  refine h.trans ⟨h.homed.of_lists hhomes fun other found hfound => ?_, fun other home hother =>
    (hhomes other).trans hother,
    fun n => .inl rfl⟩
  cases hfound with
  | local_ hs hname =>
    obtain ⟨old, hold, rfl | ⟨rfl, rfl⟩⟩ := hsymbol hs
    · exact .inl (.local_ hold hname)
    · exact (hlocals old _ found hname).imp_left (.local_ hold)
  | export_ hs hname =>
    obtain ⟨old, hold, rfl | ⟨rfl, rfl⟩⟩ := hsymbol hs
    · exact .inl (.export_ hold hname)
    · exact (hexports old _ found hname).imp_left (.export_ hold)
  | global hname => exact .inl (.global hname)
  | ambientModule hname => exact .inl (.ambientModule hname)

/-- A change that touches neither the home of a symbol nor what is listed there. -/
theorem modify_note (h : Adds home nodes d d') (id : SymbolId) {change : Symbol → Symbol}
    (hnote : ∀ s, ((change s).parent = s.parent ∧ (change s).isModule = s.isModule) ∧
      (change s).locals = s.locals ∧
      (change s).exports_ = s.exports_) : Adds home nodes d (d'.modify id change) := by
  refine h.modify id (fun s => (hnote s).1)
    (fun s name found hfound => .inl ?_) fun s name found hfound => .inl ?_
  · exact (hnote s).2.1 ▸ hfound
  · exact (hnote s).2.2 ▸ hfound

theorem addDeclaration (h : Adds home nodes d d') (id : SymbolId) (node : NodeId) :
    Adds home nodes d (d'.addDeclaration f id node) := by
  refine h.modify_note id fun s => ?_
  split
  · exact ⟨⟨rfl, rfl⟩, rfl, rfl⟩
  · exact ⟨⟨rfl, rfl⟩, rfl, rfl⟩

theorem reportDuplicate (h : Adds home nodes d d') (node : NodeId) (name : String) :
    Adds home nodes d (d'.reportDuplicate f node name) := h.trans (.of_eq h.homed rfl rfl rfl rfl)

theorem setDeclared (h : Adds home nodes d d') {node : NodeId} (hnode : nodes node) {id : SymbolId}
    (hid : d'.home? id = some home) : Adds home nodes d (d'.setDeclared node id) := by
  refine h.trans ⟨h.homed, .refl _, fun n => ?_⟩
  show (d'.declared.insert node id)[n]? = _ ∨ nodes n ∧ ∃ found,
    (d'.declared.insert node id)[n]? = some found ∧ _
  rw [Std.TreeMap.getElem?_insert]
  by_cases hn : node = n
  · subst hn
    rw [if_pos Std.ReflCmp.compare_self]
    exact .inr ⟨hnode, id, rfl, hid⟩
  · rw [if_neg fun heq => hn (Std.LawfulEqOrd.eq_of_compare heq)]
    exact .inl rfl

theorem setLocal (h : Adds home nodes d d') {id : SymbolId} (hid : d'.home? id = some c.home)
    (name : String) :
    Adds home nodes d (d'.setLocal c name id) := by
  cases c with
  | module_ symbol exportsAll =>
    refine h.modify symbol (fun s => ⟨rfl, rfl⟩)
      (fun s other found hfound => ?_) fun s other found hfound => .inl hfound
    exact (Table.get?_set_or hfound).imp_right (by rintro rfl; exact hid)
  | global =>
    refine h.trans ⟨h.homed.of_lists (fun _ => rfl) fun other found hfound => ?_, .refl _,
      fun n => .inl rfl⟩
    cases hfound with
    | local_ hs hname => exact .inl (.local_ hs hname)
    | export_ hs hname => exact .inl (.export_ hs hname)
    | global hname => exact (Table.get?_set_or hname).imp .global (by rintro rfl; exact hid)
    | ambientModule hname => exact .inl (.ambientModule hname)

theorem setExport (h : Adds home nodes d d') {id : SymbolId} (hid : d'.home? id = some c.home)
    (name : String) (node : NodeId) : Adds home nodes d (d'.setExport f c name id node) := by
  unfold Declarations.setExport
  split
  · exact h
  · next symbol exportsAll =>
    split
    · split
      · exact h
      · exact h.reportDuplicate f node name
    · refine h.modify symbol (fun s => ⟨rfl, rfl⟩)
        (fun s other found hfound => .inl hfound) fun s other found hfound => ?_
      exact (Table.get?_set_or hfound).imp_right (by rintro rfl; exact hid)

theorem setExport? (h : Adds home nodes d d') {id : SymbolId} (hid : d'.home? id = some c.home)
    (name : Option String) (node : NodeId) :
    Adds home nodes d (d'.setExport? f c name id node) := by
  cases name with
  | none => exact h
  | some name => exact h.setExport f c hid name node

end Adds

end Changes

/-! ## New symbols -/

variable (f : DeclaringFile) (c : Container) {d d' : Declarations}

/-- The symbol of a container is there. -/
def HasContainer (d : Declarations) (c : Container) : Prop :=
  ∀ symbol, c.symbol? = some symbol → d.Has symbol

theorem Adds.hasContainer {home : SymbolHome} {nodes : NodeId → Prop} (h : Adds home nodes d d')
    {c : Container} (hc : d.HasContainer c) : d'.HasContainer c := by
  intro symbol hsymbol
  obtain ⟨home, hhome⟩ := SymbolArena.exists_home? (hc symbol hsymbol)
  exact SymbolArena.has_of_home? (h.keeps symbol home hhome)

/-- A name of a container stands for a symbol of that home. -/
theorem home?_of_lookup (h : d.tables.Homed) {name : String} {id : SymbolId}
    (hid : d.lookup c name = some id) :
    d.home? id = some c.home := by
  cases c with
  | module_ symbol exportsAll =>
    obtain ⟨s, hs, hname⟩ := Option.bind_eq_some_iff.1 hid
    exact h.home_eq _ _ (.local_ hs hname)
  | global => exact h.home_eq _ _ (.global hid)

/-- The arena with a new symbol that has one declaration. -/
theorem isWith_added (flags : SymbolFlags) (name : String) (node : NodeId) :
    d.tables.symbols.IsWith
      ((d.alloc f flags name).1.addDeclaration f (d.alloc f flags name).2 node).tables.symbols
      { id := ⟨d.tables.symbols.size⟩, name, flags, file := f.id,
        declarations := [⟨f.id, some node⟩] } :=
  (d.tables.symbols.isWith_alloc flags name f.id).modify _

/-- A new symbol in a container has the home of what the container lists. -/
theorem adds_addUnnamed (h : d.tables.Homed) (hc : d.HasContainer c) {flags : SymbolFlags}
    (hflags : flags.IsPlain) (name : String) (node : NodeId) :
    Adds c.home (· = node) d (d.addUnnamed f c flags name node).1 ∧
      (d.addUnnamed f c flags name node).1.home? (d.addUnnamed f c flags name node).2 =
        some c.home := by
  let placed := ((d.alloc f flags name).1.addDeclaration f (d.alloc f flags name).2 node).setParent
    (d.alloc f flags name).2 c
  have hnew := (isWith_added f flags name node (d := d)).modify fun s =>
    { s with parent := c.symbol? }
  have hhome : c.home = ⟨c.symbol?, flags.meets SymbolFlags.file⟩ := by rw [Container.home, hflags]
  obtain ⟨hhomed, hkeeps, hself⟩ :=
    h.of_new (u := placed.tables) hnew rfl rfl (fun parent hparent => hc parent hparent) rfl rfl
  have hplaced : Adds c.home (· = node) d placed := ⟨hhomed, hkeeps, fun n => .inl rfl⟩
  have hplacedHome : placed.home? ⟨d.tables.symbols.size⟩ = some c.home :=
    hself.trans (congrArg some hhome.symm)
  exact ⟨hplaced.setDeclared rfl hplacedHome, hplacedHome⟩

/-! ## Declaring one name -/

/-- A name is declared in its container, with a new symbol or with one that the container lists. -/
theorem adds_declare (h : d.tables.Homed) (hc : d.HasContainer c) {flags : SymbolFlags}
    (hflags : flags.IsPlain) (name : String) (node : NodeId) (exportName : Option String) :
    Adds c.home (· = node) d (d.declare f c flags name node exportName).1 ∧
      (d.declare f c flags name node exportName).1.home?
        (d.declare f c flags name node exportName).2 = some c.home := by
  unfold declare
  split
  · next known hknown =>
    have hhome := home?_of_lookup c h hknown
    -- the declaration joins the symbol of the name, or is reported
    have hjoined : Adds c.home (· = node) d
        (if ((d.symbol? known).elim .empty Symbol.flags).canMerge flags then
          (d.modify known fun s => { s with flags := s.flags.union flags }).addDeclaration
            f known node
        else d.reportDuplicate f node name) := by
      split
      · refine Adds.addDeclaration f (Adds.modify_note (.refl h) known fun s => ?_) known node
        exact ⟨⟨rfl, SymbolFlags.meets_union hflags s.flags⟩, rfl, rfl⟩
      · exact Adds.reportDuplicate f (.refl h) node name
    have hdeclared := hjoined.setDeclared rfl (hjoined.keeps known _ hhome)
    have hexported := hdeclared.setExport? f c (hdeclared.keeps known _ hhome) exportName node
    exact ⟨hexported, hexported.keeps known _ hhome⟩
  · obtain ⟨hadded, hhome⟩ := adds_addUnnamed f c h hc hflags name node
    refine ⟨(hadded.setLocal c hhome name).setExport? f c ?_ exportName node, ?_⟩
    · rw [home?_setLocal]
      exact hhome
    · rw [home?_setExport?, home?_setLocal]
      exact hhome

theorem adds_declareAlias (h : d.tables.Homed) (hc : d.HasContainer c) (node : NodeId)
    (declared : AliasDeclaration) :
    Adds c.home (· = node) d (d.declareAlias f c node declared) := by
  unfold declareAlias
  split
  · next known hknown =>
    have hlookup : d.lookup c declared.name = some known := by
      split at hknown
      · exact hknown
      · cases hknown
    have hreported : Adds c.home (· = node) d (d.reportDuplicate f node declared.name) :=
      Adds.reportDuplicate f (.refl h) node declared.name
    exact hreported.setDeclared rfl (home?_of_lookup c h hlookup)
  · have hflags : SymbolFlags.IsPlain (.single .alias_) := by decide
    have hadded := adds_addUnnamed f c h hc hflags declared.name node
    generalize d.addUnnamed f c (.single .alias_) declared.name node = added at hadded ⊢
    obtain ⟨d', id⟩ := added
    obtain ⟨hadded, hhome⟩ := hadded
    let note := fun s : Symbol =>
      { s with aliasOf := some declared.target, typeOnly := declared.typeOnly }
    have hnoted : Adds c.home (· = node) d (d'.modify id note) := hadded.modify_note id fun s =>
      ⟨⟨rfl, rfl⟩, rfl, rfl⟩
    have hhome' : (d'.modify id note).home? id = some c.home := by
      refine (home?_modify_note id (fun s => ?_) id).trans hhome
      exact ⟨rfl, rfl⟩
    dsimp only
    split
    · refine (hnoted.setLocal c hhome' declared.name).setExport? f c ?_ declared.exportName node
      rw [home?_setLocal]
      exact hhome'
    · exact hnoted.setExport? f c hhome' declared.exportName node

/-- A symbol that a declaration without a name gets, and exports. -/
theorem adds_unnamed (h : d.tables.Homed) (hc : d.HasContainer c) {flags : SymbolFlags}
    (hflags : flags.IsPlain) (name : String) (node : NodeId) :
    Adds c.home (· = node) d ((d.addUnnamed f c flags name node).1.setExport f c name
      (d.addUnnamed f c flags name node).2 node) := by
  obtain ⟨hadded, hhome⟩ := adds_addUnnamed f c h hc hflags name node
  exact hadded.setExport f c hhome name node

/-- What a statement names gets a symbol in the container of the statement. -/
theorem adds_declareNamed (h : d.tables.Homed) (hc : d.HasContainer c) {flags : SymbolFlags}
    (hflags : flags.IsPlain) (node : NodeId) (name : Slot) (modifiers : Modifiers) :
    Adds c.home (· = node) d (d.declareNamed f c flags node name modifiers).1 ∧
      ∀ id, (d.declareNamed f c flags node name modifiers).2 = some id →
        (d.declareNamed f c flags node name modifiers).1.home? id = some c.home := by
  unfold declareNamed
  dsimp only
  split
  · next text _ =>
    obtain ⟨hadded, hhome⟩ := adds_declare f c h hc hflags text node
      (if (modifiers.contains .export_ && modifiers.contains .default_) = true then some "default"
        else if (modifiers.contains .export_ || c.exportsAll) = true then some text else none)
    refine ⟨hadded, fun id hid => ?_⟩
    obtain rfl := Option.some.inj hid
    exact hhome
  · split
    · obtain ⟨hadded, hhome⟩ := adds_addUnnamed f c h hc hflags "default" node
      refine ⟨hadded.setExport f c hhome "default" node, fun id hid => ?_⟩
      obtain rfl := Option.some.inj hid
      rw [home?_setExport]
      exact hhome
    · exact ⟨.refl h, fun id hid => by cases hid⟩

theorem declared_setLocal (name : String) (id : SymbolId) :
    (d.setLocal c name id).declared = d.declared := by
  cases c with
  | module_ symbol exportsAll => rfl
  | global => rfl

theorem declared_setExport (name : String) (id : SymbolId) (node : NodeId) :
    (d.setExport f c name id node).declared = d.declared := by
  unfold setExport
  split
  · rfl
  · split
    · split
      · rfl
      · rfl
    · rfl

theorem declared_setExport? (name : Option String) (id : SymbolId) (node : NodeId) :
    (d.setExport? f c name id node).declared = d.declared := by
  cases name with
  | none => rfl
  | some name => exact declared_setExport f c name id node

/-- A node is declared as the symbol that it is said to be. -/
theorem declared_declareNamed {flags : SymbolFlags} (node : NodeId) (name : Slot)
    (modifiers : Modifiers) {id : SymbolId}
    (hid : (d.declareNamed f c flags node name modifiers).2 = some id) :
    (d.declareNamed f c flags node name modifiers).1.declared[node]? = some id := by
  unfold declareNamed at hid ⊢
  dsimp only at hid ⊢
  split at hid
  · obtain rfl := Option.some.inj hid
    unfold declare
    split
    · rw [declared_setExport?]
      exact Std.TreeMap.getElem?_insert_self
    · rw [declared_setExport?, declared_setLocal]
      exact Std.TreeMap.getElem?_insert_self
  · split at hid
    · next hdefault =>
      obtain rfl := Option.some.inj hid
      rw [if_pos hdefault, declared_setExport]
      exact Std.TreeMap.getElem?_insert_self
    · cases hid

/-! ## Other symbols -/

/-- A new member of an enum is listed before it is told its home, which makes no difference. -/
theorem addMember_eq (owner : SymbolId) (name : String) (node : NodeId) :
    d.addMember f owner name node =
      ((((d.alloc f (.single .enumMember) name).1.addDeclaration f
        (d.alloc f (.single .enumMember) name).2 node).modify
        (d.alloc f (.single .enumMember) name).2 fun s => { s with parent := some owner }).modify
        owner fun s => { s with
          exports_ := s.exports_.set name (d.alloc f (.single .enumMember) name).2 }).setDeclared
        node (d.alloc f (.single .enumMember) name).2 := by
  unfold addMember
  dsimp only
  refine congrArg
    (fun added : Declarations => added.setDeclared node (d.alloc f (.single .enumMember) name).2) ?_
  refine congrArg (fun symbols => Declarations.mk { Declarations.tables _ with symbols } _ _) ?_
  exact SymbolArena.modify_comm _ _ _ fun s => rfl

/-- A new member of an enum has the enum as its home. -/
theorem adds_addMember (h : d.tables.Homed) {owner : SymbolId} (howner : d.Has owner)
    (name : String) (node : NodeId) :
    Adds ⟨some owner, false⟩ (· = node) d (d.addMember f owner name node) := by
  rw [addMember_eq]
  let place := fun s : Symbol => { s with parent := some owner }
  have hnew := (isWith_added f (.single .enumMember) name node (d := d)).modify place
  have hflags : SymbolFlags.IsPlain (.single .enumMember) := by decide
  generalize hid : (d.alloc f (.single .enumMember) name).2 = id
  obtain rfl : ⟨d.tables.symbols.size⟩ = id := hid
  generalize hplaced :
    ((d.alloc f (.single .enumMember) name).1.addDeclaration f ⟨d.tables.symbols.size⟩ node).modify
    ⟨d.tables.symbols.size⟩ place = placed
  have hparent : ∀ parent, some owner = some parent → d.Has parent := by
    rintro parent ⟨⟩
    exact howner
  obtain ⟨hhomed, hkeeps, hself⟩ :=
    h.of_new (u := placed.tables) (by rw [← hplaced]; exact hnew) rfl rfl hparent
    (by rw [← hplaced]; rfl) (by rw [← hplaced]; rfl)
  have hhome :=
    hself.trans (congrArg (fun isModule => some (SymbolHome.mk (some owner) isModule)) hflags)
  have hadds : Adds ⟨some owner, false⟩ (· = node) d placed :=
    ⟨hhomed, hkeeps, fun n => .inl (by rw [← hplaced]; rfl)⟩
  have hlisted : Adds ⟨some owner, false⟩ (· = node) d
      (placed.modify owner fun s =>
          { s with exports_ := s.exports_.set name ⟨d.tables.symbols.size⟩ }) := by
    refine hadds.modify owner (fun s => ⟨rfl, rfl⟩)
      (fun s other found hfound => .inl hfound) fun s other found hfound => ?_
    exact (Table.get?_set_or hfound).imp_right (by rintro rfl; exact hhome)
  refine hlisted.setDeclared rfl ((home?_modify_note owner (fun s => ?_) _).trans hhome)
  exact ⟨rfl, rfl⟩

theorem adds_redeclare {home : SymbolHome} (h : d.tables.Homed) {known : SymbolId}
    (hknown : d.home? known = some home) (node : NodeId) :
    Adds home (· = node) d (d.redeclare f known node) := by
  have hadded : Adds home (· = node) d (d.addDeclaration f known node) :=
    Adds.addDeclaration f (.refl h) known node
  exact hadded.setDeclared rfl (by rw [home?_addDeclaration]; exact hknown)

/-- A new symbol that lies nowhere. -/
theorem adds_added (h : d.tables.Homed) (flags : SymbolFlags) (name : String) (node : NodeId) :
    Adds ⟨none, flags.meets SymbolFlags.file⟩ (· = node) d
        ((d.alloc f flags name).1.addDeclaration f (d.alloc f flags name).2 node) ∧
      ((d.alloc f flags name).1.addDeclaration f (d.alloc f flags name).2 node).home?
        (d.alloc f flags name).2 =
        some ⟨none, flags.meets SymbolFlags.file⟩ := by
  obtain ⟨hhomed, hkeeps, hself⟩ :=
    h.of_new (u := Declarations.tables _) (isWith_added f flags name node (d := d)) rfl rfl
    (fun parent hparent => by cases hparent) rfl rfl
  exact ⟨⟨hhomed, hkeeps, fun n => .inl rfl⟩, hself⟩

/-- A module with a quoted name lies nowhere. -/
theorem adds_declareAmbientModule (h : d.tables.Homed) (node : NodeId) (text : String) :
    Adds ⟨none, true⟩ (· = node) d (d.declareAmbientModule f node text).1 ∧
      (d.declareAmbientModule f node text).1.home? (d.declareAmbientModule f node text).2 =
        some ⟨none, true⟩ := by
  unfold declareAmbientModule
  split
  · next known hknown =>
    have hhome := h.home_eq _ _ (.ambientModule hknown)
    have hadded := adds_redeclare f h hhome node
    exact ⟨hadded, hadded.keeps known _ hhome⟩
  · let named := "\x22" ++ text ++ "\x22"
    obtain ⟨hadded, hhome⟩ := adds_added f h (.single .ambientModule) named node
    let added := (d.alloc f (.single .ambientModule) named).1.addDeclaration f
      (d.alloc f (.single .ambientModule) named).2 node
    let id := (d.alloc f (.single .ambientModule) named).2
    have hlisted : Adds ⟨none, true⟩ (· = node) d
        { added with tables.ambientModules := added.tables.ambientModules.set text id } := by
      refine hadded.trans ⟨hadded.homed.of_lists (fun _ => rfl) fun other found hfound => ?_,
        .refl _, fun n => .inl rfl⟩
      cases hfound with
      | local_ hs hname => exact .inl (.local_ hs hname)
      | export_ hs hname => exact .inl (.export_ hs hname)
      | global hname => exact .inl (.global hname)
      | ambientModule hname =>
        exact (Table.get?_set_or hname).imp .ambientModule (by rintro rfl; exact hhome)
    exact ⟨hlisted.setDeclared rfl hhome, hhome⟩

/-- The symbol of a file lies nowhere. -/
theorem adds_addFile (h : d.tables.Homed) (root : NodeId) :
    Adds ⟨none, true⟩ (· = root) d (d.addFile f root) ∧
      (d.addFile f root).home? ⟨d.tables.symbols.size⟩ = some ⟨none, true⟩ := by
  obtain ⟨hadded, hhome⟩ := adds_added f h (.single .sourceFile) ("\x22" ++ f.path ++ "\x22") root
  exact ⟨hadded.setDeclared rfl hhome, hhome⟩

end Declarations

end DeclBundle
