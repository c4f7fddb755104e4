import DeclBundle.Proofs.AskedAliases
import DeclBundle.Proofs.SingleFiles
import DeclBundle.Proofs.SoundSymbols

/-!
# What is collected is the least closed set

Exports need what they stand for, a kept declaration needs what walks over it find, and a module
that is used as a whole needs what it exports under a name (`Project.Needs`). A collection is closed
when it has everything that is needed (`Collection.IsClosed`). Collecting for given exports ends
exactly when all searches for the targets of aliases do that it asks for. It keeps no symbol twice,
collects nothing but what is needed, and is closed exactly when no import type in a kept declaration
means a global name: there is no name to reserve for one (`Project.collect_least_closed_iff`). There
are collections that are not closed (`Project.exists_not_closed`), and some that do not end
(`Project.exists_endless_collecting`).
-/

set_option autoImplicit false

namespace DeclBundle

/-! ## What is needed -/

/-- The given exports need a target. -/
inductive Project.Needs (p : Project) (exports_ : List ModuleExport) : Target → Prop where
  /-- An export stands for it. -/
  | export_ (e : ModuleExport) (target : Target) (he : e ∈ exports_)
    (h : p.target? e.symbol = some target) :
    Needs p exports_ target
  /-- It is found in a declaration that is needed, or in its outermost container. -/
  | found (id : SymbolId) (name : NodeRef) (target : Target)
    (hid : Needs p exports_ (.declaration id))
      (h : p.Finds ((p.topContainer? id).getD id) name target) : Needs p exports_ target
  /-- A module that is needed as a whole exports it under a name. -/
  | exported (id : SymbolId) (localName : Option String) (e : ModuleExport) (target : Target)
      (hid : Needs p exports_ (.module_ id localName)) (he : e ∈ p.exportsOf id)
      (hname : isUnnamedExport e.name = false) (h : p.target? e.symbol = some target) :
    Needs p exports_ target

/-- A dotted name, which is no import type. -/
def Project.IsEntityName (p : Project) (name : NodeRef) : Prop :=
  ∃ a, p.arena? name.file = some a ∧ isDottedName a name.node = true

namespace Collection

/-- The collection has a place for a target. A declaration is kept with its outermost container,
unless nothing of that can be written. -/
def Has (p : Project) (c : Collection) : Target → Prop
  | .declaration id =>
    (p.topContainer? id).getD id ∈ c.kept ∨
      (p.topContainer? id).getD id ∈ c.skipped ∧
        p.writtenDeclarations ((p.topContainer? id).getD id) = []
  | .module_ id _ => c.namespaces.contains id = true
  | .external i => c.externals.contains i.symbol = true
  | .ambient => True

/-- The collection has everything that it needs. -/
structure IsClosed (p : Project) (exports_ : List ModuleExport) (c : Collection) : Prop where
  /-- What the exports stand for. -/
  exports_ : ∀ e ∈ exports_, ∀ target, p.target? e.symbol = some target → c.Has p target
  /-- What walks over kept declarations find. -/
  found : ∀ id ∈ c.kept, ∀ name target, p.Finds id name target → c.Has p target
  /-- What modules that are used as a whole export under a name. -/
  exported : ∀ id, c.namespaces.contains id = true → ∀ e ∈ p.exportsOf id,
    isUnnamedExport e.name = false →
    ∀ target, p.target? e.symbol = some target → c.Has p target
  /-- Names that mean something global start with a reserved name. -/
  reserved : ∀ id ∈ c.kept, ∀ name, p.Finds id name .ambient →
    p.IsEntityName name ∧ ∃ text, p.firstText? name = some text ∧ text ∈ c.reserved

/-- The collection has nothing but what the exports need. -/
structure IsNeeded (p : Project) (exports_ : List ModuleExport) (c : Collection) : Prop where
  kept : ∀ owner ∈ c.kept, ∃ id, p.Needs exports_ (.declaration id) ∧
    (p.topContainer? id).getD id = owner
  namespaces : ∀ id, c.namespaces.contains id = true → ∃ localName,
    p.Needs exports_ (.module_ id localName)
  externals : ∀ id, c.externals.contains id = true → ∃ i, p.Needs exports_ (.external i) ∧
    i.symbol = id

end Collection

/-! ## Modules and declarations -/

/-- The symbol is a file or a module with a quoted name. -/
def Project.isModuleSymbol (p : Project) (id : SymbolId) : Bool :=
  (p.symbol? id).any Symbol.isModule

/-- Declarations are no modules, and neither are the namespaces that they are in. -/
def Target.IsSorted (p : Project) : Target → Prop
  | .declaration id => p.isModuleSymbol ((p.topContainer? id).getD id) = false
  | .module_ id _ => p.isModuleSymbol id = true
  | _ => True

section Targets

variable {p : Project}

theorem isModuleSymbol_outermostTo {hops : Nat} {id outer : SymbolId}
    (h : p.outermostTo hops id = some outer) (hid : p.isModuleSymbol id = false) :
    p.isModuleSymbol outer = false := by
  induction hops generalizing id with
  | zero =>
    obtain rfl := Option.some.inj h
    exact hid
  | succ hops ih =>
    simp only [Project.outermostTo, Option.bind_eq_bind, Option.bind_eq_some_iff] at h
    obtain ⟨s, -, h⟩ := h
    split at h
    · obtain rfl := Option.some.inj h
      exact hid
    · next parent _ =>
      obtain ⟨container, hcontainer, h⟩ := Option.bind_eq_some_iff.1 h
      split at h
      · obtain rfl := Option.some.inj h
        exact hid
      · next hmodule => exact ih h (by simpa [Project.isModuleSymbol, hcontainer] using hmodule)

theorem isModuleSymbol_topContainer {id : SymbolId} (hid : p.isModuleSymbol id = false) :
    p.isModuleSymbol ((p.topContainer? id).getD id) = false := by
  unfold Project.topContainer?
  cases houter : p.outermostTo (Project.maxContainers + 1) id with
  | none => exact hid
  | some outer =>
    have hmodule := isModuleSymbol_outermostTo houter hid
    simp only [Option.filter_some]
    split
    · exact hmodule
    · exact hid

/-- What a symbol stands for is a module, or else a declaration. -/
theorem exists_of_targetTo {hops : Nat} {visited : List SymbolId} {hint : Option ImportHint}
    {localName : Option String} {id : SymbolId} {target : Target}
    (h : p.targetTo hops visited hint localName id = some target) :
    ∃ id s hint localName,
      p.symbol? id = some s ∧ (s.isModule = true ∧ target = p.moduleTarget id hint localName ∨
      s.isModule = false ∧ target = p.declarationTarget s hint localName) := by
  induction hops generalizing visited hint localName id with
  | zero => cases h
  | succ hops ih =>
    simp only [Project.targetTo, Option.bind_eq_bind, Option.bind_eq_some_iff] at h
    obtain ⟨s, hs, h⟩ := h
    split at h
    · next hmodule => exact ⟨id, s, hint, localName, hs, .inl ⟨hmodule, (Option.some.inj h).symm⟩⟩
    · next hmodule =>
      split at h
      · exact ⟨id, s, hint, localName, hs, .inr ⟨by simpa using hmodule, (Option.some.inj h).symm⟩⟩
      · split at h
        · cases h
        · obtain ⟨next, -, h⟩ := Option.bind_eq_some_iff.1 h
          exact ih h

theorem exists_of_found {name : NodeRef} {target : Target} (h : p.found? name = some target) :
    ∃ named hint, p.targetWith? named hint = some target := by
  unfold Project.found? at h
  split at h
  · cases h
  · simp only [Project.meaning?, Option.bind_eq_bind, Option.bind_eq_some_iff] at h
    obtain ⟨start, -, h⟩ := h
    unfold Project.meaningFrom? at h
    obtain ⟨named, -, h⟩ := Option.bind_eq_some_iff.1 h
    exact ⟨_, _, h⟩

/-- Whatever is needed is what some symbol stands for. -/
theorem exists_of_needs {exports_ : List ModuleExport} {target : Target}
    (h : p.Needs exports_ target) :
    ∃ named hint, p.targetWith? named hint = some target := by
  cases h with
  | export_ e _ _ h => exact ⟨_, _, h⟩
  | found _ _ _ _ h =>
    cases h with
    | intro _ _ _ _ _ _ hfound => exact exists_of_found hfound
  | exported _ _ e _ _ _ _ h => exact ⟨_, _, h⟩

variable (hnumbered : ∀ id s, p.symbol? id = some s → s.id = id)

include hnumbered

/-- What symbols stand for is sorted into modules and declarations. -/
theorem isSorted_of_targetWith? {id : SymbolId} {hint : Option ImportHint} {target : Target}
    (h : p.targetWith? id hint = some target) : target.IsSorted p := by
  have hexternal : ∀ id name hint localName,
      (p.externalTarget id name hint localName).IsSorted p := by
    intro id name hint localName
    unfold Project.externalTarget
    split
    · trivial
    · trivial
  obtain ⟨id, s, hint, localName, hs, ⟨hmodule, rfl⟩ | ⟨hmodule, rfl⟩⟩ := exists_of_targetTo h
  · unfold Project.moduleTarget
    split
    · simpa [Target.IsSorted, Project.isModuleSymbol, hs] using hmodule
    · trivial
    · exact hexternal _ _ _ _
  · unfold Project.declarationTarget
    split
    · apply isModuleSymbol_topContainer
      rw [hnumbered id s hs]
      simpa [Project.isModuleSymbol, hs] using hmodule
    · trivial
    · exact hexternal _ _ _ _

theorem isSorted_of_found {name : NodeRef} {target : Target} (h : p.found? name = some target) :
    target.IsSorted p := by
  obtain ⟨named, hint, hmeant⟩ := exists_of_found h
  exact isSorted_of_targetWith? hnumbered hmeant

theorem isSorted_of_needs {exports_ : List ModuleExport} {target : Target}
    (h : p.Needs exports_ target) :
    target.IsSorted p := by
  obtain ⟨named, hint, hmeant⟩ := exists_of_needs h
  exact isSorted_of_targetWith? hnumbered hmeant

end Targets

namespace Collecting

variable {p : Project}

/-! ## Nothing but what is needed -/

/-- What was visited is kept, skipped or a module, nothing is kept twice, and all of it is
needed. -/
structure IsBooked (p : Project) (exports_ : List ModuleExport) (c : Collecting) : Prop where
  nodup : c.found.kept.Nodup
  kept_visited : ∀ id ∈ c.found.kept, id ∈ c.visited
  declaration : ∀ id ∈ c.visited, p.isModuleSymbol id = false →
    id ∈ c.found.kept ∨ id ∈ c.found.skipped ∧ p.writtenDeclarations id = []
  module_ : ∀ id ∈ c.visited, p.isModuleSymbol id = true → c.found.namespaces.contains id = true
  needed : c.found.IsNeeded p exports_

namespace IsBooked

variable {exports_ : List ModuleExport} {c : Collecting} (h : IsBooked p exports_ c)

include h

theorem of_notes {c' : Collecting} (hnotes : Notes c c') : IsBooked p exports_ c' := by
  constructor
  · rw [hnotes.kept]
    exact h.nodup
  · rw [hnotes.kept, hnotes.visited]
    exact h.kept_visited
  · rw [hnotes.kept, hnotes.visited, hnotes.skipped]
    exact h.declaration
  · rw [hnotes.visited, hnotes.namespaces]
    exact h.module_
  · constructor
    · rw [hnotes.kept]
      exact h.needed.kept
    · rw [hnotes.namespaces]
      exact h.needed.namespaces
    · rw [hnotes.externals]
      exact h.needed.externals

theorem addExternal {i : ExternalImport} (hneeds : p.Needs exports_ (.external i)) :
    IsBooked p exports_ (c.addExternal i) := by
  unfold Collecting.addExternal
  split
  · exact h
  · refine ⟨h.nodup, h.kept_visited, h.declaration, h.module_, h.needed.kept,
      h.needed.namespaces, ?_⟩
    intro id hid
    rcases Table.contains_set.1 hid with rfl | hid
    · exact ⟨i, hneeds, rfl⟩
    · exact h.needed.externals id hid

theorem skip {owner : SymbolId} (hsorted : p.isModuleSymbol owner = false)
    (hwritten : p.writtenDeclarations owner = []) :
    IsBooked p exports_ (c.skip owner) := by
  refine ⟨h.nodup, fun id hid => List.mem_cons_of_mem _ (h.kept_visited id hid), ?_, ?_,
    h.needed.kept,
    h.needed.namespaces, h.needed.externals⟩
  · intro id hid hmodule
    rcases List.mem_cons.1 hid with rfl | hid
    · exact .inr ⟨List.mem_append_right _ (List.mem_singleton.2 rfl), hwritten⟩
    · exact (h.declaration id hid hmodule).imp_right fun hskipped =>
        ⟨List.mem_append_left _ hskipped.1, hskipped.2⟩
  · intro id hid hmodule
    rcases List.mem_cons.1 hid with rfl | hid
    · rw [hsorted] at hmodule
      cases hmodule
    · exact h.module_ id hid hmodule

theorem keep {id owner : SymbolId} (hfresh : owner ∉ c.visited)
    (hneeds : p.Needs exports_ (.declaration id)) (howner : (p.topContainer? id).getD id = owner)
    (hsorted : p.isModuleSymbol owner = false) :
    IsBooked p exports_ (c.keep owner) := by
  have hlast : owner ∈ c.found.kept ++ [owner] := List.mem_append_right _ (List.mem_singleton.2 rfl)
  refine ⟨?_, ?_, ?_, ?_, ?_, h.needed.namespaces, h.needed.externals⟩
  · show (c.found.kept ++ [owner]).Nodup
    rw [List.nodup_append]
    refine ⟨h.nodup, List.nodup_singleton owner, ?_⟩
    intro a ha b hb hab
    obtain rfl := List.mem_singleton.1 hb
    exact hfresh (h.kept_visited b (hab ▸ ha))
  · intro other hother
    rcases List.mem_append.1 hother with hother | hother
    · exact List.mem_cons_of_mem _ (h.kept_visited other hother)
    · exact List.mem_cons.2 (.inl (List.mem_singleton.1 hother))
  · intro other hother hmodule
    rcases List.mem_cons.1 hother with rfl | hother
    · exact .inl hlast
    · exact (h.declaration other hother hmodule).imp_left fun hkept => List.mem_append_left _ hkept
  · intro other hother hmodule
    rcases List.mem_cons.1 hother with rfl | hother
    · rw [hsorted] at hmodule
      cases hmodule
    · exact h.module_ other hother hmodule
  · intro other hother
    rcases List.mem_append.1 hother with hother | hother
    · exact h.needed.kept other hother
    · exact ⟨id, hneeds, howner.trans (List.mem_singleton.1 hother).symm⟩

theorem enter {id : SymbolId} {localName : Option String}
    (hneeds : p.Needs exports_ (.module_ id localName)) (hsorted : p.isModuleSymbol id = true)
    (name : String) : IsBooked p exports_ (c.enter id name) := by
  refine ⟨h.nodup, fun other hother => List.mem_cons_of_mem _ (h.kept_visited other hother), ?_, ?_,
    h.needed.kept, ?_,
    h.needed.externals⟩
  · intro other hother hmodule
    rcases List.mem_cons.1 hother with rfl | hother
    · rw [hsorted] at hmodule
      cases hmodule
    · exact h.declaration other hother hmodule
  · intro other hother hmodule
    apply Table.contains_set.2
    rcases List.mem_cons.1 hother with rfl | hother
    · exact .inl rfl
    · exact .inr (h.module_ other hother hmodule)
  · intro other hother
    rcases Table.contains_set.1 hother with rfl | hother
    · exact ⟨localName, hneeds⟩
    · exact h.needed.namespaces other hother

end IsBooked

section Booked

variable {exports_ : List ModuleExport} (hnumbered : ∀ id s, p.symbol? id = some s → s.id = id)

include hnumbered

/-- A visit of something that is needed leaves the books in order. -/
theorem isBooked_visitTo (depth : Nat) {target : Target} (hneeds : p.Needs exports_ target)
    {c : Collecting} (h : IsBooked p exports_ c) :
    IsBooked p exports_ (visitTo p depth target c) := by
  induction depth generalizing target c with
  | zero => exact h
  | succ depth ih =>
    have hsorted := isSorted_of_needs hnumbered hneeds
    rw [visitTo]
    cases target with
    | ambient => exact h
    | external i => exact h.addExternal hneeds
    | declaration id =>
      simp only [visitTarget, visitDeclaration]
      split
      · exact h
      · next hfresh =>
        split
        · next hwritten => exact h.skip hsorted hwritten
        · -- everything that is found in the declaration is needed, too
          have hkeeps :
              KeepsFound p (visitTo p depth) ((p.topContainer? id).getD id) (IsBooked p exports_) :=
            ⟨fun _ _ hnotes hc => hc.of_notes hnotes, fun name target c hfinds hc =>
              ih (.found id name target hneeds hfinds) hc⟩
          exact hkeeps.walkAll _ (h.keep (by simpa using hfresh) hneeds rfl hsorted)
    | module_ id localName =>
      simp only [visitTarget, visitModule]
      split
      · exact h
      · apply List.foldlRecOn (motive := IsBooked p exports_) _ _ (h.enter hneeds hsorted _)
        intro c hc e he
        split
        · exact hc
        · next hname =>
          unfold visitSymbol
          split
          · next target htarget =>
              exact ih (.exported id localName e target hneeds he (by simpa using hname) htarget) hc
          · exact hc

end Booked

/-! ## Everything that is needed -/

/-- The visit of a target has begun. -/
def Reached (p : Project) (target : Target) (c : Collecting) : Prop :=
  match target with
  | .declaration id => (p.topContainer? id).getD id ∈ c.visited
  | .module_ id _ => id ∈ c.visited
  | .external i => c.found.externals.contains i.symbol = true
  | .ambient => True

/-- A target that is found at a name is reached. Instead of a global one a name is reserved, if
there is one. -/
def Met (p : Project) (name : NodeRef) (target : Target) (c : Collecting) : Prop :=
  Reached p target c ∧
    (target = .ambient → ∀ text, p.firstText? name = some text → text ∈ c.found.reserved)

theorem keeps_reached (p : Project) (target : Target) : Keeps p (Reached p target) := by
  constructor
  case toKeepsNotes =>
    constructor
    case reserve =>
      intro file identifier c h
      have hnotes := Notes.reserve (p := p) file identifier c
      unfold Reached
      rw [hnotes.visited, hnotes.externals]
      exact h
    case addReference => exact fun _ _ _ h _ => h
    case pass => exact fun _ h => h
  case addExternal =>
    intro i c h
    unfold addExternal
    split
    · exact h
    · cases target with
      | external j => exact Table.contains_set.2 (.inr h)
      | _ => exact h
  all_goals
    intros
    cases target with
    | declaration | module_ =>
      apply List.mem_cons_of_mem
      assumption
    | _ => assumption

theorem keeps_reserved (p : Project) (text : String) : Keeps p fun c =>
  text ∈ c.found.reserved := by
  constructor
  case toKeepsNotes =>
    constructor
    case reserve => exact fun file identifier c h => (Notes.reserve file identifier c).reserved h
    case addReference => exact fun _ _ _ h _ => h
    case pass => exact fun _ h => h
  case addExternal =>
    intro i c h
    unfold addExternal
    split
    · exact h
    · exact h
  case skip => exact fun _ _ h _ _ => h
  case keep => exact fun _ _ h _ _ => h
  case enter => exact fun _ _ _ h _ => h

theorem Reached.of_notes {target : Target} {c c' : Collecting} (h : Reached p target c)
    (hnotes : Notes c c') :
    Reached p target c' := by
  unfold Reached
  rw [hnotes.visited, hnotes.externals]
  exact h

theorem Met.of_notes {name : NodeRef} {target : Target} {c c' : Collecting}
    (h : Met p name target c) (hnotes : Notes c c') : Met p name target c' :=
  ⟨h.1.of_notes hnotes, fun htarget text htext => hnotes.reserved (h.2 htarget text htext)⟩

theorem Met.visitTo {name : NodeRef} {found : Target} {c : Collecting} (h : Met p name found c)
    (depth : Nat) (target : Target) : Met p name found (visitTo p depth target c) :=
  ⟨(keeps_reached p found).visitTo depth target c h.1,
    fun hfound text htext => (keeps_reserved p text).visitTo depth target c (h.2 hfound text htext)⟩

/-- A visit reaches its target. -/
theorem reached_visitTo {depth : Nat} (hdepth : p.tables.symbols.size < depth) (target : Target)
    (c : Collecting) :
    Reached p target (visitTo p depth target c) := by
  -- what is reached once stays reached, so only the first step counts
  have hkeeps := (keeps_reached p target).visitTo depth
  rw [visitTo_eq hdepth]
  cases target with
  | ambient => trivial
  | external i =>
    simp only [visitTarget, addExternal]
    split
    · next hknown => exact hknown
    · exact Table.contains_set.2 (.inl rfl)
  | declaration id =>
    have hmarked := List.mem_cons_self (a := (p.topContainer? id).getD id) (l := c.visited)
    simp only [visitTarget, visitDeclaration]
    split
    · next hknown => exact List.contains_iff_mem.1 hknown
    · split
      · exact hmarked
      · have hwalk : KeepsFound p (visitTo p depth) ((p.topContainer? id).getD id)
            (Reached p (.declaration id)) :=
          ⟨fun _ _ hnotes h => h.of_notes hnotes, fun _ target c _ h => hkeeps target c h⟩
        exact hwalk.walkAll _ hmarked
  | module_ id localName =>
    simp only [visitTarget, visitModule]
    split
    · next hknown => exact List.contains_iff_mem.1 hknown
    · apply List.foldlRecOn (motive := Reached p (.module_ id localName))
      · exact List.mem_cons_self
      · intro c hc e _
        split
        · exact hc
        · exact Keeps.visitSymbol hkeeps e.symbol c hc

/-- A later collection has reached all that an earlier one has, and all that is found in what was
added. -/
structure Closes (p : Project) (c c' : Collecting) : Prop where
  reached : ∀ target, Reached p target c → Reached p target c'
  reserved : c.found.reserved ⊆ c'.found.reserved
  found : ∀ id ∈ c'.found.kept, id ∉ c.found.kept → ∀ name target, p.Finds id name target →
    Met p name target c'
  exported : ∀ id, c'.found.namespaces.contains id = true → c.found.namespaces.contains id = false →
    ∀ e ∈ p.exportsOf id, isUnnamedExport e.name = false → ∀ target,
      p.target? e.symbol = some target →
      Reached p target c'

namespace Closes

theorem met {c c' : Collecting} (h : Closes p c c') {name : NodeRef} {target : Target}
    (hmet : Met p name target c) :
    Met p name target c' :=
  ⟨h.reached target hmet.1, fun htarget text htext => h.reserved (hmet.2 htarget text htext)⟩

/-- A step that keeps no symbol and uses no module has nothing to close. -/
theorem of_reached {c c' : Collecting}
    (hreached : ∀ target, Reached p target c → Reached p target c')
    (hreserved : c.found.reserved ⊆ c'.found.reserved) (hkept : c'.found.kept = c.found.kept)
    (hnamespaces : c'.found.namespaces = c.found.namespaces) : Closes p c c' := by
  refine ⟨hreached, hreserved, fun id hid hnew => absurd (hkept ▸ hid) hnew, fun id hid hnew => ?_⟩
  rw [hnamespaces, hnew] at hid
  cases hid

theorem of_notes {c c' : Collecting} (hnotes : Notes c c') : Closes p c c' :=
  of_reached (fun _ h => h.of_notes hnotes) hnotes.reserved hnotes.kept hnotes.namespaces

theorem refl (c : Collecting) : Closes p c c := of_notes (.refl c)

theorem trans {c₁ c₂ c₃ : Collecting} (h₁ : Closes p c₁ c₂) (h₂ : Closes p c₂ c₃) :
    Closes p c₁ c₃ := by
  refine ⟨fun target h => h₂.reached target (h₁.reached target h),
    List.Subset.trans h₁.reserved h₂.reserved, ?_, ?_⟩
  · intro id hid hnew name target hfinds
    by_cases hmiddle : id ∈ c₂.found.kept
    · exact h₂.met (h₁.found id hmiddle hnew name target hfinds)
    · exact h₂.found id hid hmiddle name target hfinds
  · intro id hid hnew e he hname target htarget
    cases hmiddle : c₂.found.namespaces.contains id with
    | true => exact h₂.reached target (h₁.exported id hmiddle hnew e he hname target htarget)
    | false => exact h₂.exported id hid hmiddle e he hname target htarget

end Closes

/-- What is found at a name that a walk visits is met there. -/
theorem met_walkName {depth : Nat} (hdepth : p.tables.symbols.size < depth) {owner : SymbolId}
    {name : NodeRef} {target : Target} (hname : p.IsName name)
    (hfound : p.found? name = some target) (c : Collecting) :
    Met p name target (walkName p (visitTo p depth) owner name c) := by
  cases nameEffect owner hname with
  | nothing hnone => rw [hnone] at hfound; cases hfound
  | reserves hambient note hnote heq hreserved =>
    obtain rfl := Option.some.inj (hambient.symm.trans hfound)
    rw [heq]
    exact ⟨trivial, fun _ text htext => hreserved text htext c⟩
  | visits found h hkey note hnote heq =>
    obtain rfl := Option.some.inj (h.symm.trans hfound)
    rw [heq]
    refine ⟨(reached_visitTo hdepth found c).of_notes (hnote _), ?_⟩
    rintro rfl
    cases hkey

section Inside

variable {depth : Nat} {c : Collecting}

/-- Marking a symbol as visited reaches no less. -/
theorem reached_of_visited {c' : Collecting} (hvisited : c.visited ⊆ c'.visited)
    (hexternals : c'.found.externals = c.found.externals) (target : Target)
    (h : Reached p target c) :
    Reached p target c' := by
  unfold Reached
  rw [hexternals]
  cases target with
  | declaration | module_ => exact hvisited h
  | _ => exact h

variable (ih : ∀ target c', unvisited p c' < unvisited p c →
  Closes p c' (visitTo p depth target c'))

include ih

/-- The visits inside leave fewer symbols that were not visited, and close what they add. -/
theorem closes_inside {c₁ c₂ : Collecting} (target : Target)
    (h : unvisited p c₂ < unvisited p c ∧ Closes p c₁ c₂) :
    unvisited p (visitTo p depth target c₂) < unvisited p c ∧
      Closes p c₁ (visitTo p depth target c₂) :=
  ⟨(keeps_unvisited p _).visitTo depth target c₂ h.1, h.2.trans (ih target c₂ h.1)⟩

theorem closes_visitDeclaration (hdepth : p.tables.symbols.size < depth) (id : SymbolId) :
    Closes p c (visitDeclaration p (visitTo p depth) id c) := by
  unfold visitDeclaration
  dsimp only
  set owner := (p.topContainer? id).getD id
  split
  · exact .refl c
  · next hknown =>
    have hfresh : owner ∉ c.visited := by simpa using hknown
    split
    · exact .of_reached (reached_of_visited (List.subset_cons_self _ _) rfl)
        (List.Subset.refl _) rfl rfl
    · next hwritten =>
      obtain ⟨s, hs⟩ := exists_symbol?_of_written hwritten
      -- one symbol fewer is left, which is what the induction on unvisited symbols needs
      have hlt : unvisited p (c.keep owner) < unvisited p c := unvisited_lt hs hfresh rfl
      have hkeeps : KeepsFound p (visitTo p depth) owner fun c' =>
          unvisited p c' < unvisited p c ∧ Closes p (c.keep owner) c' := by
        constructor
        · intro c₁ c₂ hnotes h
          refine ⟨?_, h.2.trans (.of_notes hnotes)⟩
          unfold unvisited
          rw [hnotes.visited]
          exact h.1
        · exact fun _ target c₂ _ h => closes_inside ih target h
      have hwalked := (hkeeps.walkAll _ ⟨hlt, .refl _⟩).2
      have hmarked : ∀ target, Reached p target c → Reached p target (c.keep owner) :=
        reached_of_visited (List.subset_cons_self _ _) rfl
      refine ⟨fun target h => hwalked.reached target (hmarked target h), hwalked.reserved, ?_,
        hwalked.exported⟩
      intro other hother hnew name target hfinds
      by_cases hself : other = owner
      · -- the names in the declarations of the symbol itself
        subst hself
        obtain ⟨ref, a, href, harena, hfile, hvisits, hfound⟩ := hfinds
        obtain ⟨file, slot⟩ := name
        obtain rfl : file = ref.file := hfile
        apply reaches_walkAll hkeeps _ href harena hvisits _ _ ⟨hlt, .refl _⟩
        · exact ⟨fun _ _ hnotes h => h.of_notes hnotes,
            fun _ target c₂ _ h => h.visitTo depth target⟩
        · exact fun c₂ _ => met_walkName hdepth (Project.isName_of_visits harena hvisits) hfound c₂
      · apply hwalked.found other hother _ name target hfinds
        intro hkept
        rcases List.mem_append.1 hkept with hkept | hkept
        · exact hnew hkept
        · exact hself (List.mem_singleton.1 hkept)

/-- Visiting the named exports of a module reaches what they stand for. -/
theorem closes_visitExports (hdepth : p.tables.symbols.size < depth) (exports_ : List ModuleExport)
    {entered : Collecting} (hlt : unvisited p entered < unvisited p c) :
    Closes p entered (exports_.foldl (fun c e => if isUnnamedExport e.name = true then c
        else visitSymbol p (visitTo p depth) e.symbol c) entered) ∧
      ∀ e ∈ exports_, isUnnamedExport e.name = false → ∀ target, p.target? e.symbol = some target →
        Reached p target (exports_.foldl (fun c e => if isUnnamedExport e.name = true then c
          else visitSymbol p (visitTo p depth) e.symbol c) entered) := by
  -- visiting one export closes what it adds, and leaves fewer symbols unvisited
  have hstep : ∀ e ∈ exports_, ∀ c', unvisited p c' < unvisited p c ∧ Closes p entered c' →
      unvisited p (if isUnnamedExport e.name = true then c'
        else visitSymbol p (visitTo p depth) e.symbol c') < unvisited p c ∧
      Closes p entered (if isUnnamedExport e.name = true then c'
        else visitSymbol p (visitTo p depth) e.symbol c') := by
    intro e _ c' h
    split
    · exact h
    · unfold visitSymbol
      split
      · exact closes_inside ih _ h
      · exact h
  constructor
  · refine (List.foldlRecOn
      (motive := fun c' => unvisited p c' < unvisited p c ∧ Closes p entered c') _ _ ?_ ?_).2
    · exact ⟨hlt, .refl _⟩
    · exact fun c' hc' e he => hstep e he c' hc'
  · intro e he hname target htarget
    apply reaches_foldl hstep _ he _ _ ⟨hlt, .refl _⟩
    · intro e _ c' hc'
      split
      · exact hc'
      · exact Keeps.visitSymbol ((keeps_reached p target).visitTo depth) e.symbol c' hc'
    · intro c' _
      simp only [hname, Bool.false_eq_true, if_false, visitSymbol, htarget]
      exact reached_visitTo hdepth target c'

theorem closes_visitModule (hdepth : p.tables.symbols.size < depth) (id : SymbolId)
    (localName : Option String) :
    Closes p c (visitModule p (visitTo p depth) id localName c) := by
  unfold visitModule
  dsimp only
  split
  · exact .refl c
  · next hknown =>
    have hfresh : id ∉ c.visited := by simpa using hknown
    set name := localName.getD ((p.symbol? id).elim "ns" fun s => nameOfPath s.name)
    cases hs : p.symbol? id with
    | none =>
      -- what is no symbol exports nothing
      rw [exportsOf_of_symbol?_none hs]
      refine ⟨reached_of_visited (List.subset_cons_self _ _) rfl, List.Subset.refl _,
        fun _ h hnew => absurd h hnew, ?_⟩
      intro other hother hnew e he
      rcases Table.contains_set.1 hother with rfl | hother
      · rw [exportsOf_of_symbol?_none hs] at he
        cases he
      · rw [hother] at hnew
        cases hnew
    | some s =>
      obtain ⟨hcloses, hexports⟩ := closes_visitExports ih hdepth (p.exportsOf id)
        (show unvisited p (c.enter id name) < unvisited p c from unvisited_lt hs hfresh rfl)
      have hmarked : ∀ target, Reached p target c → Reached p target (c.enter id name) :=
        reached_of_visited (List.subset_cons_self _ _) rfl
      refine ⟨fun target h => hcloses.reached target (hmarked target h), hcloses.reserved,
        hcloses.found, ?_⟩
      intro other hother hnew e he hname target htarget
      by_cases hself : id = other
      · subst hself
        exact hexports e he hname target htarget
      · refine hcloses.exported other hother ?_ e he hname target htarget
        rw [Bool.eq_false_iff]
        intro hcontains
        rcases Table.contains_set.1 hcontains with h | h
        · exact hself h
        · rw [h] at hnew
          cases hnew

end Inside

/-- A visit closes what it adds. -/
theorem closes_visitTo {depth : Nat} (hdepth : p.tables.symbols.size < depth) (target : Target)
    (c : Collecting) :
    Closes p c (visitTo p depth target c) := by
  induction hcount : unvisited p c using Nat.strong_induction_on generalizing target c with
  | _ count ih =>
    subst hcount
    have hinside : ∀ target c', unvisited p c' < unvisited p c →
        Closes p c' (visitTo p depth target c') :=
      fun target c' hlt => ih _ hlt target c' rfl
    rw [visitTo_eq hdepth]
    cases target with
    | ambient => exact .refl c
    | external i =>
      apply Closes.of_reached (fun target h => (keeps_reached p target).addExternal i c h)
      · exact fun text h => (keeps_reserved p text).addExternal i c h
      · exact kept_addExternal i c
      · unfold addExternal
        split
        · rfl
        · rfl
    | declaration id => exact closes_visitDeclaration hinside hdepth id
    | module_ id localName => exact closes_visitModule hinside hdepth id localName

/-- After collecting, the books are in order, and what the exports stand for is reached. -/
theorem exists_collected (exports_ : List ModuleExport)
    (hnumbered : ∀ id s, p.symbol? id = some s → s.id = id) :
    ∃ c : Collecting, c.found = p.collect exports_ ∧ IsBooked p exports_ c ∧ Closes p {} c ∧
      ∀ e ∈ exports_, ∀ target, p.target? e.symbol = some target → Reached p target c := by
  have hdepth : p.tables.symbols.size < p.tables.symbols.size + 2 :=
    Nat.lt_add_of_pos_right (by decide)
  set depth := p.tables.symbols.size + 2 with hdepthEq
  -- both invariants of the walk at once, from one export to the next
  have hstep : ∀ e ∈ exports_, ∀ c, IsBooked p exports_ c ∧ Closes p {} c →
      IsBooked p exports_ (visitSymbol p (visitTo p depth) e.symbol c) ∧
        Closes p {} (visitSymbol p (visitTo p depth) e.symbol c) := by
    intro e he c h
    unfold visitSymbol
    split
    · next target htarget =>
      exact ⟨isBooked_visitTo hnumbered depth (.export_ e target he htarget) h.1,
        h.2.trans (closes_visitTo hdepth target c)⟩
    · exact h
  have hstart : IsBooked p exports_ {} ∧ Closes p {} {} := by
    refine ⟨⟨List.nodup_nil, fun _ h => h, ?_, ?_, ⟨?_, ?_, ?_⟩⟩, .refl _⟩
    all_goals
      intro _ h
      cases h
  refine ⟨exports_.foldl (fun c e => visitSymbol p (visitTo p depth) e.symbol c) {},
    rfl, ?_, ?_, ?_⟩
  · exact (List.foldlRecOn (motive := fun c => IsBooked p exports_ c ∧ Closes p {} c) _ _ hstart
      fun c hc e he => hstep e he c hc).1
  · exact (List.foldlRecOn (motive := fun c => IsBooked p exports_ c ∧ Closes p {} c) _ _ hstart
      fun c hc e he => hstep e he c hc).2
  · intro e he target htarget
    apply reaches_foldl (P := fun _ => True) (fun _ _ _ _ => trivial) _ he _ _ trivial
    · exact fun e _ c hc => Keeps.visitSymbol ((keeps_reached p target).visitTo depth) e.symbol c hc
    · intro c _
      simp only [visitSymbol, htarget]
      exact reached_visitTo hdepth target c

/-- What was reached has its place in the collection. -/
theorem has_of_reached {exports_ : List ModuleExport} {c : Collecting}
    (hbooked : IsBooked p exports_ c) {target : Target} (hsorted : target.IsSorted p)
    (h : Reached p target c) : c.found.Has p target := by
  cases target with
  | declaration id => exact hbooked.declaration _ h hsorted
  | module_ id localName => exact hbooked.module_ id h hsorted
  | external i => exact h
  | ambient => trivial

end Collecting

/-! ## Least closed sets -/

/-- A dotted name that means something has a first identifier. -/
theorem Project.exists_firstText?_of_found {p : Project} {name : NodeRef} {target : Target}
    (hname : p.IsEntityName name) (hfound : p.found? name = some target) :
    ∃ text, p.firstText? name = some text := by
  obtain ⟨a, harena, hdotted⟩ := hname
  have hfirst : ∃ id, a.leftmost name.node = some id := by
    cases hleftmost : a.leftmost name.node with
    | some id => exact ⟨id, rfl⟩
    | none =>
      have hnone : p.start? name = none := by
        rw [start?_of_isDottedName harena hdotted]
        simp [firstSymbol?, firstOf, harena, hleftmost]
      rw [Collecting.found?_of_start?_none hnone] at hfound
      cases hfound
  obtain ⟨id, hid⟩ := hfirst
  obtain ⟨text, htext⟩ := exists_identifier_of_leftmostTo hid
  exact ⟨text, by simp [firstText?, firstOf, harena, hid, Arena.nameText?, htext]⟩

/-- What is collected is needed, nothing is kept twice, and the collection is closed exactly when
global names are meant by dotted names only. -/
theorem Project.isLeastClosed_collect {entry : String} {options : ProjectOptions} {host : Host}
    {p : Project} (hload : Project.load entry options host = .ok p) (exports_ : List ModuleExport) :
    (p.collect exports_).kept.Nodup ∧ (p.collect exports_).IsNeeded p exports_ ∧
      ((p.collect exports_).IsClosed p exports_ ↔
        ∀ id ∈ (p.collect exports_).kept, ∀ name, p.Finds id name .ambient →
          p.IsEntityName name) := by
  have hnumbered : ∀ id s, p.symbol? id = some s → s.id = id := fun id s hs =>
    Project.id_of_load hload hs
  obtain ⟨c, hfound, hbooked, hcloses, hreached⟩ := Collecting.exists_collected exports_ hnumbered
  refine ⟨?_, ?_, ?_⟩
  · exact hfound ▸ hbooked.nodup
  · exact hfound ▸ hbooked.needed
  · rw [← hfound]
    constructor
    · intro hclosed id hid name hfinds
      exact (hclosed.reserved id hid name hfinds).1
    · intro hnames
      constructor
      · intro e he target htarget
        exact Collecting.has_of_reached hbooked (isSorted_of_targetWith? hnumbered htarget)
          (hreached e he target htarget)
      · intro id hid name target hfinds
        have hmet := hcloses.found id hid (by simp) name target hfinds
        cases hfinds with
        | intro _ _ _ _ _ _ hmeant =>
          exact Collecting.has_of_reached hbooked (isSorted_of_found hnumbered hmeant) hmet.1
      · intro id hid e he hname target htarget
        exact Collecting.has_of_reached hbooked (isSorted_of_targetWith? hnumbered htarget)
          (hcloses.exported id hid rfl e he hname target htarget)
      · intro id hid name hfinds
        have hentity := hnames id hid name hfinds
        have hmet := hcloses.found id hid (by simp) name .ambient hfinds
        cases hfinds with
        | intro _ _ _ _ _ _ hmeant =>
          obtain ⟨text, htext⟩ := Project.exists_firstText?_of_found hentity hmeant
          exact ⟨hentity, text, htext, hmet.2 rfl text htext⟩

/-- Collecting for given exports ends exactly when the searches for the targets of aliases do that
it asks for, and all depths above the number of symbols are enough then. No symbol is kept twice,
nothing is collected that is not needed, and everything is that is needed, with one exception: the
collection is closed exactly when global names are meant by dotted names only, and not by import
types. -/
theorem Project.collect_least_closed_iff {entry : String} {options : ProjectOptions} {host : Host}
    {p : Project} (hload : Project.load entry options host = .ok p) (exports_ : List ModuleExport)
    {depth : Nat} (hdepth : p.tables.symbols.size < depth) :
    ((p.collectTo? depth exports_).isSome = true ↔ p.CollectingEnds exports_) ∧
      ∀ c, p.collectTo? depth exports_ = some c →
        c = p.collect exports_ ∧ c.kept.Nodup ∧ c.IsNeeded p exports_ ∧
        (c.IsClosed p exports_ ↔
          ∀ id ∈ c.kept, ∀ name, p.Finds id name .ambient → p.IsEntityName name) := by
  have hends : ∀ c, p.collectTo? depth exports_ = some c ↔
      p.CollectingEnds exports_ ∧ c = p.collect exports_ := fun _ => p.collectTo?_eq_some_iff hdepth
  constructor
  · rw [Option.isSome_iff_exists]
    constructor
    · rintro ⟨c, hc⟩
      exact ((hends c).1 hc).1
    · intro h
      exact ⟨p.collect exports_, (hends _).2 ⟨h, rfl⟩⟩
  · intro c hc
    obtain ⟨-, rfl⟩ := (hends c).1 hc
    exact ⟨rfl, p.isLeastClosed_collect hload exports_⟩

/-! ## Modules with an import type -/

/-- Two modules: the first one names a global interface by an import type that leads through the
second one. -/
def globalBehindImport : List (String × String) :=
  [("/a.ts", "export type T = import(\x22./b\x22).F;\n"),
    ("/b.ts", "declare global \x7b interface F \x7b\x7d \x7d\nexport \x7b F \x7d;\n")]

/-- The import types in the written declarations of a symbol that mean global names. -/
def Project.globalImportTypes (p : Project) (id : SymbolId) : List NodeRef :=
  (p.writtenDeclarations id).flatMap fun ref =>
    match p.arena? ref.file with
    | none => []
    | some a => (stops a ref.node).filterMap fun
      | .name slot =>
        if isDottedName a slot = false ∧ p.found? ⟨ref.file, slot⟩ = some .ambient then
          some ⟨ref.file, slot⟩
        else none
      | .unhandled => none

theorem Project.finds_of_mem_globalImportTypes {p : Project} {id : SymbolId} {name : NodeRef}
    (h : name ∈ p.globalImportTypes id) : p.Finds id name .ambient ∧ ¬ p.IsEntityName name := by
  unfold globalImportTypes at h
  obtain ⟨ref, href, h⟩ := List.mem_flatMap.1 h
  split at h
  · cases h
  · next a harena =>
    obtain ⟨stop, hstop, h⟩ := List.mem_filterMap.1 h
    split at h
    · next slot =>
      split at h
      · next hglobal =>
        obtain rfl := Option.some.inj h
        refine ⟨⟨ref, a, href, harena, rfl, name_mem_stops.1 hstop, hglobal.2⟩, ?_⟩
        rintro ⟨a', harena', hdotted⟩
        obtain rfl := Option.some.inj (harena.symm.trans harena')
        rw [hglobal.1] at hdotted
        cases hdotted
      · cases h
    · cases h

/-- All searches end for the targets that collecting asks for, within a depth above the number of
symbols. -/
def Project.endsCollecting (p : Project) (exports_ : List ModuleExport) : Bool :=
  (p.askedFor exports_ (p.collect exports_)).all (p.aliasEndsTo (p.tables.symbols.size + 1))

theorem Project.collectingEnds_of_endsCollecting {p : Project} {exports_ : List ModuleExport}
    (h : p.endsCollecting exports_ = true) : p.CollectingEnds exports_ := by
  intro id hid
  exact ⟨_, List.all_eq_true.1 h id hid⟩

set_option maxRecDepth 1000000 in
theorem globalImportTypes_globalBehindImport :
    ((Project.ofFiles "/a.ts" globalBehindImport).toOption.bind fun p =>
      ((p.file? p.entry).bind SourceFile.symbol).map fun module =>
        (p.endsCollecting (p.exportsOf module),
          (p.collect (p.exportsOf module)).kept.flatMap p.globalImportTypes)) =
      some (true, [⟨⟨0⟩, some ⟨3⟩⟩]) := by
  decide +kernel

theorem Project.exists_collecting_globalBehindImport : ∃ p module,
    Project.ofFiles "/a.ts" globalBehindImport = .ok p ∧
      (p.file? p.entry).bind SourceFile.symbol = some module ∧
      p.CollectingEnds (p.exportsOf module) ∧
      ∃ id ∈ (p.collect (p.exportsOf module)).kept,
        (⟨⟨0⟩, some ⟨3⟩⟩ : NodeRef) ∈ p.globalImportTypes id := by
  have h := globalImportTypes_globalBehindImport
  cases hp : Project.ofFiles "/a.ts" globalBehindImport with
  | error e =>
    rw [hp] at h
    cases h
  | ok p =>
    rw [hp] at h
    obtain ⟨module, hmodule, heq⟩ := Option.map_eq_some_iff.1 h
    obtain ⟨hends, hfound⟩ := Prod.mk.inj heq
    refine ⟨p, module, rfl, hmodule, p.collectingEnds_of_endsCollecting hends, ?_⟩
    apply List.mem_flatMap.1
    rw [hfound]
    exact List.mem_singleton.2 rfl

/-- For these modules collecting ends. -/
theorem Project.collect_globalBehindImport : ∃ p module,
    Project.ofFiles "/a.ts" globalBehindImport = .ok p ∧
      (p.file? p.entry).bind SourceFile.symbol = some module ∧
      ∃ c, p.collectTo? (p.tables.symbols.size + 1) (p.exportsOf module) = some c ∧
        c = p.collect (p.exportsOf module) ∧ c.kept.Nodup ∧ c.IsNeeded p (p.exportsOf module) ∧
        (c.IsClosed p (p.exportsOf module) ↔
          ∀ id ∈ c.kept, ∀ name, p.Finds id name .ambient → p.IsEntityName name) := by
  obtain ⟨p, module, hp, hmodule, hends, -⟩ := Project.exists_collecting_globalBehindImport
  obtain ⟨hexact, hclosed⟩ := Project.collect_least_closed_iff hp (p.exportsOf module)
    (Nat.lt_succ_self p.tables.symbols.size)
  obtain ⟨c, hc⟩ := Option.isSome_iff_exists.1 (hexact.2 hends)
  exact ⟨p, module, hp, hmodule, c, hc, hclosed c hc⟩

/-- What the first of these modules exports is not closed: nothing is reserved for the global
interface. -/
theorem Project.exists_not_closed : ∃ p module,
    Project.ofFiles "/a.ts" globalBehindImport = .ok p ∧
      (p.file? p.entry).bind SourceFile.symbol = some module ∧
      p.CollectingEnds (p.exportsOf module) ∧
      ¬ (p.collect (p.exportsOf module)).IsClosed p (p.exportsOf module) := by
  obtain ⟨p, module, hp, hmodule, hends, id, hid, hname⟩ :=
    Project.exists_collecting_globalBehindImport
  obtain ⟨hfinds, hentity⟩ := Project.finds_of_mem_globalImportTypes hname
  refine ⟨p, module, hp, hmodule, hends, fun hclosed => ?_⟩
  exact hentity (hclosed.reserved id hid _ hfinds).1

/-! ## An alias for its own member -/

/-- A module with an alias for a member of what the alias stands for. -/
def aliasOfItsMember : List (String × String) :=
  [("/a.ts", "import A = A.B;\nexport type T = A;\n")]

/-- Collecting asks for the target of an alias that asks for its own target. -/
def Project.asksInCircle (p : Project) (exports_ : List ModuleExport) : Bool :=
  (p.askedFor exports_ (p.collect exports_)).any fun id => (p.askedBy id).contains id

theorem Project.not_collectingEnds_of_asksInCircle {p : Project} {exports_ : List ModuleExport}
    (h : p.asksInCircle exports_ = true) : ¬ p.CollectingEnds exports_ := by
  obtain ⟨id, hid, hasks⟩ := List.any_eq_true.1 h
  intro hends
  exact not_aliasEnds_of_mem (List.contains_iff_mem.1 hasks) (hends id hid)

set_option maxRecDepth 1000000 in
theorem asksInCircle_aliasOfItsMember :
    ((Project.ofFiles "/a.ts" aliasOfItsMember).toOption.bind fun p =>
      ((p.file? p.entry).bind SourceFile.symbol).map fun module =>
        p.asksInCircle (p.exportsOf module)) = some true :=
  Project.bind_ofFiles (by decide) String.toList_ofList (by decide +kernel)

/-- Collecting for the exports of this module never ends. -/
theorem Project.exists_endless_collecting : ∃ p module,
    Project.ofFiles "/a.ts" aliasOfItsMember = .ok p ∧
      (p.file? p.entry).bind SourceFile.symbol = some module ∧
      ∀ depth > p.tables.symbols.size, p.collectTo? depth (p.exportsOf module) = none := by
  have h := asksInCircle_aliasOfItsMember
  cases hp : Project.ofFiles "/a.ts" aliasOfItsMember with
  | error e =>
    rw [hp] at h
    cases h
  | ok p =>
    rw [hp] at h
    obtain ⟨module, hmodule, hcircle⟩ := Option.map_eq_some_iff.1 h
    refine ⟨p, module, rfl, hmodule, fun depth hdepth => ?_⟩
    rw [Option.eq_none_iff_forall_ne_some]
    intro c hc
    exact p.not_collectingEnds_of_asksInCircle hcircle ((p.collectTo?_eq_some_iff hdepth).1 hc).1

end DeclBundle
