import DeclBundle.Project.Origin
import DeclBundle.Proofs.PlacedProjects
import DeclBundle.Proofs.SingleFiles

/-!
# Outermost containers

The outermost container of a symbol is found by going outwards, over `Project.maxContainers + 1`
containers at most. Going outwards always ends, as symbols are younger than what is around them, and
it takes as many steps as there are namespaces and enums around the symbol (`Project.LiesIn`). These
are the ones around its declarations (`Project.exists_nested`). So the outermost container is found
unless there are more of them than that (`Project.topContainer?_exact`).
-/

set_option autoImplicit false

namespace DeclBundle.Project

variable (p : Project)

/-- The namespace or enum right around a symbol. -/
def container? (id : SymbolId) : Option SymbolId := do
  let parent ← (← p.symbol? id).parent
  if (← p.symbol? parent).isModule then none else some parent

/-- A symbol lies in as many namespaces and enums, of which `outer` is the outermost one; a symbol
in no namespace is its own outermost one. -/
inductive LiesIn : (levels : Nat) → (outer : SymbolId) → SymbolId → Prop
  | top {id : SymbolId} (h : p.container? id = none) : LiesIn 0 id id
  | inside {levels : Nat} {outer parent id : SymbolId} (h : p.container? id = some parent)
    (hparent : LiesIn levels outer parent) : LiesIn (levels + 1) outer id

variable {p}

namespace LiesIn

variable {id outer : SymbolId} {levels : Nat}

theorem unique (h : p.LiesIn levels outer id) {levels' : Nat} {outer' : SymbolId}
    (h' : p.LiesIn levels' outer' id) :
    levels = levels' ∧ outer = outer' := by
  induction h generalizing levels' with
  | top hnone =>
    cases h' with
    | top => exact ⟨rfl, rfl⟩
    | inside hsome => cases hnone.symm.trans hsome
  | inside hsome _ ih =>
    cases h' with
    | top hnone => cases hnone.symm.trans hsome
    | inside hsome' hparent' =>
      obtain rfl := Option.some.inj (hsome.symm.trans hsome')
      obtain ⟨rfl, rfl⟩ := ih hparent'
      exact ⟨rfl, rfl⟩

theorem eq_of_zero (h : p.LiesIn 0 outer id) : outer = id := by
  cases h with
  | top => rfl

/-- The outermost one lies in no other. -/
theorem outermost (h : p.LiesIn levels outer id) : p.LiesIn 0 outer outer := by
  induction h with
  | top hnone => exact .top hnone
  | inside _ _ ih => exact ih

end LiesIn

/-! ## Homes and containers -/

section Homes

variable {id : SymbolId} {home : SymbolHome}

theorem container?_eq (h : p.tables.symbols.home? id = some home) :
    p.container? id = home.parent.bind fun parent =>
      (p.tables.symbols.home? parent).bind fun around =>
      if around.isModule then none else some parent := by
  obtain ⟨s, hs, rfl⟩ := Option.map_eq_some_iff.1 h
  have hsymbol : p.symbol? id = some s := hs
  simp only [container?, hsymbol, Option.bind_eq_bind, Option.bind_some]
  refine Option.bind_congr fun parent _ => ?_
  rw [SymbolArena.home?, show p.tables.symbols.get? parent = p.symbol? parent from rfl]
  cases p.symbol? parent with
  | none => rfl
  | some around => rfl

theorem isSome_of_container? {parent : SymbolId} (h : p.container? id = some parent) :
    (p.symbol? parent).isSome = true := by
  obtain ⟨s, -, h⟩ := Option.bind_eq_some_iff.1 h
  obtain ⟨q, -, h⟩ := Option.bind_eq_some_iff.1 h
  obtain ⟨around, haround, h⟩ := Option.bind_eq_some_iff.1 h
  split at h
  · cases h
  · obtain rfl := Option.some.inj h
    exact Option.isSome_iff_exists.2 ⟨around, haround⟩

/-- What lies in a namespace is younger than it. -/
theorem index_lt_of_container? (hascends : p.tables.symbols.Ascends) {parent : SymbolId}
    (h : p.container? id = some parent) :
    parent.index < id.index := by
  obtain ⟨s, hs, h⟩ := Option.bind_eq_some_iff.1 h
  obtain ⟨q, hq, h⟩ := Option.bind_eq_some_iff.1 h
  obtain ⟨around, -, h⟩ := Option.bind_eq_some_iff.1 h
  split at h
  · cases h
  · obtain rfl := Option.some.inj h
    exact hascends id ⟨s.parent, s.isModule⟩ q (Option.map_eq_some_iff.2 ⟨s, hs, rfl⟩) hq

/-- So every symbol lies in a certain number of namespaces and enums. -/
theorem exists_liesIn (hascends : p.tables.symbols.Ascends) (id : SymbolId) :
    ∃ levels outer, p.LiesIn levels outer id := by
  cases h : p.container? id with
  | none => exact ⟨0, id, .top h⟩
  | some parent =>
    -- what is around the symbol is older, so this ends
    have hlt := index_lt_of_container? hascends h
    obtain ⟨levels, outer, hparent⟩ := exists_liesIn hascends parent
    exact ⟨levels + 1, outer, .inside h hparent⟩
termination_by id.index

end Homes

/-! ## Going outwards -/

section Outwards

variable (hascends : p.tables.symbols.Ascends) {id outer : SymbolId} {levels : Nat}
  (hid : (p.symbol? id).isSome = true)

include hascends hid

theorem outermostTo_succ (hops : Nat) :
    p.outermostTo (hops + 1) id = (p.container? id).elim (some id) (p.outermostTo hops) := by
  obtain ⟨s, hs⟩ := Option.isSome_iff_exists.1 hid
  simp only [outermostTo, container?, hs, Option.bind_eq_bind, Option.bind_some]
  cases hparent : s.parent with
  | none => rfl
  | some parent =>
    -- what is around a symbol is there
    have hlt :=
      hascends id ⟨s.parent, s.isModule⟩ parent (Option.map_eq_some_iff.2 ⟨s, hs, rfl⟩) hparent
    have hhas : p.tables.symbols.Has parent := Nat.lt_trans hlt (SymbolArena.has_of_get? hs)
    obtain ⟨around, haround⟩ := SymbolArena.has_iff_exists.1 hhas
    have haround : p.symbol? parent = some around := haround
    simp only [Option.bind_some, haround]
    split
    · rfl
    · rfl

/-- Each step leads out of one namespace. -/
theorem exists_outermostTo (h : p.LiesIn levels outer id) (hops : Nat) :
    ∃ found, p.outermostTo hops id = some found ∧ p.LiesIn (levels - hops) outer found := by
  -- on the way outwards, with any number of hops left
  induction h generalizing hops with
  | @top id hnone =>
    refine ⟨id, ?_, by rw [Nat.zero_sub]; exact .top hnone⟩
    cases hops with
    | zero => rfl
    | succ hops => rw [outermostTo_succ hascends hid, hnone, Option.elim_none]
  | @inside levels outer parent id hsome hparent ih =>
    cases hops with
    | zero => exact ⟨id, rfl, .inside hsome hparent⟩
    | succ hops =>
      obtain ⟨found, hfound, hlies⟩ := ih (isSome_of_container? hsome) hops
      refine ⟨found, ?_, by rwa [Nat.add_sub_add_right]⟩
      rw [outermostTo_succ hascends hid, hsome, Option.elim_some, hfound]

end Outwards

/-- The outermost container of a symbol is none when it lies in no namespace, and is found when it
does not lie in too many. -/
theorem topContainer?_of_liesIn (hascends : p.tables.symbols.Ascends) {id outer : SymbolId}
    {levels : Nat} (hid : (p.symbol? id).isSome = true) (h : p.LiesIn levels outer id) :
    (p.topContainer? id = none ↔ levels = 0) ∧
      (0 < levels → (p.topContainer? id = some outer ↔ levels ≤ maxContainers + 1)) := by
  obtain ⟨found, hfound, hlies⟩ := exists_outermostTo hascends hid h (maxContainers + 1)
  rw [topContainer?, hfound]
  rcases Nat.eq_zero_or_pos levels with rfl | hpos
  · rw [Nat.zero_sub] at hlies
    obtain rfl := h.eq_of_zero
    obtain rfl := hlies.eq_of_zero
    simp
  · have hne : found ≠ id := by
      rintro rfl
      have hlevels := (hlies.unique h).1
      omega
    have hkept : (some found).filter (· != id) = some found := by simp [hne]
    rw [hkept]
    refine ⟨by simp [Nat.ne_of_gt hpos], fun _ => ?_⟩
    rw [Option.some.injEq]
    constructor
    · rintro rfl
      have hlevels := (hlies.unique h.outermost).1
      omega
    · intro hle'
      rw [Nat.sub_eq_zero_of_le hle'] at hlies
      exact hlies.eq_of_zero.symm

/-! ## Symbols of nodes -/

/-- A symbol of a node lies in as many namespaces and enums as the node, and the outermost one is
that of the outermost node. -/
theorem exists_nested {a : Arena} {declared : Std.TreeMap NodeId SymbolId}
    (hplaced : Placed a declared p.tables.symbols) (hascends : p.tables.symbols.Ascends)
    {n : NodeId} {id : SymbolId} (hid : declared[n]? = some id) :
    ∃ levels top outer, a.Nested levels top n ∧ declared[top]? = some outer ∧
      p.LiesIn levels outer id := by
  obtain ⟨around, home, hinnermost, hhome, hfits⟩ := hplaced n id hid
  have hcontainer := container?_eq hhome
  cases around with
  | none =>
    refine ⟨0, n, id, .top hinnermost, hid, .top ?_⟩
    rw [hcontainer]
    cases hparent : home.parent with
    | none => rfl
    | some q =>
      obtain ⟨home', hhome', hmodule⟩ := hfits q hparent
      rw [Option.bind_some, hhome', Option.bind_some, if_pos hmodule]
  | some m =>
    obtain ⟨-, q, hq, hparent, home', hhome', hmodule⟩ := hfits
    have hinside : p.container? id = some q := by
      rw [hcontainer, hparent, Option.bind_some, hhome', Option.bind_some, hmodule]
      rfl
    have hlt := index_lt_of_container? hascends hinside
    obtain ⟨levels, top, outer, hnested, htop, hlies⟩ := exists_nested hplaced hascends hq
    exact ⟨levels + 1, top, outer, .inside hinnermost hnested, htop, .inside hinside hlies⟩
termination_by id.index

/-! ## Loaded projects -/

variable {entry : String} {options : ProjectOptions} {host : Host}

/-- In a loaded project every symbol lies in a certain number of namespaces and enums, in as many as
its declarations. Its outermost container is none exactly when it lies in no namespace. Otherwise it
is the outermost namespace or enum exactly when there are at most `maxContainers + 1` of them. -/
theorem topContainer?_exact (hload : load entry options host = .ok p) :
    (∀ id s, p.symbol? id = some s → ∃ levels outer, p.LiesIn levels outer id ∧
      (p.topContainer? id = none ↔ levels = 0) ∧
      (0 < levels → (p.topContainer? id = some outer ↔ levels ≤ maxContainers + 1))) ∧
    (∀ file a n id, p.arena? file = some a → p.declaredSymbol? ⟨file, some n⟩ = some id →
      ∃ levels top outer, a.Nested levels top n ∧ p.declaredSymbol? ⟨file, some top⟩ = some outer ∧
        p.LiesIn levels outer id) := by
  have hascends := ascends_of_load hload
  constructor
  · intro id s hs
    obtain ⟨levels, outer, hlies⟩ := exists_liesIn hascends id
    have hid : (p.symbol? id).isSome = true := Option.isSome_iff_exists.2 ⟨s, hs⟩
    exact ⟨levels, outer, hlies, topContainer?_of_liesIn hascends hid hlies⟩
  · intro file a n id harena hid
    obtain ⟨found, hfound, rfl⟩ := Option.map_eq_some_iff.1 harena
    have hdeclared : ∀ m : NodeId, p.declaredSymbol? ⟨file, some m⟩ = found.declared[m]? :=
      fun m => by
      simp [declaredSymbol?, hfound]
    rw [hdeclared] at hid
    have hmem : found ∈ p.files := Array.mem_iff_getElem?.2 ⟨_, hfound⟩
    obtain ⟨levels, top, outer, hnested, htop, hlies⟩ :=
      exists_nested (placed_of_load hload hmem) hascends hid
    exact ⟨levels, top, outer, hnested, (hdeclared top).trans htop, hlies⟩

/-- A file with an interface in so many namespaces, each inside the one before. -/
def nestedNamespaces (levels : Nat) : String :=
  "namespace " ++ ".".intercalate (List.replicate levels "N") ++
    " \x7b export interface F \x7b\x7d \x7d\n"

theorem toList_nestedNamespaces (levels : Nat) : (nestedNamespaces levels).toList =
    "namespace ".toList ++ ((List.replicate levels ['N']).intersperse ['.']).flatten ++
      " \x7b export interface F \x7b\x7d \x7d\n".toList := by
  rw [nestedNamespaces, String.toList_append, String.toList_append, String.toList_intercalate,
    List.map_replicate]
  rfl

set_option maxRecDepth 1000000 in
theorem containers_nestedNamespaces_two :
    (ofFiles "/a.ts" [("/a.ts", nestedNamespaces 2)]).toOption.map (fun p =>
      (p.declaredSymbol? ⟨⟨0⟩, some ⟨3⟩⟩, p.container? ⟨2⟩, p.container? ⟨1⟩, p.container? ⟨0⟩)) =
      some (some ⟨2⟩, some ⟨1⟩, some ⟨0⟩, none) :=
  map_ofFiles (by decide) (toList_nestedNamespaces 2) (by decide +kernel)

set_option maxRecDepth 1000000 in
theorem containers_nestedNamespaces_many :
    (ofFiles "/a.ts" [("/a.ts", nestedNamespaces 66)]).toOption.map (fun p =>
      (p.topContainer? ⟨66⟩, p.container? ⟨1⟩)) = some (some ⟨1⟩, some ⟨0⟩) :=
  map_ofFiles (by decide) (toList_nestedNamespaces 66) (by decide +kernel)

theorem exists_of_toOption {ε α β : Type} {result : Except ε α} {f : α → β} {b : β}
    (h : result.toOption.map f = some b) : ∃ a, result = .ok a ∧ f a = b := by
  cases result with
  | error e => cases h
  | ok a => exact ⟨a, rfl, Option.some.inj h⟩

/-- The outermost container of an interface in two namespaces is the namespace of the outermost
node. -/
theorem topContainer?_nestedNamespaces_two :
    ∃ p a levels top outer, ofFiles "/a.ts" [("/a.ts", nestedNamespaces 2)] = .ok p ∧
      p.arena? ⟨0⟩ = some a ∧
      a.Nested levels top ⟨3⟩ ∧ 0 < levels ∧ p.declaredSymbol? ⟨⟨0⟩, some top⟩ = some outer ∧
      p.topContainer? ⟨2⟩ = some outer := by
  obtain ⟨p, hp, h⟩ := exists_of_toOption containers_nestedNamespaces_two
  simp only [Prod.mk.injEq] at h
  obtain ⟨hdeclared, hfirst, hsecond, hthird⟩ := h
  have htwo : p.LiesIn 2 ⟨0⟩ ⟨2⟩ := .inside hfirst (.inside hsecond (.top hthird))
  obtain ⟨hsymbols, hnodes⟩ := topContainer?_exact hp
  obtain ⟨file, hfile, -⟩ := Option.bind_eq_some_iff.1 hdeclared
  have harena : p.arena? ⟨0⟩ = some file.arena := Option.map_eq_some_iff.2 ⟨file, hfile, rfl⟩
  obtain ⟨levels, top, outer, hnested, htop, hlies⟩ :=
    hnodes ⟨0⟩ file.arena ⟨3⟩ ⟨2⟩ harena hdeclared
  obtain ⟨s, hs, -⟩ := Option.bind_eq_some_iff.1 hfirst
  obtain ⟨levels', outer', hlies', -, hfound⟩ := hsymbols ⟨2⟩ s hs
  obtain ⟨rfl, rfl⟩ := hlies.unique htwo
  obtain ⟨rfl, rfl⟩ := hlies'.unique htwo
  exact ⟨p, file.arena, _, top, _, hp, harena, hnested, by decide, htop,
    (hfound (by decide)).2 (by decide)⟩

/-- In one namespace more than the limit, the container that is found is not the outermost one. -/
theorem exists_inner_topContainer :
    ∃ p id levels outer found, ofFiles "/a.ts" [("/a.ts", nestedNamespaces 66)] = .ok p ∧
      p.LiesIn levels outer id ∧
      p.topContainer? id = some found ∧ found ≠ outer := by
  obtain ⟨p, hp, h⟩ := exists_of_toOption containers_nestedNamespaces_many
  obtain ⟨hfound, hcontainer⟩ := Prod.mk.inj h
  obtain ⟨levels, outer, hlies⟩ := exists_liesIn (ascends_of_load hp) ⟨66⟩
  refine ⟨p, ⟨66⟩, levels, outer, ⟨1⟩, hp, hlies, hfound, ?_⟩
  rintro rfl
  cases hlies.outermost with
  | top hnone => cases hnone.symm.trans hcontainer

end DeclBundle.Project
