import DeclBundle.Proofs.ModuleExports
import DeclBundle.Proofs.Ending
import Mathlib.Logic.Relation

/-!
# Collecting and searching exports

The exports of a module are found in two ways: all of them are collected, with the names found and
the modules visited so far, or one of them is searched, with visited modules of its own. Both go
down the same modules in the same order, and a search visits what collecting visits until the name
is found (`Project.search_agrees`). So both lead to the same exports, which are those that a module
can have at all (`Project.exports_agree`).
-/

set_option autoImplicit false

namespace DeclBundle

namespace Project

variable (p : Project)

/-- The exports that a module declares itself. -/
def ownExports (module : SymbolId) : SymbolTable := (p.symbol? module).elim {} Symbol.exports_

/-- The export that a module declares itself. -/
def ownExport? (module : SymbolId) (name : String) : Option SymbolId :=
  (p.ownExports module).get? name

/-- A module exports another one as a whole. -/
def PassesOn (module target : SymbolId) : Prop := target ∈ p.starTargets module

/-- A module passes on the exports of another one, over any number of modules between them. -/
abbrev Reaches : SymbolId → SymbolId → Prop := Relation.ReflTransGen p.PassesOn

/-! ## What was found -/

namespace ExportWalk

/-- The symbol that was found for a name. -/
def lookup? (w : ExportWalk) (name : String) : Option SymbolId :=
  (w.found.find? (·.name == name)).map ModuleExport.symbol

theorem lookup?_isSome (w : ExportWalk) (name : String) :
    (w.lookup? name).isSome = w.found.any (·.name == name) := by
  rw [Bool.eq_iff_iff]
  simp [lookup?]

theorem Distinct.lookup?_eq_some_iff {w : ExportWalk} (h : w.Distinct) (name : String)
    (symbol : SymbolId) :
    w.lookup? name = some symbol ↔ ⟨name, symbol⟩ ∈ w.found := by
  constructor
  · intro hfound
    obtain ⟨e, he, rfl⟩ := Option.map_eq_some_iff.1 hfound
    obtain rfl : e.name = name := by simpa using List.find?_some he
    exact List.mem_of_find?_eq_some he
  · intro hmem
    cases hfind : w.found.find? (·.name == name) with
    | none =>
      have hne := List.find?_eq_none.1 hfind _ hmem
      simp at hne
    | some e =>
      have hname : e.name = name := by simpa using List.find?_some hfind
      have heq := List.inj_on_of_nodup_map h (List.mem_of_find?_eq_some hfind) hmem hname
      rw [lookup?, hfind, heq]
      rfl

theorem lookup?_push (w : ExportWalk) (e : ModuleExport) (name : String) :
    ({ w with found := w.found ++ [e] } : ExportWalk).lookup? name =
      (w.lookup? name).or (if e.name = name then some e.symbol else none) := by
  rw [lookup?, lookup?, List.find?_append]
  cases w.found.find? (·.name == name) with
  | some other => rfl
  | none => by_cases h : e.name = name <;> simp [h]

/-- A table adds its names to those found before, but not unnamed ones of another module. -/
theorem lookup?_addTable (w : ExportWalk) (isRoot : Bool) (table : SymbolTable) (name : String) :
    (w.addTable isRoot table).lookup? name =
      (w.lookup? name).or
        (if (!isRoot && isUnnamedExport name) = true then none else table.get? name) := by
  unfold addTable Table.get?
  generalize table.entries = entries
  induction entries generalizing w with
  | nil => simp
  | cons entry rest ih =>
    obtain ⟨other, symbol⟩ := entry
    rw [List.foldl_cons, ih]
    dsimp only
    -- only an entry with the name itself can change the answer
    by_cases hname : other = name
    · subst hname
      split
      · next hskip =>
        rw [Bool.or_eq_true, ← lookup?_isSome] at hskip
        rcases hskip with hunnamed | hfound
        · rw [if_pos hunnamed, if_pos hunnamed]
        · obtain ⟨found, hfound⟩ := Option.isSome_iff_exists.1 hfound
          simp [hfound]
      · next hnew =>
        rw [Bool.or_eq_true, not_or, ← lookup?_isSome] at hnew
        rw [lookup?_push, if_neg hnew.1, if_neg hnew.1, Option.not_isSome_iff_eq_none.1 hnew.2]
        simp
    · have htable : ((other, symbol) :: rest).find? (fun entry => decide (entry.1 = name)) =
          rest.find? fun entry => decide (entry.1 = name) :=
            List.find?_cons_of_neg (by simpa using hname)
      rw [htable]
      split
      · rfl
      · rw [lookup?_push, if_neg hname, Option.or_none]

theorem visited_addTable (w : ExportWalk) (isRoot : Bool) (table : SymbolTable) :
    (w.addTable isRoot table).visited = w.visited := by
  unfold addTable
  refine List.foldlRecOn (motive := fun w' : ExportWalk => w'.visited = w.visited) _ _ rfl ?_
  intro w' hw entry _
  dsimp only
  split
  · exact hw
  · exact hw

/-- The module is visited, and its own exports are found. -/
def enter (w : ExportWalk) (isRoot : Bool) (module : SymbolId) (table : SymbolTable) : ExportWalk :=
  ({ w with visited := module :: w.visited } : ExportWalk).addTable isRoot table

@[simp] theorem visited_enter (w : ExportWalk) (isRoot : Bool) (module : SymbolId)
    (table : SymbolTable) :
    (w.enter isRoot module table).visited = module :: w.visited := visited_addTable _ _ _

theorem lookup?_enter (w : ExportWalk) (isRoot : Bool) (module : SymbolId) (table : SymbolTable)
    (name : String) :
    (w.enter isRoot module table).lookup? name =
      (w.lookup? name).or
        (if (!isRoot && isUnnamedExport name) = true then none else table.get? name) :=
  lookup?_addTable _ _ _ _

end ExportWalk

/-! ## Steps

A module that is not visited yet is entered, and then the modules that it passes on. -/

/-- Collects the exports that are passed on by the given modules. -/
def collectAll (depth : Nat) (targets : List SymbolId) (w : ExportWalk) : ExportWalk :=
  targets.foldl (fun w target => p.collectExports depth false target w) w

variable {p}

theorem starTargets_of_none {module : SymbolId} (h : p.symbol? module = none) :
    p.starTargets module = [] := by
  rw [starTargets, h]

theorem collectExports_of_visited {w : ExportWalk} {module : SymbolId} (h : module ∈ w.visited)
    (depth : Nat) (isRoot : Bool) : p.collectExports depth isRoot module w = w := by
  cases depth with
  | zero => rfl
  | succ depth => rw [collectExports, if_pos (by simpa using h)]

theorem collectExports_of_new {w : ExportWalk} {module : SymbolId} (h : module ∉ w.visited)
    (depth : Nat) (isRoot : Bool) : p.collectExports (depth + 1) isRoot module w =
      p.collectAll depth (p.starTargets module) (w.enter isRoot module (p.ownExports module)) := by
  rw [collectExports, if_neg (by simpa using h)]
  cases hs : p.symbol? module with
  | none =>
    have hown : p.ownExports module = {} := by rw [ownExports, hs]; rfl
    rw [starTargets_of_none hs, hown]
    rfl
  | some s =>
    have hown : p.ownExports module = s.exports_ := by rw [ownExports, hs]; rfl
    rw [hown]
    rfl

theorem searchExport_of_visited {visited : List SymbolId} {module : SymbolId} (h : module ∈ visited)
    (name : String) (depth : Nat) : p.searchExport name depth module visited = (none, visited) := by
  cases depth with
  | zero => rfl
  | succ depth => rw [searchExport, if_pos (by simpa using h)]

theorem searchExport_of_own {visited : List SymbolId} {module symbol : SymbolId} {name : String}
    (h : module ∉ visited) (hown : p.ownExport? module name = some symbol) (depth : Nat) :
    p.searchExport name (depth + 1) module visited = (some symbol, module :: visited) := by
  rw [searchExport, if_neg (by simpa using h)]
  cases hs : p.symbol? module with
  | none =>
    rw [ownExport?, ownExports, hs] at hown
    cases hown
  | some s =>
    rw [ownExport?, ownExports, hs, Option.elim_some] at hown
    dsimp only
    rw [hown]

theorem searchExport_of_not_own {visited : List SymbolId} {module : SymbolId} {name : String}
    (h : module ∉ visited) (hown : p.ownExport? module name = none) (depth : Nat) :
    p.searchExport name (depth + 1) module visited =
      if isUnnamedExport name = true then (none, module :: visited)
      else firstExport (p.searchExport name depth) (p.starTargets module) (module :: visited) := by
  rw [searchExport, if_neg (by simpa using h)]
  cases hs : p.symbol? module with
  | none =>
    rw [starTargets_of_none hs, firstExport]
    exact (ite_self _).symm
  | some s =>
    rw [ownExport?, ownExports, hs, Option.elim_some] at hown
    dsimp only
    rw [hown]

/-- What entering a module keeps is kept by collecting; only modules that are reached are
entered. -/
theorem collect_keeps {P : ExportWalk → Prop} {module : SymbolId}
    (henter : ∀ m w, p.Reaches module m → m ∉ w.visited → P w →
      P (w.enter false m (p.ownExports m))) (depth : Nat)
    {w : ExportWalk} (h : P w) : P (p.collectExports depth false module w) := by
  induction depth generalizing module w with
  | zero => exact h
  | succ depth ih =>
    by_cases hvisited : module ∈ w.visited
    · rw [collectExports_of_visited hvisited]
      exact h
    · rw [collectExports_of_new hvisited]
      refine List.foldlRecOn (motive := P) _ _ (henter module w .refl hvisited h) ?_
      exact fun w hw target htarget => ih (fun m w hm => henter m w (.head htarget hm)) hw

theorem collectAll_keeps {P : ExportWalk → Prop} {targets : List SymbolId}
    (henter : ∀ target ∈ targets, ∀ m w, p.Reaches target m → m ∉ w.visited → P w →
      P (w.enter false m (p.ownExports m)))
    (depth : Nat) {w : ExportWalk} (h : P w) : P (p.collectAll depth targets w) := by
  refine List.foldlRecOn (motive := P) _ _ h ?_
  exact fun w hw target htarget => collect_keeps (henter target htarget) depth hw

/-! ## What collecting leaves as it is -/

/-- What is found stays found. -/
theorem lookup?_enter_of_some {w : ExportWalk} {name : String} {symbol : SymbolId}
    (h : w.lookup? name = some symbol) (isRoot : Bool) (module : SymbolId) (table : SymbolTable) :
    (w.enter isRoot module table).lookup? name = some symbol := by
  rw [ExportWalk.lookup?_enter, h]
  rfl

theorem lookup?_collectAll_of_some {w : ExportWalk} {name : String} {symbol : SymbolId}
    (h : w.lookup? name = some symbol) (depth : Nat) (targets : List SymbolId) :
    (p.collectAll depth targets w).lookup? name = some symbol :=
  collectAll_keeps (P := fun w => w.lookup? name = some symbol)
    (fun _ _ m _ _ _ hw => lookup?_enter_of_some hw false m _) depth h

/-- Unnamed exports are not passed on. -/
theorem lookup?_collectAll_unnamed {name : String} (hname : isUnnamedExport name = true)
    (depth : Nat) (targets : List SymbolId) (w : ExportWalk) :
    (p.collectAll depth targets w).lookup? name = w.lookup? name := by
  refine collectAll_keeps (P := fun w' => w'.lookup? name = w.lookup? name) ?_ depth rfl
  intro _ _ m w' _ _ hw
  rw [ExportWalk.lookup?_enter, if_pos (by simpa using hname), Option.or_none, hw]

theorem visited_collectExports_subset (depth : Nat) (module : SymbolId) (w : ExportWalk) :
    w.visited ⊆ (p.collectExports depth false module w).visited := by
  refine collect_keeps (P := fun w' => w.visited ⊆ w'.visited) ?_ depth (List.Subset.refl _)
  intro m w' _ _ hw
  rw [ExportWalk.visited_enter]
  exact List.subset_cons_of_subset _ hw

/-! ## Searching and collecting -/

/-- The result of a search is what collecting found, and when there is none, both visited the same
modules. -/
def Agrees (name : String) (result : Option SymbolId × List SymbolId) (w : ExportWalk) : Prop :=
  result.1 = w.lookup? name ∧ (result.1 = none → result.2 = w.visited)

/-- Searching one module after the other agrees when searching each of them does. -/
theorem firstExport_agrees {name : String} {depth : Nat}
    (ih : ∀ (target : SymbolId) (w : ExportWalk), w.lookup? name = none →
      Agrees name (p.searchExport name depth target w.visited)
        (p.collectExports depth false target w))
    (targets : List SymbolId) {w : ExportWalk} (h : w.lookup? name = none) :
    Agrees name (firstExport (p.searchExport name depth) targets w.visited)
      (p.collectAll depth targets w) := by
  induction targets generalizing w with
  | nil => exact ⟨h.symm, fun _ => rfl⟩
  | cons target rest ihrest =>
    obtain ⟨hfound, hvisited⟩ := ih target w h
    have hcollect : p.collectAll depth (target :: rest) w =
        p.collectAll depth rest (p.collectExports depth false target w) := rfl
    rw [hcollect]
    rcases hsearch : p.searchExport name depth target w.visited with ⟨_ | symbol, visited⟩
    · rw [hsearch] at hfound hvisited
      have hsame : visited = (p.collectExports depth false target w).visited := hvisited rfl
      rw [firstExport, hsearch, hsame]
      exact ihrest hfound.symm
    · rw [hsearch] at hfound
      rw [firstExport, hsearch]
      refine ⟨(lookup?_collectAll_of_some hfound.symm depth rest).symm, fun hnone => ?_⟩
      cases hnone

/-- A search from the modules that were visited finds what collecting adds under the name. -/
theorem search_agrees {name : String} (hname : isUnnamedExport name = false) (depth : Nat)
    (isRoot : Bool) (module : SymbolId) {w : ExportWalk} (h : w.lookup? name = none) :
    Agrees name (p.searchExport name depth module w.visited)
      (p.collectExports depth isRoot module w) := by
  induction depth generalizing isRoot module w with
  | zero => exact ⟨h.symm, fun _ => rfl⟩
  | succ depth ih =>
    by_cases hvisited : module ∈ w.visited
    · rw [searchExport_of_visited hvisited, collectExports_of_visited hvisited]
      exact ⟨h.symm, fun _ => rfl⟩
    · have henter : (w.enter isRoot module (p.ownExports module)).lookup? name =
          p.ownExport? module name := by
        rw [ExportWalk.lookup?_enter, h, hname, Bool.and_false, if_neg (by decide), Option.none_or]
        rfl
      rw [collectExports_of_new hvisited]
      cases hown : p.ownExport? module name with
      | some symbol =>
        rw [searchExport_of_own hvisited hown]
        rw [hown] at henter
        refine ⟨(lookup?_collectAll_of_some henter depth _).symm, fun hnone => ?_⟩
        cases hnone
      | none =>
        rw [searchExport_of_not_own hvisited hown, if_neg (by simp [hname])]
        rw [hown] at henter
        have hfirst :=
          firstExport_agrees (fun target w => ih false target) (p.starTargets module) henter
        rwa [ExportWalk.visited_enter] at hfirst

/-- The search for an unnamed export ends at the module itself. -/
theorem searchExport_unnamed {name : String} (hname : isUnnamedExport name = true) (depth : Nat)
    (module : SymbolId) :
    (p.searchExport name (depth + 1) module []).1 = p.ownExport? module name := by
  cases hown : p.ownExport? module name with
  | some symbol => rw [searchExport_of_own List.not_mem_nil hown]
  | none => rw [searchExport_of_not_own List.not_mem_nil hown, if_pos hname]

/-- At every limit, a search from a module finds what collecting from it finds. -/
theorem search_eq_lookup? (depth : Nat) (module : SymbolId) (name : String) :
    (p.searchExport name depth module []).1 =
      (p.collectExports depth true module {}).lookup? name := by
  cases hname : isUnnamedExport name with
  | false => exact (search_agrees hname depth true module (w := {}) rfl).1
  | true =>
    cases depth with
    | zero => rfl
    | succ depth =>
      rw [searchExport_unnamed hname, collectExports_of_new List.not_mem_nil,
        lookup?_collectAll_unnamed hname, ExportWalk.lookup?_enter]
      rfl

/-! ## All modules that are reached are visited -/

/-- The number of modules of the project that were not visited. -/
def unvisitedModules (p : Project) (w : ExportWalk) : Nat :=
  Collecting.unvisited p { visited := w.visited }

/-- A module that passes on others is one of the project, so entering it leaves fewer. -/
theorem unvisitedModules_enter {w : ExportWalk} {module : SymbolId} (hnew : module ∉ w.visited)
    (isRoot : Bool) (table : SymbolTable) :
    p.starTargets module = [] ∨ unvisitedModules p (w.enter isRoot module table) <
      unvisitedModules p w := by
  cases hs : p.symbol? module with
  | none => exact .inl (starTargets_of_none hs)
  | some s =>
    exact .inr (Collecting.unvisited_lt hs hnew (ExportWalk.visited_enter w isRoot module table))

theorem unvisitedModules_collectExports (depth : Nat) (module : SymbolId) (w : ExportWalk) :
    unvisitedModules p (p.collectExports depth false module w) ≤ unvisitedModules p w :=
  Collecting.unvisited_mono (visited_collectExports_subset depth module w)

theorem unvisitedModules_empty : unvisitedModules p {} < p.walkDepth :=
  Nat.lt_succ_of_le (Collecting.unvisited_le _)

/-- A limit above the number of modules that were not visited can be raised. -/
theorem collectExports_succ {depth : Nat} (isRoot : Bool) (module : SymbolId) {w : ExportWalk}
    (h : unvisitedModules p w < depth) :
    p.collectExports (depth + 1) isRoot module w = p.collectExports depth isRoot module w := by
  induction depth generalizing isRoot module w with
  | zero => exact absurd h (Nat.not_lt_zero _)
  | succ depth ih =>
    have hall : ∀ (targets : List SymbolId) (w : ExportWalk), unvisitedModules p w < depth →
        p.collectAll (depth + 1) targets w = p.collectAll depth targets w := by
      intro targets
      induction targets with
      | nil => exact fun _ _ => rfl
      | cons target rest ihrest =>
        intro w hw
        rw [collectAll, collectAll, List.foldl_cons, List.foldl_cons, ih false target hw]
        exact ihrest _ (Nat.lt_of_le_of_lt (unvisitedModules_collectExports depth target w) hw)
    by_cases hvisited : module ∈ w.visited
    · rw [collectExports_of_visited hvisited, collectExports_of_visited hvisited]
    · rw [collectExports_of_new hvisited, collectExports_of_new hvisited]
      rcases unvisitedModules_enter hvisited isRoot (p.ownExports module) with hnone | hlt
      · rw [hnone]
        rfl
      · exact hall _ _ (by omega)

/-- All limits that are large enough lead to the same exports. -/
theorem collectExports_of_le {depth : Nat} (hle : p.walkDepth ≤ depth) (module : SymbolId) :
    p.collectExports depth true module {} = p.collectExports p.walkDepth true module {} := by
  induction hle with
  | refl => rfl
  | step hle ih =>
    rw [collectExports_succ true module (Nat.lt_of_lt_of_le unvisitedModules_empty hle), ih]

/-- Between two walks, what each module passes on that was visited is visited too. -/
structure Closes (p : Project) (w w' : ExportWalk) : Prop where
  grows : w.visited ⊆ w'.visited
  closed : ∀ m ∈ w'.visited, m ∉ w.visited → ∀ target, p.PassesOn m target → target ∈ w'.visited

theorem Closes.refl (w : ExportWalk) : Closes p w w :=
  ⟨List.Subset.refl _, fun _ hm hnew => absurd hm hnew⟩

theorem Closes.trans {w w' w'' : ExportWalk} (h : Closes p w w') (h' : Closes p w' w'') :
    Closes p w w'' where
  grows := List.Subset.trans h.grows h'.grows
  closed m hm hnew target htarget := by
    by_cases hmid : m ∈ w'.visited
    · exact h'.grows (h.closed m hmid hnew target htarget)
    · exact h'.closed m hm hmid target htarget

/-- After modules in turn, each of them is visited, with what it passes on. -/
theorem closes_collectAll {depth : Nat}
    (ih : ∀ (target : SymbolId) (w : ExportWalk), unvisitedModules p w < depth →
      target ∈ (p.collectExports depth false target w).visited ∧
        Closes p w (p.collectExports depth false target w))
    (targets : List SymbolId) {w : ExportWalk} (h : unvisitedModules p w < depth) :
    (∀ target ∈ targets, target ∈ (p.collectAll depth targets w).visited) ∧
      Closes p w (p.collectAll depth targets w) := by
  induction targets generalizing w with
  | nil => exact ⟨fun _ hmem => absurd hmem List.not_mem_nil, .refl w⟩
  | cons target rest ihrest =>
    obtain ⟨hfirst, hcloses⟩ := ih target w h
    obtain ⟨hrest, hclosesRest⟩ :=
      ihrest (Nat.lt_of_le_of_lt (unvisitedModules_collectExports depth target w) h)
    refine ⟨fun other hother => ?_, hcloses.trans hclosesRest⟩
    rcases List.mem_cons.1 hother with rfl | hother
    · exact hclosesRest.grows hfirst
    · exact hrest other hother

/-- Collecting visits the module and all that is passed on. -/
theorem closes_collectExports {depth : Nat} (isRoot : Bool) (module : SymbolId) {w : ExportWalk}
    (h : unvisitedModules p w < depth) :
    module ∈ (p.collectExports depth isRoot module w).visited ∧
      Closes p w (p.collectExports depth isRoot module w) := by
  induction depth generalizing isRoot module w with
  | zero => exact absurd h (Nat.not_lt_zero _)
  | succ depth ih =>
    by_cases hvisited : module ∈ w.visited
    · rw [collectExports_of_visited hvisited]
      exact ⟨hvisited, .refl w⟩
    · rw [collectExports_of_new hvisited]
      let entered := w.enter isRoot module (p.ownExports module)
      have hmodule : module ∈ entered.visited := by simp [entered]
      have hentered : w.visited ⊆ entered.visited := by simp [entered]
      obtain ⟨htargets, hcloses⟩ : (∀ target ∈ p.starTargets module,
          target ∈ (p.collectAll depth (p.starTargets module) entered).visited) ∧
            Closes p entered (p.collectAll depth (p.starTargets module) entered) := by
        rcases unvisitedModules_enter hvisited isRoot (p.ownExports module) with hnone | hlt
        · rw [hnone]
          exact ⟨fun _ hmem => absurd hmem List.not_mem_nil, .refl entered⟩
        · exact closes_collectAll (fun target w => ih false target) _
            (Nat.lt_of_lt_of_le hlt (Nat.le_of_lt_succ h))
      refine ⟨hcloses.grows hmodule, List.Subset.trans hentered hcloses.grows,
        fun m hm hnew target htarget => ?_⟩
      -- a module that was visited on the way is this one, or one that the targets close
      by_cases hmid : m ∈ entered.visited
      · obtain rfl | hmid : m = module ∨ m ∈ w.visited := by simpa [entered] using hmid
        · exact htargets target htarget
        · exact absurd hmid hnew
      · exact hcloses.closed m hm hmid target htarget

/-- Every module that is reached is visited. -/
theorem visited_of_reaches {module m : SymbolId} (h : p.Reaches module m) :
    m ∈ (p.collectExports p.walkDepth true module {}).visited := by
  obtain ⟨hmodule, hcloses⟩ := closes_collectExports true module (unvisitedModules_empty (p := p))
  induction h with
  | refl => exact hmodule
  | tail _ hpass ih => exact hcloses.closed _ ih List.not_mem_nil _ hpass

/-! ## Where exports come from -/

/-- What was found is what the visited modules declare themselves, and nothing else was visited than
what is reached. -/
structure FromVisited (p : Project) (module : SymbolId) (w : ExportWalk) : Prop where
  reached : ∀ m ∈ w.visited, p.Reaches module m
  given : ∀ name symbol, w.lookup? name = some symbol → ∃ m ∈ w.visited,
    p.ownExport? m name = some symbol
  taken : ∀ m ∈ w.visited, ∀ name, isUnnamedExport name = false →
    (p.ownExport? m name).isSome = true →
    (w.lookup? name).isSome = true

theorem FromVisited.enter {module m : SymbolId} {w : ExportWalk} (h : FromVisited p module w)
    (isRoot : Bool) (hm : p.Reaches module m) :
    FromVisited p module (w.enter isRoot m (p.ownExports m)) := by
  constructor
  case reached =>
    intro other hother
    rw [ExportWalk.visited_enter] at hother
    rcases List.mem_cons.1 hother with rfl | hother
    · exact hm
    · exact h.reached other hother
  case given =>
    intro name symbol hfound
    rw [ExportWalk.lookup?_enter] at hfound
    rw [ExportWalk.visited_enter]
    rcases Option.or_eq_some_iff.1 hfound with hbefore | ⟨-, hown⟩
    · obtain ⟨other, hother, hown⟩ := h.given name symbol hbefore
      exact ⟨other, List.mem_cons_of_mem _ hother, hown⟩
    · split at hown
      · cases hown
      · exact ⟨m, List.mem_cons_self, hown⟩
  case taken =>
    intro other hother name hname hown
    rw [ExportWalk.visited_enter] at hother
    rw [ExportWalk.lookup?_enter, hname, Bool.and_false, if_neg (by decide), Option.isSome_or,
      Bool.or_eq_true]
    rcases List.mem_cons.1 hother with rfl | hother
    · exact .inr hown
    · exact .inl (h.taken other hother name hname hown)

theorem fromVisited_empty (module : SymbolId) : FromVisited p module {} where
  reached _ h := absurd h List.not_mem_nil
  given _ _ h := by cases h
  taken _ h := absurd h List.not_mem_nil

theorem fromVisited_collectExports (depth : Nat) (module : SymbolId) :
    FromVisited p module (p.collectExports depth true module {}) := by
  cases depth with
  | zero => exact fromVisited_empty module
  | succ depth =>
    rw [collectExports_of_new List.not_mem_nil]
    refine collectAll_keeps (fun target htarget m w hm _ hw => ?_) depth
      ((fromVisited_empty module).enter true .refl)
    exact hw.enter false (.head htarget hm)

/-! ## Both ways agree -/

theorem lookup?_exportsOf (module : SymbolId) (name : String) :
    p.exportNamed? module name = (p.collectExports p.walkDepth true module {}).lookup? name :=
  search_eq_lookup? p.walkDepth module name

/-- What collecting all exports of a module and searching one of them have in common. -/
structure ExportsAgree (p : Project) (module : SymbolId) : Prop where
  /-- An export is found by its name exactly when it is one of the exports that are collected. -/
  agree : ∀ name symbol, p.exportNamed? module name = some symbol ↔
    ⟨name, symbol⟩ ∈ p.exportsOf module
  /-- No two exports have one name. -/
  distinct : ((p.exportsOf module).map ModuleExport.name).Nodup
  /-- What the module declares itself is never replaced by what it passes on. -/
  own : ∀ name symbol, p.ownExport? module name = some symbol →
    p.exportNamed? module name = some symbol
  /-- The default export and the export assignment are those of the module itself. -/
  unnamed : ∀ name, isUnnamedExport name = true →
    p.exportNamed? module name = p.ownExport? module name
  /-- An export is declared by a module that is reached. -/
  declared : ∀ name symbol, p.exportNamed? module name = some symbol →
    ∃ m, p.Reaches module m ∧ p.ownExport? m name = some symbol
  /-- Every other name that a module declares that is reached is exported. -/
  complete : ∀ m name, p.Reaches module m → isUnnamedExport name = false →
    (p.ownExport? m name).isSome = true →
    (p.exportNamed? module name).isSome = true
  /-- No limit to the modules that are visited plays a part. -/
  unlimited : ∀ depth, p.walkDepth ≤ depth →
    (p.collectExports depth true module {}).found = p.exportsOf module ∧
    ∀ name, (p.searchExport name depth module []).1 = p.exportNamed? module name

/-- Whatever the modules of a project pass on, in cycles or over several ways, the exports that are
collected and the export that is searched agree. -/
theorem exports_agree (p : Project) (module : SymbolId) : ExportsAgree p module := by
  have hfrom := fromVisited_collectExports (p := p) p.walkDepth module
  have hdistinct : (p.collectExports p.walkDepth true module {}).Distinct :=
    p.distinct_collectExports _ true module List.nodup_nil
  have hroot : ∀ name, (({} : ExportWalk).enter true module (p.ownExports module)).lookup? name =
      p.ownExport? module name := fun name => by
    rw [ExportWalk.lookup?_enter]
    rfl
  constructor
  case agree =>
    intro name symbol
    rw [lookup?_exportsOf, hdistinct.lookup?_eq_some_iff]
    rfl
  case distinct => exact hdistinct
  case own =>
    intro name symbol hown
    rw [lookup?_exportsOf, walkDepth, collectExports_of_new List.not_mem_nil]
    exact lookup?_collectAll_of_some ((hroot name).trans hown) _ _
  case unnamed => exact fun name hname => searchExport_unnamed hname _ module
  case declared =>
    intro name symbol hfound
    rw [lookup?_exportsOf] at hfound
    obtain ⟨m, hm, hown⟩ := hfrom.given name symbol hfound
    exact ⟨m, hfrom.reached m hm, hown⟩
  case complete =>
    intro m name hreach hname hown
    rw [lookup?_exportsOf]
    exact hfrom.taken m (visited_of_reaches hreach) name hname hown
  case unlimited =>
    intro depth hle
    have hsame := collectExports_of_le hle module
    refine ⟨by rw [hsame, exportsOf], fun name => ?_⟩
    rw [search_eq_lookup?, hsame, ← lookup?_exportsOf]

end Project

end DeclBundle
