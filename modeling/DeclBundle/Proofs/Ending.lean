import DeclBundle.Proofs.Stops
import Mathlib.Data.Finset.Card

/-!
# Collecting ends

Whenever a visit starts another one inside itself, it has marked a symbol of the project that was
not visited before. So visits are never nested deeper than there are symbols: a limit above their
number is never reached, and all such limits lead to the same collection (`Project.collectTo_eq`). A
visit is then the same as one whose visits on the way have no lower limit (`Collecting.visitTo_eq`).
-/

set_option autoImplicit false

namespace DeclBundle

namespace Collecting

variable {p : Project}

/-! ## Symbols that were not visited -/

/-- The number of symbols of the project that were not visited. -/
def unvisited (p : Project) (c : Collecting) : Nat :=
  ((Finset.range p.tables.symbols.size).filter fun i => (⟨i⟩ : SymbolId) ∉ c.visited).card

theorem unvisited_le (c : Collecting) : unvisited p c ≤ p.tables.symbols.size := by
  have h := Finset.card_filter_le (Finset.range p.tables.symbols.size) fun i =>
    (⟨i⟩ : SymbolId) ∉ c.visited
  rwa [Finset.card_range] at h

theorem unvisited_mono {c c' : Collecting} (h : c.visited ⊆ c'.visited) :
    unvisited p c' ≤ unvisited p c := by
  apply Finset.card_le_card
  intro i hi
  rw [Finset.mem_filter] at hi ⊢
  exact ⟨hi.1, fun hmem => hi.2 (h hmem)⟩

/-- Visiting one more symbol of the project leaves fewer. -/
theorem unvisited_lt {c c' : Collecting} {id : SymbolId} {s : Symbol} (hs : p.symbol? id = some s)
    (hfresh : id ∉ c.visited) (h : c'.visited = id :: c.visited) :
    unvisited p c' < unvisited p c := by
  have hid : id.index < p.tables.symbols.size := by
    obtain ⟨hlt, -⟩ := Array.getElem?_eq_some_iff.1 hs
    exact hlt
  apply Finset.card_lt_card
  rw [Finset.ssubset_iff_of_subset]
  · refine ⟨id.index, ?_, ?_⟩
    · rw [Finset.mem_filter, Finset.mem_range]
      exact ⟨hid, hfresh⟩
    · simp [h]
  · intro i hi
    rw [Finset.mem_filter] at hi ⊢
    refine ⟨hi.1, fun hmem => hi.2 ?_⟩
    rw [h]
    exact List.mem_cons_of_mem _ hmem

/-- Visits never leave more symbols. -/
theorem keeps_unvisited (p : Project) (count : Nat) : Keeps p fun c => unvisited p c < count := by
  have hgrown : ∀ {c c' : Collecting}, unvisited p c < count → c.visited ⊆ c'.visited →
      unvisited p c' < count :=
    fun h hsub => Nat.lt_of_le_of_lt (unvisited_mono hsub) h
  constructor
  case toKeepsNotes =>
    constructor
    case reserve =>
      intro file identifier c h
      apply hgrown h
      rw [(Notes.reserve file identifier c).visited]
      exact List.Subset.refl _
    case addReference => exact fun key r c h _ => h
    case pass => exact fun c h => h
  case addExternal =>
    intro i c h
    unfold addExternal
    split
    · exact h
    · exact h
  case skip => exact fun owner c h _ _ => hgrown h (List.subset_cons_self _ _)
  case keep => exact fun owner c h _ _ => hgrown h (List.subset_cons_self _ _)
  case enter => exact fun id name c h _ => hgrown h (List.subset_cons_self _ _)

theorem keepsFound_unvisited (depth : Nat) (owner : SymbolId) (count : Nat) :
    KeepsFound p (visitTo p depth) owner fun c => unvisited p c < count where
  notes c c' hnotes h := by
    unfold unvisited
    rw [hnotes.visited]
    exact h
  visit _ target c _ h := (keeps_unvisited p count).visitTo depth target c h

/-! ## Limits that are not reached -/

theorem exportsOf_of_symbol?_none {id : SymbolId} (h : p.symbol? id = none) :
    p.exportsOf id = [] := by
  simp [Project.exportsOf, Project.walkDepth, Project.collectExports, h]

theorem exists_symbol?_of_written {id : SymbolId} (h : p.writtenDeclarations id ≠ []) :
    ∃ s, p.symbol? id = some s := by
  cases hs : p.symbol? id with
  | some s => exact ⟨s, rfl⟩
  | none =>
    refine absurd ?_ h
    rw [Project.writtenDeclarations, Project.declarationsOf, hs]
    rfl

/-- A limit above the number of symbols that were not visited can be raised. -/
theorem visitTo_succ {depth : Nat} {target : Target} {c : Collecting} (h : unvisited p c < depth) :
    visitTo p (depth + 1) target c = visitTo p depth target c := by
  induction depth generalizing target c with
  | zero => exact absurd h (Nat.not_lt_zero _)
  | succ depth ih =>
    rw [visitTo, visitTo]
    cases target with
    | ambient => rfl
    | external i => rfl
    | declaration id =>
      simp only [visitTarget, visitDeclaration]
      split
      · rfl
      · next hfresh =>
        split
        · rfl
        · next _ hwritten =>
          -- the visits inside find the symbol visited
          obtain ⟨s, hs⟩ := exists_symbol?_of_written hwritten
          have hlt : unvisited p (c.keep ((p.topContainer? id).getD id)) < unvisited p c :=
            unvisited_lt hs (by simpa using hfresh) rfl
          have hinside : unvisited p (c.keep ((p.topContainer? id).getD id)) < depth := by omega
          exact walkAll_congr (keepsFound_unvisited (depth + 1) _ depth)
            (fun _ target c _ hc => ih hc) _ hinside
    | module_ id localName =>
      simp only [visitTarget, visitModule]
      split
      · rfl
      · next hfresh =>
        cases hs : p.symbol? id with
        | none => simp [exportsOf_of_symbol?_none hs]
        | some s =>
          have hlt := unvisited_lt hs (by simpa using hfresh)
            (show (c.enter id (localName.getD
              ((p.symbol? id).elim "ns" fun s => nameOfPath s.name))).visited = id :: c.visited
              from rfl)
          rw [hs] at hlt
          apply foldl_congr_of_keeps (P := fun c => unvisited p c < depth)
          · intro e _ c hc
            split
            · exact hc
            · exact Keeps.visitSymbol ((keeps_unvisited p depth).visitTo (depth + 1)) e.symbol c hc
          · intro e _ c hc
            split
            · rfl
            · unfold visitSymbol
              split
              · exact ih hc
              · rfl
          · exact Nat.lt_of_lt_of_le hlt (Nat.le_of_lt_succ h)

/-- The visits inside a visit have the same limit, when it is above the number of symbols. -/
theorem visitTo_eq {depth : Nat} (hdepth : p.tables.symbols.size < depth) (target : Target)
    (c : Collecting) :
    visitTo p depth target c = visitTarget p (visitTo p depth) target c := by
  have h : unvisited p c < depth := Nat.lt_of_le_of_lt (unvisited_le c) hdepth
  rw [← visitTo_succ h]
  rfl

/-- All limits above the number of symbols lead to the same. -/
theorem visitTo_of_le {depth depth' : Nat} (hdepth : p.tables.symbols.size < depth)
    (hle : depth ≤ depth') :
    visitTo p depth' = visitTo p depth := by
  induction hle with
  | refl => rfl
  | step hle ih =>
    rw [← ih]
    funext target c
    exact visitTo_succ (Nat.lt_of_le_of_lt (unvisited_le c) (Nat.lt_of_lt_of_le hdepth hle))

end Collecting

namespace Project

/-- Collects what the given exports need, over at most `depth` visits inside each other. -/
def collectTo (p : Project) (depth : Nat) (exports_ : List ModuleExport) : Collection :=
  (exports_.foldl (fun c e => Collecting.visitSymbol p (Collecting.visitTo p depth) e.symbol c)
    {}).found

/-- Collecting ends before any limit above the number of symbols. -/
theorem collectTo_eq (p : Project) {depth : Nat} (hdepth : p.tables.symbols.size < depth)
    (exports_ : List ModuleExport) :
    p.collectTo depth exports_ = p.collect exports_ := by
  unfold collectTo collect
  rcases Nat.le_total depth (p.tables.symbols.size + 2) with h | h
  · rw [Collecting.visitTo_of_le hdepth h]
  · rw [Collecting.visitTo_of_le (Nat.lt_add_of_pos_right (by decide)) h]

end Project

end DeclBundle
