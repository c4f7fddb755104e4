import DeclBundle.Bundle.Target
import DeclBundle.Proofs.SoundSymbols
import Mathlib.Order.Monotone.Basic
import Mathlib.Data.Finset.Card
import Mathlib.Order.OrderIsoNat

/-!
# Following aliases

What an alias stands for is the least solution of one equation (`Project.aliasTarget?_eq`): the
equation only asks for the targets of other aliases, more targets lead to more targets, and there
are finitely many symbols. Aliases are followed in two ways. One of them stops at what is no alias,
the other one at modules first, and both refuse to visit an alias twice. In a loaded project no
module is an alias, and a symbol that is no alias stands for nothing else; so both end at the one
symbol that is no alias on the way (`Project.aliases_agree`).
-/

set_option autoImplicit false

namespace DeclBundle

namespace Project

variable (p : Project)

/-! ## What an alias stands for -/

section Step

/-- What one alias stands for, when the targets of all aliases are known. -/
def aliasStep (target : SymbolId → Option SymbolId) (id : SymbolId) : Option SymbolId := do
  let symbol ← p.symbol? id
  match ← symbol.aliasOf with
  | .name entity => p.entityBy target entity
  | .export_ specifier exportName =>
    let module ← p.moduleOf? symbol.file specifier
    match p.exportNamed? module exportName with
    | some found => some found
    | none => if exportName == "default" then p.exportNamed? module "export=" else none
  | .module_ specifier =>
    let module ← p.moduleOf? symbol.file specifier
    some ((p.exportNamed? module "export=").getD module)

theorem aliasTargetTo_succ (depth : Nat) :
    p.aliasTargetTo (depth + 1) = p.aliasStep (p.aliasTargetTo depth) := rfl

/-- Every target that is known is known to the other function too. -/
def Extends (target more : SymbolId → Option SymbolId) : Prop :=
  ∀ id t, target id = some t → more id = some t

variable {p} {target more : SymbolId → Option SymbolId} (h : Extends target more)

include h

theorem followAliases_mono (hops : Nat) (visited : List SymbolId) :
    Extends (p.followAliases target hops visited) (p.followAliases more hops visited) := by
  induction hops generalizing visited with
  | zero => intro id t ht; cases ht
  | succ hops ih =>
    intro id t ht
    unfold followAliases at ht ⊢
    split
    · next hnone => rw [hnone] at ht; exact ht
    · next s hs =>
      rw [hs] at ht
      dsimp only at ht ⊢
      split
      · next hother => rwa [if_pos hother] at ht
      · next halias =>
        rw [if_neg halias] at ht
        split
        · next hvisited => rwa [if_pos hvisited] at ht
        · next hnew =>
          rw [if_neg hnew] at ht
          obtain ⟨next, hnext, hrest⟩ := Option.bind_eq_some_iff.1 ht
          exact Option.bind_eq_some_iff.2 ⟨next, h id next hnext, ih (id :: visited) next t hrest⟩

theorem memberBy_mono {container t : SymbolId} {name : String}
    (ht : p.memberBy target container name = some t) :
    p.memberBy more container name = some t := by
  obtain ⟨found, hfound, hmember⟩ := Option.bind_eq_some_iff.1 ht
  exact Option.bind_eq_some_iff.2 ⟨found, followAliases_mono h _ _ container found hfound, hmember⟩

theorem memberPath_mono {a : Arena} {start t : SymbolId} {parts : List Slot}
    (ht : p.memberPath target a start parts = some t) :
    p.memberPath more a start parts = some t := by
  unfold memberPath at ht ⊢
  induction parts generalizing start with
  | nil => rwa [List.foldlM_nil] at ht ⊢
  | cons part rest ih =>
    simp only [List.foldlM_cons, Option.bind_eq_bind] at ht ⊢
    obtain ⟨next, hnext, hrest⟩ := Option.bind_eq_some_iff.1 ht
    obtain ⟨name, hname, hmember⟩ := Option.bind_eq_some_iff.1 hnext
    rw [hname, Option.bind_some, memberBy_mono h hmember, Option.bind_some]
    exact ih hrest

theorem entityBy_mono {entity : NodeRef} {t : SymbolId} (ht : p.entityBy target entity = some t) :
    p.entityBy more entity = some t := by
  obtain ⟨file, hfile, hparts⟩ := Option.bind_eq_some_iff.1 ht
  refine Option.bind_eq_some_iff.2 ⟨file, hfile, ?_⟩
  cases hsplit : entityParts file.arena entity.node with
  | nil =>
    rw [hsplit] at hparts
    cases hparts
  | cons first rest =>
    rw [hsplit] at hparts
    obtain ⟨node, hnode, hparts⟩ := Option.bind_eq_some_iff.1 hparts
    obtain ⟨start, hstart, hpath⟩ := Option.bind_eq_some_iff.1 hparts
    exact Option.bind_eq_some_iff.2
      ⟨node, hnode, Option.bind_eq_some_iff.2 ⟨start, hstart, memberPath_mono h hpath⟩⟩

/-- More targets lead to more targets. -/
theorem aliasStep_mono : Extends (p.aliasStep target) (p.aliasStep more) := by
  intro id t ht
  obtain ⟨s, hs, halias⟩ := Option.bind_eq_some_iff.1 ht
  obtain ⟨declared, hdeclared, hstep⟩ := Option.bind_eq_some_iff.1 halias
  refine Option.bind_eq_some_iff.2 ⟨s, hs, Option.bind_eq_some_iff.2 ⟨declared, hdeclared, ?_⟩⟩
  cases declared with
  | name entity => exact entityBy_mono h hstep
  | export_ specifier exportName => exact hstep
  | module_ specifier => exact hstep

end Step

/-- A larger depth finds at least as many targets. -/
theorem aliasTargetTo_extends (depth : Nat) :
    Extends (p.aliasTargetTo depth) (p.aliasTargetTo (depth + 1)) := by
  induction depth with
  | zero => intro id t ht; cases ht
  | succ depth ih => exact aliasStep_mono ih

theorem exists_symbol_of_aliasTargetTo {depth : Nat} {id t : SymbolId}
    (h : p.aliasTargetTo depth id = some t) :
    ∃ s, p.symbol? id = some s ∧ s.aliasOf.isSome = true := by
  cases depth with
  | zero => cases h
  | succ depth =>
    obtain ⟨s, hs, halias⟩ := Option.bind_eq_some_iff.1 h
    obtain ⟨declared, hdeclared, -⟩ := Option.bind_eq_some_iff.1 halias
    exact ⟨s, hs, by rw [hdeclared]; rfl⟩

/-- The symbols whose targets are found with a depth. -/
def settledTo (depth : Nat) : Finset Nat :=
  (Finset.range p.tables.symbols.size).filter fun index =>
    (p.aliasTargetTo depth ⟨index⟩).isSome = true

theorem mem_settledTo {depth : Nat} {id t : SymbolId} (h : p.aliasTargetTo depth id = some t) :
    id.index ∈ p.settledTo depth := by
  obtain ⟨s, hs, -⟩ := p.exists_symbol_of_aliasTargetTo h
  have hlt : id.index < p.tables.symbols.symbols.size := (Array.getElem?_eq_some_iff.1 hs).1
  exact Finset.mem_filter.2 ⟨Finset.mem_range.2 hlt, by rw [h]; rfl⟩

theorem settledTo_subset (depth : Nat) : p.settledTo depth ⊆ p.settledTo (depth + 1) := by
  intro index hindex
  obtain ⟨-, hsome⟩ := Finset.mem_filter.1 hindex
  obtain ⟨t, ht⟩ := Option.isSome_iff_exists.1 hsome
  exact p.mem_settledTo (p.aliasTargetTo_extends depth _ t ht)

/-- When no symbol is added, nothing changes. -/
theorem aliasTargetTo_eq_of_card {depth : Nat}
    (h : (p.settledTo depth).card = (p.settledTo (depth + 1)).card) :
    p.aliasTargetTo depth = p.aliasTargetTo (depth + 1) := by
  have hsame : p.settledTo depth = p.settledTo (depth + 1) :=
    Finset.eq_of_subset_of_card_le (p.settledTo_subset depth) h.ge
  funext id
  cases hlater : p.aliasTargetTo (depth + 1) id with
  | none =>
    cases hnow : p.aliasTargetTo depth id with
    | none => rfl
    | some t => rw [p.aliasTargetTo_extends depth id t hnow] at hlater; cases hlater
  | some t =>
    have hmem := p.mem_settledTo hlater
    rw [← hsame] at hmem
    obtain ⟨other, hother⟩ := Option.isSome_iff_exists.1 (Finset.mem_filter.1 hmem).2
    have heq := p.aliasTargetTo_extends depth id other hother
    rw [hlater] at heq
    rw [show id = ⟨id.index⟩ from rfl, hother, heq]

/-- The depth is never reached: what an alias stands for solves the equation of one step. -/
theorem aliasTarget?_eq : p.aliasTarget? = p.aliasStep p.aliasTarget? := by
  have hmono : Monotone fun depth => (p.settledTo depth).card :=
    monotone_nat_of_le_succ fun depth => Finset.card_le_card (p.settledTo_subset depth)
  have hbound : ∀ depth, (p.settledTo depth).card ≤ p.tables.symbols.size := fun depth =>
    (Finset.card_filter_le _ _).trans (Finset.card_range _).le
  have hstays : ∀ depth, (p.settledTo depth).card = (p.settledTo (depth + 1)).card →
      (p.settledTo (depth + 1)).card = (p.settledTo (depth + 2)).card := by
    intro depth h
    have hnext : p.aliasTargetTo (depth + 1) = p.aliasTargetTo (depth + 2) := by
      rw [aliasTargetTo_succ, p.aliasTargetTo_eq_of_card h]
      rfl
    rw [settledTo, hnext]
    rfl
  have hlast := Nat.stabilises_of_monotone hmono hbound hstays (Nat.le_succ p.tables.symbols.size)
  have hsame := p.aliasTargetTo_eq_of_card hlast.symm
  show p.aliasStep (p.aliasTargetTo p.tables.symbols.size) = _
  rw [hsame]
  rfl

/-! ## Hops -/

/-- The symbol after a number of hops from one alias to what it stands for. -/
def afterHops? (target : SymbolId → Option SymbolId) : Nat → SymbolId → Option SymbolId
  | 0, id => some id
  | n + 1, id => (target id).bind (afterHops? target n)

/-- The symbol exists and is no alias. -/
def IsEnd (id : SymbolId) : Prop := ∃ s, p.symbol? id = some s ∧ s.isAlias = false

theorem afterHops?_add (target : SymbolId → Option SymbolId) (m n : Nat) (id : SymbolId) :
    afterHops? target (m + n) id = (afterHops? target m id).bind (afterHops? target n) := by
  induction m generalizing id with
  | zero => rw [Nat.zero_add]; rfl
  | succ m ih =>
    rw [Nat.add_right_comm]
    show (target id).bind _ = ((target id).bind _).bind _
    rw [Option.bind_assoc]
    exact congrArg _ (funext ih)

section Hops

variable {p} {target : SymbolId → Option SymbolId}
  (hends : ∀ id t, target id = some t → ∃ s, p.symbol? id = some s ∧ s.isAlias = true)

include hends

theorem not_isEnd {id t : SymbolId} (h : target id = some t) : ¬ p.IsEnd id := by
  rintro ⟨s, hs, hother⟩
  obtain ⟨s', hs', halias⟩ := hends id t h
  rw [hs] at hs'
  obtain rfl := Option.some.inj hs'
  rw [hother] at halias
  cases halias

/-- There is only one end on the way from a symbol, after one number of hops. -/
theorem hops_unique {m n : Nat} {id t t' : SymbolId} (hm : afterHops? target m id = some t)
    (ht : p.IsEnd t) (hn : afterHops? target n id = some t') (ht' : p.IsEnd t') : m = n := by
  induction m generalizing n id with
  | zero =>
    obtain rfl := Option.some.inj hm
    cases n with
    | zero => rfl
    | succ n =>
      obtain ⟨next, hnext, -⟩ := Option.bind_eq_some_iff.1 hn
      exact absurd ht (not_isEnd hends hnext)
  | succ m ih =>
    obtain ⟨next, hnext, hrest⟩ := Option.bind_eq_some_iff.1 hm
    cases n with
    | zero =>
      obtain rfl := Option.some.inj hn
      exact absurd ht' (not_isEnd hends hnext)
    | succ n =>
      obtain ⟨next', hnext', hrest'⟩ := Option.bind_eq_some_iff.1 hn
      rw [hnext] at hnext'
      obtain rfl := Option.some.inj hnext'
      exact congrArg (· + 1) (ih hrest hrest')

/-- What leads to an end comes by no symbol twice. -/
theorem ne_of_hops {n k : Nat} {id v t : SymbolId} (hn : afterHops? target n id = some t)
    (ht : p.IsEnd t) (hlt : k + 1 ≤ n) (hk : afterHops? target (k + 1) id = some v) : v ≠ id := by
  rintro rfl
  have hlater : afterHops? target (n - (k + 1)) v = some t := by
    have hsplit := afterHops?_add target (k + 1) (n - (k + 1)) v
    rwa [Nat.add_sub_cancel' hlt, hn, hk, Option.bind_some, eq_comm] at hsplit
  have := hops_unique hends hn ht hlater ht
  omega

/-- Fewer than `hops` hops lead to an end, by no alias that was visited before. -/
def LeadsTo (p : Project) (target : SymbolId → Option SymbolId) (hops : Nat)
    (visited : List SymbolId) (id t : SymbolId) : Prop :=
  ∃ n < hops, afterHops? target n id = some t ∧ p.IsEnd t ∧
    ∀ k < n, ∀ v, afterHops? target k id = some v → v ∉ visited

/-- An end leads to itself only. -/
theorem leadsTo_of_isEnd {id : SymbolId} (h : p.IsEnd id) (hops : Nat) (visited : List SymbolId)
    (t : SymbolId) :
    p.LeadsTo target (hops + 1) visited id t ↔ id = t := by
  constructor
  · rintro ⟨n, -, hn, ht, -⟩
    obtain rfl := hops_unique hends (n := 0) hn ht rfl h
    exact Option.some.inj hn
  · rintro rfl
    exact ⟨0, Nat.succ_pos hops, rfl, h, fun k hk => absurd hk (Nat.not_lt_zero k)⟩

/-- What is no end leads where its target leads. -/
theorem leadsTo_of_not_isEnd {id : SymbolId} (h : ¬ p.IsEnd id) (hops : Nat)
    (visited : List SymbolId) (t : SymbolId) :
    p.LeadsTo target (hops + 1) visited id t ↔
      id ∉ visited ∧ ∃ next,
        target id = some next ∧ p.LeadsTo target hops (id :: visited) next t := by
  constructor
  · rintro ⟨n, hlt, hn, ht, hnew⟩
    cases n with
    | zero =>
      obtain rfl := Option.some.inj hn
      exact absurd ht h
    | succ n =>
      obtain ⟨next, hnext, hrest⟩ := Option.bind_eq_some_iff.1 hn
      refine ⟨hnew 0 (Nat.succ_pos n) id rfl, next, hnext, n, Nat.lt_of_succ_lt_succ hlt,
        hrest, ht, ?_⟩
      intro k hk v hv hmem
      -- a chain that leads to an end does not come back to where it began
      have hlater : afterHops? target (k + 1) id = some v :=
        Option.bind_eq_some_iff.2 ⟨next, hnext, hv⟩
      rcases List.mem_cons.1 hmem with rfl | hmem
      · exact ne_of_hops hends hn ht (by omega) hlater rfl
      · exact hnew (k + 1) (Nat.succ_lt_succ hk) v hlater hmem
  · rintro ⟨hvisited, next, hnext, n, hlt, hn, ht, hnew⟩
    refine ⟨n + 1, Nat.succ_lt_succ hlt, Option.bind_eq_some_iff.2 ⟨next, hnext, hn⟩, ht,
      fun k hk v hv => ?_⟩
    cases k with
    | zero =>
      obtain rfl := Option.some.inj hv
      exact hvisited
    | succ k =>
      obtain ⟨next', hnext', hv⟩ := Option.bind_eq_some_iff.1 hv
      rw [hnext] at hnext'
      obtain rfl := Option.some.inj hnext'
      exact fun hmem => hnew k (Nat.lt_of_succ_lt_succ hk) v hv (List.mem_cons_of_mem id hmem)

/-- Aliases are followed to the end to which they lead. -/
theorem followAliases_eq_some_iff (hops : Nat) (visited : List SymbolId) (id t : SymbolId) :
    p.followAliases target hops visited id = some t ↔ p.LeadsTo target hops visited id t := by
  induction hops generalizing visited id with
  | zero => exact ⟨fun h => (nomatch h), fun ⟨n, hn, _⟩ => absurd hn (Nat.not_lt_zero n)⟩
  | succ hops ih =>
    rw [followAliases]
    cases hs : p.symbol? id with
    | none =>
      have hnot : ¬ p.IsEnd id := fun ⟨s, hs', _⟩ => by rw [hs] at hs'; cases hs'
      rw [leadsTo_of_not_isEnd hends hnot]
      refine ⟨fun h => (nomatch h), fun ⟨_, next, hnext, _⟩ => ?_⟩
      obtain ⟨s, hs', -⟩ := hends id next hnext
      rw [hs] at hs'
      cases hs'
    | some s =>
      dsimp only
      cases halias : s.isAlias with
      | false =>
        rw [Bool.not_false, if_pos rfl, leadsTo_of_isEnd hends ⟨s, hs, halias⟩, Option.some.injEq]
      | true =>
        have hnot : ¬ p.IsEnd id := by
          rintro ⟨s', hs', hother⟩
          rw [hs] at hs'
          obtain rfl := Option.some.inj hs'
          rw [halias] at hother
          cases hother
        rw [Bool.not_true, if_neg (by decide), leadsTo_of_not_isEnd hends hnot]
        -- both sides stop at an alias that was visited
        by_cases hvisited : id ∈ visited
        · rw [if_pos (List.contains_iff_mem.2 hvisited)]
          exact ⟨fun h => (nomatch h), fun h => absurd hvisited h.1⟩
        · rw [if_neg (List.contains_iff_mem.not.2 hvisited), Option.bind_eq_some_iff,
            and_iff_right hvisited]
          exact exists_congr fun next => and_congr_right fun _ => ih (id :: visited) next

end Hops

end Project

/-! ## Targets -/

/-- The symbol that is declared or imported; a global name has none. -/
def Target.symbol? : Target → Option SymbolId
  | .declaration symbol => some symbol
  | .module_ symbol _ => some symbol
  | .external imported => some imported.symbol
  | .ambient => none

/-- The target is a global name, or the symbol is its symbol. -/
def Target.IsOf (target : Target) (symbol : SymbolId) : Prop :=
  target = .ambient ∨ target.symbol? = some symbol

namespace Project

variable {p : Project}

theorem isOf_externalTarget (id : SymbolId) (ownName : Option String) (hint : Option ImportHint)
    (localName : Option String) : (p.externalTarget id ownName hint localName).IsOf id := by
  unfold externalTarget
  split
  · exact .inr rfl
  · exact .inl rfl

theorem isOf_moduleTarget (id : SymbolId) (hint : Option ImportHint) (localName : Option String) :
    (p.moduleTarget id hint localName).IsOf id := by
  unfold moduleTarget
  split
  · exact .inr rfl
  · exact .inl rfl
  · exact isOf_externalTarget id _ _ _

theorem isOf_declarationTarget (s : Symbol) (hint : Option ImportHint) (localName : Option String) :
    (p.declarationTarget s hint localName).IsOf s.id := by
  unfold declarationTarget
  split
  · exact .inr rfl
  · exact .inl rfl
  · exact isOf_externalTarget s.id _ _ _

/-- Where all symbols are sound, both ways to follow aliases end together. -/
theorem targetTo_followAliases (hsound : ∀ id s, p.symbol? id = some s → s.IsSound id) (hops : Nat)
    (visited : List SymbolId) (hint : Option ImportHint) (localName : Option String)
    (id : SymbolId) :
    Option.Rel Target.IsOf (p.targetTo hops visited hint localName id)
      (p.followAliases p.aliasTarget? hops visited id) := by
  induction hops generalizing visited hint localName id with
  | zero => exact .none
  | succ hops ih =>
    rw [targetTo, followAliases]
    cases hs : p.symbol? id with
    | none => exact .none
    | some s =>
      have hs := hsound id s hs
      simp only [Option.bind_eq_bind, Option.bind_some]
      cases hmodule : s.isModule with
      | true =>
        -- a module is no alias, so both ways end here
        have hother : s.isAlias = false := by
          refine Bool.eq_false_iff.2 fun halias => ?_
          have hmeets : s.isModule = false := hs.isProper halias
          rw [hmodule] at hmeets
          cases hmeets
        rw [hother, if_pos rfl, Bool.not_false, if_pos rfl]
        exact .some (isOf_moduleTarget id hint localName)
      | false =>
        rw [if_neg (by decide)]
        cases halias : s.isAlias with
        | false =>
          rw [Bool.not_false, if_pos rfl, if_pos rfl]
          exact .some (hs.id_eq ▸ isOf_declarationTarget s hint localName)
        | true =>
          simp only [Bool.not_true, Bool.false_eq_true, if_false]
          by_cases hvisited : visited.contains id = true
          · rw [if_pos hvisited, if_pos hvisited]
            exact .none
          · rw [if_neg hvisited, if_neg hvisited]
            cases p.aliasTarget? id with
            | none => exact .none
            | some next => exact ih _ _ _ next

variable {entry : String} {options : ProjectOptions} {host : Host}

/-- Both ways to follow aliases lead over fewer hops than their limit to the one symbol that is no
alias, and lead nowhere when there is none. -/
theorem aliases_agree (hload : Project.load entry options host = .ok p) :
    p.aliasTarget? = p.aliasStep p.aliasTarget? ∧
      ∀ id,
        (∀ t, p.resolveAlias? id = some t ↔ ∃ n < maxAliasHops,
          afterHops? p.aliasTarget? n id = some t ∧ p.IsEnd t) ∧
        (p.target? id = none ↔ p.resolveAlias? id = none) ∧
        ∀ target, p.target? id = some target →
          ∃ t, p.resolveAlias? id = some t ∧ (target = .ambient ∨ target.symbol? = some t) := by
  have hsound : ∀ id s, p.symbol? id = some s → s.IsSound id := fun id s hs =>
    isSound_of_load hload hs
  have hends : ∀ id t, p.aliasTarget? id = some t → ∃ s,
      p.symbol? id = some s ∧ s.isAlias = true := by
    intro id t ht
    obtain ⟨s, hs, halias⟩ := p.exists_symbol_of_aliasTargetTo ht
    exact ⟨s, hs, (hsound id s hs).isAlias halias⟩
  refine ⟨p.aliasTarget?_eq, fun id => ?_⟩
  have hchain : ∀ t, p.resolveAlias? id = some t ↔
      ∃ n < maxAliasHops, afterHops? p.aliasTarget? n id = some t ∧ p.IsEnd t := by
    intro t
    rw [resolveAlias?, followAliases_eq_some_iff hends, LeadsTo]
    constructor
    · rintro ⟨n, hlt, hn, ht, -⟩
      exact ⟨n, hlt, hn, ht⟩
    · rintro ⟨n, hlt, hn, ht⟩
      exact ⟨n, hlt, hn, ht, fun _ _ _ _ hmem => nomatch hmem⟩
  have hrel : Option.Rel Target.IsOf (p.target? id) (p.resolveAlias? id) :=
    targetTo_followAliases hsound maxAliasHops [] none none id
  refine ⟨hchain, ?_⟩
  revert hrel
  generalize p.target? id = target
  generalize p.resolveAlias? id = resolved
  rintro (hof | _)
  · refine ⟨⟨fun h => (nomatch h), fun h => (nomatch h)⟩, fun _ h => ?_⟩
    exact ⟨_, rfl, Option.some.inj h ▸ hof⟩
  · exact ⟨⟨fun _ => rfl, fun _ => rfl⟩, fun _ h => nomatch h⟩

/-- A module that passes on an interface of another one under a further name, and two modules that
pass on a name in turn. -/
def aliasModules : List (String × String) :=
  [("/a.ts", "export { C, X } from \x22./b\x22;\n"),
    ("/b.ts", "interface B {}\nexport { B as C };\nexport { X } from \x22./a\x22;\n")]

set_option maxRecDepth 1000000 in
theorem resolveAlias?_aliasModules :
    ((Project.ofFiles "/a.ts" aliasModules).toOption.bind fun p =>
      ((p.file? p.entry).bind SourceFile.symbol).map fun module =>
        (p.exportsOf module).map fun e =>
          (e.name, ((p.resolveAlias? e.symbol).bind p.symbol?).map Symbol.name)) =
      some [("C", some "B"), ("X", none)] := by decide +kernel

/-- The exports of the two modules: both ways follow the alias for the interface, and none gets out
of the circle. -/
theorem aliases_agree_aliasModules : ∃ p, Project.ofFiles "/a.ts" aliasModules = .ok p ∧
    p.aliasTarget? = p.aliasStep p.aliasTarget? ∧
      ∀ id,
        (∀ t, p.resolveAlias? id = some t ↔ ∃ n < maxAliasHops,
          afterHops? p.aliasTarget? n id = some t ∧ p.IsEnd t) ∧
        (p.target? id = none ↔ p.resolveAlias? id = none) ∧
        ∀ target, p.target? id = some target →
          ∃ t, p.resolveAlias? id = some t ∧ (target = .ambient ∨ target.symbol? = some t) := by
  have h := resolveAlias?_aliasModules
  cases hp : Project.ofFiles "/a.ts" aliasModules with
  | error e => simp [hp, Except.toOption] at h
  | ok p => exact ⟨p, rfl, aliases_agree hp⟩

end Project

end DeclBundle
