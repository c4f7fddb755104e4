import DeclBundle.Proofs.Accounting
import DeclBundle.Proofs.Forms
import Mathlib.Data.List.Perm.Subperm
import Mathlib.Data.Nat.Find

/-!
# Every visited name is settled

A node that a walk reaches at all is reached over no more steps than there are nodes
(`exists_walksIn`), so the depth to which declarations are walked is never the reason why a name is
not visited. Collecting walks every declaration that is written of every symbol that it keeps, and
so settles all names that these walks visit (`settled_of_visits`).
-/

set_option autoImplicit false

namespace DeclBundle

open Relation (ReflTransGen)

variable {a : Arena}

/-! ## Depth -/

/-- A walk leads from one slot to another over a number of steps. -/
def WalksIn (a : Arena) : (steps : Nat) → Slot → Slot → Prop
  | 0, n, m => n = m
  | steps + 1, n, m => ∃ next, WalksOn a n next ∧ WalksIn a steps next m

theorem exists_walksIn_of_walks {n m : Slot} (h : ReflTransGen (WalksOn a) n m) :
    ∃ steps, WalksIn a steps n m := by
  induction h using ReflTransGen.head_induction_on with
  | refl => exact ⟨0, rfl⟩
  | head hstep _ ih =>
    obtain ⟨steps, hsteps⟩ := ih
    exact ⟨steps + 1, _, hstep, hsteps⟩

/-- A walk goes on from nodes only. -/
theorem exists_form?_of_walksOn {n m : Slot} (h : WalksOn a n m) :
    ∃ id form, n = some id ∧ a.form? (some id) = some form := by
  cases n with
  | none => cases h
  | some id =>
    cases hform : a.form? (some id) with
    | none => simp [WalksOn, Walk.at_, hform, Walk.next] at h
    | some form => exact ⟨id, form, rfl, hform⟩

/-- The nodes on a shortest walk are all different: as many as there are steps, each from which the
end can be reached. -/
theorem exists_nodes_of_shortest {steps : Nat} {n m : Slot} (h : WalksIn a steps n m)
    (hshortest : ∀ fewer < steps, ¬ WalksIn a fewer n m) :
    ∃ nodes : List Nat, nodes.Nodup ∧ nodes.length = steps ∧
      ∀ i ∈ nodes, i < a.size ∧ ∃ fewer ≤ steps, WalksIn a fewer (some ⟨i⟩) m := by
  induction steps generalizing n with
  | zero => exact ⟨[], List.nodup_nil, rfl, fun i hi => by cases hi⟩
  | succ steps ih =>
    obtain ⟨next, hstep, hrest⟩ := h
    obtain ⟨id, form, rfl, hform⟩ := exists_form?_of_walksOn hstep
    obtain ⟨nodes, hnodup, hlength, hnodes⟩ := ih hrest fun fewer hfewer hwalk =>
      hshortest (fewer + 1) (by omega) ⟨next, hstep, hwalk⟩
    refine ⟨id.index :: nodes, List.nodup_cons.2 ⟨?_, hnodup⟩, by rw [List.length_cons, hlength],
      ?_⟩
    · intro hmem
      obtain ⟨-, fewer, hfewer, hwalk⟩ := hnodes _ hmem
      exact hshortest fewer (by omega) hwalk
    · intro i hi
      rcases List.mem_cons.1 hi with rfl | hi
      · exact ⟨Arena.lt_size_of_form? hform, steps + 1, Nat.le_refl _, next, hstep, hrest⟩
      · obtain ⟨hlt, fewer, hfewer, hwalk⟩ := hnodes i hi
        exact ⟨hlt, fewer, by omega, hwalk⟩

/-- What a walk reaches is reached over at most as many steps as there are nodes. -/
theorem exists_walksIn {n m : Slot} (h : ReflTransGen (WalksOn a) n m) :
    ∃ steps ≤ a.size, WalksIn a steps n m := by
  classical
  have hex := exists_walksIn_of_walks h
  obtain ⟨nodes, hnodup, hlength, hnodes⟩ :=
    exists_nodes_of_shortest (Nat.find_spec hex) fun fewer hfewer => Nat.find_min hex hfewer
  refine ⟨Nat.find hex, ?_, Nat.find_spec hex⟩
  have hsub : nodes ⊆ List.range a.size := fun i hi => List.mem_range.2 (hnodes i hi).1
  have hle := (hnodup.subperm hsub).length_le
  rwa [hlength, List.length_range] at hle

/-! ## Walks -/

namespace Collecting

variable {p : Project} {visit : Target → Collecting → Collecting}

/-- A walk only adds to what was found. -/
theorem grows_walkTo (hvisit : ∀ target c, Grows c (visit target c)) (owner : SymbolId)
    {file : FileId} (harena : p.arena? file = some a) (depth : Nat) (n : Slot) (c : Collecting) :
    Grows c (walkTo p visit owner file a depth n c) :=
  (keeps_grows c).walkTo (fun target c' hc => hc.trans (hvisit target c')) owner harena depth
    n c (.refl _)

/-- Walks from several slots, one after the other. -/
def walkAllTo (p : Project) (visit : Target → Collecting → Collecting) (owner : SymbolId)
    (file : FileId) (a : Arena) (depth : Nat) (nodes : List Slot) (c : Collecting) : Collecting :=
  nodes.foldl (fun c n => walkTo p visit owner file a depth n c) c

theorem grows_walkAllTo (hvisit : ∀ target c, Grows c (visit target c)) (owner : SymbolId)
    {file : FileId} (harena : p.arena? file = some a) (depth : Nat) (nodes : List Slot)
    (c : Collecting) :
    Grows c (walkAllTo p visit owner file a depth nodes c) :=
  keeps_foldl (P := Grows c) (fun c' n hc => hc.trans (grows_walkTo hvisit owner harena depth n c'))
    nodes c (.refl _)

theorem exists_form?_of_importType {n : Slot} {typeArguments : List Slot}
    (h : Walk.at_ a n = .importType typeArguments) :
    ∃ isTypeof argument qualifier,
      a.form? n = some (.importType isTypeof argument qualifier typeArguments) := by
  unfold Walk.at_ at h
  split at h
  · cases h
  · next form hform =>
    by_cases hhidden : isHidden a form = true
    · rw [if_pos hhidden] at h
      cases h
    · rw [if_neg hhidden] at h
      cases form
      case importType isTypeof argument qualifier typeArguments' =>
        obtain rfl : typeArguments' = typeArguments := by simpa [Walk.ofForm] using h
        exact ⟨isTypeof, argument, qualifier, hform⟩
      all_goals
        simp only [Walk.ofForm] at h
        first
          | cases h
          | split at h <;> cases h

/-- A walk settles the names that it visits at the slot where it starts. -/
theorem settled_walkTo_start (hvisit : ∀ target c, Grows c (visit target c)) {owner : SymbolId}
    {file : FileId} (harena : p.arena? file = some a) {name n : Slot} (hname : VisitsAt a n name)
    (depth : Nat) (c : Collecting) :
    Settled p owner ⟨file, name⟩ (walkTo p visit owner file a (depth + 1) n c).found := by
  unfold VisitsAt at hname
  unfold walkTo
  cases hwalk : Walk.at_ a n with
  | entity visited typeArguments =>
    rw [hwalk] at hname
    obtain ⟨rfl, hdotted⟩ := hname
    exact (settled_walkEntity harena hdotted c).grow
      (grows_walkAllTo hvisit owner harena depth typeArguments _)
  | importType typeArguments =>
    rw [hwalk] at hname
    obtain rfl : name = n := hname
    obtain ⟨isTypeof, argument, qualifier, hform⟩ := exists_form?_of_importType hwalk
    exact (settled_walkImportType harena hform c).grow
      (grows_walkAllTo hvisit owner harena depth typeArguments _)
  | _ =>
    rw [hwalk] at hname
    cases hname

/-- A walk settles the names that it visits. -/
theorem settled_walkTo (hvisit : ∀ target c, Grows c (visit target c)) {owner : SymbolId}
    {file : FileId} (harena : p.arena? file = some a) {name n : Slot} (hname : VisitsAt a n name)
    {steps depth : Nat} {root : Slot} (hsteps : WalksIn a steps root n) (hdepth : steps < depth)
    (c : Collecting) :
    Settled p owner ⟨file, name⟩ (walkTo p visit owner file a depth root c).found := by
  induction steps generalizing root depth c with
  | zero =>
    obtain ⟨depth, rfl⟩ := Nat.exists_eq_succ_of_ne_zero (Nat.ne_of_gt hdepth)
    obtain rfl : root = n := hsteps
    exact settled_walkTo_start hvisit harena hname depth c
  | succ steps ih =>
    obtain ⟨depth, rfl⟩ := Nat.exists_eq_succ_of_ne_zero (Nat.ne_of_gt (Nat.zero_lt_of_lt hdepth))
    obtain ⟨next, hstep, hrest⟩ := hsteps
    have hall : ∀ (nodes : List Slot) (c : Collecting), next ∈ nodes →
        Settled p owner ⟨file, name⟩ (walkAllTo p visit owner file a depth nodes c).found :=
          fun nodes c hmem =>
      settled_foldl (fun c n => grows_walkTo hvisit owner harena depth n c)
        (fun c => ih hrest (by omega) c) hmem c
    unfold WalksOn at hstep
    unfold walkTo
    -- the next node on the way is among those that the walk goes to from here
    cases hwalk : Walk.at_ a root with
    | members before body =>
      rw [hwalk] at hstep
      rcases List.mem_append.1 hstep with hbefore | hbody
      · exact (hall _ c hbefore).grow (grows_walkAllTo hvisit owner harena depth _ _)
      · exact hall _ _ hbody
    | into nodes =>
      rw [hwalk] at hstep
      exact hall _ _ hstep
    | entity visited typeArguments =>
      rw [hwalk] at hstep
      exact hall _ _ hstep
    | importType typeArguments =>
      rw [hwalk] at hstep
      exact hall _ _ hstep
    | _ =>
      rw [hwalk] at hstep
      cases hstep

/-- Walking a declaration settles every name that it visits. -/
theorem settled_walkDeclaration (hvisit : ∀ target c, Grows c (visit target c)) {owner : SymbolId}
    {ref : NodeRef} (harena : p.arena? ref.file = some a) {name : Slot}
    (hname : Visits a ref.node name) (c : Collecting) :
    Settled p owner ⟨ref.file, name⟩ (walkDeclaration p visit owner c ref).found := by
  obtain ⟨n, hpath, hvisits⟩ := hname
  obtain ⟨steps, hsteps, hwalk⟩ := exists_walksIn hpath
  unfold walkDeclaration
  rw [harena]
  exact settled_walkTo hvisit harena hvisits hwalk (Nat.lt_succ_of_le hsteps) c

/-! ## Visits -/

/-- Every name that a walk over the declarations of a symbol visits is settled. -/
def Complete (p : Project) (id : SymbolId) (c : Collection) : Prop :=
  ∀ ref ∈ p.writtenDeclarations id, ∀ a, p.arena? ref.file = some a → ∀ name,
    Visits a ref.node name →
    Settled p id ⟨ref.file, name⟩ c

/-- A step only adds to what was found, and it completes every symbol that it begins to keep. -/
structure Completes (p : Project) (c c' : Collecting) : Prop where
  grows : Grows c c'
  complete : ∀ id ∈ c'.found.kept, id ∉ c.found.kept → Complete p id c'.found

namespace Completes

theorem refl (c : Collecting) : Completes p c c :=
  ⟨.refl _, fun _ hid hnew => absurd hid hnew⟩

theorem trans {c₁ c₂ c₃ : Collecting} (h₁ : Completes p c₁ c₂) (h₂ : Completes p c₂ c₃) :
    Completes p c₁ c₃ := by
  refine ⟨h₁.grows.trans h₂.grows, fun id hid hnew => ?_⟩
  by_cases hmiddle : id ∈ c₂.found.kept
  · intro ref href a harena name hname
    exact (h₁.complete id hmiddle hnew ref href a harena name hname).grow h₂.grows
  · exact h₂.complete id hid hmiddle

/-- A step that keeps no symbol has none to complete. -/
theorem of_kept {c c' : Collecting} (h : Grows c c') (hkept : c'.found.kept = c.found.kept) :
    Completes p c c' :=
  ⟨h, fun _ hid hnew => absurd (hkept ▸ hid) hnew⟩

end Completes

/-- The changes that a walk makes by itself keep no symbol. -/
theorem keepsNotes_completes (c₀ : Collecting) : KeepsNotes p (Completes p c₀) where
  reserve file identifier c h :=
    h.trans (.of_kept (grows_reserve file identifier c) (kept_reserve p file identifier c))
  addReference key r c h _ := h.trans (.of_kept (grows_addReference key r c) rfl)
  pass c h := h.trans (.of_kept (grows_pass c) rfl)

section Visit

variable (hvisit : ∀ target c, Completes p c (visit target c))

include hvisit

theorem completes_walkDeclaration (owner : SymbolId) (c : Collecting) (ref : NodeRef) :
    Completes p c (walkDeclaration p visit owner c ref) :=
  (keepsNotes_completes c).walkDeclaration (fun target c' hc => hc.trans (hvisit target c')) owner c
    ref (.refl c)

/-- Walking the declarations of a symbol completes it. -/
theorem completes_visitDeclaration (id : SymbolId) (c : Collecting) :
    Completes p c (visitDeclaration p visit id c) := by
  unfold visitDeclaration
  dsimp only
  split
  · exact .refl c
  · split
    · exact .of_kept (grows_skip _ c) rfl
    · next hdeclarations _ =>
      set owner := (p.topContainer? id).getD id
      -- the symbol itself is completed by the walks, and every other one by the visits inside them
      have hwalks : Completes p (c.keep owner)
          ((p.writtenDeclarations owner).foldl (walkDeclaration p visit owner) (c.keep owner)) :=
        keeps_foldl (P := Completes p (c.keep owner))
          (fun c' ref hc => hc.trans (completes_walkDeclaration hvisit owner c' ref)) _ _ (.refl _)
      have hgrows : ∀ c ref, Grows c (walkDeclaration p visit owner c ref) := fun c ref =>
        (completes_walkDeclaration hvisit owner c ref).grows
      refine ⟨(grows_keep owner c).trans hwalks.grows, fun other hother hnew => ?_⟩
      by_cases howner : other = owner
      · subst howner
        intro ref href a harena name hname
        exact settled_foldl hgrows
          (fun c =>
            settled_walkDeclaration (fun target c => (hvisit target c).grows) harena hname c) href _
      · refine hwalks.complete other hother fun hkept => ?_
        rcases List.mem_append.1 hkept with hkept | hkept
        · exact hnew hkept
        · exact howner (List.mem_singleton.1 hkept)

theorem completes_visitSymbol (id : SymbolId) (c : Collecting) :
    Completes p c (visitSymbol p visit id c) := by
  unfold visitSymbol
  split
  · exact hvisit _ c
  · exact .refl c

theorem completes_visitModule (id : SymbolId) (localName : Option String) (c : Collecting) :
    Completes p c (visitModule p visit id localName c) := by
  unfold visitModule
  dsimp only
  split
  · exact .refl c
  · refine keeps_foldl (P := Completes p c) (fun c' e hc => ?_) _ _
      (.of_kept (grows_enter id _ c) rfl)
    split
    · exact hc
    · exact hc.trans (completes_visitSymbol hvisit e.symbol c')

end Visit

/-- A visit completes every symbol that it begins to keep. -/
theorem completes_visitTo (depth : Nat) (target : Target) (c : Collecting) :
    Completes p c (visitTo p depth target c) := by
  induction depth generalizing target c with
  | zero => exact .refl c
  | succ depth ih =>
    unfold visitTo visitTarget
    split
    · exact completes_visitDeclaration ih _ c
    · exact completes_visitModule ih _ _ c
    · exact .of_kept (grows_addExternal _ c) (kept_addExternal _ c)
    · exact .refl c

/-- Every symbol that is kept is complete in the end. -/
theorem complete_collect {exports_ : List ModuleExport} {id : SymbolId}
    (h : id ∈ (p.collect exports_).kept) :
    Complete p id (p.collect exports_) := by
  have hcompletes := keeps_foldl (P := Completes p {})
    (f := fun c (e : ModuleExport) =>
      visitSymbol p (visitTo p (p.tables.symbols.size + 2)) e.symbol c)
    (fun c e hc => hc.trans (completes_visitSymbol (completes_visitTo _) e.symbol c)) exports_
      {} (.refl _)
  exact hcompletes.complete id h (by simp)

end Collecting

end DeclBundle
