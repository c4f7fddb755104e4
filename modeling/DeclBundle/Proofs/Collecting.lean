import DeclBundle.Proofs.Meanings
import Mathlib.Data.List.Nodup

/-!
# What collecting keeps true

A collection changes in few ways. A walk over syntax reserves names, adds references to what their
nodes mean (`Reference.IsNoted`) and counts nodes; when these changes keep `P`
(`Collecting.KeepsNotes`), the walk keeps `P` as far as the visits do that it starts. Visits also
add imports and mark declarations and modules; when all changes keep `P` (`Collecting.Keeps`), so do
visiting a target and collecting everything (`Collecting.Keeps.collect`).
-/

set_option autoImplicit false

namespace DeclBundle.Collecting

variable (p : Project)

/-- The symbol is visited and has no declaration that is written. -/
def skip (owner : SymbolId) (c : Collecting) : Collecting :=
  { c with visited := owner :: c.visited, found.skipped := c.found.skipped ++ [owner] }

/-- The symbol is visited and its declarations are written. -/
def keep (owner : SymbolId) (c : Collecting) : Collecting :=
  { c with visited := owner :: c.visited, found.kept := c.found.kept ++ [owner] }

/-- The module is visited and used as a whole. -/
def enter (id : SymbolId) (name : String) (c : Collecting) : Collecting :=
  { c with visited := id :: c.visited, found.namespaces := c.found.namespaces.set id name }

/-- Nodes at which references cannot stand are counted. -/
def pass (c : Collecting) : Collecting := { c with found.unhandled := c.found.unhandled + 1 }

@[simp] theorem kept_reserve (file : FileId) (identifier : Slot) (c : Collecting) :
    (c.reserve p file identifier).found.kept = c.found.kept := by
  unfold Collecting.reserve
  split
  · split
    · rfl
    · rfl
  · rfl

@[simp] theorem references_reserve (file : FileId) (identifier : Slot) (c : Collecting) :
    (c.reserve p file identifier).found.references = c.found.references := by
  unfold Collecting.reserve
  split
  · split
    · rfl
    · rfl
  · rfl

@[simp] theorem references_addExternal (i : ExternalImport) (c : Collecting) :
    (c.addExternal i).found.references = c.found.references := by
  unfold Collecting.addExternal
  split
  · rfl
  · rfl

@[simp] theorem kept_addExternal (i : ExternalImport) (c : Collecting) :
    (c.addExternal i).found.kept = c.found.kept := by
  unfold Collecting.addExternal
  split
  · rfl
  · rfl

/-- Every change that a walk makes by itself keeps the property. -/
structure KeepsNotes (P : Collecting → Prop) : Prop where
  reserve : ∀ file identifier c, P c → P (c.reserve p file identifier)
  addReference : ∀ key r c, P c → r.IsNoted p key → P (c.addReference key r)
  pass : ∀ c, P c → P c.pass

/-- Every change of a collection keeps the property. -/
structure Keeps (P : Collecting → Prop) : Prop extends KeepsNotes p P where
  addExternal : ∀ i c, P c → P (c.addExternal i)
  skip : ∀ owner c, P c → c.visited.contains owner = false → p.writtenDeclarations owner = [] →
    P (c.skip owner)
  keep : ∀ owner c, P c → c.visited.contains owner = false → p.writtenDeclarations owner ≠ [] →
    P (c.keep owner)
  enter : ∀ id name c, P c → c.visited.contains id = false → P (c.enter id name)

variable {p} {P : Collecting → Prop}

/-- A fold keeps what each of its steps keeps. -/
theorem keeps_foldl {β : Type} {f : Collecting → β → Collecting} (hf : ∀ c b, P c → P (f c b))
    (xs : List β) (c : Collecting) (h : P c) : P (xs.foldl f c) := by
  induction xs generalizing c with
  | nil => exact h
  | cons x xs ih => exact ih _ (hf c x h)

variable {visit : Target → Collecting → Collecting}

namespace KeepsNotes

theorem record (hP : KeepsNotes p P) (hvisit : ∀ target c, P c → P (visit target c))
    (owner : SymbolId) (r : Reference) (named : SymbolId) (hint : Option ImportHint)
    (hnoted : ∀ target key, p.targetWith? named hint = some target → target.key? = some key →
      r.IsNoted p key)
    (c : Collecting) (h : P c) : P (record p visit owner r named hint c) := by
  have hnote : ∀ (key : SymbolId) (target : Target), p.targetWith? named hint = some target →
    target.key? = some key →
      P (if p.topContainer? key = some owner then visit target c
        else Collecting.addReference key r (visit target c)) := by
    intro key target htarget hkey
    split
    · exact hvisit target c h
    · exact hP.addReference key r _ (hvisit target c h) (hnoted target key htarget hkey)
  unfold Collecting.record
  split
  · exact h
  · exact hP.reserve _ _ _ h
  · next htarget => exact hnote _ _ htarget rfl
  · next htarget => exact hnote _ _ htarget rfl
  · next htarget => exact hnote _ _ htarget rfl

theorem recordChain (hP : KeepsNotes p P) (hvisit : ∀ target c, P c → P (visit target c))
    (owner first : SymbolId) (names : List String) (shapeAt : Nat → Reference)
    (hnoted : ∀ meant, Collecting.meantSymbol p (memberChain p first (names.drop 1)) names = meant →
      meant.1 < (memberChain p first (names.drop 1)).length → ∀ target key,
        p.meaningFrom? first names = some target →
      target.key? = some key → (shapeAt meant.1).IsNoted p key)
    (c : Collecting) (h : P c) : P (recordChain p visit owner first names shapeAt c) := by
  unfold Collecting.recordChain
  dsimp only
  split
  · next named hnamed =>
    refine hP.record hvisit _ _ _ _ (fun target key htarget hkey => ?_) _ h
    refine hnoted _ rfl (List.getElem?_eq_some_iff.1 hnamed).1 target key ?_ hkey
    simp only [Project.meaningFrom?, hnamed, Option.bind_some, htarget]
  · exact h

theorem walkEntity (hP : KeepsNotes p P) (hvisit : ∀ target c, P c → P (visit target c))
    (owner : SymbolId) {entity : NodeRef} {a : Arena} (harena : p.arena? entity.file = some a)
    (hheld : a.HoldsName entity.node) (c : Collecting) (h : P c) :
    P (walkEntity p visit owner entity c) := by
  unfold Collecting.walkEntity
  split
  · exact h
  · next file hfile =>
    dsimp only
    split
    · exact h
    · next firstPart rest hparts =>
      split
      · exact h
      · next hlength =>
        split
        · exact hP.reserve _ _ _ h
        · next first hfirst =>
          split
          · exact h
          · have hsame : file.arena = a := by simpa [Project.arena?, hfile] using harena
            refine hP.recordChain hvisit _ _ _ _
              (fun meant hmeant hlt target key htarget hkey => ?_) _ h
            refine Reference.isNoted_prefix hfile (hsame ▸ hheld) hparts
              (hparts ▸ Decidable.not_not.1 hlength) hfirst rfl hmeant hlt
              htarget hkey fun depth => ?_
            split
            · exact ReferenceShape.noConfusion
            · exact ReferenceShape.noConfusion

theorem walkImportType (hP : KeepsNotes p P) (hvisit : ∀ target c, P c → P (visit target c))
    (owner : SymbolId) (node : NodeRef) (c : Collecting) (h : P c) :
    P (walkImportType p visit owner node c) := by
  unfold Collecting.walkImportType
  split
  · next isTypeof argument qualifier typeArguments a hform harena =>
    split
    · exact h
    · next specifier hargument =>
      split
      · exact h
      · next module hmodule =>
        exact hP.recordChain hvisit _ _ _ _ (fun meant _ _ target key htarget hkey =>
          Reference.isNoted_importType hform harena hargument hmodule rfl htarget hkey meant.1) _ h
  · exact h

/-- Walking over syntax keeps the property when visits do. -/
theorem walkTo (hP : KeepsNotes p P) (hvisit : ∀ target c, P c → P (visit target c))
    (owner : SymbolId) {file : FileId} {a : Arena} (harena : p.arena? file = some a) (depth : Nat)
    (node : Slot) (c : Collecting) (h : P c) :
    P (walkTo p visit owner file a depth node c) := by
  induction depth generalizing node c with
  | zero => exact h
  | succ depth ih =>
    have hall : ∀ (nodes : List Slot) (c : Collecting), P c →
        P (nodes.foldl (fun c n => Collecting.walkTo p visit owner file a depth n c) c) :=
          fun nodes c hc =>
      keeps_foldl (fun c n hc => ih n c hc) nodes c hc
    unfold Collecting.walkTo
    dsimp only
    split
    · exact h
    · exact hall _ c h
    · exact hall _ _ (hall _ c h)
    · next name typeArguments hwalk =>
      exact hall _ _ (hP.walkEntity hvisit owner harena ⟨node, typeArguments, hwalk⟩ c h)
    · exact hall _ _ (hP.walkImportType hvisit owner _ c h)
    · exact hP.pass c h

theorem walkDeclaration (hP : KeepsNotes p P) (hvisit : ∀ target c, P c → P (visit target c))
    (owner : SymbolId) (c : Collecting) (declaration : NodeRef) (h : P c) :
    P (walkDeclaration p visit owner c declaration) := by
  unfold Collecting.walkDeclaration
  split
  · next harena => exact hP.walkTo hvisit owner harena _ _ c h
  · exact h

end KeepsNotes

namespace Keeps

theorem visitDeclaration (hP : Keeps p P) (hvisit : ∀ target c, P c → P (visit target c))
    (id : SymbolId) (c : Collecting) (h : P c) : P (visitDeclaration p visit id c) := by
  unfold Collecting.visitDeclaration
  dsimp only
  split
  · exact h
  · next hvisited =>
    have hfresh : c.visited.contains ((p.topContainer? id).getD id) = false := by
      simpa using hvisited
    split
    · next hnone => exact hP.skip _ c h hfresh hnone
    · next hsome =>
      exact keeps_foldl (fun c declaration hc => hP.walkDeclaration hvisit _ c declaration hc) _ _
        (hP.keep _ c h hfresh hsome)

theorem visitSymbol (hvisit : ∀ target c, P c → P (visit target c)) (id : SymbolId)
    (c : Collecting) (h : P c) :
    P (visitSymbol p visit id c) := by
  unfold Collecting.visitSymbol
  split
  · exact hvisit _ c h
  · exact h

theorem visitModule (hP : Keeps p P) (hvisit : ∀ target c, P c → P (visit target c)) (id : SymbolId)
    (localName : Option String) (c : Collecting) (h : P c) :
    P (visitModule p visit id localName c) := by
  unfold Collecting.visitModule
  dsimp only
  split
  · exact h
  · next hvisited =>
    refine keeps_foldl (fun c e hc => ?_) _ _ (hP.enter id _ c h (by simpa using hvisited))
    split
    · exact hc
    · exact visitSymbol hvisit e.symbol c hc

/-- Visiting a target keeps the property. -/
theorem visitTo (hP : Keeps p P) (depth : Nat) (target : Target) (c : Collecting) (h : P c) :
    P (visitTo p depth target c) := by
  induction depth generalizing target c with
  | zero => exact h
  | succ depth ih =>
    unfold Collecting.visitTo visitTarget
    split
    · exact hP.visitDeclaration ih _ c h
    · exact hP.visitModule ih _ _ c h
    · exact hP.addExternal _ c h
    · exact h

/-- What holds at the start and is kept holds of the finished collection. -/
theorem collect (hP : Keeps p P) (hstart : P {}) (exports_ : List ModuleExport) :
    ∃ c, P c ∧ c.found = p.collect exports_ :=
  ⟨_, keeps_foldl (fun c e hc => visitSymbol (hP.visitTo _) e.symbol c hc) exports_ {} hstart, rfl⟩

end Keeps

/-! ## Kept symbols -/

/-- Every kept symbol has a declaration that is written. -/
theorem writtenDeclarations_ne_nil {p : Project} {exports_ : List ModuleExport} {id : SymbolId}
    (h : id ∈ (p.collect exports_).kept) : p.writtenDeclarations id ≠ [] := by
  have hkeeps : Keeps p fun c => ∀ id ∈ c.found.kept, p.writtenDeclarations id ≠ [] := by
    constructor
    case toKeepsNotes =>
      constructor
      case reserve =>
        intro file identifier c hc
        rwa [kept_reserve]
      case addReference => exact fun _ _ _ hc _ => hc
      case pass => exact fun _ hc => hc
    case addExternal =>
      intro i c hc
      rwa [kept_addExternal]
    case skip => exact fun _ _ hc _ _ => hc
    case keep =>
      intro owner c hc _ hwritten id hid
      rcases List.mem_append.1 hid with hid | hid
      · exact hc id hid
      · obtain rfl := List.mem_singleton.1 hid
        exact hwritten
    case enter => exact fun _ _ _ hc _ => hc
  obtain ⟨c, hc, hfound⟩ := hkeeps.collect (fun _ hid => by cases hid) exports_
  rw [← hfound] at h
  exact hc id h

/-- Kept symbols are symbols of the project. -/
theorem exists_symbol?_of_kept {p : Project} {exports_ : List ModuleExport} {id : SymbolId}
    (h : id ∈ (p.collect exports_).kept) : ∃ s, p.symbol? id = some s := by
  cases hs : p.symbol? id with
  | some s => exact ⟨s, rfl⟩
  | none =>
    refine absurd ?_ (writtenDeclarations_ne_nil h)
    rw [Project.writtenDeclarations, Project.declarationsOf, hs]
    rfl

@[simp] theorem visited_reserve (p : Project) (file : FileId) (identifier : Slot) (c : Collecting) :
    (c.reserve p file identifier).visited = c.visited := by
  unfold Collecting.reserve
  split
  · split
    · rfl
    · rfl
  · rfl

@[simp] theorem visited_addExternal (i : ExternalImport) (c : Collecting) :
    (c.addExternal i).visited = c.visited := by
  unfold Collecting.addExternal
  split
  · rfl
  · rfl

/-- No symbol is kept twice, because each one is visited once. -/
theorem nodup_kept (p : Project) (exports_ : List ModuleExport) :
    (p.collect exports_).kept.Nodup := by
  have hkeeps : Keeps p fun c => c.found.kept.Nodup ∧ ∀ id ∈ c.found.kept, id ∈ c.visited := by
    constructor
    case toKeepsNotes =>
      constructor
      case reserve =>
        intro file identifier c hc
        rwa [kept_reserve, visited_reserve]
      case addReference => exact fun _ _ _ hc _ => hc
      case pass => exact fun _ hc => hc
    case addExternal =>
      intro i c hc
      rwa [kept_addExternal, visited_addExternal]
    case skip => exact fun owner c hc _ _ =>
      ⟨hc.1, fun id hid => List.mem_cons_of_mem owner (hc.2 id hid)⟩
    case keep =>
      intro owner c hc hfresh _
      refine ⟨List.nodup_append.2 ⟨hc.1, List.pairwise_singleton _ owner, ?_⟩, fun id hid => ?_⟩
      · -- what is kept was visited, and what is kept now was not
        rintro id hid _ howner rfl
        obtain rfl := List.mem_singleton.1 howner
        exact absurd (List.elem_eq_true_of_mem (hc.2 _ hid)) (Bool.eq_false_iff.1 hfresh)
      · rcases List.mem_append.1 hid with hid | hid
        · exact List.mem_cons_of_mem owner (hc.2 id hid)
        · obtain rfl := List.mem_singleton.1 hid
          exact List.mem_cons_self
    case enter => exact fun id _ c hc _ =>
      ⟨hc.1, fun other hother => List.mem_cons_of_mem id (hc.2 other hother)⟩
  obtain ⟨c, hc, hfound⟩ := hkeeps.collect ⟨List.nodup_nil, fun _ hid => by cases hid⟩ exports_
  exact hfound ▸ hc.1

/-! ## Recorded references -/

/-- The references to a target are none, or an entry of the table. -/
theorem referencesTo_cases (found : Collection) (key : SymbolId) :
    found.referencesTo key = [] ∨ (key, found.referencesTo key) ∈ found.references.entries := by
  unfold Collection.referencesTo
  cases hget : found.references.get? key with
  | none => exact .inl rfl
  | some known => exact .inr (Table.mem_of_get? hget)

/-- What is recorded only changes when a reference is added. -/
theorem keeps_references {p : Project} {P : Table SymbolId (List Reference) → Prop}
    (hadd : ∀ key r (c : Collecting), P c.found.references → r.IsNoted p key →
      P (c.addReference key r).found.references) :
    Keeps p fun c => P c.found.references where
  reserve file identifier c hc := by rwa [references_reserve]
  addReference := hadd
  pass _ hc := hc
  addExternal i c hc := by rwa [references_addExternal]
  skip _ _ hc _ _ := hc
  keep _ _ hc _ _ := hc
  enter _ _ _ hc _ := hc

/-- Every recorded reference stands at a node that means what the reference is recorded for. -/
theorem isNoted_of_mem_references {p : Project} {exports_ : List ModuleExport}
    {entry : SymbolId × List Reference} (h : entry ∈ (p.collect exports_).references.entries) :
    ∀ r ∈ entry.2, r.IsNoted p entry.1 := by
  have hkeeps : Keeps p fun c => ∀ entry ∈ c.found.references.entries, ∀ r ∈ entry.2,
      r.IsNoted p entry.1 := by
    refine keeps_references (P := fun references => ∀ entry ∈ references.entries, ∀ r ∈ entry.2,
      r.IsNoted p entry.1) fun key r c hc hr entry hentry r' hr' => ?_
    rcases Table.mem_entries_set hentry with rfl | hentry
    · have hknown : ∀ r ∈ c.found.referencesTo key, r.IsNoted p key := by
        rcases referencesTo_cases c.found key with hnil | hmem
        · exact fun r hr => absurd (hnil ▸ hr) List.not_mem_nil
        · exact hc _ hmem
      dsimp only at hr'
      split at hr'
      · exact hknown r' hr'
      · rcases List.mem_append.1 hr' with hr' | hr'
        · exact hknown r' hr'
        · obtain rfl := List.mem_singleton.1 hr'
          exact hr
    · exact hc entry hentry r' hr'
  obtain ⟨c, hc, hfound⟩ := hkeeps.collect (fun _ hentry => by cases hentry) exports_
  rw [← hfound] at h
  exact hc entry h

/-- Each target has one list of references, and each of its references has another node. -/
theorem nodup_references (p : Project) (exports_ : List ModuleExport) :
    (p.collect exports_).references.keys.Nodup ∧
      ∀ entry ∈ (p.collect exports_).references.entries, (entry.2.map Reference.node).Nodup := by
  have hkeeps : Keeps p fun c => c.found.references.keys.Nodup ∧
      ∀ entry ∈ c.found.references.entries, (entry.2.map Reference.node).Nodup := by
    refine keeps_references (P := fun references => references.keys.Nodup ∧
      ∀ entry ∈ references.entries, (entry.2.map Reference.node).Nodup) fun key r c hc _ =>
        ⟨Table.nodup_keys_set hc.1 key _, fun entry hentry => ?_⟩
    rcases Table.mem_entries_set hentry with rfl | hentry
    · have hknown : ((c.found.referencesTo key).map Reference.node).Nodup := by
        rcases referencesTo_cases c.found key with hnil | hmem
        · rw [hnil]
          exact List.nodup_nil
        · exact hc.2 _ hmem
      dsimp only
      split
      · exact hknown
      · -- a reference is added only when none of those before it has its node
        next hnew =>
        rw [List.map_append]
        refine List.nodup_append.2 ⟨hknown, List.nodup_singleton _, ?_⟩
        rintro node hnode _ hsingle rfl
        obtain ⟨other, hother, heq⟩ := List.mem_map.1 hnode
        refine hnew (List.any_eq_true.2 ⟨other, hother, beq_iff_eq.2 ?_⟩)
        exact heq.trans (List.mem_singleton.1 hsingle)
    · exact hc.2 entry hentry
  obtain ⟨c, hc, hfound⟩ :=
    hkeeps.collect ⟨List.nodup_nil, fun _ hentry => by cases hentry⟩ exports_
  exact hfound ▸ hc

/-- What is recorded at a node is one reference to one target. -/
theorem reference_unique {p : Project} {exports_ : List ModuleExport} {target target' : SymbolId}
    {references references' : List Reference} {r r' : Reference}
    (hentry : (target, references) ∈ (p.collect exports_).references.entries) (hr : r ∈ references)
    (hentry' : (target', references') ∈ (p.collect exports_).references.entries)
    (hr' : r' ∈ references') (hnode : r.node = r'.node) : target = target' ∧ r = r' := by
  obtain ⟨hkeys, hnodes⟩ := nodup_references p exports_
  obtain ⟨rfl, -⟩ :=
    (isNoted_of_mem_references hentry r hr).unique (isNoted_of_mem_references hentry' r' hr') hnode
  obtain rfl : references = references' :=
    congrArg Prod.snd (List.inj_on_of_nodup_map hkeys hentry hentry' rfl)
  exact ⟨rfl, List.inj_on_of_nodup_map (hnodes _ hentry) hr hr' hnode⟩

end DeclBundle.Collecting
