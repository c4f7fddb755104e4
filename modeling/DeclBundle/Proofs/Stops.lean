import DeclBundle.Proofs.Visiting

/-!
# Where a walk stops

A walk over a declaration does something only at the names that it visits and at nodes at which
references cannot stand. These are its stops, and the walk is a fold over them
(`Collecting.walkDeclaration_eq_foldl`). What happens at a name depends on what the walk finds there
(`Project.found?`): the target is visited, and otherwise only references and reserved names are
noted (`Collecting.nameEffect`).
-/

set_option autoImplicit false

namespace DeclBundle

open Relation (ReflTransGen)

/-- A place at which a walk does something. -/
inductive Stop where
  /-- A dotted name or an import type. -/
  | name (slot : Slot)
  /-- A node at which references cannot stand. -/
  | unhandled
  deriving DecidableEq, Repr

section Stops

variable (a : Arena)

/-- The stops at a node itself. -/
def stopsAt (node : Slot) : List Stop :=
  match Walk.at_ a node with
  | .entity name _ => if isDottedName a name then [.name name] else []
  | .importType _ => [.name node]
  | .unhandled => [.unhandled]
  | _ => []

/-- The stops of a walk that starts at a node and goes down to `depth` levels. -/
def stopsTo : (depth : Nat) → Slot → List Stop
  | 0, _ => []
  | depth + 1, node => stopsAt a node ++ ((Walk.at_ a node).next a).flatMap (stopsTo depth)

/-- The stops of a walk that starts at a node. -/
def stops (node : Slot) : List Stop := stopsTo a (a.size + 1) node

variable {a}

theorem name_mem_stopsAt {node name : Slot} : Stop.name name ∈ stopsAt a node ↔
    VisitsAt a node name := by
  unfold stopsAt VisitsAt
  cases Walk.at_ a node with
  | entity visited typeArguments =>
    by_cases hdotted : isDottedName a visited = true
    · simp only [hdotted, if_true, List.mem_singleton, Stop.name.injEq]
      constructor
      · rintro rfl
        exact ⟨rfl, hdotted⟩
      · exact fun h => h.1
    · simp only [hdotted, Bool.false_eq_true, if_false, List.not_mem_nil, false_iff]
      rintro ⟨rfl, h⟩
      exact hdotted h
  | importType typeArguments => simp
  | _ => simp

theorem name_mem_stopsTo {depth : Nat} {root name : Slot} :
    Stop.name name ∈ stopsTo a depth root ↔ ∃ steps < depth, ∃ n, WalksIn a steps root n ∧
      VisitsAt a n name := by
  induction depth generalizing root with
  | zero => simp [stopsTo]
  | succ depth ih =>
    simp only [stopsTo, List.mem_append, name_mem_stopsAt, List.mem_flatMap, ih]
    constructor
    · rintro (h | ⟨next, hnext, steps, hsteps, n, hwalk, h⟩)
      · exact ⟨0, Nat.succ_pos depth, root, rfl, h⟩
      · exact ⟨steps + 1, Nat.succ_lt_succ hsteps, n, ⟨next, hnext, hwalk⟩, h⟩
    · rintro ⟨steps, hsteps, n, hwalk, h⟩
      cases steps with
      | zero =>
        obtain rfl : root = n := hwalk
        exact .inl h
      | succ steps =>
        obtain ⟨next, hnext, hrest⟩ := hwalk
        exact .inr ⟨next, hnext, steps, Nat.lt_of_succ_lt_succ hsteps, n, hrest, h⟩

theorem walks_of_walksIn {steps : Nat} {root n : Slot} (h : WalksIn a steps root n) :
    ReflTransGen (WalksOn a) root n := by
  induction steps generalizing root with
  | zero =>
    obtain rfl : root = n := h
    exact .refl
  | succ steps ih =>
    obtain ⟨next, hnext, hrest⟩ := h
    exact .head hnext (ih hrest)

/-- A walk stops at the names that it visits. -/
theorem name_mem_stops {root name : Slot} : Stop.name name ∈ stops a root ↔ Visits a root name := by
  unfold stops Visits
  rw [name_mem_stopsTo]
  constructor
  · rintro ⟨steps, -, n, hwalk, h⟩
    exact ⟨n, walks_of_walksIn hwalk, h⟩
  · rintro ⟨n, hwalks, h⟩
    obtain ⟨steps, hsteps, hwalk⟩ := exists_walksIn hwalks
    exact ⟨steps, Nat.lt_succ_of_le hsteps, n, hwalk, h⟩

end Stops

/-! ## What is found at a name -/

namespace Project

variable (p : Project)

/-- A name starts at a parameter or at a type parameter. -/
def startsAtParameter (name : NodeRef) : Bool :=
  (p.firstSymbol? name).any fun first =>
    (p.symbol? first).any (·.isAny (.ofList [.typeParameter, .parameter]))

/-- What a walk finds at a name. Names of parameters are left alone. -/
def found? (name : NodeRef) : Option Target :=
  if p.startsAtParameter name then none else p.meaning? name

/-- The slot holds a name that a walk can visit. -/
def IsName (name : NodeRef) : Prop :=
  ∃ a, p.arena? name.file = some a ∧ (isDottedName a name.node = true ∨
    ∃ isTypeof argument qualifier typeArguments,
      a.form? name.node = some (.importType isTypeof argument qualifier typeArguments))

/-- A walk over the declarations of a symbol finds a target at a name. -/
inductive Finds (owner : SymbolId) (name : NodeRef) (target : Target) : Prop where
  | intro (ref : NodeRef) (a : Arena) (hwritten : ref ∈ p.writtenDeclarations owner)
      (harena : p.arena? ref.file = some a) (hfile : name.file = ref.file)
      (hvisits : Visits a ref.node name.node) (hfound : p.found? name = some target)

variable {p}

/-- What a walk visits is a name. -/
theorem isName_of_visits {ref : NodeRef} {a : Arena} {slot : Slot}
    (harena : p.arena? ref.file = some a) (h : Visits a ref.node slot) :
    p.IsName ⟨ref.file, slot⟩ := by
  obtain ⟨n, -, hat⟩ := h
  refine ⟨a, harena, ?_⟩
  unfold VisitsAt at hat
  split at hat
  · exact .inl hat.2
  · next typeArguments hwalk =>
    subst hat
    obtain ⟨isTypeof, argument, qualifier, hform⟩ := Collecting.exists_form?_of_importType hwalk
    exact .inr ⟨isTypeof, argument, qualifier, typeArguments, hform⟩
  · cases hat

end Project

namespace Collecting

/-! ## Notes -/

/-- Two collections differ in references and in counted nodes only, and the later one has more
reserved names. -/
structure Notes (c c' : Collecting) : Prop where
  visited : c'.visited = c.visited
  kept : c'.found.kept = c.found.kept
  skipped : c'.found.skipped = c.found.skipped
  namespaces : c'.found.namespaces = c.found.namespaces
  externals : c'.found.externals = c.found.externals
  reserved : c.found.reserved ⊆ c'.found.reserved

namespace Notes

theorem refl (c : Collecting) : Notes c c := ⟨rfl, rfl, rfl, rfl, rfl, List.Subset.refl _⟩

variable {p : Project}

theorem reserve (file : FileId) (identifier : Slot) (c : Collecting) :
    Notes c (c.reserve p file identifier) := by
  unfold Collecting.reserve
  split
  · split
    · exact refl c
    · exact ⟨rfl, rfl, rfl, rfl, rfl, List.subset_append_left _ _⟩
  · exact refl c

theorem addReference (key : SymbolId) (r : Reference) (c : Collecting) :
    Notes c (c.addReference key r) :=
  ⟨rfl, rfl, rfl, rfl, rfl, List.Subset.refl _⟩

theorem pass (c : Collecting) : Notes c c.pass := ⟨rfl, rfl, rfl, rfl, rfl, List.Subset.refl _⟩

end Notes

/-! ## What happens at a stop -/

variable (p : Project) (visit : Target → Collecting → Collecting) (owner : SymbolId)

/-- Records what a name refers to. -/
def walkName (name : NodeRef) (c : Collecting) : Collecting :=
  match p.form? name with
  | some (.importType ..) => walkImportType p visit owner name c
  | _ => walkEntity p visit owner name c

/-- What a walk does at a stop. -/
def take (file : FileId) (c : Collecting) : Stop → Collecting
  | .name slot => walkName p visit owner ⟨file, slot⟩ c
  | .unhandled => c.pass

variable {p visit owner}

theorem walkName_of_dotted {name : NodeRef} {a : Arena} (harena : p.arena? name.file = some a)
    (hdotted : isDottedName a name.node = true) (c : Collecting) :
    walkName p visit owner name c = walkEntity p visit owner name c := by
  unfold walkName
  rw [Project.form?_eq name harena]
  unfold isDottedName at hdotted
  split
  · next heq => simp [heq] at hdotted
  · rfl

theorem walkName_of_importType {name : NodeRef} {isTypeof : Bool} {argument qualifier : Slot}
    {typeArguments : List Slot}
    (hform : p.form? name = some (.importType isTypeof argument qualifier typeArguments))
    (c : Collecting) :
    walkName p visit owner name c = walkImportType p visit owner name c := by
  simp only [walkName, hform]

/-- Nothing happens at a slot that is no dotted name. -/
theorem walkEntity_of_not_dotted {name : NodeRef} {a : Arena} (harena : p.arena? name.file = some a)
    (hdotted : isDottedName a name.node = false) (c : Collecting) :
    walkEntity p visit owner name c = c := by
  obtain ⟨file, hfile, rfl⟩ := Option.map_eq_some_iff.1 harena
  have hparts : Project.entityParts file.arena name.node = [] := by
    unfold isDottedName at hdotted
    unfold Project.entityParts Project.reversedPartsTo
    split at hdotted <;> simp_all
  unfold walkEntity
  simp only [hfile, hparts]

/-! ## Walks as folds -/

variable {a : Arena} {file : FileId}

theorem walkTo_eq_foldl (harena : p.arena? file = some a) (depth : Nat) (node : Slot)
    (c : Collecting) :
    walkTo p visit owner file a depth node c =
      (stopsTo a depth node).foldl (take p visit owner file) c := by
  induction depth generalizing node c with
  | zero => rfl
  | succ depth ih =>
    -- walking over a list of nodes takes their stops in turn
    have hall : ∀ (nodes : List Slot) (c : Collecting),
        nodes.foldl (fun c n => walkTo p visit owner file a depth n c) c =
          (nodes.flatMap (stopsTo a depth)).foldl (take p visit owner file) c := by
      intro nodes c
      rw [List.foldl_flatMap]
      congr 1
      funext c n
      exact ih n c
    unfold walkTo
    simp only [stopsTo, List.foldl_append, hall]
    unfold stopsAt
    cases hwalk : Walk.at_ a node with
    | stop => rfl
    | into nodes => rfl
    | members before members =>
      simp only [Walk.next, List.flatMap_append, List.foldl_append, List.foldl_nil]
    | entity name typeArguments =>
      by_cases hdotted : isDottedName a name = true
      · have hname : walkName p visit owner ⟨file, name⟩ c =
            walkEntity p visit owner ⟨file, name⟩ c :=
          walkName_of_dotted harena hdotted c
        simp only [Walk.next, hdotted, if_true, List.foldl_cons, List.foldl_nil, take, hname]
      · have hname : walkEntity p visit owner ⟨file, name⟩ c = c :=
          walkEntity_of_not_dotted harena (by simpa using hdotted) c
        simp only [Walk.next, hdotted, Bool.false_eq_true, if_false, List.foldl_nil, hname]
    | importType typeArguments =>
      obtain ⟨isTypeof, argument, qualifier, hform⟩ := exists_form?_of_importType hwalk
      have hform' :
          p.form? ⟨file, node⟩ = some (.importType isTypeof argument qualifier typeArguments) :=
        (Project.form?_eq ⟨file, node⟩ harena).trans hform
      simp only [Walk.next, List.foldl_cons, List.foldl_nil, take]
      rw [walkName_of_importType hform']
    | unhandled => rfl

/-- Walking a declaration takes the stops one after the other. -/
theorem walkDeclaration_eq_foldl {ref : NodeRef} (harena : p.arena? ref.file = some a)
    (c : Collecting) :
    walkDeclaration p visit owner c ref =
      (stops a ref.node).foldl (take p visit owner ref.file) c := by
  unfold walkDeclaration
  rw [harena]
  exact walkTo_eq_foldl harena _ _ c

/-! ## What happens at a name -/

/-- What happens at a name, whatever visits do. -/
inductive NameEffect (p : Project) (owner : SymbolId) (name : NodeRef) : Prop where
  /-- Nothing is found. -/
  | nothing (h : p.found? name = none) (note : Collecting → Collecting)
    (hnote : ∀ c, Notes c (note c))
      (heq : ∀ visit c, walkName p visit owner name c = note c)
  /-- A global name is found. The first identifier of the name is reserved, if it has one. -/
  | reserves (h : p.found? name = some .ambient) (note : Collecting → Collecting)
    (hnote : ∀ c, Notes c (note c))
      (heq : ∀ visit c, walkName p visit owner name c = note c)
      (hreserved : ∀ text, p.firstText? name = some text → ∀ c, text ∈ (note c).found.reserved)
  /-- Something else is found, and visited. -/
  | visits (target : Target) (h : p.found? name = some target) (hkey : target.key?.isSome = true)
      (note : Collecting → Collecting) (hnote : ∀ c, Notes c (note c))
      (heq : ∀ visit c, walkName p visit owner name c = note (visit target c))

/-- What recording does, whatever visits do. -/
theorem record_effect (p : Project) (owner : SymbolId) (r : Reference) (named : SymbolId)
    (hint : Option ImportHint) :
    (p.targetWith? named hint = none ∧ ∀ visit c, record p visit owner r named hint c = c) ∨
      (p.targetWith? named hint = some .ambient ∧ ∀ visit c, record p visit owner r named hint c =
        reserve p r.node.file (((p.arena? r.node.file).map (·.leftmost r.node.node)).getD none) c) ∨
      ∃ target key, p.targetWith? named hint = some target ∧ target.key? = some key ∧
        ∀ visit c, record p visit owner r named hint c =
          if p.topContainer? key = some owner then visit target c
            else addReference key r (visit target c) := by
  unfold record
  cases htarget : p.targetWith? named hint with
  | none => exact .inl ⟨rfl, fun _ _ => rfl⟩
  | some target =>
    cases target with
    | ambient => exact .inr (.inl ⟨rfl, fun _ _ => rfl⟩)
    | declaration id => exact .inr (.inr ⟨_, id, rfl, rfl, fun _ _ => rfl⟩)
    | module_ id localName => exact .inr (.inr ⟨_, id, rfl, rfl, fun _ _ => rfl⟩)
    | external i => exact .inr (.inr ⟨_, i.symbol, rfl, rfl, fun _ _ => rfl⟩)

/-- A name that leads on from its first symbol has the effect that recording its chain of symbols
has. -/
theorem effect_of_recordChain {name : NodeRef} {first : SymbolId} {names : List String}
    {shapeAt : Nat → Reference} (hstart : p.start? name = some (first, names))
    (hfree : p.startsAtParameter name = false) (hnames : names ≠ [])
    (hplace : ∀ index < names.length, ∀ text, p.firstText? name = some text → ∀ c : Collecting,
      text ∈ (reserve p (shapeAt index).node.file
        (((p.arena? (shapeAt index).node.file).map (·.leftmost (shapeAt index).node.node)).getD
          none) c).found.reserved)
    (hwalk : ∀ visit c,
      walkName p visit owner name c = recordChain p visit owner first names shapeAt c) :
    NameEffect p owner name := by
  have hfound : p.found? name = p.meaningFrom? first names := by
    simp [Project.found?, hfree, Project.meaning?, hstart]
  unfold Project.meaningFrom? at hfound
  unfold recordChain at hwalk
  dsimp only at hfound hwalk
  generalize hmeant : meantSymbol p (memberChain p first (names.drop 1)) names =
    meant at hfound hwalk
  cases hnamed : (memberChain p first (names.drop 1))[meant.1]? with
  | none =>
    simp only [hnamed, Option.bind_none] at hfound hwalk
    exact .nothing hfound id (fun c => .refl c) hwalk
  | some named =>
    simp only [hnamed, Option.bind_some] at hfound hwalk
    -- the chain is no longer than the name, so the place that is noted is a part of it
    have hlt : meant.1 < names.length := by
      have hindex := (List.getElem?_eq_some_iff.1 hnamed).1
      have hlength := length_memberChain_le (p := p) first (names.drop 1)
      have hpos : 0 < names.length := List.length_pos_iff.2 hnames
      rw [List.length_drop] at hlength
      omega
    rcases record_effect p owner (shapeAt meant.1) named meant.2 with
      ⟨hnone, heq⟩ | ⟨hambient, heq⟩ | ⟨target, key, htarget, hkey, heq⟩
    · exact .nothing (hfound.trans hnone) id (fun c => .refl c) fun visit c =>
        (hwalk visit c).trans (heq visit c)
    · exact .reserves (hfound.trans hambient) _ (Notes.reserve _ _)
        (fun visit c => (hwalk visit c).trans (heq visit c))
        (hplace meant.1 hlt)
    · by_cases hinside : p.topContainer? key = some owner
      · simp only [hinside, if_true] at heq
        exact .visits target (hfound.trans htarget) (by simp [hkey]) id (fun c => .refl c)
          fun visit c => (hwalk visit c).trans (heq visit c)
      · simp only [hinside, if_false] at heq
        exact .visits target (hfound.trans htarget) (by simp [hkey])
          (addReference key (shapeAt meant.1))
          (Notes.addReference _ _) fun visit c => (hwalk visit c).trans (heq visit c)

/-- A name that starts nowhere stands for nothing. -/
theorem found?_of_start?_none {name : NodeRef} (h : p.start? name = none) :
    p.found? name = none := by
  simp [Project.found?, Project.meaning?, h]

/-- What happens at a dotted name. -/
theorem effect_of_dotted {name : NodeRef} {a : Arena} (harena : p.arena? name.file = some a)
    (hdotted : isDottedName a name.node = true) : NameEffect p owner name := by
  have hwalkName : ∀ visit c, walkName p visit owner name c = walkEntity p visit owner name c :=
    fun _ c => walkName_of_dotted harena hdotted c
  obtain ⟨file, hfile, rfl⟩ := Option.map_eq_some_iff.1 harena
  have hstart := Project.start?_of_isDottedName harena hdotted
  have hfirstOf : p.firstOf name = file.arena.leftmost name.node := by
    simp [Project.firstOf, harena]
  cases hprefixes : entityPrefixesTo file.arena (file.arena.size + 1) name.node with
  | none =>
    -- the name does not start with an identifier
    have hnone : p.firstOf name = none :=
      hfirstOf.trans (leftmostTo_of_entityPrefixesTo_none hprefixes)
    have hsymbol : p.firstSymbol? name = none := by simp [Project.firstSymbol?, hnone]
    refine .nothing (found?_of_start?_none (by rw [hstart, hsymbol]; rfl)) id
      (fun c => .refl c) fun visit c => ?_
    rw [hwalkName, walkEntity, hfile]
    simp only [entityPrefixes, hprefixes, Option.getD_none, List.reverse_nil, List.length_nil]
    split
    · rfl
    · next hparts =>
      rw [if_pos (by simp [hparts])]
      rfl
  | some prefixes =>
    obtain ⟨first, hleftmost, hall, hlength, hlast⟩ :=
      exists_leftmostTo_of_entityPrefixesTo hprefixes
    have hfirst : p.firstOf name = some first := hfirstOf.trans hleftmost
    have hsymbol : p.firstSymbol? name = file.resolved[first]? := by
      simp [Project.firstSymbol?, hfile, hfirst]
    obtain ⟨rest, hparts⟩ : ∃ rest,
        Project.entityParts file.arena name.node = some first :: rest := by
      rw [← List.head?_reverse] at hlast
      exact List.head?_eq_some_iff.1 hlast
    have hcount : prefixes.length = (some first :: rest).length := by
      rw [hlength, ← hparts, Project.entityParts, List.length_reverse]
    have hwalk := hwalkName
    simp only [walkEntity, hfile, entityPrefixes, hprefixes, hparts, Option.getD_some,
      List.length_reverse] at hwalk
    simp only [hcount, ne_eq, not_true_eq_false, if_false, Option.bind_some] at hwalk
    cases hresolved : file.resolved[first]? with
    | none =>
      rw [hresolved] at hsymbol
      simp only [hresolved] at hwalk
      exact .nothing (found?_of_start?_none (by rw [hstart, hsymbol]; rfl)) _
        (Notes.reserve _ _) hwalk
    | some symbol =>
      rw [hresolved] at hsymbol
      simp only [hresolved] at hwalk
      by_cases hparameter :
        (p.symbol? symbol).any (·.isAny (.ofList [.typeParameter, .parameter])) = true
      · simp only [hparameter, if_true] at hwalk
        have hstarts : p.startsAtParameter name = true := by
          simpa [Project.startsAtParameter, hsymbol] using hparameter
        exact .nothing (by simp [Project.found?, hstarts]) id (fun c => .refl c) hwalk
      · simp only [hparameter, Bool.false_eq_true, if_false] at hwalk
        have hfree : p.startsAtParameter name = false := by
          simpa [Project.startsAtParameter, hsymbol] using hparameter
        refine effect_of_recordChain ?_ hfree (by simp) ?_ hwalk
        · rw [hstart, hsymbol, hparts]
          rfl
        · -- every prefix of the name has the same first identifier
          intro index hindex text htext c
          have hindex' : index < prefixes.reverse.length := by
            rw [List.length_reverse, hcount]
            simpa using hindex
          have hprefix : file.arena.leftmost prefixes.reverse[index] = some first :=
            hall _ (List.mem_reverse.1 (List.getElem_mem hindex'))
          apply mem_reserved_reserve
          simp only [List.getElem?_eq_getElem hindex', Option.getD_some, harena,
            Option.map_some, hprefix]
          simpa [Project.firstText?, harena, hfirst] using htext

/-- What happens at an import type. -/
theorem effect_of_importType {name : NodeRef} {a : Arena} {isTypeof : Bool}
    {argument qualifier : Slot} {typeArguments : List Slot} (harena : p.arena? name.file = some a)
    (hform : a.form? name.node = some (.importType isTypeof argument qualifier typeArguments)) :
    NameEffect p owner name := by
  have hstart := Project.start?_of_importType harena hform
  have hfirst := Project.firstOf_of_importType harena hform
  have hprojectForm :
      p.form? name = some (.importType isTypeof argument qualifier typeArguments) :=
    (Project.form?_eq name harena).trans hform
  have hwalk : ∀ visit c, walkName p visit owner name c = walkImportType p visit owner name c :=
    fun _ c => walkName_of_importType hprojectForm c
  simp only [walkImportType, hprojectForm, harena] at hwalk
  -- without a specifier, or a module for it, nothing is recorded and nothing is found
  cases hargument : a.nameText? argument with
  | none =>
    simp only [hargument] at hwalk
    exact .nothing (found?_of_start?_none (by rw [hstart, hargument]; rfl)) id
      (fun c => .refl c) hwalk
  | some specifier =>
    cases hmodule : p.moduleOf? name.file specifier with
    | none =>
      simp only [hargument, hmodule] at hwalk
      refine .nothing (found?_of_start?_none ?_) id (fun c => .refl c) hwalk
      rw [hstart, hargument, Option.bind_some, hmodule]
      rfl
    | some module =>
      simp only [hargument, hmodule] at hwalk
      refine effect_of_recordChain ?_ ?_ (by simp) ?_ hwalk
      · rw [hstart, hargument, Option.bind_some, hmodule]
        rfl
      · simp [Project.startsAtParameter, Project.firstSymbol?, hfirst]
      · intro index _ text htext
        simp [Project.firstText?, harena, hfirst, Arena.nameText?, Arena.form?, Arena.get?] at htext

/-- What happens at a name. -/
theorem nameEffect (owner : SymbolId) {name : NodeRef} (h : p.IsName name) :
    NameEffect p owner name := by
  obtain ⟨a, harena, hdotted | ⟨_, _, _, _, hform⟩⟩ := h
  · exact effect_of_dotted harena hdotted
  · exact effect_of_importType harena hform

/-! ## What walks keep and reach -/

/-- The property is kept by notes, and by visits of what is found in the declarations of a
symbol. -/
structure KeepsFound (p : Project) (visit : Target → Collecting → Collecting) (owner : SymbolId)
    (P : Collecting → Prop) : Prop where
  notes : ∀ c c', Notes c c' → P c → P c'
  visit : ∀ name target c, p.Finds owner name target → P c → P (visit target c)

namespace KeepsFound

variable {P : Collecting → Prop} {ref : NodeRef} {a : Arena}

/-- Taking a stop keeps the property. -/
theorem take (hP : KeepsFound p visit owner P) (href : ref ∈ p.writtenDeclarations owner)
    (harena : p.arena? ref.file = some a) {stop : Stop} (hstop : stop ∈ stops a ref.node)
    (c : Collecting) (h : P c) :
    P (Collecting.take p visit owner ref.file c stop) := by
  cases stop with
  | unhandled => exact hP.notes c _ (.pass c) h
  | name slot =>
    have hvisits := name_mem_stops.1 hstop
    show P (walkName p visit owner ⟨ref.file, slot⟩ c)
    cases nameEffect owner (Project.isName_of_visits harena hvisits) with
    | nothing _ note hnote heq =>
      rw [heq]
      exact hP.notes c _ (hnote c) h
    | reserves _ note hnote heq _ =>
      rw [heq]
      exact hP.notes c _ (hnote c) h
    | visits target hfound _ note hnote heq =>
      have hfinds : p.Finds owner ⟨ref.file, slot⟩ target :=
        ⟨ref, a, href, harena, rfl, hvisits, hfound⟩
      rw [heq]
      exact hP.notes _ _ (hnote _) (hP.visit _ target c hfinds h)

/-- Walking a declaration keeps the property. -/
theorem walkDeclaration (hP : KeepsFound p visit owner P) (href : ref ∈ p.writtenDeclarations owner)
    (c : Collecting) (h : P c) : P (Collecting.walkDeclaration p visit owner c ref) := by
  cases harena : p.arena? ref.file with
  | none =>
    unfold Collecting.walkDeclaration
    rw [harena]
    exact h
  | some a =>
    rw [walkDeclaration_eq_foldl harena]
    apply List.foldlRecOn (motive := P) _ _ h
    intro c hc stop hstop
    exact hP.take href harena hstop c hc

/-- Walking all declarations of a symbol keeps the property. -/
theorem walkAll (hP : KeepsFound p visit owner P) (c : Collecting) (h : P c) :
    P ((p.writtenDeclarations owner).foldl (Collecting.walkDeclaration p visit owner) c) := by
  apply List.foldlRecOn (motive := P) _ _ h
  intro c hc ref href
  exact hP.walkDeclaration href c hc

end KeepsFound

/-- Two folds agree when their steps agree wherever the first one leads. -/
theorem foldl_congr_of_keeps {β : Type} {f g : Collecting → β → Collecting} {P : Collecting → Prop}
    {xs : List β} (hf : ∀ x ∈ xs, ∀ c, P c → P (f c x)) (hfg : ∀ x ∈ xs, ∀ c, P c → f c x = g c x)
    (c : Collecting) (h : P c) :
    xs.foldl f c = xs.foldl g c := by
  induction xs generalizing c with
  | nil => rfl
  | cons x xs ih =>
    rw [List.foldl_cons, List.foldl_cons, ← hfg x (by simp) c h]
    exact ih (fun y hy => hf y (by simp [hy])) (fun y hy => hfg y (by simp [hy])) _
      (hf x (by simp) c h)

/-- Two walks over the declarations of a symbol agree when visits of what is found do. -/
theorem walkAll_congr {visit' : Target → Collecting → Collecting} {P : Collecting → Prop}
    (hP : KeepsFound p visit owner P)
    (heq : ∀ name target c, p.Finds owner name target → P c → visit target c = visit' target c)
    (c : Collecting) (h : P c) :
    (p.writtenDeclarations owner).foldl (walkDeclaration p visit owner) c =
      (p.writtenDeclarations owner).foldl (walkDeclaration p visit' owner) c := by
  apply foldl_congr_of_keeps (P := P)
  · intro ref href c hc
    exact hP.walkDeclaration href c hc
  · intro ref href c hc
    cases harena : p.arena? ref.file with
    | none => simp only [walkDeclaration, harena]
    | some a =>
      rw [walkDeclaration_eq_foldl harena, walkDeclaration_eq_foldl harena]
      apply foldl_congr_of_keeps (P := P)
      · intro stop hstop c hc
        exact hP.take href harena hstop c hc
      · intro stop hstop c hc
        cases stop with
        | unhandled => rfl
        | name slot =>
          have hvisits := name_mem_stops.1 hstop
          show walkName p visit owner ⟨ref.file, slot⟩ c =
            walkName p visit' owner ⟨ref.file, slot⟩ c
          -- only the last of the effects visits anything, and it visits what the name finds
          cases nameEffect owner (Project.isName_of_visits harena hvisits) with
          | nothing _ note _ hwalk => rw [hwalk, hwalk]
          | reserves _ note _ hwalk _ => rw [hwalk, hwalk]
          | visits target hfound _ note _ hwalk =>
            have hfinds : p.Finds owner ⟨ref.file, slot⟩ target :=
              ⟨ref, a, href, harena, rfl, hvisits, hfound⟩
            rw [hwalk, hwalk, heq _ target c hfinds hc]
      · exact hc
  · exact h

/-- A fold reaches what one of its steps reaches and all of them keep. -/
theorem reaches_foldl {β : Type} {f : Collecting → β → Collecting} {P G : Collecting → Prop}
    {xs : List β} (hf : ∀ x ∈ xs, ∀ c, P c → P (f c x)) (hG : ∀ x ∈ xs, ∀ c, G c → G (f c x))
    {x : β} (hx : x ∈ xs) (hreach : ∀ c, P c → G (f c x)) (c : Collecting) (h : P c) :
    G (xs.foldl f c) := by
  induction xs generalizing c with
  | nil => cases hx
  | cons y ys ih =>
    rcases List.mem_cons.1 hx with rfl | hx
    · apply List.foldlRecOn (motive := G) _ _ (hreach c h)
      intro c hc y hy
      exact hG y (by simp [hy]) c hc
    · exact ih (fun z hz => hf z (by simp [hz])) (fun z hz => hG z (by simp [hz])) hx _
        (hf y (by simp) c h)

/-- A walk over the declarations of a symbol reaches what happens at one of the names that it
visits. -/
theorem reaches_walkAll {P G : Collecting → Prop} (hP : KeepsFound p visit owner P)
    (hG : KeepsFound p visit owner G) {ref : NodeRef} {a : Arena} {slot : Slot}
    (href : ref ∈ p.writtenDeclarations owner) (harena : p.arena? ref.file = some a)
    (hvisits : Visits a ref.node slot)
    (hreach : ∀ c, P c → G (walkName p visit owner ⟨ref.file, slot⟩ c)) (c : Collecting) (h : P c) :
    G ((p.writtenDeclarations owner).foldl (walkDeclaration p visit owner) c) := by
  apply reaches_foldl (P := P) (fun ref href c hc => hP.walkDeclaration href c hc)
    (fun ref href c hc => hG.walkDeclaration href c hc) href ?_ c h
  intro c hc
  rw [walkDeclaration_eq_foldl harena]
  exact reaches_foldl (P := P) (fun stop hstop c hc => hP.take href harena hstop c hc)
    (fun stop hstop c hc => hG.take href harena hstop c hc) (name_mem_stops.2 hvisits) hreach c hc

end Collecting

end DeclBundle
