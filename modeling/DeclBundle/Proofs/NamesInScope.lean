import DeclBundle.Proofs.OpenScopes

/-!
# Names are linked to what is visible

Linking goes through groups of parts with the regions around each. A step of it declares parameters
only below the parts, links only the names that are read in them, and links each of them to the
symbol that is visible there (`Follows`). As the nodes form a tree, what is done for other parts
does not matter for it.

The proof goes by the schemes of forms: steps one after the other (`Follows.andThen`), opening and
closing regions as steps of their own, and at last all nodes, from the leaves up (`follows_visit`).
-/

set_option autoImplicit false

namespace DeclBundle

/-- All parts of some groups. -/
def partsOf (stages : List (List LinkedPart × List Region)) : List LinkedPart :=
  stages.flatMap Prod.fst

variable (f : LinkingFile) (t : SharedTables) (declared : Std.TreeMap NodeId SymbolId)

/-- Before a step: the scopes stand for the regions around, nothing in the parts is linked yet, and
in the end symbols and declarations are those of `t` and `declared`. Afterwards the links are
`after`. -/
structure Ready (outer : List Region) (parts : List LinkedPart) (new : List Slot)
    (l after : Links) : Prop where
  globals : f.globals = t.globals
  closed : l.Closed f
  around : l.Around declared outer
  fresh : ∀ n, f.arena.WithinAny parts n → l.resolved[n]? = none
  declares : ∀ n, f.arena.WithinAny parts n ∨ some n ∈ new → after.declared[n]? = declared[n]?
  grows : after.symbols.Extends t.symbols

/-- The step starts with the regions `outer` and ends with the regions `next`. It links the names
that are read in the groups, each to the symbol that is visible there. It declares the parameters
`new` and others below the parts. -/
structure Follows (outer next : List Region) (stages : List (List LinkedPart × List Region))
    (new : List Slot) (step : Links → Links) : Prop where
  keeps : ∀ {P : Links → Prop}, Links.Keeps f P → ∀ {l}, P l → P (step l)
  declares : ∀ l n, ¬ f.arena.BeneathAny (partsOf stages) n → some n ∉ new →
    (step l).declared[n]? = l.declared[n]?
  links : ∀ l n, (step l).resolved[n]? ≠ l.resolved[n]? →
    ∃ stage ∈ stages, ∃ read inner, Reads f.arena declared stage.1 stage.2 n read inner
  around : ∀ {l}, Ready f t declared outer (partsOf stages) new l (step l) →
    (step l).Around declared next
  resolves : ∀ {l}, Ready f t declared outer (partsOf stages) new l (step l) → ∀ stage ∈ stages,
    ∀ {n read inner},
    Reads f.arena declared stage.1 stage.2 n read inner →
      (step l).resolved[n]? = (f.arena.nameText? (some n)).bind (visible? t declared inner · read)

variable {f t declared}
  {outer next last : List Region} {stages stages' : List (List LinkedPart × List Region)}
    {new new' : List Slot} {step step' : Links → Links}

theorem partsOf_append : partsOf (stages ++ stages') = partsOf stages ++ partsOf stages' :=
  List.flatMap_append

theorem withinAny_partsOf {stage : List LinkedPart × List Region} (hstage : stage ∈ stages)
    {n : NodeId} (hn : f.arena.WithinAny stage.1 n) : f.arena.WithinAny (partsOf stages) n :=
  let ⟨part, hpart, hn⟩ := hn
  ⟨part, List.mem_flatMap.2 ⟨stage, hstage, hpart⟩, hn⟩

/-! ## Steps in order -/

namespace Follows

theorem links_of_not (h : Follows f t declared outer next stages new step) {l : Links} {n : NodeId}
    (hn : ¬ f.arena.WithinAny (partsOf stages) n) : (step l).resolved[n]? = l.resolved[n]? := by
  by_contra hne
  obtain ⟨stage, hstage, read, inner, hread⟩ := h.links l n hne
  exact hn (withinAny_partsOf hstage hread.within)

theorem grows (h : Follows f t declared outer next stages new step) (l : Links) :
    l.symbols.Extends (step l).symbols :=
  h.keeps (Links.keeps_extends f l.symbols) (.refl _)

/-- Two steps, of which each leaves alone what the other one does. -/
theorem andThen (h : Follows f t declared outer next stages new step)
    (h' : Follows f t declared next last stages' new' step')
    (hparts : ∀ n, f.arena.WithinAny (partsOf stages) n → ¬ f.arena.WithinAny (partsOf stages') n ∧
      some n ∉ new')
    (hnew : ∀ n, some n ∈ new → ¬ f.arena.BeneathAny (partsOf stages') n ∧ some n ∉ new') :
    Follows f t declared outer last (stages ++ stages') (new ++ new') (step' ∘ step) := by
  have hleft : ∀ n, f.arena.WithinAny (partsOf stages) n →
      f.arena.WithinAny (partsOf (stages ++ stages')) n :=
    fun n ⟨part, hpart, hn⟩ => ⟨part, partsOf_append ▸ List.mem_append_left _ hpart, hn⟩
  have hright : ∀ n, f.arena.WithinAny (partsOf stages') n →
      f.arena.WithinAny (partsOf (stages ++ stages')) n :=
    fun n ⟨part, hpart, hn⟩ => ⟨part, partsOf_append ▸ List.mem_append_right _ hpart, hn⟩
  -- the second step does not touch what the first one is about
  have hsecond : ∀ l n, f.arena.WithinAny (partsOf stages) n ∨ some n ∈ new →
      (step' l).declared[n]? = l.declared[n]? := by
    rintro l n (hn | hn)
    · exact h'.declares l n (fun ⟨part, hpart, hbeneath⟩ =>
        (hparts n hn).1 ⟨part, hpart, hbeneath.within⟩) (hparts n hn).2
    · exact h'.declares l n (hnew n hn).1 (hnew n hn).2
  have hready : ∀ {l},
    Ready f t declared outer (partsOf (stages ++ stages')) (new ++ new') l (step' (step l)) →
      Ready f t declared outer (partsOf stages) new l (step l) := fun {l} hl => {
    globals := hl.globals
    closed := hl.closed
    around := hl.around
    fresh := fun n hn => hl.fresh n (hleft n hn)
    declares := fun n hn => (hsecond (step l) n hn).symm.trans
      (hl.declares n (hn.imp (hleft n) (List.mem_append_left _)))
    grows := (h'.grows (step l)).trans hl.grows }
  have hready' : ∀ {l},
    Ready f t declared outer (partsOf (stages ++ stages')) (new ++ new') l (step' (step l)) →
      Ready f t declared next (partsOf stages') new' (step l) (step' (step l)) := fun {l} hl => {
    globals := hl.globals
    closed := h.keeps (Links.keeps_closed f) hl.closed
    around := h.around (hready hl)
    fresh :=
      fun n hn => (h.links_of_not fun hn' => (hparts n hn').1 hn).trans (hl.fresh n (hright n hn))
    declares := fun n hn => hl.declares n (hn.imp (hright n) (List.mem_append_right _))
    grows := hl.grows }
  exact {
    keeps := fun hP l hl => h'.keeps hP (h.keeps hP hl)
    declares := fun l n hn hnot => by
      rw [partsOf_append] at hn
      have hfirst := h.declares l n
        (fun ⟨part, hpart, hbeneath⟩ => hn ⟨part, List.mem_append_left _ hpart, hbeneath⟩)
        fun hmem => hnot (List.mem_append_left _ hmem)
      have hthen := h'.declares (step l) n
        (fun ⟨part, hpart, hbeneath⟩ => hn ⟨part, List.mem_append_right _ hpart, hbeneath⟩)
        fun hmem => hnot (List.mem_append_right _ hmem)
      exact hthen.trans hfirst
    links := fun l n hne => by
      by_cases hthen : (step' (step l)).resolved[n]? = (step l).resolved[n]?
      · obtain ⟨stage, hstage, hread⟩ := h.links l n fun heq => hne (hthen.trans heq)
        exact ⟨stage, List.mem_append_left _ hstage, hread⟩
      · obtain ⟨stage, hstage, hread⟩ := h'.links (step l) n hthen
        exact ⟨stage, List.mem_append_right _ hstage, hread⟩
    around := fun hl => h'.around (hready' hl)
    resolves := fun {l} hl stage hstage n read inner hread => by
      rcases List.mem_append.1 hstage with hstage | hstage
      · have happart := (hparts n (withinAny_partsOf hstage hread.within)).1
        exact (h'.links_of_not happart).trans (h.resolves (hready hl) stage hstage hread)
      · exact h'.resolves (hready' hl) stage hstage hread }

/-- After a step that only opens or closes regions. -/
theorem after (h : Follows f t declared next last stages new step) {regions : Links → Links}
    (hregions : Follows f t declared outer next [] [] regions) :
    Follows f t declared outer last stages new (step ∘ regions) :=
  hregions.andThen h (fun _ hn => absurd hn Arena.not_withinAny_nil) fun _ hn =>
    absurd hn List.not_mem_nil

/-- Before a step that only opens or closes regions. -/
theorem before (h : Follows f t declared outer next stages new step) {regions : Links → Links}
    (hregions : Follows f t declared next last [] [] regions) :
    Follows f t declared outer last stages new (regions ∘ step) := by
  have hboth := h.andThen hregions (fun _ _ => ⟨Arena.not_withinAny_nil, List.not_mem_nil⟩)
    fun _ _ => ⟨Arena.not_beneathAny_nil, List.not_mem_nil⟩
  rwa [List.append_nil, List.append_nil] at hboth

/-- The same names can be read in other groups, with the new parameters below them. -/
theorem regroup (h : Follows f t declared outer next stages new step)
    (hwithin : ∀ n, f.arena.WithinAny (partsOf stages) n → f.arena.WithinAny (partsOf stages') n)
    (hbeneath : ∀ n, f.arena.BeneathAny (partsOf stages) n ∨ some n ∈ new →
      f.arena.BeneathAny (partsOf stages') n)
    (hreads : ∀ n read inner,
      (∃ stage ∈ stages, Reads f.arena declared stage.1 stage.2 n read inner) ↔
      ∃ stage ∈ stages', Reads f.arena declared stage.1 stage.2 n read inner) :
    Follows f t declared outer next stages' [] step := by
  -- what is fresh below the new groups was fresh below the old ones and the new parameters
  have hready : ∀ {l}, Ready f t declared outer (partsOf stages') [] l (step l) →
      Ready f t declared outer (partsOf stages) new l (step l) := fun {l} hl => {
    globals := hl.globals
    closed := hl.closed
    around := hl.around
    fresh := fun n hn => hl.fresh n (hwithin n hn)
    declares := fun n hn => by
      refine hl.declares n (.inl ?_)
      rcases hn with hn | hn
      · exact hwithin n hn
      · obtain ⟨part, hpart, hbelow⟩ := hbeneath n (.inr hn)
        exact ⟨part, hpart, hbelow.within⟩
    grows := hl.grows }
  exact {
    keeps := h.keeps
    declares := fun l n hn _ => h.declares l n
      (fun hbelow => hn (hbeneath n (.inl hbelow))) fun hmem => hn (hbeneath n (.inr hmem))
    links := fun l n hne => by
      obtain ⟨stage, hstage, read, inner, hread⟩ := h.links l n hne
      obtain ⟨stage', hstage', hread'⟩ := (hreads n read inner).1 ⟨stage, hstage, hread⟩
      exact ⟨stage', hstage', read, inner, hread'⟩
    around := fun hl => h.around (hready hl)
    resolves := fun {l} hl stage' hstage' n read inner hread' => by
      obtain ⟨stage, hstage, hread⟩ := (hreads n read inner).2 ⟨stage', hstage', hread'⟩
      exact h.resolves (hready hl) stage hstage hread }

end Follows

/-! ## Opening and closing regions -/

/-- A step that changes nothing but the open regions. -/
theorem follows_regions (scopes : Links → List Scope) (inferLevels : Links → List Nat)
    (haround : ∀ l : Links, l.Around declared outer → l.Closed f →
      ({ l with scopes := scopes l, inferLevels := inferLevels l } : Links).Around declared next) :
    Follows f t declared outer next [] [] fun l =>
      { l with scopes := scopes l, inferLevels := inferLevels l } where
  keeps hP l hl := hP.regions l _ _ hl
  declares _ _ _ _ := rfl
  links _ _ hne := absurd rfl hne
  around h := haround _ h.around h.closed
  resolves _ _ hstage := by cases hstage

/-- Leaving the innermost region, which is closed. -/
theorem follows_leave {region : Region}
    (hclosed : Region.openLevels (region :: outer) = Region.openLevels outer) :
    Follows f t declared (region :: outer) outer [] [] fun l =>
      { l with scopes := l.scopes.drop 1 } :=
  follows_regions (fun l => l.scopes.drop 1) Links.inferLevels fun _ h _ => h.leave hclosed

/-- Entering a region with parameters. -/
theorem follows_enter (parameters : List (SymbolFlag × Slot))
    (hnodup : ∀ n : NodeId, (parameters.map Prod.snd).count (some n) ≤ 1) :
    Follows f t declared outer
      (.parameters (parameters.filterMap fun d => f.arena.named? d.2).reverse false :: outer) []
      (parameters.map Prod.snd)
      fun l => ({ l with scopes := .names [] :: l.scopes } : Links).declareAll f l.scopes.length
        parameters where
  keeps hP l hl := hP.declareAll (hP.regions l _ l.inferLevels hl) _ fun _ _ => trivial
  declares l n _ hn := Links.declared_declareAll f _ _ hn
  links l n hne := absurd (by rw [Links.resolved_declareAll]) hne
  around {l} h := by
    have hdeclares := fun n hn => h.declares n (.inr hn)
    rw [h.around.scopes.length_eq] at hdeclares ⊢
    have hall := h.around.enter.declareAll hnodup hdeclares
    rwa [List.append_nil] at hall
  resolves _ _ hstage := by cases hstage

/-- What `infer` introduces goes to the innermost open region. -/
theorem follows_introduce (parameter : Slot) :
    Follows f t declared outer (Region.introduce (f.arena.named? parameter).toList outer) []
      [parameter] fun l =>
      match l.inferLevels with
      | level :: _ => l.declareIn f level .typeParameter parameter
      | [] => l where
  keeps hP l hl := by
    split
    · exact hP.declare l _ _ _ trivial hl
    · exact hl
  declares l n _ hn := by
    split
    · exact Links.declared_declareIn f l _ _ fun heq => hn (heq ▸ List.mem_cons_self)
    · rfl
  links l n hne := by
    refine absurd ?_ hne
    split
    · rw [Links.resolved_declareIn]
    · rfl
  around {l} h := by
    have haround := h.around
    have hdeclares := h.declares
    cases hlevels : l.inferLevels with
    | nil =>
      rw [haround.levels] at hlevels
      rw [Region.introduce_of_openLevels_nil hlevels]
      exact haround
    | cons level levels =>
      rw [hlevels] at hdeclares
      rw [haround.levels] at hlevels
      obtain ⟨inner, known, rest, rfl, rfl, hintroduce⟩ := Region.exists_open hlevels
      rw [hintroduce]
      have hadded := haround.declareIn inner .typeParameter fun n hn =>
        hdeclares n (.inr (hn ▸ List.mem_cons_self))
      have hsingle : (f.arena.named? parameter).toList.reverse =
          (f.arena.named? parameter).toList := by
        cases f.arena.named? parameter <;> rfl
      rw [hsingle]
      exact hadded
  resolves _ _ hstage := by cases hstage

/-! ## Parts in order -/

variable (f t declared) in
/-- The step does all parts. -/
def FollowsParts (parts : List LinkedPart) (step : Links → Links) : Prop :=
  ∀ outer, Follows f t declared outer (Region.introduce (f.arena.introduced parts) outer)
    [(parts, outer)] [] step

theorem partsOf_single (parts : List LinkedPart) (outer : List Region) :
    partsOf [(parts, outer)] = parts := List.append_nil _

theorem followsParts_nil : FollowsParts f t declared [] id := by
  intro outer
  rw [show f.arena.introduced [] = [] from rfl, Region.introduce_nil]
  exact {
    keeps := fun _ _ hl => hl
    declares := fun _ _ _ _ => rfl
    links := fun _ _ hne => absurd rfl hne
    around := fun hl => hl.around
    resolves := fun hl stage hstage _ _ _ hread => by
      obtain rfl := List.mem_singleton.1 hstage
      cases hread }

theorem FollowsParts.append {parts rest : List LinkedPart}
    (h : FollowsParts f t declared parts step) (h' : FollowsParts f t declared rest step')
    (htree : f.arena.IsTree) (hsiblings : f.arena.AreSiblings (parts ++ rest)) :
    FollowsParts f t declared (parts ++ rest) (step' ∘ step) := by
  intro outer
  rw [Arena.introduced_append, Region.introduce_append]
  -- the rest is read where the first parts have introduced their names, and no node is below both
  have hboth := (h outer).andThen (h' (Region.introduce (f.arena.introduced parts) outer))
    (fun n hn => ⟨by
      rw [partsOf_single] at hn ⊢
      exact htree.apart_parts hsiblings hn, List.not_mem_nil⟩)
    fun n hn => absurd hn List.not_mem_nil
  -- the two stages together visit the same nodes as one stage with all parts
  have hparts :
    partsOf ([(parts, outer)] ++ [(rest, Region.introduce (f.arena.introduced parts) outer)]) =
      partsOf [(parts ++ rest, outer)] := by
    rw [partsOf_append, partsOf_single, partsOf_single, partsOf_single]
  refine hboth.regroup (fun n hn => hparts ▸ hn) (fun n hn => ?_) fun n read inner => ?_
  · rcases hn with hn | hn
    · exact hparts ▸ hn
    · cases hn
  · constructor
    · rintro ⟨stage, hstage, hread⟩
      rcases List.mem_cons.1 hstage with rfl | hstage
      · exact ⟨_, List.mem_cons_self, hread.append_left⟩
      · obtain rfl := List.mem_singleton.1 hstage
        exact ⟨_, List.mem_cons_self, hread.append_right⟩
    · rintro ⟨stage, hstage, hread⟩
      obtain rfl := List.mem_singleton.1 hstage
      rcases hread.append_cases with hread | hread
      · exact ⟨_, List.mem_cons_self, hread⟩
      · exact ⟨_, List.mem_cons_of_mem _ List.mem_cons_self, hread⟩

theorem followsParts_runParts (htree : f.arena.IsTree) {visit : Slot → Links → Links}
    {parts : List LinkedPart} (hsiblings : f.arena.AreSiblings parts)
    (hparts : ∀ part ∈ parts, FollowsParts f t declared [part] (Links.runPart f visit part)) :
    FollowsParts f t declared parts (Links.runParts f visit parts) := by
  induction parts with
  | nil => exact followsParts_nil
  | cons part parts ih =>
    have hrest := ih (hsiblings.sublist (List.sublist_cons_self _ _)) fun part hpart =>
      hparts part (List.mem_cons_of_mem _ hpart)
    exact (hparts part List.mem_cons_self).append hrest htree hsiblings

/-! ## One name -/

theorem followsParts_link (entity : Slot) (meaning : Meaning) :
    FollowsParts f t declared [.link entity meaning] fun l => l.linkEntity f entity meaning := by
  intro outer
  rw [show f.arena.introduced [.link entity meaning] = [] from rfl, Region.introduce_nil]
  exact {
    keeps := fun hP l hl => hP.link l entity meaning hl
    declares := fun l n _ _ => by
      rcases l.linkEntity_cases f entity meaning with heq | ⟨read, id, -, heq⟩
      · rw [heq]
      · rw [heq]
    links := fun l n hne => by
      rcases l.linkEntity_cases f entity meaning with heq | ⟨read, id, hread, heq⟩
      · exact absurd (congrArg (fun l : Links => l.resolved[n]?) heq) hne
      · rw [heq, Std.TreeMap.getElem?_insert] at hne
        split at hne
        · next hn =>
          obtain rfl : read.1 = n := Std.LawfulEqOrd.eq_of_compare hn
          exact ⟨_, List.mem_cons_self, read.2, outer, .link hread⟩
        · exact absurd rfl hne
    around := fun {l} hl => by
      rcases l.linkEntity_cases f entity meaning with heq | ⟨read, id, -, heq⟩
      · rw [heq]
        exact hl.around
      · rw [heq]
        exact hl.around.grow rfl rfl (.refl _)
    resolves := fun {l} hl stage hstage n read inner hread => by
      obtain rfl := List.mem_singleton.1 hstage
      cases hread with
      | later hread => cases hread
      | link hread =>
        -- what no scope has is not linked, as nothing was linked at the node before
        have hnone := hl.fresh n ⟨_, List.mem_cons_self, Arena.within_of_entity? hread⟩
        have hgrows : l.symbols.Extends t.symbols := by
          have hsame := Links.keeps_of_resolved f (P := fun l' => l'.symbols = l.symbols)
            (fun _ _ h => h) l entity meaning rfl
          exact hsame ▸ hl.grows
        have hlookup : (f.arena.nameText? (some n)).bind (l.lookup? f · read) =
            (f.arena.nameText? (some n)).bind (visible? t declared outer · read) :=
          congrArg _ (funext fun name => hl.around.lookup?_eq hl.closed hgrows hl.globals name read)
        rw [Links.linkEntity_eq, hread, Option.elim_some, ← hlookup]
        unfold Links.linkNode
        split
        · next id hid => rw [Std.TreeMap.getElem?_insert_self, hid]
        · next hid => rw [hid, hnone] }

/-! ## Schemes -/

section Schemes

variable (htree : f.arena.IsTree) {visit : Slot → Links → Links} {node : Slot} {form : Form Slot}
  {manner : Manner} (hform : f.arena.form? node = some form)

include hform

/-- What stands in the parts of a form stands below its node. -/
theorem beneath_of_parts (manner : Manner) {parts : List LinkedPart}
    (hparts : ∀ part ∈ parts, part ∈ (form.scheme manner).allParts) {n : NodeId}
    (hn : f.arena.WithinAny parts n) : f.arena.Beneath node n := by
  obtain ⟨part, hpart, hn⟩ := hn
  cases hslot : part.slot with
  | none => exact absurd (hslot ▸ hn) Arena.not_within_none
  | some c =>
    rw [hslot] at hn
    exact hn.beneath hform (Scheme.mem_children (hparts part hpart) hslot)

/-- What is done for a node is done by the groups of its scheme. -/
theorem Follows.ofStages (manner : Manner) (new : List Slot)
    (h : Follows f t declared outer next ((form.scheme manner).stages f.arena declared node outer)
      new step)
    (hnew : ∀ n, some n ∈ new → some n ∈ form.children) :
    Follows f t declared outer next [([.visit manner node], outer)] [] step := by
  have hbelow : ∀ n,
    f.arena.WithinAny (partsOf ((form.scheme manner).stages f.arena declared node outer)) n →
      f.arena.Beneath node n := fun n hn =>
    beneath_of_parts hform manner (fun part hpart => by
      obtain ⟨stage, hstage, hpart⟩ := List.mem_flatMap.1 hpart
      exact Scheme.mem_allParts_of_stages hstage hpart) hn
  have hnode : ∀ n, f.arena.Beneath node n →
      f.arena.BeneathAny (partsOf [([.visit manner node], outer)]) n := fun n hn =>
    ⟨_, List.mem_cons_self, hn⟩
  refine h.regroup (fun n hn => ⟨_, List.mem_cons_self, (hbelow n hn).within⟩)
    (fun n hn => hnode n ?_) fun n read inner => ?_
  · rcases hn with ⟨part, hpart, hn⟩ | hn
    · exact hbelow n ⟨part, hpart, hn.within⟩
    · cases node with
      | none => cases hform
      | some m => exact ⟨m, form, .here m, hform, hnew n hn⟩
  · constructor
    · rintro ⟨stage, hstage, hread⟩
      exact ⟨_, List.mem_cons_self, .visit hform hstage hread⟩
    · rintro ⟨stage, hstage, hread⟩
      obtain rfl := List.mem_singleton.1 hstage
      exact hread.exists_stage hform

include htree

/-- The parts of a form do not stand below each other. -/
theorem not_beneathAny_of_child {parts : List LinkedPart}
    (hparts : ∀ part ∈ parts, part ∈ (form.scheme manner).allParts) {n : NodeId}
    (hn : some n ∈ form.children) : ¬ f.arena.BeneathAny parts n := by
  rintro ⟨part, hpart, hbelow⟩
  cases hslot : part.slot with
  | none => exact absurd (hslot ▸ hbelow).within Arena.not_within_none
  | some c =>
    rw [hslot] at hbelow
    exact htree.not_beneath_child hform (Scheme.mem_children (hparts part hpart) hslot) hn hbelow

variable (hparts : ∀ part ∈ (form.scheme manner).allParts,
  FollowsParts f t declared [part] (Links.runPart f visit part))

include hparts

/-- Some of the parts of a form, in order. -/
theorem followsParts_sublist (parts : List LinkedPart)
    (hsub : parts.Sublist (form.scheme manner).allParts) :
    FollowsParts f t declared parts (Links.runParts f visit parts) :=
  followsParts_runParts htree ((Arena.areSiblings_allParts hform manner).sublist hsub)
      fun part hpart =>
    hparts part (hsub.subset hpart)

theorem followsParts_parts {all : List LinkedPart} (hscheme : form.scheme manner = .parts all) :
    FollowsParts f t declared [.visit manner node] (Links.runScheme f visit node (.parts all)) := by
  intro outer
  have hall := followsParts_sublist htree hform hparts all (hscheme ▸ List.Sublist.refl _) outer
  rw [Arena.introduced_visit htree.isOrdered hform, hscheme]
  refine Follows.ofStages hform manner [] ?_ fun n hn => by cases hn
  rw [hscheme]
  exact hall

theorem followsParts_parameters {before rest : List LinkedPart}
    {parameters : List (SymbolFlag × Slot)}
    (hscheme : form.scheme manner = .parameters before parameters rest) :
    FollowsParts f t declared [.visit manner node]
      (Links.runScheme f visit node (.parameters before parameters rest)) := by
  intro outer
  -- the parameters are visited first in their region
  let inside := Scheme.plainly (parameters.map Prod.snd) ++ rest
  have hall : (form.scheme manner).allParts = before ++ inside := hscheme ▸ rfl
  have hsub : inside.Sublist (form.scheme manner).allParts := hall ▸ List.sublist_append_right _ _
  have hvisited : ∀ n, some n ∈ parameters.map Prod.snd →
      LinkedPart.visit .plain (some n) ∈ inside := fun n hn =>
    List.mem_append_left _ (List.mem_map_of_mem hn)
  have hchildren : ∀ n, some n ∈ parameters.map Prod.snd → some n ∈ form.children := fun n hn =>
    Scheme.mem_children (hsub.subset (hvisited n hn)) rfl
  have hcount : ∀ n : NodeId, (parameters.map Prod.snd).count (some n) ≤ 1 := by
    intro n
    have hslots := (hsub.map LinkedPart.slot).count_le (some n)
    have hle := form.count_parts_le manner n
    have hone := htree.count_children_le_one hform (n := n)
    rw [List.map_append, Scheme.slots_plainly, List.count_append] at hslots
    omega
  have happart : ∀ n, f.arena.WithinAny before n → ¬ f.arena.WithinAny inside n := fun n =>
    htree.apart_parts (hall ▸ Arena.areSiblings_allParts hform manner)
  have hbefore :=
    followsParts_sublist htree hform hparts before (hall ▸ List.sublist_append_left _ _) outer
  have hinside := followsParts_sublist htree hform hparts inside hsub
    (.parameters (parameters.filterMap fun d => f.arena.named? d.2).reverse false ::
      Region.introduce (f.arena.introduced before) outer)
  have hentered := (follows_enter parameters hcount).andThen (hinside.before (follows_leave rfl))
    (fun n hn => absurd hn Arena.not_withinAny_nil) fun n hn =>
      ⟨partsOf_single .. ▸ not_beneathAny_of_child htree hform (fun part hpart => hsub.subset hpart)
        (hchildren n hn),
        List.not_mem_nil⟩
  have hboth := hbefore.andThen hentered
    (fun n hn => by
      rw [partsOf_single] at hn
      refine ⟨partsOf_single .. ▸ happart n hn, fun hmem => happart n hn ?_⟩
      rw [List.append_nil] at hmem
      exact ⟨_, hvisited n hmem, .here n⟩)
    fun n hn => absurd hn List.not_mem_nil
  have hown : f.arena.introduced [.visit manner node] =
      f.arena.introduced before ++ f.arena.introduced inside := by
    rw [Arena.introduced_visit htree.isOrdered hform, hscheme, ← Arena.introduced_append]
    rfl
  rw [hown, Region.introduce_append]
  refine Follows.ofStages hform manner ([] ++ (parameters.map Prod.snd ++ [])) ?_ fun n hn => ?_
  · rw [hscheme]
    exact hboth
  · rw [List.nil_append, List.append_nil] at hn
    exact hchildren n hn

theorem followsParts_conditional {check extended whenTrue whenFalse : Slot}
    (hscheme : form.scheme manner = .conditional check extended whenTrue whenFalse) :
    FollowsParts f t declared [.visit manner node]
      (Links.runScheme f visit node (.conditional check extended whenTrue whenFalse)) := by
  intro outer
  have hall : (form.scheme manner).allParts =
    Scheme.plainly [check, extended, whenTrue, whenFalse] := hscheme ▸ rfl
  have hvisit : ∀ child ∈ [check, extended, whenTrue, whenFalse],
      FollowsParts f t declared [.visit .plain child] (visit child) :=
    fun child hchild => hparts _ (hall ▸ List.mem_map_of_mem hchild)
  have hsiblings := Arena.areSiblings_allParts hform manner
  rw [hall] at hsiblings
  have happart : ∀ {child : Slot} (others : List Slot),
    (child :: others).Sublist [check, extended, whenTrue, whenFalse] →
      ∀ n, f.arena.WithinAny [.visit .plain child] n →
        ¬ f.arena.WithinAny (Scheme.plainly others) n ∧ some n ∉ ([] : List Slot) :=
    fun _ hsub n hn => ⟨htree.apart_parts (hsiblings.sublist (hsub.map _)) hn, List.not_mem_nil⟩
  let checked := Region.introduce (f.arena.introduced (Scheme.plainly [check])) outer
  let known := (f.arena.introduced (Scheme.plainly [extended])).reverse
  have hfalse := hvisit whenFalse (by simp)
    (Region.introduce (f.arena.introduced (Scheme.plainly [whenTrue])) checked)
  have htrue := hvisit whenTrue (by simp) (.parameters known false :: checked)
  have hextended := hvisit extended (by simp) (.parameters [] true :: checked)
  have hcheck := hvisit check (by simp) outer
  -- what `infer` has introduced stays visible when the region is closed
  have hclose : Follows f t declared (Region.introduce (f.arena.introduced [.visit .plain extended])
    (.parameters [] true :: checked))
      (.parameters known false :: checked) [] [] fun l =>
        { l with inferLevels := l.inferLevels.drop 1 } := by
    rw [Region.introduce, List.append_nil]
    exact follows_regions Links.scopes (fun l => l.inferLevels.drop 1) fun _ h _ => h.close
  have henter : Follows f t declared checked (.parameters [] true :: checked) [] []
      fun l => { l with
        scopes := .names [] :: l.scopes
        inferLevels := l.scopes.length :: l.inferLevels } :=
    follows_regions _ _ fun _ h _ => h.enterOpen
  have htrueOn :=
    htrue.andThen (hfalse.after (follows_leave rfl)) (happart [whenFalse] (by simp)) fun n hn =>
    absurd hn List.not_mem_nil
  have hextendedOn :=
    hextended.andThen (htrueOn.after hclose) (happart [whenTrue, whenFalse] (by simp)) fun n hn =>
    absurd hn List.not_mem_nil
  have hcheckOn :=
    hcheck.andThen (hextendedOn.after henter) (happart [extended, whenTrue, whenFalse] (by simp))
    fun n hn => absurd hn List.not_mem_nil
  have hown : f.arena.introduced [.visit manner node] =
    f.arena.introduced (Scheme.plainly [check]) ++
      (f.arena.introduced (Scheme.plainly [whenTrue]) ++
        f.arena.introduced (Scheme.plainly [whenFalse])) := by
    rw [Arena.introduced_visit htree.isOrdered hform,
      hscheme, ← Arena.introduced_append, ← Arena.introduced_append]
    rfl
  rw [hown, Region.introduce_append, Region.introduce_append]
  refine Follows.ofStages hform manner [] ?_ fun n hn => by cases hn
  rw [hscheme]
  exact hcheckOn

theorem followsParts_introduction {parameter : Slot}
    (hscheme : form.scheme manner = .introduction parameter) :
    FollowsParts f t declared [.visit manner node]
      (Links.runScheme f visit node (.introduction parameter)) := by
  intro outer
  have hall : (form.scheme manner).allParts = Scheme.plainly [parameter] := hscheme ▸ rfl
  have hpart : LinkedPart.visit .plain parameter ∈ (form.scheme manner).allParts :=
    hall ▸ List.mem_cons_self
  have hchildren : ∀ n, some n ∈ [parameter] → some n ∈ form.children := fun n hn =>
    Scheme.mem_children hpart (List.mem_singleton.1 hn).symm
  have hvisit := hparts _ hpart (Region.introduce (f.arena.named? parameter).toList outer)
  have hboth := (follows_introduce parameter).andThen hvisit
      (fun n hn => absurd hn Arena.not_withinAny_nil) fun n hn =>
    ⟨not_beneathAny_of_child htree hform (fun part hmem => List.mem_singleton.1 hmem ▸ hpart)
      (hchildren n hn),
      List.not_mem_nil⟩
  have hown : f.arena.introduced [.visit manner node] =
      (f.arena.named? parameter).toList ++ f.arena.introduced [.visit .plain parameter] := by
    rw [Arena.introduced_visit htree.isOrdered hform, hscheme]
    rfl
  rw [hown, Region.introduce_append]
  refine Follows.ofStages hform manner ([parameter] ++ []) ?_ fun n hn => hchildren n hn
  rw [hscheme]
  exact hboth

end Schemes

/-! ## Containers -/

section Containers

variable (htree : f.arena.IsTree) {visit : Slot → Links → Links} {m : NodeId} {form : Form Slot}
  {manner : Manner} {body : Slot}

variable (f visit m body) in
/-- The body of a container is visited in the region of its symbol, if it has one. -/
theorem runScheme_container (l : Links) :
    (∃ symbol, l.declared[m]? = some symbol ∧ Links.runScheme f visit (some m) (.container body) l =
      l.within (.container symbol) fun _ l => visit body l) ∨
    (l.declared[m]? = none ∧ Links.runScheme f visit (some m) (.container body) l =
      visit body l) := by
  unfold Links.runScheme
  rw [Option.bind_some]
  cases l.declared[m]? with
  | some symbol => exact .inl ⟨symbol, rfl, rfl⟩
  | none => exact .inr ⟨rfl, rfl⟩

/-- What holds ahead of a step can hold ahead of another one that looks at fewer parts. -/
theorem Ready.narrow {parts parts' : List LinkedPart} {inside : List Region}
    {l l' after after' : Links} (hl : Ready f t declared outer parts new l after)
    (hclosed : l'.Closed f) (haround : l'.Around declared inside)
    (hresolved : l'.resolved = l.resolved) (hdeclared : after'.declared = after.declared)
    (hsymbols : after'.symbols = after.symbols)
    (hwithin : ∀ n, f.arena.WithinAny parts' n → f.arena.WithinAny parts n) :
    Ready f t declared inside parts' [] l' after' where
  globals := hl.globals
  closed := hclosed
  around := haround
  fresh n hn := hresolved ▸ hl.fresh n (hwithin n hn)
  declares n hn := hdeclared ▸ hl.declares n (.inl (hwithin n (hn.resolve_right List.not_mem_nil)))
  grows := hsymbols ▸ hl.grows

variable {inside : List Region}
  (hbody : Follows f t declared inside next [([.visit .plain body], inside)] [] (visit body))

include hbody

theorem declared_runScheme_container (l : Links) {n : NodeId}
    (hn : ¬ f.arena.BeneathAny [.visit .plain body] n) :
    (Links.runScheme f visit (some m) (.container body) l).declared[n]? = l.declared[n]? := by
  rw [← partsOf_single [.visit .plain body] inside] at hn
  rcases runScheme_container f visit m body l with ⟨symbol, -, heq⟩ | ⟨-, heq⟩
  · rw [heq]
    exact hbody.declares { l with scopes := .container symbol :: l.scopes } n hn List.not_mem_nil
  · rw [heq]
    exact hbody.declares l n hn List.not_mem_nil

theorem keeps_runScheme_container {P : Links → Prop} (hP : Links.Keeps f P) {l : Links} (hl : P l) :
    P (Links.runScheme f visit (some m) (.container body) l) := by
  rcases runScheme_container f visit m body l with ⟨symbol, -, heq⟩ | ⟨-, heq⟩
  · rw [heq]
    exact hP.within hl _ fun _ l hl => hbody.keeps hP hl
  · rw [heq]
    exact hbody.keeps hP hl

/-- Names that are linked in a container are linked in its body. -/
theorem reads_of_runScheme_container (l : Links) {n : NodeId}
    (hne : (Links.runScheme f visit (some m) (.container body) l).resolved[n]? ≠ l.resolved[n]?) :
    ∃ read inner, Reads f.arena declared [.visit .plain body] inside n read inner := by
  obtain ⟨l', hne'⟩ : ∃ l', (visit body l').resolved[n]? ≠ l'.resolved[n]? := by
    rcases runScheme_container f visit m body l with ⟨symbol, -, heq⟩ | ⟨-, heq⟩
    · rw [heq] at hne
      exact ⟨{ l with scopes := .container symbol :: l.scopes }, hne⟩
    · rw [heq] at hne
      exact ⟨l, hne⟩
  obtain ⟨stage, hstage, read, inner, hread⟩ := hbody.links l' n hne'
  obtain rfl := List.mem_singleton.1 hstage
  exact ⟨read, inner, hread⟩

omit hbody

include htree

/-- Below a node that has the same symbol before and after its body, the body is visited in the
region of that symbol. -/
theorem exists_ready_container
    (hbody : Follows f t declared inside next [([.visit .plain body], inside)] [] (visit body))
    (hinside : inside = ((declared[m]?).map Region.container).toList ++ outer)
    (hbelow : ∀ n, f.arena.WithinAny [.visit .plain body] n → f.arena.Beneath (some m) n)
    {l : Links}
    (hl : Ready f t declared outer [.visit manner (some m)] [] l
      (Links.runScheme f visit (some m) (.container body) l)) :
    ∃ l', Ready f t declared inside [.visit .plain body] [] l' (visit body l') ∧
      (Links.runScheme f visit (some m) (.container body) l).resolved = (visit body l').resolved ∧
      ∀ ps, (visit body l').Around declared (Region.introduce ps inside) →
        (Links.runScheme f visit (some m) (.container body) l).Around declared
          (Region.introduce ps outer) := by
  -- the body lies below the node, so that visiting it leaves the symbol of the node as it is
  have hself : ¬ f.arena.BeneathAny [.visit .plain body] m := fun ⟨part, hpart, hm⟩ =>
    absurd ((hbelow m ⟨part, hpart, hm.within⟩).index_lt htree.isOrdered) (Nat.lt_irrefl _)
  have hsame : l.declared[m]? = declared[m]? :=
    (declared_runScheme_container hbody l hself).symm.trans
      (hl.declares m (.inl ⟨_, List.mem_cons_self, .here m⟩))
  have hwithin : ∀ n, f.arena.WithinAny [.visit .plain body] n →
      f.arena.WithinAny [.visit manner (some m)] n :=
    fun n hn => ⟨_, List.mem_cons_self, (hbelow n hn).within⟩
  -- with a symbol the region is one longer while the body is visited, without one it stays
  rcases runScheme_container f visit m body l with ⟨symbol, hsymbol, heq⟩ | ⟨hnone, heq⟩
  · obtain rfl : inside = .container symbol :: outer := by
      rw [hinside, ← hsame, hsymbol]
      rfl
    rw [heq] at hl ⊢
    refine ⟨{ l with scopes := .container symbol :: l.scopes }, hl.narrow ?_ ?_ rfl rfl rfl hwithin,
      rfl, fun ps haround => ?_⟩
    · exact ⟨hl.closed.symbols, hl.closed.globals, hl.closed.declared⟩
    · exact hl.around.enterContainer (hl.closed.declared m symbol hsymbol)
    · exact haround.leave rfl
  · obtain rfl : inside = outer := by
      rw [hinside, ← hsame, hnone]
      rfl
    rw [heq] at hl ⊢
    exact ⟨l, hl.narrow hl.closed hl.around rfl rfl rfl hwithin, rfl, fun ps haround => haround⟩

/-- A container declares nothing but what its body declares, and its body is visited in its own
region. -/
theorem followsParts_container (hform : f.arena.form? (some m) = some form)
    (hpart : FollowsParts f t declared [.visit .plain body] (visit body))
    (hscheme : form.scheme manner = .container body) :
    FollowsParts f t declared [.visit manner (some m)]
      (Links.runScheme f visit (some m) (.container body)) := by
  intro outer
  have hbody := hpart (((declared[m]?).map Region.container).toList ++ outer)
  have hbelow : ∀ n, f.arena.WithinAny [.visit .plain body] n → f.arena.Beneath (some m) n :=
    fun n hn =>
    beneath_of_parts hform manner (fun part hmem => hscheme ▸ hmem) hn
  -- a container introduces nothing itself, so that behind it the same is introduced as by its body
  have hown : f.arena.introduced [.visit manner (some m)] =
      f.arena.introduced [.visit .plain body] := by
    rw [Arena.introduced_visit htree.isOrdered hform, hscheme]
    rfl
  have hstages : (form.scheme manner).stages f.arena declared (some m) outer =
      [([.visit .plain body], ((declared[m]?).map Region.container).toList ++ outer)] := by
    rw [hscheme]
    rfl
  rw [hown]
  exact {
    keeps := fun hP _ hl => keeps_runScheme_container hbody hP hl
    declares := fun l n hn _ => declared_runScheme_container hbody l fun ⟨part, hmem, hbeneath⟩ =>
      hn ⟨_, List.mem_cons_self, hbelow n ⟨part, hmem, hbeneath.within⟩⟩
    links := fun l n hne =>
      let ⟨read, inner, hread⟩ := reads_of_runScheme_container hbody l hne
      ⟨_, List.mem_cons_self, read, inner, .visit hform (hstages ▸ List.mem_cons_self) hread⟩
    around := fun hl =>
      let ⟨_, hl', _, haround⟩ := exists_ready_container htree hbody rfl hbelow hl
      haround _ (hbody.around hl')
    resolves := fun {l} hl stage hstage n read inner hread => by
      obtain rfl := List.mem_singleton.1 hstage
      obtain ⟨stage', hstage', hread'⟩ := hread.exists_stage hform
      rw [hstages] at hstage'
      obtain ⟨l', hl', hresolved, -⟩ := exists_ready_container htree hbody rfl hbelow hl
      exact (congrArg (·[n]?) hresolved).trans (hbody.resolves hl' stage' hstage' hread') }

end Containers

/-! ## All nodes -/

/-- Where there is no node, nothing is done. -/
theorem followsParts_noForm {manner : Manner} {node : Slot} (hform : f.arena.form? node = none) :
    FollowsParts f t declared [.visit manner node] id := by
  have hnone : f.arena.introduced [.visit manner node] = [] := by
    rw [Arena.introduced, List.flatMap_singleton, Arena.introducedTo, hform]
    rfl
  intro outer
  rw [hnone, Region.introduce_nil]
  exact {
    keeps := fun _ _ hl => hl
    declares := fun _ _ _ _ => rfl
    links := fun _ _ hne => absurd rfl hne
    around := fun hl => hl.around
    resolves := fun _ stage hstage n read inner hread => by
      obtain rfl := List.mem_singleton.1 hstage
      cases hread with
      | visit hform' => cases hform.symm.trans hform'
      | later hread => cases hread }

/-- Visiting a node deep enough does all that it has, by induction on a bound for the numbers of
nodes. -/
theorem followsParts_visit (htree : f.arena.IsTree) (manner : Manner) (node : Slot) (depth : Nat)
    (hdepth : ∀ n, node = some n → n.index < depth) :
    FollowsParts f t declared [.visit manner node]
      (Links.visitAs f (Links.visitTo f depth) manner node) := by
  -- plain visits lower the depth and all others only the node, so the induction is on a bound below
  -- both
  suffices h : ∀ bound depth manner node, bound ≤ depth → (∀ n, node = some n → n.index < bound) →
      FollowsParts f t declared [.visit manner node]
        (Links.visitAs f (Links.visitTo f depth) manner node) from
    h depth depth manner node (Nat.le_refl _) hdepth
  clear hdepth manner node depth
  intro bound
  induction bound with
  | zero =>
    intro depth manner node _ hnode
    cases node with
    | some n => exact absurd (hnode n rfl) (Nat.not_lt_zero _)
    | none =>
      have hid : Links.visitAs f (Links.visitTo f depth) manner none = id := by
        funext l
        by_cases hmanner : manner = .plain
        · subst hmanner
          cases depth <;> rfl
        · rw [Links.visitAs_eq f _ hmanner]
          rfl
      exact hid ▸ followsParts_noForm rfl
  | succ bound ih =>
    intro depth manner node hbound hnode
    obtain ⟨depth, rfl⟩ := Nat.exists_eq_succ_of_ne_zero (Nat.ne_of_gt (Nat.zero_lt_of_lt hbound))
    cases hform : f.arena.form? node with
    | none =>
      have hid : Links.visitAs f (Links.visitTo f (depth + 1)) manner node = id :=
        funext fun l => by
        rw [Links.visitAs_visitTo, hform]
        rfl
      exact hid ▸ followsParts_noForm hform
    | some form =>
      have hstep : Links.visitAs f (Links.visitTo f (depth + 1)) manner node =
          Links.runScheme f (Links.visitTo f (if manner = .plain then depth else depth + 1)) node
            (form.scheme manner) :=
        funext fun l => by
          rw [Links.visitAs_visitTo, hform]
          rfl
      -- every part lies below the node, where the induction hypothesis holds
      have hparts : ∀ part ∈ (form.scheme manner).allParts, FollowsParts f t declared [part]
          (Links.runPart f
              (Links.visitTo f (if manner = .plain then depth else depth + 1)) part) := by
        intro part hpart
        cases part with
        | link entity meaning => exact followsParts_link entity meaning
        | visit manner' child =>
          refine ih _ manner' child ?_ fun n hn => ?_
          · split
            all_goals omega
          · cases node with
            | none => cases hform
            | some m =>
              have hlt := htree.isOrdered m form n hform (Scheme.mem_children hpart hn)
              exact Nat.lt_of_lt_of_le hlt (Nat.le_of_lt_succ (hnode m rfl))
      rw [hstep]
      cases hscheme : form.scheme manner with
      | parts all => exact followsParts_parts htree hform hparts hscheme
      | parameters before parameters rest =>
        exact followsParts_parameters htree hform hparts hscheme
      | container body =>
        have hbody : LinkedPart.visit .plain body ∈ (form.scheme manner).allParts :=
          hscheme ▸ List.mem_cons_self
        cases node with
        | none => cases hform
        | some m => exact followsParts_container htree hform (hparts _ hbody) hscheme
      | conditional check extended whenTrue whenFalse =>
        exact followsParts_conditional htree hform hparts hscheme
      | introduction parameter => exact followsParts_introduction htree hform hparts hscheme

/-! ## Files -/

/-- Linking a file links what is read in it, each name to what is visible in the end, if symbols are
only added later. -/
theorem Links.resolved_ofFile (htree : f.arena.IsTree) (hglobals : f.globals = t.globals)
    {symbols : SymbolArena} (hsymbols : symbols.Closed) (hknows : symbols.Knows f.globals)
    {nodes : Std.TreeMap NodeId SymbolId} (hnodes : symbols.KnowsDeclared nodes) (root : NodeId)
    {fileSymbol : Option SymbolId} (hfile : ∀ id, fileSymbol = some id → symbols.Has id)
    (hextends : (ofFile f symbols nodes root fileSymbol).symbols.Extends t.symbols) (n : NodeId) :
    (∀ read inner,
      Reads f.arena (ofFile f symbols nodes root fileSymbol).declared [.visit .plain (some root)]
        (fileSymbol.toList.map .container) n read inner →
      (ofFile f symbols nodes root fileSymbol).resolved[n]? = (f.arena.nameText? (some n)).bind
        (visible? t (ofFile f symbols nodes root fileSymbol).declared inner · read)) ∧
    ((ofFile f symbols nodes root fileSymbol).resolved[n]? ≠ none → ∃ read inner,
      Reads f.arena (ofFile f symbols nodes root fileSymbol).declared [.visit .plain (some root)]
        (fileSymbol.toList.map .container) n read inner) := by
  let start : Links := { symbols, declared := nodes, scopes := fileSymbol.toList.map .container }
  have hfollows :
    FollowsParts f t (ofFile f symbols nodes root fileSymbol).declared [.visit .plain (some root)]
      (visitTo f (f.arena.size + 1) (some root)) := by
    cases hform : f.arena.form? (some root) with
    | some form =>
      refine followsParts_visit htree .plain (some root) (f.arena.size + 1) fun m hm => ?_
      cases hm
      exact Nat.lt_succ_of_lt (Arena.lt_size_of_form? hform)
    | none =>
      have hid : visitTo f (f.arena.size + 1) (some root) = id := funext fun l => by
        rw [visitTo, hform]
        rfl
      exact hid ▸ followsParts_noForm hform
  have haround : start.Around (ofFile f symbols nodes root fileSymbol).declared
      (fileSymbol.toList.map .container) := by
    refine ⟨?_, ?_⟩
    · cases fileSymbol with
      | none => exact .nil
      | some id => exact .cons ⟨rfl, hfile id rfl⟩ .nil
    · cases fileSymbol <;> rfl
  have hready :
    Ready f t (ofFile f symbols nodes root fileSymbol).declared (fileSymbol.toList.map .container)
      (partsOf [([.visit .plain (some root)], fileSymbol.toList.map .container)]) [] start
      (visitTo f (f.arena.size + 1) (some root) start) := {
    globals := hglobals
    closed := ⟨hsymbols, hknows, hnodes⟩
    around := haround
    fresh := fun _ _ => Std.TreeMap.getElem?_emptyc
    declares := fun _ _ => rfl
    grows := hextends }
  refine ⟨fun read inner hread => (hfollows _).resolves hready _ List.mem_cons_self hread,
    fun hne => ?_⟩
  obtain ⟨stage, hstage, hread⟩ :=
    (hfollows (fileSymbol.toList.map .container)).links start n fun heq =>
    hne (heq.trans Std.TreeMap.getElem?_emptyc)
  obtain rfl := List.mem_singleton.1 hstage
  exact hread

end DeclBundle
