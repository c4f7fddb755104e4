import DeclBundle.Proofs.LinkingSchemes
import DeclBundle.Proofs.NamePlaces

/-!
# Regions around names

A name is read in regions that lie inside each other: those of the type parameters and parameters of
signatures, classes, interfaces, type aliases and mapped types, those of conditional types, and
those of the modules, namespaces and files around it. `Reads` says which first identifiers of names
are read, what for, and with which regions around them; it goes down from a node along the schemes
of forms, and knows nothing of the state of linking. `visible?` looks a name up in regions, from the
inside.

The region of a conditional type is open in the type after `extends`: each `infer` there adds a name
to the innermost open region (`Region.introduce`). It is closed over the type for when it matches,
and ends before the other one.
-/

set_option autoImplicit false

namespace DeclBundle

/-- A region in which names are visible. -/
inductive Region where
  /-- Parameters with their names, the latest first. While the region is open, `infer` adds to
  it. -/
  | parameters (known : List (String × NodeId)) (isOpen : Bool)
  /-- What a file, a module or a namespace declares. -/
  | container (symbol : SymbolId)

namespace Region

/-- The regions after `infer` has introduced parameters in the innermost open one. -/
def introduce (added : List (String × NodeId)) : List Region → List Region
  | [] => []
  | .parameters known true :: outer => .parameters (added.reverse ++ known) true :: outer
  | region :: outer => region :: introduce added outer

@[simp] theorem introduce_nil (regions : List Region) : introduce [] regions = regions := by
  induction regions with
  | nil => rfl
  | cons region outer ih =>
    cases region with
    | container symbol => exact congrArg _ ih
    | parameters known isOpen =>
      cases isOpen with
      | false => exact congrArg _ ih
      | true => rfl

theorem introduce_append (first second : List (String × NodeId)) (regions : List Region) :
    introduce (first ++ second) regions = introduce second (introduce first regions) := by
  induction regions with
  | nil => rfl
  | cons region outer ih =>
    cases region with
    | container symbol => exact congrArg _ ih
    | parameters known isOpen =>
      cases isOpen with
      | false => exact congrArg _ ih
      | true => simp [introduce]

/-- For each open region the number of regions around it, the innermost first. -/
def openLevels : List Region → List Nat
  | [] => []
  | .parameters _ true :: outer => outer.length :: openLevels outer
  | _ :: outer => openLevels outer

theorem introduce_of_openLevels_nil {regions : List Region} (h : openLevels regions = [])
    (added : List (String × NodeId)) :
    introduce added regions = regions := by
  induction regions with
  | nil => rfl
  | cons region outer ih =>
    cases region with
    | container symbol => exact congrArg _ (ih h)
    | parameters known isOpen =>
      cases isOpen with
      | false => exact congrArg _ (ih h)
      | true => cases h

/-- The innermost open region is the one at the first level. -/
theorem exists_open {regions : List Region} {level : Nat} {levels : List Nat}
    (h : openLevels regions = level :: levels) :
    ∃ inner known outer, regions = inner ++ .parameters known true :: outer ∧ outer.length = level ∧
      ∀ added,
        introduce added regions = inner ++ .parameters (added.reverse ++ known) true :: outer := by
  induction regions with
  | nil => cases h
  | cons region outer ih =>
    have hskip : openLevels outer = level :: levels →
      (∀ added, introduce added (region :: outer) = region :: introduce added outer) →
        ∃ inner known outer', region :: outer = inner ++ .parameters known true :: outer' ∧
          outer'.length = level ∧
          ∀ added, introduce added (region :: outer) =
            inner ++ .parameters (added.reverse ++ known) true :: outer' := by
      intro hlevels hover
      obtain ⟨inner, known, outer', hregions, hlevel, hadd⟩ := ih hlevels
      exact ⟨region :: inner, known, outer', congrArg _ hregions, hlevel,
        fun added => by rw [hover, hadd]; rfl⟩
    cases region with
    | container symbol => exact hskip h fun _ => rfl
    | parameters known isOpen =>
      cases isOpen with
      | false => exact hskip h fun _ => rfl
      | true => exact ⟨[], known, outer, rfl, (List.cons.inj h).1, fun _ => rfl⟩

/-- The symbol of a name in a region. -/
def find? (t : SharedTables) (declared : Std.TreeMap NodeId SymbolId) (name : String) :
    Region → Option SymbolId
  | .parameters known _ => (known.find? (·.1 == name)).bind (declared[·.2]?)
  | .container symbol => (t.symbols.get? symbol).bind (·.locals.get? name)

end Region

/-- The symbol is of a kind that a name can refer to. -/
def SharedTables.accepts (t : SharedTables) (meaning : Meaning) (id : SymbolId) : Bool :=
  (t.symbols.get? id).any (·.isAny meaning.flags)

/-- The symbol to which a name refers: the one of the innermost region that has one of a kind that
fits, or else a global one. -/
def visible? (t : SharedTables) (declared : Std.TreeMap NodeId SymbolId) (regions : List Region)
    (name : String) (meaning : Meaning) : Option SymbolId :=
  match regions.findSome? fun region =>
    (region.find? t declared name).filter (t.accepts meaning) with
  | some id => some id
  | none => (t.globals.get? name).filter (t.accepts meaning)

/-! ## What `infer` introduces -/

namespace Arena

variable (a : Arena)

/-- The name of a parameter that is one identifier. -/
def named? (declaration : Slot) : Option (String × NodeId) :=
  match declaration, a.form? (a.nameSlot declaration) with
  | some node, some (.identifier text) => some (text, node)
  | _, _ => none

theorem eq_of_named? {declaration : Slot} {name : String} {node : NodeId}
    (h : a.named? declaration = some (name, node)) :
    declaration = some node := by
  unfold named? at h
  split at h
  · cases h
    rfl
  · cases h

end Arena

namespace Scheme

/-- The parts, apart from the type after the `extends` of a conditional type. -/
def openParts : Scheme → List LinkedPart
  | parts all => all
  | parameters before declared rest => before ++ (plainly (declared.map Prod.snd) ++ rest)
  | container body => plainly [body]
  | conditional check _ whenTrue whenFalse => plainly [check, whenTrue, whenFalse]
  | introduction parameter => plainly [parameter]

/-- What a scheme introduces itself. -/
def own (a : Arena) : Scheme → List (String × NodeId)
  | introduction parameter => (a.named? parameter).toList
  | _ => []

/-- All parts. -/
def allParts : Scheme → List LinkedPart
  | conditional check extended whenTrue whenFalse => plainly [check, extended, whenTrue, whenFalse]
  | scheme => scheme.openParts

end Scheme

namespace Arena

variable (a : Arena)

/-- What `infer` introduces in a part, down to `depth` levels, in source order. The type after an
`extends` keeps what it introduces to itself. -/
def introducedTo : (depth : Nat) → LinkedPart → List (String × NodeId)
  | 0, _ => []
  | _, .link _ _ => []
  | depth + 1, .visit manner child =>
    (a.form? child).elim [] fun form =>
      (form.scheme manner).own a ++ (form.scheme manner).openParts.flatMap (introducedTo depth)

/-- What `infer` introduces in parts, in source order. -/
def introduced (parts : List LinkedPart) : List (String × NodeId) :=
  parts.flatMap (a.introducedTo (a.size + 1))

/-- The first identifier of a name, and what it is used as. -/
def entity? (entity : Slot) (meaning : Meaning) : Option (NodeId × Meaning) :=
  match a.form? entity with
  | some (.identifier _) => entity.map (·, meaning)
  | some (.qualifiedName ..) | some (.propertyAccess ..) =>
    (a.leftmost entity).map (·, meaning.ofQualifier)
  | _ => none

end Arena

/-! ## Names that are read -/

/-- The parts of a scheme, in groups with the regions around each. -/
def Scheme.stages (a : Arena) (declared : Std.TreeMap NodeId SymbolId) (node : Slot)
    (regions : List Region) :
    Scheme → List (List LinkedPart × List Region)
  | .parts all => [(all, regions)]
  | .parameters before new rest =>
    let known := (new.filterMap fun parameter => a.named? parameter.2).reverse
    [(before, regions),
      (plainly (new.map Prod.snd) ++ rest,
        .parameters known false :: Region.introduce (a.introduced before) regions)]
  | .container body =>
    [(plainly [body], ((node.bind (declared[·]?)).map .container).toList ++ regions)]
  | .conditional check extended whenTrue whenFalse =>
    let checked := Region.introduce (a.introduced (plainly [check])) regions
    let matched := Region.parameters (a.introduced (plainly [extended])).reverse false
    [(plainly [check], regions), (plainly [extended], .parameters [] true :: checked),
      (plainly [whenTrue], matched :: checked),
      (plainly [whenFalse], Region.introduce (a.introduced (plainly [whenTrue])) checked)]
  | .introduction parameter =>
    [(plainly [parameter], Region.introduce (a.named? parameter).toList regions)]

/-- Among parts with the regions `outer` around them, a node is read as the first identifier of a
name that is used as `meaning`, with the regions `inner` around it. -/
inductive Reads (a : Arena) (declared : Std.TreeMap NodeId SymbolId) :
    List LinkedPart → (outer : List Region) → NodeId → Meaning → (inner : List Region) → Prop
  | link {entity : Slot} {meaning : Meaning} {rest : List LinkedPart} {outer : List Region}
    {n : NodeId} {read : Meaning} (h : a.entity? entity meaning = some (n, read)) :
    Reads a declared (.link entity meaning :: rest) outer n read outer
  | visit {manner : Manner} {node : Slot} {form : Form Slot} {rest : List LinkedPart}
    {outer : List Region} {stage : List LinkedPart × List Region} {n : NodeId} {read : Meaning}
    {inner : List Region} (hform : a.form? node = some form)
    (hstage : stage ∈ (form.scheme manner).stages a declared node outer)
    (h : Reads a declared stage.1 stage.2 n read inner) :
    Reads a declared (.visit manner node :: rest) outer n read inner
  | later {part : LinkedPart} {rest : List LinkedPart} {outer : List Region} {n : NodeId}
    {read : Meaning} {inner : List Region}
    (h : Reads a declared rest (Region.introduce (a.introduced [part]) outer) n read inner) :
    Reads a declared (part :: rest) outer n read inner

/-! ## Parts of a form -/

theorem Scheme.slots_plainly (nodes : List Slot) : (plainly nodes).map LinkedPart.slot = nodes := by
  simp [plainly, Function.comp_def, LinkedPart.slot]

theorem Form.count_plain_le (form : Form Slot) (n : NodeId) :
    (form.plainScheme.allParts.map LinkedPart.slot).count (some n) ≤
      form.children.count (some n) := by
  cases form
  case exportDeclaration typeOnly clause specifier =>
    cases specifier <;>
      simp [plainScheme, Scheme.allParts, Scheme.openParts, children, LinkedPart.slot,
        List.count_cons]
  case moduleDeclaration modifiers flavor name body =>
    cases flavor <;>
      simp [plainScheme, Scheme.allParts, Scheme.openParts, children, LinkedPart.slot,
        List.count_cons, Scheme.slots_plainly]
  all_goals
    simp [plainScheme, Scheme.allParts, Scheme.openParts, Scheme.ofSignature, Scheme.ofClass,
      Scheme.typeParameters, children, Signature.children, LinkedPart.slot, List.count_cons,
      Scheme.slots_plainly, List.count_append, Function.comp_def]
    try omega

/-- A node is a part of a form as often as it is a child, at most. -/
theorem Form.count_parts_le (form : Form Slot) (manner : Manner) (n : NodeId) :
    ((form.scheme manner).allParts.map LinkedPart.slot).count (some n) ≤
      form.children.count (some n) := by
  -- a manner other than `plain` looks at the nodes of one form alone
  cases manner with
  | plain => exact form.count_plain_le n
  | memberName =>
    cases form
    case computedName expression => exact Nat.le_refl _
    all_goals exact Nat.zero_le _
  | heritage isClass =>
    cases form
    case heritageClause word types =>
      simp only [scheme, Scheme.allParts, Scheme.openParts, List.map_map, Function.comp_def,
        LinkedPart.slot]
      rw [List.map_id']
      exact Nat.le_refl _
    all_goals exact Nat.zero_le _
  | base meaning =>
    cases form
    case heritageType expression typeArguments =>
      simp only [scheme, Scheme.allParts, Scheme.openParts, List.map_cons, LinkedPart.slot]
      rw [Scheme.slots_plainly]
      exact Nat.le_refl _
    all_goals exact Nat.zero_le _
  | exportClause =>
    cases form
    case namedExports elements =>
      simp only [scheme, Scheme.allParts, Scheme.openParts, List.map_map, Function.comp_def,
        LinkedPart.slot]
      rw [List.map_id']
      exact Nat.le_refl _
    all_goals exact Nat.zero_le _
  | exportedName =>
    cases form
    case exportSpecifier typeOnly propertyName name =>
      cases propertyName <;>
        simp [scheme, Scheme.allParts, Scheme.openParts, children, LinkedPart.slot, List.count_cons]
    all_goals exact Nat.zero_le _

namespace Scheme

theorem mem_allParts {scheme : Scheme} {part : LinkedPart} (h : part ∈ scheme.openParts) :
    part ∈ scheme.allParts := by
  cases scheme with
  | conditional check extended whenTrue whenFalse =>
    simp only [openParts, allParts, plainly, List.map_cons, List.map_nil, List.mem_cons] at h ⊢
    tauto
  | _ => exact h

/-- The parts stand among the children. -/
theorem mem_children {form : Form Slot} {manner : Manner} {part : LinkedPart}
    (h : part ∈ (form.scheme manner).allParts) {n : NodeId} (hn : part.slot = some n) :
    some n ∈ form.children := by
  have hmem : some n ∈ (form.scheme manner).allParts.map LinkedPart.slot :=
    hn ▸ List.mem_map_of_mem h
  exact List.count_pos_iff.1 ((List.count_pos_iff.2 hmem).trans_le (form.count_parts_le manner n))

end Scheme

namespace Arena

variable {a : Arena}

/-! ## Depth -/

/-- A walk that goes deep enough for a part finds all that `infer` introduces there. -/
theorem introducedTo_eq (h : a.IsOrdered) {depth depth' : Nat} (part : LinkedPart)
    (hdepth : ∀ n, part.slot = some n → n.index < depth)
    (hdepth' : ∀ n, part.slot = some n → n.index < depth') :
    a.introducedTo depth part = a.introducedTo depth' part := by
  induction depth generalizing depth' part with
  | zero =>
    cases part with
    | link entity meaning => cases depth' <;> rfl
    | visit manner child =>
      cases child with
      | some n => exact absurd (hdepth n rfl) (Nat.not_lt_zero _)
      | none => cases depth' <;> rfl
  | succ depth ih =>
    cases part with
    | link entity meaning => cases depth' <;> rfl
    | visit manner child =>
      cases child with
      | none => cases depth' <;> rfl
      | some n =>
        obtain ⟨depth', rfl⟩ :=
          Nat.exists_eq_succ_of_ne_zero (Nat.ne_of_gt (Nat.zero_lt_of_lt (hdepth' n rfl)))
        show (a.form? (some n)).elim [] _ = (a.form? (some n)).elim [] _
        cases hform : a.form? (some n) with
        | none => rfl
        | some form =>
          -- the children have smaller numbers, so both depths are still enough for them
          refine congrArg ((form.scheme manner).own a ++ ·)
            (List.flatMap_congr fun part hpart => ih part ?_ ?_)
          all_goals
            intro m hm
            have hlt := h n form m hform (Scheme.mem_children (Scheme.mem_allParts hpart) hm)
          · exact Nat.lt_of_lt_of_le hlt (Nat.le_of_lt_succ (hdepth n rfl))
          · exact Nat.lt_of_lt_of_le hlt (Nat.le_of_lt_succ (hdepth' n rfl))

/-- What `infer` introduces in a node is introduced by its form or in its parts. -/
theorem introduced_visit (h : a.IsOrdered) {manner : Manner} {node : Slot} {form : Form Slot}
    (hform : a.form? node = some form) :
    a.introduced [.visit manner node] =
      (form.scheme manner).own a ++ a.introduced (form.scheme manner).openParts := by
  cases node with
  | none => cases hform
  | some n =>
    have hn : n.index < a.size := lt_size_of_form? hform
    rw [introduced, List.flatMap_singleton, introducedTo, hform, Option.elim_some]
    refine congrArg ((form.scheme manner).own a ++ ·)
      (List.flatMap_congr fun part hpart => introducedTo_eq h part ?_ ?_)
    all_goals
      intro m hm
      have hlt := h n form m hform (Scheme.mem_children (Scheme.mem_allParts hpart) hm)
      omega

theorem introduced_append (parts rest : List LinkedPart) :
    a.introduced (parts ++ rest) = a.introduced parts ++ a.introduced rest :=
  List.flatMap_append

/-! ## Places in a tree -/

/-- The node is the one in the slot or stands below it. -/
inductive Within (a : Arena) : Slot → NodeId → Prop
  | here (n : NodeId) : Within a (some n) n
  | child {slot : Slot} {m n : NodeId} {form : Form Slot} (h : Within a slot m)
    (hform : a.form? (some m) = some form) (hn : some n ∈ form.children) : Within a slot n

/-- The node stands below the one in the slot. -/
def Beneath (a : Arena) (slot : Slot) (n : NodeId) : Prop :=
  ∃ m form, a.Within slot m ∧ a.form? (some m) = some form ∧ some n ∈ form.children

theorem Beneath.within {slot : Slot} {n : NodeId} (h : a.Beneath slot n) : a.Within slot n :=
  let ⟨_, _, hm, hform, hn⟩ := h
  .child hm hform hn

theorem not_within_none {n : NodeId} : ¬ a.Within none n := by
  intro h
  generalize hslot : (none : Slot) = slot at h
  induction h with
  | here => cases hslot
  | child _ _ _ ih => exact ih hslot

/-- What stands below a child stands below its node. -/
theorem Within.beneath {slot : Slot} {form : Form Slot} (hform : a.form? slot = some form)
    {c n : NodeId} (hc : some c ∈ form.children) (hn : a.Within (some c) n) : a.Beneath slot n := by
  cases slot with
  | none => cases hform
  | some m =>
    generalize hslot : (some c : Slot) = slot at hn
    induction hn with
    | here =>
      cases hslot
      exact ⟨m, form, .here m, hform, hc⟩
    | child _ hform' hn' ih => exact ⟨_, _, (ih hslot).within, hform', hn'⟩

theorem Within.index_le (h : a.IsOrdered) {c n : NodeId} (hn : a.Within (some c) n) :
    n.index ≤ c.index := by
  generalize hslot : (some c : Slot) = slot at hn
  induction hn with
  | here =>
    cases hslot
    exact Nat.le_refl _
  | child _ hform hn ih => exact Nat.le_of_lt (Nat.lt_of_lt_of_le (h _ _ _ hform hn) (ih hslot))

theorem Beneath.index_lt (h : a.IsOrdered) {c n : NodeId} (hn : a.Beneath (some c) n) :
    n.index < c.index :=
  let ⟨_, _, hm, hform, hn⟩ := hn
  Nat.lt_of_lt_of_le (h _ _ _ hform hn) (hm.index_le h)

namespace IsTree

variable (h : a.IsTree) {parent : Slot} {form : Form Slot} (hform : a.form? parent = some form)

include h hform

/-- A node does not stand below its own child, so neither do the other children. -/
theorem not_beneath_child {c n : NodeId} (hc : some c ∈ form.children)
    (hn : some n ∈ form.children) :
    ¬ a.Beneath (some c) n := by
  rintro ⟨m, form', hm, hform', hn'⟩
  obtain rfl := h.parent_unique hform hn hform' hn'
  exact absurd (hm.index_le h.isOrdered) (Nat.not_le.2 (h.isOrdered m form c hform hc))

/-- Nothing stands below two children of a node. -/
theorem apart {c c' n : NodeId} (hc : some c ∈ form.children) (hc' : some c' ∈ form.children)
    (hne : c ≠ c') (hn : a.Within (some c) n) : ¬ a.Within (some c') n := by
  generalize hslot : (some c : Slot) = slot at hn
  induction hn with
  | here =>
    cases hslot
    intro hn'
    cases hn' with
    | here => exact hne rfl
    | child hm hform' hn' => exact h.not_beneath_child hform hc' hc ⟨_, _, hm, hform', hn'⟩
  | child hm hform' hn ih =>
    subst hslot
    intro hn'
    cases hn' with
    | here => exact h.not_beneath_child hform hc hc' ⟨_, _, hm, hform', hn⟩
    | child hm' hform'' hn'' =>
      cases h.parent_unique hform' hn hform'' hn''
      exact ih rfl hm'

end IsTree

/-- The node stands below one of the parts, or is one. -/
def WithinAny (a : Arena) (parts : List LinkedPart) (n : NodeId) : Prop :=
  ∃ part ∈ parts, a.Within part.slot n

/-- The node stands below one of the parts. -/
def BeneathAny (a : Arena) (parts : List LinkedPart) (n : NodeId) : Prop :=
  ∃ part ∈ parts, a.Beneath part.slot n

theorem not_withinAny_nil {n : NodeId} : ¬ a.WithinAny [] n := fun ⟨_, hpart, _⟩ => by cases hpart

theorem not_beneathAny_nil {n : NodeId} : ¬ a.BeneathAny [] n := fun ⟨_, hpart, _⟩ => by cases hpart

/-- The parts are different children of one node. -/
def AreSiblings (a : Arena) (parts : List LinkedPart) : Prop :=
  ∃ parent form, a.form? parent = some form ∧
    ∀ n : NodeId, (parts.map LinkedPart.slot).count (some n) ≤ form.children.count (some n)

theorem areSiblings_allParts {node : Slot} {form : Form Slot} (hform : a.form? node = some form)
    (manner : Manner) :
    a.AreSiblings (form.scheme manner).allParts :=
  ⟨node, form, hform, form.count_parts_le manner⟩

theorem AreSiblings.sublist {parts parts' : List LinkedPart} (h : a.AreSiblings parts)
    (hsub : parts'.Sublist parts) :
    a.AreSiblings parts' := by
  obtain ⟨parent, form, hform, hcount⟩ := h
  exact ⟨parent, form, hform, fun n => ((hsub.map LinkedPart.slot).count_le _).trans (hcount n)⟩

/-- Nothing stands below two of them. -/
theorem IsTree.apart_parts (h : a.IsTree) {parts rest : List LinkedPart}
    (hparts : a.AreSiblings (parts ++ rest)) {n : NodeId} (hn : a.WithinAny parts n) :
    ¬ a.WithinAny rest n := by
  rintro ⟨part', hpart', hn'⟩
  obtain ⟨part, hpart, hn⟩ := hn
  obtain ⟨parent, form, hform, hcount⟩ := hparts
  have hslot : ∀ {slot : Slot}, a.Within slot n → ∃ c, slot = some c := by
    intro slot hslot
    cases slot with
    | none => exact absurd hslot not_within_none
    | some c => exact ⟨c, rfl⟩
  obtain ⟨c, hc⟩ := hslot hn
  obtain ⟨c', hc'⟩ := hslot hn'
  have hmem : some c ∈ parts.map LinkedPart.slot := hc ▸ List.mem_map_of_mem hpart
  have hmem' : some c' ∈ rest.map LinkedPart.slot := hc' ▸ List.mem_map_of_mem hpart'
  have hcountc := hcount c
  have hcountc' := hcount c'
  rw [List.map_append, List.count_append] at hcountc hcountc'
  have hpos := List.count_pos_iff.2 hmem
  have hpos' := List.count_pos_iff.2 hmem'
  have hchild : some c ∈ form.children := List.count_pos_iff.1 (by omega)
  have hchild' : some c' ∈ form.children := List.count_pos_iff.1 (by omega)
  rw [hc] at hn
  rw [hc'] at hn'
  -- the same child in both lists would count twice, and two children have nothing in common
  by_cases heq : c = c'
  · subst heq
    have hone := h.count_children_le_one hform (n := c)
    omega
  · exact h.apart hform hchild hchild' heq hn hn'

end Arena

/-! ## What is read where -/

/-- The first identifier of a name stands in it. -/
theorem Arena.within_of_leftmostTo {a : Arena} {depth : Nat} {slot : Slot} {n : NodeId}
    (h : Arena.leftmostTo depth a slot = some n) : a.Within slot n := by
  induction depth generalizing slot with
  | zero => cases h
  | succ depth ih =>
    have hleft : ∀ {left : Slot} {form : Form Slot}, a.form? slot = some form →
      left ∈ form.children →
        Arena.leftmostTo depth a left = some n → a.Within slot n := by
      intro left form hform hmem hfound
      cases left with
      | none => exact absurd (ih hfound) not_within_none
      | some c => exact ((ih hfound).beneath hform hmem).within
    unfold Arena.leftmostTo at h
    split at h
    · next left right hform => exact hleft hform List.mem_cons_self h
    · next left right hform => exact hleft hform List.mem_cons_self h
    · subst h
      exact .here n
    · cases h

theorem Arena.within_of_entity? {a : Arena} {entity : Slot} {meaning read : Meaning} {n : NodeId}
    (h : a.entity? entity meaning = some (n, read)) : a.Within entity n := by
  unfold Arena.entity? at h
  split at h
  · obtain ⟨node, rfl, heq⟩ := Option.map_eq_some_iff.1 h
    exact (Prod.mk.inj heq).1 ▸ .here node
  all_goals
    first
    | obtain ⟨node, hnode, heq⟩ := Option.map_eq_some_iff.1 h
      exact (Prod.mk.inj heq).1 ▸ Arena.within_of_leftmostTo hnode
    | cases h

/-- The groups of a scheme have only parts of it. -/
theorem Scheme.mem_allParts_of_stages {a : Arena} {declared : Std.TreeMap NodeId SymbolId}
    {scheme : Scheme} {node : Slot} {regions : List Region} {stage : List LinkedPart × List Region}
    (h : stage ∈ scheme.stages a declared node regions) {part : LinkedPart}
    (hpart : part ∈ stage.1) : part ∈ scheme.allParts := by
  cases scheme <;>
    simp only [stages, List.mem_cons, List.not_mem_nil, or_false] at h <;>
    simp only [allParts, openParts, plainly, List.map_cons, List.map_nil, List.mem_append,
      List.mem_cons]
  case conditional => rcases h with rfl | rfl | rfl | rfl <;> simp_all [plainly]
  case parameters => rcases h with rfl | rfl <;> simp_all [plainly]
  all_goals
    subst h
    simpa [plainly] using hpart

namespace Reads

variable {a : Arena} {declared : Std.TreeMap NodeId SymbolId} {parts rest : List LinkedPart}
  {outer inner : List Region} {n : NodeId} {read : Meaning}

/-- What is read among parts stands in one of them. -/
theorem within (h : Reads a declared parts outer n read inner) : a.WithinAny parts n := by
  induction h with
  | link h => exact ⟨_, List.mem_cons_self, Arena.within_of_entity? h⟩
  | @visit manner node form rest outer stage n read inner hform hstage _ ih =>
    obtain ⟨part, hpart, hn⟩ := ih
    refine ⟨_, List.mem_cons_self, ?_⟩
    cases hslot : part.slot with
    | none => exact absurd (hslot ▸ hn) Arena.not_within_none
    | some c =>
      rw [hslot] at hn
      exact (hn.beneath hform
        (Scheme.mem_children (Scheme.mem_allParts_of_stages hstage hpart) hslot)).within
  | later _ ih =>
    obtain ⟨part, hpart, hn⟩ := ih
    exact ⟨part, List.mem_cons_of_mem _ hpart, hn⟩

theorem append_left (h : Reads a declared parts outer n read inner) :
    Reads a declared (parts ++ rest) outer n read inner := by
  induction h with
  | link h => exact .link h
  | visit hform hstage h _ => exact .visit hform hstage h
  | later _ ih => exact .later ih

theorem append_right
    (h : Reads a declared rest (Region.introduce (a.introduced parts) outer) n read inner) :
    Reads a declared (parts ++ rest) outer n read inner := by
  induction parts generalizing outer with
  | nil =>
    rw [show a.introduced [] = [] from rfl, Region.introduce_nil] at h
    exact h
  | cons part parts ih =>
    refine .later (ih ?_)
    rw [← Region.introduce_append, ← Arena.introduced_append]
    exact h

/-- What is read in a node is read in one of the groups of its scheme. -/
theorem exists_stage {manner : Manner} {node : Slot} {form : Form Slot}
    (hform : a.form? node = some form)
    (h : Reads a declared [.visit manner node] outer n read inner) :
    ∃ stage ∈ (form.scheme manner).stages a declared node outer,
      Reads a declared stage.1 stage.2 n read inner := by
  cases h with
  | visit hform' hstage h =>
    obtain rfl := Option.some.inj (hform.symm.trans hform')
    exact ⟨_, hstage, h⟩
  | later h => cases h

theorem append_cases (h : Reads a declared (parts ++ rest) outer n read inner) :
    Reads a declared parts outer n read inner ∨
      Reads a declared rest (Region.introduce (a.introduced parts) outer) n read inner := by
  induction parts generalizing outer with
  | nil =>
    rw [show a.introduced [] = [] from rfl, Region.introduce_nil]
    exact .inr h
  | cons part parts ih =>
    cases h with
    | link h => exact .inl (.link h)
    | visit hform hstage h => exact .inl (.visit hform hstage h)
    | later h =>
      refine (ih h).imp .later fun h => ?_
      rw [show part :: parts = [part] ++ parts from rfl, Arena.introduced_append,
        Region.introduce_append]
      exact h

end Reads

/-! ## Finding what is read -/

section Finding

variable (a : Arena) (declared : Std.TreeMap NodeId SymbolId)

/-- What is read in parts, where `find` finds it in one. -/
def readsInParts (find : LinkedPart → List Region → List (NodeId × Meaning × List Region)) :
    List LinkedPart → List Region → List (NodeId × Meaning × List Region)
  | [], _ => []
  | part :: rest, outer =>
    find part outer ++ readsInParts find rest (Region.introduce (a.introduced [part]) outer)

/-- What is read in a part, down to `depth` levels. -/
def readsTo : (depth : Nat) → LinkedPart → List Region → List (NodeId × Meaning × List Region)
  | 0, _, _ => []
  | _ + 1, .link entity meaning, outer => (a.entity? entity meaning).toList.map fun read =>
    (read.1, read.2, outer)
  | depth + 1, .visit manner node, outer =>
    (a.form? node).elim [] fun form =>
      ((form.scheme manner).stages a declared node outer).flatMap fun stage =>
        readsInParts a (readsTo depth) stage.1 stage.2

/-- What is read in a file with a root and a symbol. -/
def readsFrom (root : NodeId) (symbol : Option SymbolId) : List (NodeId × Meaning × List Region) :=
  readsTo a declared (a.size + 1) (.visit .plain (some root)) (symbol.toList.map .container)

variable {a declared}

theorem Reads.of_mem_readsInParts {find : LinkedPart → List Region →
    List (NodeId × Meaning × List Region)}
    (hfind : ∀ part outer x, x ∈ find part outer → Reads a declared [part] outer x.1 x.2.1 x.2.2)
    {parts : List LinkedPart} {outer : List Region} {x : NodeId × Meaning × List Region}
    (hx : x ∈ readsInParts a find parts outer) :
    Reads a declared parts outer x.1 x.2.1 x.2.2 := by
  induction parts generalizing outer with
  | nil => cases hx
  | cons part rest ih =>
    rcases List.mem_append.1 hx with hx | hx
    · exact (hfind part outer x hx).append_left
    · exact .later (ih hx)

/-- Whatever is found is read. -/
theorem Reads.of_mem_readsTo {depth : Nat} {part : LinkedPart} {outer : List Region}
    {x : NodeId × Meaning × List Region} (hx : x ∈ readsTo a declared depth part outer) :
    Reads a declared [part] outer x.1 x.2.1 x.2.2 := by
  induction depth generalizing part outer x with
  | zero => cases hx
  | succ depth ih =>
    cases part with
    | link entity meaning =>
      obtain ⟨read, hread, rfl⟩ := List.mem_map.1 hx
      exact .link (Option.mem_toList.1 hread)
    | visit manner node =>
      unfold readsTo at hx
      cases hform : a.form? node with
      | none =>
        rw [hform] at hx
        cases hx
      | some form =>
        rw [hform] at hx
        obtain ⟨stage, hstage, hx⟩ := List.mem_flatMap.1 hx
        exact .visit hform hstage (.of_mem_readsInParts (fun part outer x hx => ih hx) hx)

/-- All that is read is found deep enough. -/
theorem Reads.mem_readsInParts (h : a.IsOrdered) {parts : List LinkedPart}
    {outer inner : List Region} {n : NodeId} {read : Meaning}
    (hread : Reads a declared parts outer n read inner) {depth : Nat}
    (hdepth : ∀ part ∈ parts, ∀ m, part.slot = some m → m.index < depth) :
    (n, read, inner) ∈ readsInParts a (readsTo a declared depth) parts outer := by
  induction hread generalizing depth with
  | @link entity meaning rest outer n read hentity =>
    refine List.mem_append_left _ ?_
    cases depth with
    | zero =>
      cases entity with
      | none => exact absurd (Arena.within_of_entity? hentity) Arena.not_within_none
      | some m => exact absurd (hdepth _ List.mem_cons_self m rfl) (Nat.not_lt_zero _)
    | succ depth =>
      rw [readsTo, hentity]
      exact List.mem_cons_self
  | @visit manner node form rest outer stage n read inner hform hstage _ ih =>
    refine List.mem_append_left _ ?_
    cases node with
    | none => cases hform
    | some m =>
      have hm := hdepth _ List.mem_cons_self m rfl
      obtain ⟨depth, rfl⟩ := Nat.exists_eq_succ_of_ne_zero (Nat.ne_of_gt (Nat.zero_lt_of_lt hm))
      rw [readsTo, hform]
      refine List.mem_flatMap.2 ⟨stage, hstage, ih fun part hpart c hc => ?_⟩
      have hlt :=
        h m form c hform (Scheme.mem_children (Scheme.mem_allParts_of_stages hstage hpart) hc)
      exact Nat.lt_of_lt_of_le hlt (Nat.le_of_lt_succ hm)
  | later _ ih =>
    exact List.mem_append_right _ (ih fun part hpart => hdepth part (List.mem_cons_of_mem _ hpart))

/-- What is read in a file can be computed. -/
theorem mem_readsFrom_iff (h : a.IsOrdered) {root : NodeId} {symbol : Option SymbolId} {n : NodeId}
    {read : Meaning} {inner : List Region} : (n, read, inner) ∈ readsFrom a declared root symbol ↔
      Reads a declared [.visit .plain (some root)] (symbol.toList.map .container) n read inner := by
  refine ⟨fun hx => Reads.of_mem_readsTo hx, fun hread => ?_⟩
  cases hform : a.form? (some root) with
  | none =>
    cases hread with
    | visit hform' => cases hform.symm.trans hform'
    | later hread => cases hread
  | some form =>
    have hmem : (n, read, inner) ∈ readsInParts a (readsTo a declared (a.size + 1))
      [.visit .plain (some root)]
        (symbol.toList.map .container) := hread.mem_readsInParts h fun part hpart m hm => by
      obtain rfl := List.mem_singleton.1 hpart
      cases hm
      exact Nat.lt_succ_of_lt (Arena.lt_size_of_form? hform)
    rwa [readsInParts, readsInParts, List.append_nil] at hmem

end Finding

end DeclBundle
