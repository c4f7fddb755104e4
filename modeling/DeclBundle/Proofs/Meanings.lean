import DeclBundle.Bundle.Collection

/-!
# What names mean

A dotted name leads from the symbol of its first identifier over members to what it stands for
(`Project.meaning?`), and likewise an import type leads on from a module. A reference is recorded at
the part of a name that leads to a target; taken by itself, that part means the same target
(`Project.meaning?_prefix`). What is recorded at a node is therefore determined by the node
(`Reference.IsNoted.unique`).
-/

set_option autoImplicit false

namespace DeclBundle

/-! ## Dotted names -/

/-- The slot is an identifier or a dotted name. -/
def isDottedName (a : Arena) (slot : Slot) : Bool :=
  match a.form? slot with
  | some (.identifier _) | some (.qualifiedName ..) | some (.propertyAccess ..) => true
  | _ => false

section DottedNames

variable {a : Arena} {depth : Nat} {slot : Slot}

/-- More depth does not change the first identifier. -/
theorem Arena.leftmostTo_succ {id : NodeId} (h : Arena.leftmostTo depth a slot = some id) :
    Arena.leftmostTo (depth + 1) a slot = some id := by
  induction depth generalizing slot with
  | zero => cases h
  | succ depth ih =>
    unfold Arena.leftmostTo at h ⊢
    split at h
    · exact ih h
    · exact ih h
    · exact h
    · cases h

/-- The first identifier of a name is an identifier. -/
theorem exists_identifier_of_leftmostTo {id : NodeId}
    (h : Arena.leftmostTo depth a slot = some id) :
    ∃ text, a.form? (some id) = some (.identifier text) := by
  induction depth generalizing slot with
  | zero => cases h
  | succ depth ih =>
    unfold Arena.leftmostTo at h
    split at h
    · exact ih h
    · exact ih h
    · next text heq =>
      subst h
      exact ⟨text, heq⟩
    · cases h

/-- A name without prefixes has no first identifier. -/
theorem leftmostTo_of_entityPrefixesTo_none (h : entityPrefixesTo a depth slot = none) :
    Arena.leftmostTo depth a slot = none := by
  induction depth generalizing slot with
  | zero => rfl
  | succ depth ih =>
    unfold entityPrefixesTo at h
    split at h
    · cases h
    · next left right heq =>
      simpa [Arena.leftmostTo, heq] using ih (Option.map_eq_none_iff.1 h)
    · next left right heq =>
      simpa [Arena.leftmostTo, heq] using ih (Option.map_eq_none_iff.1 h)
    · unfold Arena.leftmostTo
      split <;> simp_all

/-- The prefixes of a name are as many as its parts, and all of them start with its first
identifier. -/
theorem exists_leftmostTo_of_entityPrefixesTo {prefixes : List Slot}
    (h : entityPrefixesTo a depth slot = some prefixes) :
    ∃ id, Arena.leftmostTo depth a slot = some id ∧
      (∀ n ∈ prefixes, Arena.leftmostTo depth a n = some id) ∧
      prefixes.length = (Project.reversedPartsTo a depth slot).length ∧
        (Project.reversedPartsTo a depth slot).getLast? = some (some id) := by
  induction depth generalizing slot prefixes with
  | zero => cases h
  | succ depth ih =>
    -- the two kinds of dotted names differ in nothing here
    have hdotted : ∀ left right : Slot, (entityPrefixesTo a depth left).map (slot :: ·) =
      some prefixes →
        Arena.leftmostTo (depth + 1) a slot = Arena.leftmostTo depth a left →
        Project.reversedPartsTo a (depth + 1) slot = right :: Project.reversedPartsTo a depth left →
        ∃ id, Arena.leftmostTo (depth + 1) a slot = some id ∧
          (∀ n ∈ prefixes, Arena.leftmostTo (depth + 1) a n = some id) ∧
          prefixes.length = (Project.reversedPartsTo a (depth + 1) slot).length ∧
            (Project.reversedPartsTo a (depth + 1) slot).getLast? = some (some id) := by
      intro left right hmap hleftmost hparts
      obtain ⟨inner, hinner, rfl⟩ := Option.map_eq_some_iff.1 hmap
      obtain ⟨id, hid, hall, hlength, hlast⟩ := ih hinner
      refine ⟨id, hleftmost.trans hid, ?_, ?_, ?_⟩
      · intro n hn
        rcases List.mem_cons.1 hn with rfl | hn
        · exact hleftmost.trans hid
        · exact Arena.leftmostTo_succ (hall n hn)
      · rw [hparts, List.length_cons, List.length_cons, hlength]
      · rw [hparts, List.getLast?_cons, hlast]
        rfl
    unfold entityPrefixesTo at h
    split at h
    · next text heq =>
      obtain rfl := Option.some.inj h
      cases slot with
      | none => cases heq
      | some id =>
        have hself : Arena.leftmostTo (depth + 1) a (some id) = some id := by
          simp [Arena.leftmostTo, heq]
        exact ⟨id, hself, by simpa using hself, by simp [Project.reversedPartsTo, heq],
          by simp [Project.reversedPartsTo, heq]⟩
    · next left right heq =>
      exact hdotted left right h (by simp [Arena.leftmostTo, heq]) (by
        simp [Project.reversedPartsTo, heq])
    · next left right heq =>
      exact hdotted left right h (by simp [Arena.leftmostTo, heq]) (by
        simp [Project.reversedPartsTo, heq])
    · cases h

/-- More depth does not change the prefixes of a name, nor its parts. -/
theorem entityPrefixesTo_succ {prefixes : List Slot}
    (h : entityPrefixesTo a depth slot = some prefixes) :
    entityPrefixesTo a (depth + 1) slot = some prefixes ∧
      Project.reversedPartsTo a (depth + 1) slot = Project.reversedPartsTo a depth slot := by
  induction depth generalizing slot prefixes with
  | zero => cases h
  | succ depth ih =>
    unfold entityPrefixesTo at h
    split at h
    · next text hform =>
      rw [entityPrefixesTo, Project.reversedPartsTo, Project.reversedPartsTo, hform]
      exact ⟨h, rfl⟩
    · next left right hform =>
      obtain ⟨inner, hinner, rfl⟩ := Option.map_eq_some_iff.1 h
      rw [entityPrefixesTo, Project.reversedPartsTo, Project.reversedPartsTo, hform]
      exact ⟨congrArg (Option.map _) (ih hinner).1, congrArg (right :: ·) (ih hinner).2⟩
    · next left right hform =>
      obtain ⟨inner, hinner, rfl⟩ := Option.map_eq_some_iff.1 h
      rw [entityPrefixesTo, Project.reversedPartsTo, Project.reversedPartsTo, hform]
      exact ⟨congrArg (Option.map _) (ih hinner).1, congrArg (right :: ·) (ih hinner).2⟩
    · cases h

/-- Each prefix of a name is a name, which has the parts of the name from some part on back to the
first one. -/
theorem reversedPartsTo_prefix {prefixes : List Slot}
    (h : entityPrefixesTo a depth slot = some prefixes) {i : Nat} {n : Slot}
    (hn : prefixes[i]? = some n) :
    entityPrefixesTo a depth n = some (prefixes.drop i) ∧ isDottedName a n = true ∧
      Project.reversedPartsTo a depth n = (Project.reversedPartsTo a depth slot).drop i := by
  induction depth generalizing slot prefixes i with
  | zero => cases h
  | succ depth ih =>
    have hwhole := h
    -- both dotted forms put the last part in front of what the left side has
    have hdotted : ∀ left right : Slot, isDottedName a slot = true →
        (entityPrefixesTo a depth left).map (slot :: ·) = some prefixes →
        Project.reversedPartsTo a (depth + 1) slot = right :: Project.reversedPartsTo a depth left →
        entityPrefixesTo a (depth + 1) n = some (prefixes.drop i) ∧ isDottedName a n = true ∧
          Project.reversedPartsTo a (depth + 1) n =
            (Project.reversedPartsTo a (depth + 1) slot).drop i := by
      intro left right hname hmap hparts
      obtain ⟨inner, hinner, rfl⟩ := Option.map_eq_some_iff.1 hmap
      cases i with
      | zero =>
        obtain rfl := Option.some.inj hn
        exact ⟨hwhole, hname, rfl⟩
      | succ i =>
        obtain ⟨hprefixes, hname', hrest⟩ := ih hinner hn
        have hsucc := entityPrefixesTo_succ hprefixes
        exact ⟨hsucc.1, hname', by rw [hsucc.2, hrest, hparts, List.drop_succ_cons]⟩
    unfold entityPrefixesTo at h
    split at h
    · next text heq =>
      obtain rfl := Option.some.inj h
      cases i with
      | zero =>
        obtain rfl := Option.some.inj hn
        exact ⟨hwhole, by simp [isDottedName, heq], rfl⟩
      | succ i => cases hn
    · next left right heq =>
      exact hdotted left right (by simp [isDottedName, heq]) h (by
        simp [Project.reversedPartsTo, heq])
    · next left right heq =>
      exact hdotted left right (by simp [isDottedName, heq]) h (by
        simp [Project.reversedPartsTo, heq])
    · cases h

end DottedNames

/-! ## What names stand for -/

/-- The symbol that stands for a target in the tables of a bundle. -/
def Target.key? : Target → Option SymbolId
  | declaration id | module_ id _ => some id
  | external i => some i.symbol
  | ambient => none

namespace Project

variable (p : Project)

/-- The first identifier of a name; an import type has none. -/
def firstOf (name : NodeRef) : Slot := ((p.arena? name.file).map (·.leftmost name.node)).getD none

/-- The text of the first identifier of a name. -/
def firstText? (name : NodeRef) : Option String :=
  (p.arena? name.file).bind (·.nameText? (p.firstOf name))

/-- The symbol to which the first identifier of a name refers. -/
def firstSymbol? (name : NodeRef) : Option SymbolId := do
  (← p.file? name.file).resolved[← p.firstOf name]?

/-- The symbol from which a name leads on, and its parts: that of the first identifier, or the
module of an import type. -/
def start? (name : NodeRef) : Option (SymbolId × List String) := do
  let a ← p.arena? name.file
  let texts (entity : Slot) : List String := (entityParts a entity).map fun part =>
    (a.nameText? part).getD ""
  match a.form? name.node with
  | some (.importType _ argument qualifier _) => do
    let specifier ← a.nameText? argument
    return (← p.moduleOf? name.file specifier, specifier :: texts qualifier)
  | _ => return (← p.firstSymbol? name, texts name.node)

/-- What the names after a first symbol lead to. -/
def meaningFrom? (first : SymbolId) (names : List String) : Option Target :=
  let chain := Collecting.memberChain p first (names.drop 1)
  let (index, hint) := Collecting.meantSymbol p chain names
  chain[index]?.bind fun named => p.targetWith? named hint

/-- What a name stands for. -/
def meaning? (name : NodeRef) : Option Target := do
  let (first, names) ← p.start? name
  p.meaningFrom? first names

end Project

namespace Project

variable {p : Project}

/-- A dotted name leads on from the symbol of its first identifier. -/
theorem start?_of_isDottedName {name : NodeRef} {a : Arena} (harena : p.arena? name.file = some a)
    (hdotted : isDottedName a name.node = true) :
    p.start? name = (p.firstSymbol? name).map fun first =>
      (first, (Project.entityParts a name.node).map fun part => (a.nameText? part).getD "") := by
  unfold isDottedName at hdotted
  unfold Project.start?
  rw [harena]
  cases p.firstSymbol? name <;> split at hdotted <;> simp_all

/-- What a reference leads to is found in the tree of its file. -/
theorem form?_eq (ref : NodeRef) {a : Arena} (harena : p.arena? ref.file = some a) :
    p.form? ref = a.form? ref.node := by
  simp [Project.form?, Project.node?, harena, Arena.form?]

/-- An import type has no first name. -/
theorem firstOf_of_importType {name : NodeRef} {a : Arena} {isTypeof : Bool}
    {argument qualifier : Slot} {typeArguments : List Slot} (harena : p.arena? name.file = some a)
    (hform : a.form? name.node = some (.importType isTypeof argument qualifier typeArguments)) :
    p.firstOf name = none := by
  simp [Project.firstOf, harena, Arena.leftmost, Arena.leftmostTo, hform]

theorem start?_of_importType {name : NodeRef} {a : Arena} {isTypeof : Bool}
    {argument qualifier : Slot} {typeArguments : List Slot} (harena : p.arena? name.file = some a)
    (hform : a.form? name.node = some (.importType isTypeof argument qualifier typeArguments)) :
    p.start? name = (a.nameText? argument).bind fun specifier =>
      (p.moduleOf? name.file specifier).map fun module =>
      (module, specifier :: (Project.entityParts a qualifier).map fun part =>
        (a.nameText? part).getD "") := by
  unfold Project.start?
  rw [harena]
  cases hargument : a.nameText? argument with
  | none => simp [hform, hargument]
  | some specifier => cases hmodule : p.moduleOf? name.file specifier <;>
    simp [hform, hargument, hmodule]

end Project

/-! ## Chains of members -/

namespace Collecting

variable {p : Project}

theorem length_memberChain_le (first : SymbolId) (names : List String) :
    (memberChain p first names).length ≤ names.length + 1 := by
  induction names generalizing first with
  | nil => simp [memberChain]
  | cons name rest ih =>
    unfold memberChain
    split
    · simpa using ih _
    · simp

theorem memberChain_take (first : SymbolId) (names : List String) (count : Nat) :
    memberChain p first (names.take count) = (memberChain p first names).take (count + 1) := by
  induction names generalizing first count with
  | nil => simp [memberChain]
  | cons name rest ih =>
    cases count with
    | zero =>
      rw [List.take_zero, memberChain, memberChain]
      cases p.member? first name <;> rfl
    | succ count =>
      rw [List.take_succ_cons, memberChain, memberChain]
      cases p.member? first name with
      | none => rfl
      | some member =>
        rw [List.take_succ_cons]
        exact congrArg _ (ih member count)

/-- The last symbol of a chain that stands for a module, with its position. -/
def lastModule? (p : Project) (chain : List SymbolId) : Option (SymbolId × Nat) :=
  (chain.zipIdx.filter fun (id, _) => standsForModule p id).getLast?

/-- The last module of a chain stays the last one when the chain is cut behind it. -/
theorem lastModule?_take {chain : List SymbolId} {module : SymbolId} {i count : Nat}
    (h : lastModule? p chain = some (module, i)) (hi : i < count) :
    lastModule? p (chain.take count) = some (module, i) := by
  have hsplit : chain.zipIdx =
      (chain.take count).zipIdx ++ (chain.drop count).zipIdx (chain.take count).length := by
    have happend : (chain.take count ++ chain.drop count).zipIdx =
        (chain.take count).zipIdx ++ (chain.drop count).zipIdx (0 + (chain.take count).length) :=
          List.zipIdx_append
    rwa [List.take_append_drop, Nat.zero_add] at happend
  unfold lastModule? at h ⊢
  rw [hsplit, List.filter_append, List.getLast?_append] at h
  cases hrest : (((chain.drop count).zipIdx (chain.take count).length).filter fun (id, _) =>
      standsForModule p id).getLast? with
  | none => rwa [hrest, Option.none_or] at h
  | some last =>
    -- the last module would stand behind the cut
    rw [hrest, Option.some_or] at h
    obtain rfl := Option.some.inj h
    have hmem := (List.mem_filter.1 (List.mem_of_getLast? hrest)).1
    have hle := List.le_snd_of_mem_zipIdx hmem
    have hlt := List.snd_lt_of_mem_zipIdx hmem
    simp only [List.length_take, List.length_drop] at hle hlt
    omega

theorem lastModule?_take_of_none {chain : List SymbolId} (h : lastModule? p chain = none)
    (count : Nat) :
    lastModule? p (chain.take count) = none := by
  unfold lastModule? at h ⊢
  rw [List.getLast?_eq_none_iff, List.filter_eq_nil_iff] at h ⊢
  intro entry hentry
  refine h entry ?_
  rw [List.mem_zipIdx_iff_getElem?, List.getElem?_take] at hentry
  rw [List.mem_zipIdx_iff_getElem?]
  split at hentry
  · exact hentry
  · cases hentry

theorem meantSymbol_of_none {chain : List SymbolId} (h : lastModule? p chain = none)
    (names : List String) :
    meantSymbol p chain names = (0, none) := by
  unfold lastModule? at h
  simp only [meantSymbol, h]

theorem meantSymbol_of_last {chain : List SymbolId} {module : SymbolId} {index : Nat}
    (h : lastModule? p chain = some (module, index)) (names : List String) :
    meantSymbol p chain names =
      if index + 1 = chain.length then (index, none)
      else
        match p.target? module with
        | some (.module_ ..) => (index + 1, none)
        | some (.external i) =>
          if i.isNamespace then (index + 1, some ⟨i.specifier, names[index + 1]?⟩)
            else (index, none)
        | _ => (index, none) := by
  rw [lastModule?] at h
  generalize hmeant : meantSymbol p chain names = meant
  rw [meantSymbol, h] at hmeant
  exact hmeant.symm

/-- When the names after the one that means something are left out, it still means the same. -/
theorem meantSymbol_take {chain : List SymbolId} {names : List String}
    {meant : Nat × Option ImportHint} (h : meantSymbol p chain names = meant)
    (hlt : meant.1 < chain.length) :
    meantSymbol p (chain.take (meant.1 + 1)) (names.take (meant.1 + 1)) = meant := by
  cases hlast : lastModule? p chain with
  | none =>
    rw [meantSymbol_of_none hlast] at h
    rw [meantSymbol_of_none (lastModule?_take_of_none hlast _), h]
  | some last =>
    obtain ⟨module, index⟩ := last
    rw [meantSymbol_of_last hlast] at h
    -- what is meant is never in front of the last module
    have hle : index ≤ meant.1 := by
      subst h
      split
      · exact Nat.le_refl _
      · split
        · exact Nat.le_succ _
        · split
          · exact Nat.le_succ _
          · exact Nat.le_refl _
        · exact Nat.le_refl _
    have hlength : (chain.take (meant.1 + 1)).length = meant.1 + 1 := by
      rw [List.length_take]
      exact Nat.min_eq_left hlt
    rw [meantSymbol_of_last (lastModule?_take hlast (Nat.lt_succ_of_le hle)), hlength]
    by_cases hself : index = meant.1
    · -- the module itself is meant
      rw [if_pos (by rw [hself])]
      subst h
      grind
    · have hnext : (names.take (meant.1 + 1))[index + 1]? = names[index + 1]? := by
        rw [List.getElem?_take, if_pos (by omega)]
      rw [if_neg (by omega), hnext]
      rw [if_neg (fun hend => hself (by rw [← h, if_pos hend]))] at h
      exact h

end Collecting

namespace Project

variable {p : Project}

theorem meaningFrom?_take {first : SymbolId} {names : List String} {meant : Nat × Option ImportHint}
    (h : Collecting.meantSymbol p (Collecting.memberChain p first (names.drop 1)) names = meant)
    (hlt : meant.1 < (Collecting.memberChain p first (names.drop 1)).length) :
    p.meaningFrom? first (names.take (meant.1 + 1)) = p.meaningFrom? first names := by
  have hchain : Collecting.memberChain p first ((names.take (meant.1 + 1)).drop 1) =
      (Collecting.memberChain p first (names.drop 1)).take (meant.1 + 1) := by
    rw [List.drop_take, Nat.add_sub_cancel, Collecting.memberChain_take]
  unfold meaningFrom?
  dsimp only
  rw [hchain, Collecting.meantSymbol_take h hlt, h]
  rw [List.getElem?_take, if_pos (Nat.lt_succ_self _)]

/-- The part of a name that leads to what the name means has that meaning by itself. -/
theorem meaning?_prefix {name : NodeRef} {a : Arena} {prefixes : List Slot} {first : SymbolId}
    {names : List String} {meant : Nat × Option ImportHint} {n : Slot}
    (harena : p.arena? name.file = some a) (hprefixes : entityPrefixesTo a (a.size + 1) name.node =
      some prefixes) (hfirst : p.firstSymbol? name = some first)
    (hnames : names = (entityParts a name.node).map fun part => (a.nameText? part).getD "")
    (hmeant : Collecting.meantSymbol p (Collecting.memberChain p first (names.drop 1)) names =
      meant)
    (hlt : meant.1 < (Collecting.memberChain p first (names.drop 1)).length)
    (hn : prefixes.reverse[meant.1]? = some n) :
    p.meaning? ⟨name.file, n⟩ = p.meaningFrom? first names ∧ isDottedName a n = true := by
  obtain ⟨id, hid, hall, hlength, -⟩ := exists_leftmostTo_of_entityPrefixesTo hprefixes
  obtain ⟨hindex, -⟩ := List.getElem?_eq_some_iff.1 hn
  rw [List.length_reverse] at hindex
  rw [List.getElem?_reverse hindex] at hn
  obtain ⟨-, hdotted, hparts⟩ := reversedPartsTo_prefix hprefixes hn
  -- the parts of the prefix are the first parts of the name
  have htake : entityParts a n = (entityParts a name.node).take (meant.1 + 1) := by
    unfold entityParts
    rw [hparts, List.take_reverse, ← hlength]
    congr 2
    omega
  have hleftmost : a.leftmost n = a.leftmost name.node :=
    (hall n (List.mem_of_getElem? hn)).trans hid.symm
  have hfirst' : p.firstSymbol? ⟨name.file, n⟩ = some first := by
    rw [← hfirst]
    simp [firstSymbol?, firstOf, harena, hleftmost]
  have hstart : p.start? ⟨name.file, n⟩ = some (first, names.take (meant.1 + 1)) := by
    have hstart' := start?_of_isDottedName
      (show p.arena? (NodeRef.mk name.file n).file = some a from harena) hdotted
    rw [hstart', hfirst', htake, hnames, List.map_take]
    rfl
  refine ⟨?_, hdotted⟩
  rw [meaning?, hstart]
  exact meaningFrom?_take hmeant hlt

end Project

/-! ## Where dotted names stand -/

/-- The form is a dotted name. -/
def Form.isDotted {α : Type} : Form α → Bool
  | .qualifiedName .. | .propertyAccess .. => true
  | _ => false

namespace Arena

/-- The slot is inside a dotted name, or it is the name. -/
inductive InName (a : Arena) (root : Slot) : Slot → Prop where
  | root : InName a root root
  | part {outer inner : Slot} {form : Form Slot} (h : InName a root outer)
    (hform : a.form? outer = some form) (hdotted : form.isDotted = true)
    (hinner : inner ∈ form.children) : InName a root inner

theorem InName.trans {a : Arena} {root inner slot : Slot} (h : a.InName root inner)
    (h' : a.InName inner slot) :
    a.InName root slot := by
  induction h' with
  | root => exact h
  | part _ hform hdotted hinner ih => exact .part ih hform hdotted hinner

/-- A walk reads a name in the slot. -/
def HoldsName (a : Arena) (root : Slot) : Prop :=
  ∃ node typeArguments, Walk.at_ a node = .entity root typeArguments

theorem inName_of_mem_entityPrefixesTo {a : Arena} {depth : Nat} {entity : Slot}
    {prefixes : List Slot} (h : entityPrefixesTo a depth entity = some prefixes) :
    ∀ n ∈ prefixes, a.InName entity n := by
  induction depth generalizing entity prefixes with
  | zero => cases h
  | succ depth ih =>
    have hleft : ∀ (left : Slot) (form : Form Slot), a.form? entity = some form →
      form.isDotted = true →
        left ∈ form.children → (entityPrefixesTo a depth left).map (entity :: ·) = some prefixes →
        ∀ n ∈ prefixes, a.InName entity n := by
      intro left form hform hdotted hchild hmap n hn
      obtain ⟨inner, hinner, rfl⟩ := Option.map_eq_some_iff.1 hmap
      rcases List.mem_cons.1 hn with rfl | hn
      · exact .root
      · exact (InName.part .root hform hdotted hchild).trans (ih hinner n hn)
    unfold entityPrefixesTo at h
    split at h
    · obtain rfl := Option.some.inj h
      intro n hn
      obtain rfl := List.mem_singleton.1 hn
      exact .root
    · next left right hform => exact hleft left _ hform rfl List.mem_cons_self h
    · next left right hform => exact hleft left _ hform rfl List.mem_cons_self h
    · cases h

end Arena

/-- The node is inside a dotted name that a walk reads. -/
def Project.StandsInName (p : Project) (node : NodeRef) : Prop :=
  ∃ a root, p.arena? node.file = some a ∧ a.HoldsName root ∧ a.InName root node.node

/-! ## What is recorded at a node -/

/-- A reference to a symbol stands at a node that means the symbol, and has the shape that goes with
the node. -/
structure Reference.IsNoted (p : Project) (key : SymbolId) (r : Reference) : Prop where
  means : (p.meaning? r.node).bind Target.key? = some key
  standsInName : (∀ depth, r.shape ≠ .importType depth) → p.StandsInName r.node
  importType_iff : (∃ depth, r.shape = .importType depth) ↔
    ∃ isTypeof argument qualifier typeArguments,
      p.form? r.node = some (.importType isTypeof argument qualifier typeArguments)

namespace Reference

variable {p : Project} {target : Target} {key : SymbolId}

/-- The part of a dotted name that leads to a target is noted for the target. -/
theorem isNoted_prefix {entity : NodeRef} {file : SourceFile} {firstPart : Slot} {rest : List Slot}
    {first : SymbolId} {meant : Nat × Option ImportHint} {names : List String}
    (hfile : p.file? entity.file = some file) (hheld : file.arena.HoldsName entity.node)
    (hparts : Project.entityParts file.arena entity.node = firstPart :: rest)
    (hlength : (entityPrefixes file.arena entity.node).length = (firstPart :: rest).length)
    (hfirst : firstPart.bind (file.resolved[·]?) = some first)
    (hnames : names = (Project.entityParts file.arena entity.node).map fun part =>
      (file.arena.nameText? part).getD "")
    (hmeant : Collecting.meantSymbol p (Collecting.memberChain p first (names.drop 1)) names =
      meant)
    (hlt : meant.1 < (Collecting.memberChain p first (names.drop 1)).length)
    (htarget : p.meaningFrom? first names = some target) (hkey : target.key? = some key)
    {shape : ReferenceShape} (hshape : ∀ depth, shape ≠ .importType depth) :
    IsNoted p key ⟨⟨entity.file, ((entityPrefixes file.arena entity.node)[meant.1]?).getD none⟩,
      shape⟩ := by
  have harena : p.arena? entity.file = some file.arena := by simp [Project.arena?, hfile]
  unfold entityPrefixes at hlength ⊢
  cases hprefixes : entityPrefixesTo file.arena (file.arena.size + 1) entity.node with
  | none => simp [hprefixes] at hlength
  | some prefixes =>
    rw [hprefixes, Option.getD_some] at hlength
    obtain ⟨id, hid, -, -, hlast⟩ := exists_leftmostTo_of_entityPrefixesTo hprefixes
    obtain rfl : firstPart = some id := by
      rw [← List.head?_reverse] at hlast
      have hhead := congrArg List.head? hparts
      exact (Option.some.inj (hlast.symm.trans hhead)).symm
    have hsymbol : p.firstSymbol? entity = some first := by
      have hleftmost : file.arena.leftmost entity.node = some id := hid
      simpa [Project.firstSymbol?, Project.firstOf, hfile, harena, hleftmost] using hfirst
    -- the chain of symbols is no longer than the name, so the prefix exists
    have hindex : meant.1 < prefixes.reverse.length := by
      have hchain := Collecting.length_memberChain_le (p := p) first (names.drop 1)
      rw [hlength, ← hparts]
      rw [hnames, List.length_drop, List.length_map] at hchain
      rw [hnames] at hlt
      have hpos : 0 < (Project.entityParts file.arena entity.node).length := by rw [hparts]; simp
      omega
    obtain ⟨hmeaning, hdotted⟩ := Project.meaning?_prefix harena hprefixes hsymbol hnames hmeant hlt
      (List.getElem?_eq_getElem hindex)
    rw [Option.getD_some, List.getElem?_eq_getElem hindex, Option.getD_some]
    have hinside : file.arena.InName entity.node prefixes.reverse[meant.1] :=
      Arena.inName_of_mem_entityPrefixesTo hprefixes _
        (List.mem_reverse.1 (List.getElem_mem hindex))
    refine ⟨?_, fun _ => ⟨file.arena, entity.node, harena, hheld, hinside⟩,
      fun ⟨depth, hdepth⟩ => absurd hdepth (hshape depth), ?_⟩
    · show (p.meaning? ⟨entity.file, prefixes.reverse[meant.1]⟩).bind Target.key? = some key
      rw [hmeaning, htarget]
      exact hkey
    · rintro ⟨isTypeof, argument, qualifier, typeArguments, hform⟩
      have hform' : file.arena.form? prefixes.reverse[meant.1] =
          some (.importType isTypeof argument qualifier typeArguments) :=
        (Project.form?_eq ⟨entity.file, prefixes.reverse[meant.1]⟩ harena).symm.trans hform
      simp only [isDottedName, hform', reduceCtorEq] at hdotted

/-- An import type is noted for what it leads to. -/
theorem isNoted_importType {node : NodeRef} {a : Arena} {isTypeof : Bool}
    {argument qualifier : Slot} {typeArguments : List Slot} {specifier : String} {module : SymbolId}
    {names : List String}
    (hform : p.form? node = some (.importType isTypeof argument qualifier typeArguments))
    (harena : p.arena? node.file = some a) (hargument : a.nameText? argument = some specifier)
    (hmodule : p.moduleOf? node.file specifier = some module)
    (hnames : names = specifier :: (Project.entityParts a qualifier).map fun part =>
      (a.nameText? part).getD "")
    (htarget : p.meaningFrom? module names = some target) (hkey : target.key? = some key)
    (depth : Nat) :
    IsNoted p key ⟨node, .importType depth⟩ := by
  refine ⟨?_, fun hshape => absurd rfl (hshape depth), fun _ => ⟨_, _, _, _, hform⟩,
    fun _ => ⟨depth, rfl⟩⟩
  have hform' :
      a.form? node.node = some (.importType isTypeof argument qualifier typeArguments) :=
    (Project.form?_eq node harena).symm.trans hform
  have hstart : p.start? node = some (module, names) := by
    rw [Project.start?_of_importType harena hform', hargument, Option.bind_some, hmodule, hnames]
    rfl
  show (p.meaning? node).bind Target.key? = some key
  rw [Project.meaning?, hstart]
  show (p.meaningFrom? module names).bind Target.key? = some key
  rw [htarget]
  exact hkey

/-- What is noted at a node is determined by the node. -/
theorem IsNoted.unique {key' : SymbolId} {r r' : Reference} (h : r.IsNoted p key)
    (h' : r'.IsNoted p key') (hnode : r.node = r'.node) :
    key = key' ∧
      ((∃ depth, r.shape = .importType depth) ↔ ∃ depth, r'.shape = .importType depth) := by
  refine ⟨?_, h.importType_iff.trans (hnode ▸ h'.importType_iff.symm)⟩
  have hmeans := h.means
  rw [hnode, h'.means] at hmeans
  exact (Option.some.inj hmeans).symm

end Reference

end DeclBundle
