import DeclBundle.Proofs.Collecting
import DeclBundle.Proofs.Overlooking

/-!
# How names are accounted for

A name that a walk visits ends in one of a few ways (`Accounted`): a reference that covers its first
identifier is recorded, the identifier is reserved, it names a parameter, or it names a member of
the declaration that is walked. The exception are names that are lost (`Lost`): those that stand for
nothing, and those that lead to a member of the walked declaration by way of something outside of
it. A visit settles the name one way or the other (`settled_walkEntity`, `settled_walkImportType`).
-/

set_option autoImplicit false

namespace DeclBundle

/-! ## Names that are accounted for -/

/-- A name in a declaration of `owner` is accounted for in a collection. -/
inductive Accounted (p : Project) (c : Collection) (owner : SymbolId) (name : NodeRef) : Prop where
  /-- A reference that covers its first identifier is recorded, or one at the import type. -/
  | recorded (key : SymbolId) (r : Reference) (h : r ∈ c.referencesTo key)
      (hcovers : r.node = name ∨ r.node.file = name.file ∧ (p.firstOf name).isSome ∧
        p.firstOf r.node = p.firstOf name)
  /-- Its first identifier is reserved. -/
  | reserved (text : String) (h : p.firstText? name = some text) (hmem : text ∈ c.reserved)
  /-- Its first identifier is a parameter or a type parameter. -/
  | parameter (first : SymbolId) (h : p.firstSymbol? name = some first)
      (hparameter : (p.symbol? first).any (·.isAny (.ofList [.typeParameter, .parameter])) = true)
  /-- Its first identifier is a member of the declaration. -/
  | member (first : SymbolId) (h : p.firstSymbol? name = some first)
    (hmember : p.topContainer? first = some owner)
  /-- It has no first identifier, and stands for nothing that is part of a bundle. -/
  | outside (h : p.firstOf name = none)
    (houtside : p.start? name = none ∨ p.meaning? name = some .ambient)

/-- A name in a declaration of `owner` is lost: it does not start in the declaration, and it leads
nowhere or to a member of the declaration. -/
structure Lost (p : Project) (owner : SymbolId) (name : NodeRef) : Prop where
  starts : (p.start? name).isSome = true
  startsOutside : ∀ first, p.firstSymbol? name = some first → p.topContainer? first ≠ some owner
  leadsInside : ∀ target, p.meaning? name = some target →
    ∃ key, target.key? = some key ∧ p.topContainer? key = some owner

/-- A name is accounted for or lost. -/
def Settled (p : Project) (owner : SymbolId) (name : NodeRef) (c : Collection) : Prop :=
  Accounted p c owner name ∨ Lost p owner name

/-! ## Growing collections -/

/-- A collection keeps all references, reserved names and symbols of an earlier one. -/
structure Collection.Grows (c c' : Collection) : Prop where
  kept : c.kept ⊆ c'.kept
  reserved : c.reserved ⊆ c'.reserved
  references : ∀ key, c.referencesTo key ⊆ c'.referencesTo key

namespace Collection.Grows

theorem refl (c : Collection) : Grows c c :=
  ⟨List.Subset.refl _, List.Subset.refl _, fun _ => List.Subset.refl _⟩

theorem trans {c₁ c₂ c₃ : Collection} (h₁ : Grows c₁ c₂) (h₂ : Grows c₂ c₃) : Grows c₁ c₃ :=
  ⟨List.Subset.trans h₁.kept h₂.kept, List.Subset.trans h₁.reserved h₂.reserved,
    fun key => List.Subset.trans (h₁.references key) (h₂.references key)⟩

end Collection.Grows

/-- What is accounted for stays so. -/
theorem Accounted.grow {p : Project} {owner : SymbolId} {name : NodeRef} {c c' : Collection}
    (h : Accounted p c owner name) (hgrows : c.Grows c') : Accounted p c' owner name := by
  cases h with
  | recorded key r hr hcovers => exact .recorded key r (hgrows.references key hr) hcovers
  | reserved text htext hmem => exact .reserved text htext (hgrows.reserved hmem)
  | parameter first hfirst hparameter => exact .parameter first hfirst hparameter
  | member first hfirst hmember => exact .member first hfirst hmember
  | outside hnone houtside => exact .outside hnone houtside

theorem Settled.grow {p : Project} {owner : SymbolId} {name : NodeRef} {c c' : Collection}
    (h : Settled p owner name c) (hgrows : c.Grows c') : Settled p owner name c' :=
  h.imp_left fun h => h.grow hgrows

namespace Collecting

variable {p : Project}

/-- A collecting step only adds to what was found. -/
def Grows (c c' : Collecting) : Prop := c.found.Grows c'.found

theorem grows_reserve (file : FileId) (identifier : Slot) (c : Collecting) :
    Grows c (c.reserve p file identifier) := by
  unfold Grows Collecting.reserve
  split
  · split
    · exact .refl _
    · exact ⟨List.Subset.refl _, List.subset_append_left _ _, fun _ => List.Subset.refl _⟩
  · exact .refl _

theorem referencesTo_addReference (target : SymbolId) (r : Reference) (c : Collecting) :
    (c.addReference target r).found.referencesTo target =
      if (c.found.referencesTo target).any (·.node == r.node) then c.found.referencesTo target
      else c.found.referencesTo target ++ [r] := by
  simp [Collection.referencesTo, addReference, Table.get?_set]

theorem referencesTo_addReference_of_ne {target key : SymbolId} (h : target ≠ key) (r : Reference)
    (c : Collecting) :
    (c.addReference target r).found.referencesTo key = c.found.referencesTo key := by
  simp [Collection.referencesTo, addReference, Table.get?_set, h]

theorem grows_addReference (target : SymbolId) (r : Reference) (c : Collecting) :
    Grows c (c.addReference target r) := by
  refine ⟨List.Subset.refl _, List.Subset.refl _, fun key => ?_⟩
  by_cases h : target = key
  · subst h
    rw [referencesTo_addReference]
    split
    · exact List.Subset.refl _
    · exact List.subset_append_left _ _
  · rw [referencesTo_addReference_of_ne h]
    exact List.Subset.refl _

/-- After a reference was added there is one at its place. -/
theorem exists_mem_referencesTo_addReference (target : SymbolId) (r : Reference) (c : Collecting) :
    ∃ known ∈ (c.addReference target r).found.referencesTo target, known.node = r.node := by
  rw [referencesTo_addReference]
  split
  · next hknown =>
    obtain ⟨known, hmem, hnode⟩ := List.any_eq_true.1 hknown
    exact ⟨known, hmem, by simpa using hnode⟩
  · exact ⟨r, List.mem_append_right _ (List.mem_singleton.2 rfl), rfl⟩

theorem grows_addExternal (i : ExternalImport) (c : Collecting) : Grows c (c.addExternal i) := by
  unfold Grows addExternal
  split
  · exact .refl _
  · exact ⟨List.Subset.refl _, List.Subset.refl _, fun _ => List.Subset.refl _⟩

theorem grows_keep (owner : SymbolId) (c : Collecting) : Grows c (c.keep owner) :=
  ⟨List.subset_append_left _ _, List.Subset.refl _, fun _ => List.Subset.refl _⟩

theorem grows_pass (c : Collecting) : Grows c c.pass :=
  ⟨List.Subset.refl _, List.Subset.refl _, fun _ => List.Subset.refl _⟩

theorem grows_skip (owner : SymbolId) (c : Collecting) : Grows c (c.skip owner) :=
  ⟨List.Subset.refl _, List.Subset.refl _, fun _ => List.Subset.refl _⟩

theorem grows_enter (id : SymbolId) (name : String) (c : Collecting) : Grows c (c.enter id name) :=
  ⟨List.Subset.refl _, List.Subset.refl _, fun _ => List.Subset.refl _⟩

/-- Every collection that comes later only adds to an earlier one. -/
theorem keeps_grows (c₀ : Collecting) : Keeps p (Grows c₀) where
  reserve file identifier c h := h.trans (grows_reserve file identifier c)
  addReference key r c h _ := h.trans (grows_addReference key r c)
  pass c h := h.trans (grows_pass c)
  addExternal i c h := h.trans (grows_addExternal i c)
  skip owner c h _ _ := h.trans (grows_skip owner c)
  keep owner c h _ _ := h.trans (grows_keep owner c)
  enter id name c h _ := h.trans (grows_enter id name c)

/-- A fold over steps that only add settles what one of its steps settles. -/
theorem settled_foldl {β : Type} {f : Collecting → β → Collecting} (hgrows : ∀ c b, Grows c (f c b))
    {owner : SymbolId} {name : NodeRef} {x : β} (hx : ∀ c, Settled p owner name (f c x).found)
    {xs : List β} (hmem : x ∈ xs) (c : Collecting) : Settled p owner name (xs.foldl f c).found := by
  induction xs generalizing c with
  | nil => cases hmem
  | cons y ys ih =>
    rcases List.mem_cons.1 hmem with rfl | hmem
    · exact (hx c).grow
        (keeps_foldl (P := Grows (f c x)) (fun c' b hc => hc.trans (hgrows c' b)) ys _ (.refl _))
    · exact ih hmem (f c y)

/-! ## Visiting a name -/

variable {visit : Target → Collecting → Collecting}

/-- What recording does: nothing when the name leads nowhere, a reservation for a global name, and
else a reference, unless the target is a member of the walked declaration. -/
theorem record_cases (owner : SymbolId) (r : Reference) (named : SymbolId)
    (hint : Option ImportHint) (c : Collecting) :
    p.targetWith? named hint = none ∨
      (p.targetWith? named hint = some .ambient ∧
        record p visit owner r named hint c =
          reserve p r.node.file
            (((p.arena? r.node.file).map (·.leftmost r.node.node)).getD none) c) ∨
      ∃ target key, p.targetWith? named hint = some target ∧ target.key? = some key ∧
        (p.topContainer? key = some owner ∨
          ∃ known ∈ (record p visit owner r named hint c).found.referencesTo key,
            known.node = r.node) := by
  have hnote : ∀ (key : SymbolId) (target : Target), p.topContainer? key = some owner ∨
      ∃ known ∈ (if p.topContainer? key = some owner then visit target c
        else addReference key r (visit target c)).found.referencesTo key, known.node = r.node := by
    intro key target
    by_cases h : p.topContainer? key = some owner
    · exact .inl h
    · rw [if_neg h]
      exact .inr (exists_mem_referencesTo_addReference key r _)
  unfold record
  cases htarget : p.targetWith? named hint with
  | none => exact .inl rfl
  | some target =>
    cases target with
    | ambient => exact .inr (.inl ⟨rfl, rfl⟩)
    | declaration id => exact .inr (.inr ⟨_, id, rfl, rfl, hnote id _⟩)
    | module_ id localName => exact .inr (.inr ⟨_, id, rfl, rfl, hnote id _⟩)
    | external i => exact .inr (.inr ⟨_, i.symbol, rfl, rfl, hnote i.symbol _⟩)

/-- The same for a chain of names. The place at which something is recorded is that of one of the
names. -/
theorem recordChain_cases (owner first : SymbolId) {names : List String} (hnames : names ≠ [])
    (shapeAt : Nat → Reference) (c : Collecting) :
    p.meaningFrom? first names = none ∨ ∃ index < names.length,
      (p.meaningFrom? first names = some .ambient ∧
        recordChain p visit owner first names shapeAt c =
          reserve p (shapeAt index).node.file
            (((p.arena? (shapeAt index).node.file).map (·.leftmost (shapeAt index).node.node)).getD
              none) c) ∨
      ∃ target key, p.meaningFrom? first names = some target ∧ target.key? = some key ∧
        (p.topContainer? key = some owner ∨
          ∃ known ∈ (recordChain p visit owner first names shapeAt c).found.referencesTo key,
            known.node = (shapeAt index).node) := by
  unfold recordChain Project.meaningFrom?
  dsimp only
  cases hnamed :
    (memberChain p
    first (names.drop 1))[(meantSymbol p (memberChain p first (names.drop 1)) names).1]? with
  | none => exact .inl rfl
  | some named =>
    have hindex := (List.getElem?_eq_some_iff.1 hnamed).1
    have hlength := length_memberChain_le (p := p) first (names.drop 1)
    have hpos : 0 < names.length := List.length_pos_iff.2 hnames
    rw [List.length_drop] at hlength
    have hlt : (meantSymbol p (memberChain p first (names.drop 1)) names).1 < names.length := by
      omega
    rcases @record_cases p visit owner (shapeAt _) named _ c with h | h
    · exact .inl h
    · exact .inr ⟨_, hlt, h⟩

theorem mem_reserved_reserve {file : FileId} {identifier : Slot} {text : String} {c : Collecting}
    (h : (p.arena? file).bind (·.nameText? identifier) = some text) :
    text ∈ (c.reserve p file identifier).found.reserved := by
  unfold Collecting.reserve
  rw [h]
  dsimp only
  split
  · next hmem => simpa using hmem
  · exact List.mem_append_right _ (List.mem_singleton.2 rfl)

/-- A name that leads on from its first symbol is settled when its chain of symbols was recorded. -/
theorem settled_recordChain {owner first : SymbolId} {names : List String}
    {shapeAt : Nat → Reference} {name : NodeRef} (hstart : p.start? name = some (first, names))
    (hnames : names ≠ [])
    (hambient : p.meaning? name = some .ambient → ∀ index < names.length, ∀ c : Collecting,
      Accounted p (reserve p (shapeAt index).node.file
        (((p.arena? (shapeAt index).node.file).map (·.leftmost (shapeAt index).node.node)).getD
          none) c).found owner name)
    (hplace : ∀ index < names.length, (shapeAt index).node = name ∨
      (shapeAt index).node.file = name.file ∧
      (p.firstOf name).isSome ∧ p.firstOf (shapeAt index).node = p.firstOf name)
    (c : Collecting) :
    Settled p owner name (recordChain p visit owner first names shapeAt c).found := by
  have hmeaning : p.meaning? name = p.meaningFrom? first names := by simp [Project.meaning?, hstart]
  have hstarts : (p.start? name).isSome = true := by rw [hstart]; rfl
  -- members of the declaration itself are not recorded, so they are settled first
  by_cases hinside : ∃ first, p.firstSymbol? name = some first ∧ p.topContainer? first = some owner
  · obtain ⟨first, hfirst, hmember⟩ := hinside
    exact .inl (.member first hfirst hmember)
  · have houtside : ∀ first, p.firstSymbol? name = some first →
        p.topContainer? first ≠ some owner :=
      fun first hfirst hmember => hinside ⟨first, hfirst, hmember⟩
    rcases @recordChain_cases p visit owner first _ hnames shapeAt c with hnone | ⟨index, hindex,
      hambient' | htarget⟩
    · refine .inr ⟨hstarts, houtside, fun target htarget => ?_⟩
      rw [hmeaning, hnone] at htarget
      cases htarget
    · rw [hambient'.2]
      exact .inl (hambient (hmeaning.trans hambient'.1) index hindex c)
    · obtain ⟨target, key, htarget, hkey, hcontainer | ⟨known, hknown, hnode⟩⟩ := htarget
      · refine .inr ⟨hstarts, houtside, fun target' htarget' => ?_⟩
        obtain rfl : target = target' :=
          Option.some.inj (htarget.symm.trans (hmeaning.symm.trans htarget'))
        exact ⟨key, hkey, hcontainer⟩
      · exact .inl (.recorded key known hknown (hnode ▸ hplace index hindex))

/-- A dotted name is settled when it was visited. -/
theorem settled_walkEntity {owner : SymbolId} {name : NodeRef} {a : Arena}
    (harena : p.arena? name.file = some a) (hdotted : isDottedName a name.node = true)
    (c : Collecting) :
    Settled p owner name (walkEntity p visit owner name c).found := by
  obtain ⟨file, hfile, rfl⟩ := Option.map_eq_some_iff.1 harena
  have hstart := Project.start?_of_isDottedName harena hdotted
  have hfirstOf : p.firstOf name = file.arena.leftmost name.node := by
    simp [Project.firstOf, harena]
  cases hprefixes : entityPrefixesTo file.arena (file.arena.size + 1) name.node with
  | none =>
    have hnone : p.firstOf name = none :=
      hfirstOf.trans (leftmostTo_of_entityPrefixesTo_none hprefixes)
    have hsymbol : p.firstSymbol? name = none := by simp [Project.firstSymbol?, hnone]
    exact .inl (.outside hnone (.inl (by rw [hstart, hsymbol]; rfl)))
  | some prefixes =>
    obtain ⟨id, hid, hall, hlength, hlast⟩ := exists_leftmostTo_of_entityPrefixesTo hprefixes
    have hfirst : p.firstOf name = some id := hfirstOf.trans hid
    have hsymbol : p.firstSymbol? name = file.resolved[id]? := by
      simp [Project.firstSymbol?, hfile, hfirst]
    obtain ⟨rest, hparts⟩ : ∃ rest, Project.entityParts file.arena name.node = some id :: rest := by
      rw [← List.head?_reverse] at hlast
      exact List.head?_eq_some_iff.1 hlast
    -- whatever is reserved on behalf of the name is its first identifier
    have hreserved : ∀ c : Collecting,
        Accounted p (reserve p name.file (some id) c).found owner name := by
      intro c
      obtain ⟨text, htext⟩ := exists_identifier_of_leftmostTo hid
      have hname : (p.arena? name.file).bind (·.nameText? (some id)) = some text := by
        simp [harena, Arena.nameText?, htext]
      exact .reserved text (by rw [Project.firstText?, hfirst, hname]) (mem_reserved_reserve hname)
    have hcount : prefixes.length = (some id :: rest).length := by
      rw [hlength, ← hparts, Project.entityParts, List.length_reverse]
    unfold walkEntity
    rw [hfile]
    simp only [entityPrefixes, hprefixes, hparts, Option.getD_some, List.length_reverse]
    rw [if_neg (not_not_intro hcount)]
    cases hresolved : file.resolved[id]? with
    | none =>
      simp only [Option.bind_some, hresolved]
      exact .inl (hreserved c)
    | some first =>
      simp only [Option.bind_some, hresolved]
      rw [hresolved] at hsymbol
      split
      · next hparameter => exact .inl (.parameter first hsymbol hparameter)
      · have hplace : ∀ index < (some id :: rest).length, ∃ n, prefixes.reverse[index]? = some n ∧
            file.arena.leftmost n = some id := by
          intro index hindex
          rw [← hcount, ← List.length_reverse] at hindex
          have hget : prefixes.reverse[index]? = some prefixes.reverse[index] :=
            List.getElem?_eq_getElem hindex
          exact ⟨_, hget, hall _ (List.mem_reverse.1 (List.getElem_mem hindex))⟩
        refine @settled_recordChain p visit owner _ _ _ name ?_ (by simp) ?_ ?_ c
        · rw [hstart, hsymbol, hparts]
          rfl
        · intro _ index hindex c
          obtain ⟨n, hget, hleftmost⟩ := hplace index (by simpa using hindex)
          simpa [hget, harena, hleftmost] using hreserved c
        · intro index hindex
          obtain ⟨n, hget, hleftmost⟩ := hplace index (by simpa using hindex)
          refine .inr ⟨rfl, by rw [hfirst]; rfl, ?_⟩
          simp [Project.firstOf, harena, hget, hleftmost,
            show file.arena.leftmost name.node = some id from hid]

/-- An import type is settled when it was visited. -/
theorem settled_walkImportType {owner : SymbolId} {name : NodeRef} {a : Arena} {isTypeof : Bool}
    {argument qualifier : Slot} {typeArguments : List Slot} (harena : p.arena? name.file = some a)
    (hform : a.form? name.node = some (.importType isTypeof argument qualifier typeArguments))
    (c : Collecting) :
    Settled p owner name (walkImportType p visit owner name c).found := by
  have hstart := Project.start?_of_importType harena hform
  have hfirst := Project.firstOf_of_importType harena hform
  have hprojectForm : p.form? name =
      some (.importType isTypeof argument qualifier typeArguments) :=
    (Project.form?_eq name harena).trans hform
  unfold walkImportType
  rw [hprojectForm, harena]
  dsimp only
  cases hargument : a.nameText? argument with
  | none => exact .inl (.outside hfirst (.inl (by rw [hstart, hargument]; rfl)))
  | some specifier =>
    dsimp only
    cases hmodule : p.moduleOf? name.file specifier with
    | none =>
    refine .inl (.outside hfirst (.inl ?_))
    rw [hstart, hargument, Option.bind_some, hmodule]
    rfl
    | some module =>
      refine @settled_recordChain p visit owner _ _ _ name (by
        rw [hstart, hargument, Option.bind_some, hmodule]; rfl) (by simp)
        (fun hambient _ _ c => .outside hfirst (.inr hambient)) (fun _ _ => .inl rfl) c

end Collecting

end DeclBundle
