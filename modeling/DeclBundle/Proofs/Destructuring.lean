import DeclBundle.Proofs.Exposing
import DeclBundle.Proofs.LoadedFiles
import DeclBundle.Proofs.NamePlaces
import DeclBundle.Proofs.TreeLoops

/-!
# Types of destructured names

A pattern takes a value apart. Its names are given here what they get when the program runs
(`Arena.received?`): of properties with the same name the last one counts, an element that is
missing is `undefined`, and a default takes the place of `undefined` at every level. The type of a
name is found another way: up from its element to the declaration, and then down the initializer,
where the first property counts and where the defaults further out are not looked at.

On the way up the steps are those that lead down (`Arena.bindingPath_of_leadsTo`). So where the
steps lead through literals of their kind that name the property once (`Arena.leadsThrough`), a
keyword type that is found for a name is the type of what the name receives
(`Project.type?_received_of_typeOf`). Where a literal names a property twice it need not be
(`Project.exists_name_of_other_type`).
-/

set_option autoImplicit false

namespace DeclBundle

/-! ## Values -/

/-- A value that an expression made of literals can have. Of a primitive value only its type is
known. -/
inductive Value where
  | undefined
  | null
  | literal (type : KeywordType)
  /-- The properties in the order in which they are set. -/
  | object (properties : List (String × Value))
  | array (elements : List Value)

namespace Value

/-- The type of all literals of the same kind. -/
def type? : Value → Option KeywordType
  | literal type => some type
  | _ => none

def isUndefined : Value → Bool
  | undefined => true
  | _ => false

/-- The names under which every object has something without being given it. -/
def inheritedNames : List String :=
  ["constructor", "hasOwnProperty", "isPrototypeOf", "propertyIsEnumerable", "toLocaleString",
    "toString", "valueOf",
    "__proto__", "__defineGetter__", "__defineSetter__", "__lookupGetter__", "__lookupSetter__"]

/-- The part of a value that a pattern takes. A property that is set again has its last value, and
what is missing is `undefined`. There is no answer where a pattern takes what is no literal, such as
the length of an array. -/
def part? : Value → BindingKey → Option Value
  | object properties, .property name =>
    match properties.reverse.lookup name with
    | some part => some part
    | none => if name ∈ inheritedNames then none else some undefined
  | array elements, .index i => some (elements[i]?.getD undefined)
  | _, _ => none

end Value

/-- The type of the literals of one kind. -/
def Form.literalType? {α : Type} : Form α → Option KeywordType
  | stringLiteral _ | templateLiteral _ => some .string
  | numericLiteral _ => some .number
  | bigIntLiteral _ => some .bigint
  | booleanLiteral _ => some .boolean
  | _ => none

namespace Arena

/-- A number is written as it is printed: in decimal digits, so few that none of them is lost. -/
def isPlainNumber (text : String) : Bool :=
  match text.toList with
  | [] => false
  | digit :: digits =>
    (digit :: digits).all Char.isDigit && digits.length < 15 && (digit != '0' || digits.isEmpty)

/-- The name of a property that is written just as it is: an identifier without escapes, a string,
or a plain number. -/
def plainName? (a : Arena) (slot : Slot) : Option String :=
  match a.form? slot with
  | some (.identifier text) => if '\\' ∈ text.toList then none else some text
  | some (.stringLiteral text) => some text
  | some (.numericLiteral text) => if isPlainNumber text then some text else none
  | _ => none

/-- What a property of a literal sets, given the values of initializers. A property that sets the
prototype has no place here. -/
def ownProperty? (a : Arena) (value? : Slot → Option Value) (property : Slot) :
    Option (String × Value) :=
  match a.form? property with
  | some (.propertyAssignment key initializer) => do
    let name ← a.plainName? key
    let value ← value? initializer
    if name = "__proto__" then none else some (name, value)
  | _ => none

/-- The value of an expression that is made of literals, down to `depth` levels. A hole of an array
is `undefined`. -/
def valueTo (depth : Nat) (a : Arena) (slot : Slot) : Option Value :=
  match depth with
  | 0 => none
  | depth + 1 =>
    match a.form? slot with
    | some (.identifier text) => if text = "undefined" then some .undefined else none
    | some .nullLiteral => some .null
    | some (.objectLiteral properties) =>
      (properties.mapM (a.ownProperty? (valueTo depth a))).map .object
    | some (.arrayLiteral elements) =>
      (elements.mapM fun element : Slot => if element.isSome then valueTo depth a element
        else some .undefined).map .array
    | some form => form.literalType?.map .literal
    | none => none

/-- The value of an expression that is made of literals. -/
def value? (a : Arena) (slot : Slot) : Option Value := valueTo (a.size + 1) a slot

end Arena

/-! ## What names receive -/

/-- One step of a pattern: the part that it takes, and the default that takes the place of
`undefined`. -/
structure PatternStep where
  key : BindingKey
  default : Slot
  deriving DecidableEq, Repr

namespace Arena

/-- What one step of a pattern makes of a value. -/
def take? (a : Arena) (value : Value) (step : PatternStep) : Option Value := do
  let part ← value.part? step.key
  if part.isUndefined && step.default.isSome then a.value? step.default else some part

/-- What an element of a pattern receives when a value is taken apart. -/
def received? (a : Arena) (steps : List PatternStep) (value : Value) : Option Value :=
  steps.foldlM a.take? value

theorem received?_cons {a : Arena} (step : PatternStep) (steps : List PatternStep) (value : Value) :
    a.received? (step :: steps) value = (a.take? value step).bind (a.received? steps) :=
  List.foldlM_cons

theorem take?_of_isUndefined_eq_false {a : Arena} {value part : Value} {step : PatternStep}
    (hpart : value.part? step.key = some part) (hdefined : part.isUndefined = false) :
    a.take? value step = some part := by
  simp [take?, hpart, hdefined]

theorem take?_of_undefined {a : Arena} {value : Value} {step : PatternStep}
    (hpart : value.part? step.key = some .undefined) (hdefault : step.default.isSome = true) :
    a.take? value step = a.value? step.default := by
  simp [take?, hpart, hdefault, Value.isUndefined]

/-- The step that a pattern takes to one of its elements. There is none to an element that takes the
rest. -/
def stepTo? (a : Arena) (pattern element : Slot) : Option PatternStep :=
  match a.form? element with
  | some (.bindingElement false propertyName inner default) =>
    match a.form? pattern with
    | some (.objectPattern elements) =>
      if element ∈ elements then (a.plainName? (propertyName.or inner)).map fun name =>
        ⟨.property name, default⟩ else none
    | some (.arrayPattern elements) => (elements.findIdx? (· == element)).map fun i =>
      ⟨.index i, default⟩
    | _ => none
  | _ => none

/-- The steps from a pattern to an element at any depth, through the patterns that elements have in
place of names. -/
inductive LeadsTo (a : Arena) : Slot → List PatternStep → Slot → Prop
  | element {pattern element : Slot} {step : PatternStep}
    (hstep : a.stepTo? pattern element = some step) :
    LeadsTo a pattern [step] element
  | inner {pattern outer element : Slot} {step : PatternStep} {steps : List PatternStep}
    (hstep : a.stepTo? pattern outer = some step)
    (hinner : LeadsTo a (a.nameSlot outer) steps element) :
    LeadsTo a pattern (step :: steps) element

/-! ## Steps through literals -/

/-- A property of a literal has a name. -/
def isNamed (a : Arena) (name : String) (property : Slot) : Bool :=
  match a.form? property with
  | some (.propertyAssignment key _) => a.nameText? key == some name
  | _ => false

/-- A step leads into a literal of its kind. An object has the property once, or else not at all and
does not inherit it. -/
def leadsInto (a : Arena) (value : Slot) : BindingKey → Bool
  | .property name =>
    match a.form? value with
    | some (.objectLiteral properties) =>
      properties.countP (a.isNamed name) == 1 ||
        properties.countP (a.isNamed name) == 0 && !Value.inheritedNames.contains name
    | _ => false
  | .index _ =>
    match a.form? value with
    | some (.arrayLiteral _) => true
    | _ => false

/-- Every step leads into a literal of its kind. -/
def leadsThrough (a : Arena) (value : Slot) : List BindingKey → Bool
  | [] => true
  | key :: keys => a.leadsInto value key && a.leadsThrough (DeclaredType.stepInto a value key) keys

/-! ## The way up -/

/-- On the way up from a slot, with the steps `rest` behind it, a declaration is found and a path to
the element. -/
def Climbs (a : Arena) (slot : Slot) (rest : List BindingKey) (declaration : NodeId)
    (path : List BindingKey) : Prop :=
  (∃ depth, patternRootTo depth a slot = some declaration) ∧ ∃ depth,
    bindingPathTo depth a slot rest = some path

theorem isSome_of_patternRootTo {a : Arena} {depth : Nat} {slot : Slot} {declaration : NodeId}
    (h : patternRootTo depth a slot = some declaration) : slot.isSome = true := by
  cases slot with
  | none => cases depth <;> cases h
  | some n => rfl

theorem nameText?_of_plainName? {a : Arena} {slot : Slot} {name : String}
    (h : a.plainName? slot = some name) :
    a.nameText? slot = some name := by
  unfold plainName? at h
  unfold nameText?
  split at h
  · next text heq =>
    rw [heq]
    split at h
    · cases h
    · exact h
  · next text heq => rwa [heq]
  · next text heq =>
    rw [heq]
    split at h
    · exact h
    · cases h
  · cases h

/-- What a step from a pattern to an element says of them: the element is in the pattern, and knows
the step when it knows the pattern. -/
theorem stepTo?_cases {a : Arena} {pattern element : Slot} {step : PatternStep}
    (h : a.stepTo? pattern element = some step) :
    ∃ propertyName inner form,
      a.form? element = some (.bindingElement false propertyName inner step.default) ∧
      a.form? pattern = some form ∧ element ∈ form.children ∧
      (∀ depth, patternRootTo (depth + 1) a pattern = patternRootTo depth a (a.parent pattern)) ∧
      (a.parent element = pattern → a.bindingKey? element propertyName inner = some step.key) := by
  unfold stepTo? at h
  split at h
  · next propertyName inner default helement =>
    split at h
    · next elements hpattern =>
      split at h
      · next hmem =>
        obtain ⟨name, hname, rfl⟩ := Option.map_eq_some_iff.1 h
        refine ⟨propertyName, inner, _, helement, hpattern, hmem,
          fun depth => by rw [patternRootTo, hpattern],
          fun hparent => ?_⟩
        -- without a name of its own, an element takes the property of its variable
        have hor : (if propertyName.isSome then propertyName else inner) =
            propertyName.or inner := by
          cases propertyName <;> rfl
        simp only [bindingKey?, hparent, hpattern, hor, nameText?_of_plainName? hname]
        rfl
      · cases h
    · next elements hpattern =>
      obtain ⟨i, hi, rfl⟩ := Option.map_eq_some_iff.1 h
      obtain ⟨hlt, hfound, -⟩ := List.findIdx?_eq_some_iff_getElem.1 hi
      have hmem : element ∈ elements := beq_iff_eq.1 hfound ▸ List.getElem_mem hlt
      refine ⟨propertyName, inner, _, helement, hpattern, hmem,
        fun depth => by rw [patternRootTo, hpattern],
        fun hparent => ?_⟩
      simp only [bindingKey?, hparent, hpattern, hi]
      rfl
    · cases h
  · cases h

/-- The last element that steps lead to is one of a pattern. -/
theorem LeadsTo.exists_form {a : Arena} {pattern element : Slot} {steps : List PatternStep}
    (h : a.LeadsTo pattern steps element) :
    ∃ propertyName inner default,
      a.form? element = some (.bindingElement false propertyName inner default) := by
  induction h with
  | element hstep =>
    obtain ⟨propertyName, inner, _, helement, -⟩ := stepTo?_cases hstep
    exact ⟨_, _, _, helement⟩
  | inner _ _ ih => exact ih

theorem LeadsTo.exists_cons {a : Arena} {pattern element : Slot} {steps : List PatternStep}
    (h : a.LeadsTo pattern steps element) :
    ∃ step steps', steps = step :: steps' := by
  cases h <;> exact ⟨_, _, rfl⟩

section Parents

variable {a : Arena} (htree : a.IsTree) (hknows : a.KnowsParents)

include htree hknows

/-- A child that knows a node above it knows the one whose child it is. -/
theorem parent_eq_of_isSome {parent child : Slot} {form : Form Slot}
    (hform : a.form? parent = some form) (hchild : child ∈ form.children)
    (hparent : (a.parent child).isSome = true) : a.parent child = parent := by
  cases child with
  | none => cases hparent
  | some n =>
    obtain ⟨m, hm⟩ := Option.isSome_iff_exists.1 hparent
    obtain ⟨form', hform', hn⟩ := mem_children_iff.1 (hknows n m hm)
    rw [hm]
    exact htree.parent_unique hform' hn hform hchild

variable {declaration : NodeId} {path rest : List BindingKey}

/-- One step of a pattern, upwards. -/
theorem Climbs.step {pattern element : Slot} {step : PatternStep}
    (h : a.Climbs element rest declaration path) (hstep : a.stepTo? pattern element = some step) :
    a.Climbs (a.parent pattern) (step.key :: rest) declaration path := by
  obtain ⟨⟨depth, hroot⟩, depth', hpath⟩ := h
  obtain ⟨propertyName, inner, form, helement, hpattern, hmem, hup, hkey⟩ := stepTo?_cases hstep
  cases depth with
  | zero => cases hroot
  | succ depth =>
    rw [patternRootTo, helement] at hroot
    have hparent := parent_eq_of_isSome htree hknows hpattern hmem (isSome_of_patternRootTo hroot)
    refine ⟨?_, ?_⟩
    · cases depth with
      | zero => cases hroot
      | succ depth =>
        rw [hparent] at hroot
        exact ⟨depth, (hup depth).symm.trans hroot⟩
    · cases depth' with
      | zero => cases hpath
      | succ depth' =>
        rw [bindingPathTo, helement] at hpath
        simp only [hkey hparent, hparent] at hpath
        exact ⟨depth', hpath⟩

/-- The way up from an element passes the pattern from which steps lead to it. By induction on the
steps. -/
theorem Climbs.of_leadsTo {pattern element : Slot} {steps : List PatternStep}
    (hsteps : a.LeadsTo pattern steps element) (h : a.Climbs element rest declaration path) :
    a.Climbs (a.parent pattern) (steps.map PatternStep.key ++ rest) declaration path := by
  induction hsteps with
  | element hstep => exact h.step htree hknows hstep
  | @inner pattern outer element step steps hstep _ ih =>
    have hinner := ih h
    obtain ⟨depth, hroot⟩ := hinner.1
    obtain ⟨propertyName, inner, _, houter, -⟩ := stepTo?_cases hstep
    have hname : a.nameSlot outer = inner := by
      rw [nameSlot, houter]
      rfl
    have hparent : a.parent (a.nameSlot outer) = outer :=
      parent_eq_of_isSome htree hknows houter (by simp [hname, Form.children])
        (isSome_of_patternRootTo hroot)
    rw [hparent] at hinner
    exact hinner.step htree hknows hstep

/-- The steps that are found on the way up are those that lead down. -/
theorem bindingPath_of_leadsTo {node pattern element ascription initializer : Slot}
    {definite : Bool} {steps : List PatternStep} {name : Slot} {definite' : Bool}
    {ascription' initializer' : Slot}
    (hnode : a.form? node = some (.variableDeclaration pattern definite ascription initializer))
    (hsteps : a.LeadsTo pattern steps element)
    (hroot : a.form? (a.bindingRoot element) =
      some (.variableDeclaration name definite' ascription' initializer'))
    (hpath : a.bindingPath? element = some path) :
    a.bindingRoot element = node ∧ path = steps.map PatternStep.key := by
  obtain ⟨n, hn⟩ : ∃ n, a.bindingRoot element = some n := Option.ne_none_iff_exists'.1 fun h => by
    simp [h] at hroot
  obtain ⟨propertyName, inner, default, helement⟩ := hsteps.exists_form
  have hclimbs : a.Climbs element [] n path := by
    refine ⟨⟨a.size + 2, ?_⟩, _, hpath⟩
    rw [patternRootTo, helement]
    exact hn
  obtain ⟨⟨depth, hdeclaration⟩, depth', hkeys⟩ := hclimbs.of_leadsTo htree hknows hsteps
  -- the way up from the first element goes through the pattern to the declaration
  have hparent : a.parent pattern = node :=
    parent_eq_of_isSome htree hknows hnode (by simp [Form.children])
      (isSome_of_patternRootTo hdeclaration)
  rw [hparent] at hdeclaration hkeys
  cases depth with
  | zero => cases hdeclaration
  | succ depth =>
    cases depth' with
    | zero => cases hkeys
    | succ depth' =>
      rw [patternRootTo, hnode] at hdeclaration
      rw [bindingPathTo, hnode, List.append_nil] at hkeys
      exact ⟨hn.trans hdeclaration.symm, (Option.some.inj hkeys).symm⟩

end Parents

/-! ## The way down -/

theorem forall₂_of_mapM {α β : Type} {f : α → Option β} {xs : List α} {ys : List β}
    (h : xs.mapM f = some ys) :
    List.Forall₂ (fun x y => f x = some y) xs ys := by
  induction xs generalizing ys with
  | nil =>
    cases h
    exact .nil
  | cons x xs ih =>
    rw [List.mapM_cons] at h
    obtain ⟨y, hy, h⟩ := Option.bind_eq_some_iff.1 h
    obtain ⟨rest, hrest, h⟩ := Option.bind_eq_some_iff.1 h
    cases h
    exact .cons hy (ih hrest)

theorem lookup_eq_none_iff_notMem {β : Type} {l : List (String × β)} {name : String} :
    l.lookup name = none ↔ name ∉ l.map Prod.fst := by
  rw [List.lookup_eq_none_iff, List.mem_map]
  refine ⟨fun h ⟨entry, hentry, heq⟩ => bne_iff_ne.1 (h entry hentry) heq.symm,
    fun h entry hentry => bne_iff_ne.2 fun heq => h ⟨entry, hentry, heq.symm⟩⟩

/-- What stands at a name once is found from both ends. -/
theorem lookup_reverse {β : Type} {l : List (String × β)} {name : String}
    (h : (l.map Prod.fst).count name ≤ 1) :
    l.reverse.lookup name = l.lookup name := by
  induction l with
  | nil => rfl
  | cons entry l ih =>
    obtain ⟨other, value⟩ := entry
    rw [List.map_cons, List.count_cons] at h
    rw [List.reverse_cons, List.lookup_append, ih (by omega)]
    by_cases heq : name = other
    · subst heq
      have hnot : name ∉ l.map Prod.fst := List.count_eq_zero.1 (by simpa using h)
      simp [lookup_eq_none_iff_notMem.2 hnot]
    · have hne : (name == other) = false := beq_eq_false_iff_ne.2 heq
      simp [List.lookup_cons, hne]

variable {a : Arena}

/-- The initializer of a property with a name. -/
def initializer? (a : Arena) (name : String) (property : Slot) : Option Slot :=
  match a.form? property with
  | some (.propertyAssignment key initializer) =>
    if a.nameText? key == some name then some initializer else none
  | _ => none

/-- The first property with a name is found where the name is first set, and it has the value that
is set there. By induction on the properties. -/
theorem rel_findSome?_lookup {value? : Slot → Option Value} {properties : List Slot}
    {own : List (String × Value)}
    (h : List.Forall₂ (fun property entry => a.ownProperty? value? property = some entry) properties
      own) (name : String) :
    properties.countP (a.isNamed name) = (own.map Prod.fst).count name ∧
      Option.Rel (fun initializer value => value? initializer = some value)
        (properties.findSome? (a.initializer? name)) (own.lookup name) := by
  induction h with
  | nil => exact ⟨rfl, .none⟩
  | @cons property entry properties own hproperty _ ih =>
    unfold ownProperty? at hproperty
    split at hproperty
    · next key initializer hform =>
      obtain ⟨text, htext, hproperty⟩ := Option.bind_eq_some_iff.1 hproperty
      obtain ⟨value, hvalue, hproperty⟩ := Option.bind_eq_some_iff.1 hproperty
      split at hproperty
      · cases hproperty
      · cases hproperty
        -- a plain name is compared as text, here and when the program runs
        have hnamed : a.isNamed name property = (text == name) := by
          simp only [isNamed, hform, nameText?_of_plainName? htext]
          rfl
        have hfound : a.initializer? name property = if text == name then some initializer
            else none := by
          simp only [initializer?, hform, nameText?_of_plainName? htext]
          rfl
        refine ⟨?_, ?_⟩
        · rw [List.countP_cons, List.map_cons, List.count_cons, hnamed, ih.1]
        · rw [List.findSome?_cons, hfound, List.lookup_cons]
          by_cases heq : text = name
          · subst heq
            simpa using Option.Rel.some hvalue
          · have hne : (name == text) = false := beq_eq_false_iff_ne.2 (Ne.symm heq)
            simpa [heq, hne] using ih.2
    · cases hproperty

/-- The value of an object literal sets what its properties set. -/
theorem exists_own_of_valueTo {depth : Nat} {slot : Slot} {value : Value} {properties : List Slot}
    (hform : a.form? slot = some (.objectLiteral properties))
    (hvalue : valueTo depth a slot = some value) :
    ∃ depth own, value = .object own ∧
      List.Forall₂ (fun property entry => a.ownProperty? (valueTo depth a) property = some entry)
        properties own := by
  cases depth with
  | zero => cases hvalue
  | succ depth =>
    simp only [valueTo, hform] at hvalue
    obtain ⟨own, hown, rfl⟩ := Option.map_eq_some_iff.1 hvalue
    exact ⟨depth, own, rfl, forall₂_of_mapM hown⟩

/-- The value of an array literal has the values of its elements. -/
theorem exists_parts_of_valueTo {depth : Nat} {slot : Slot} {value : Value} {elements : List Slot}
    (hform : a.form? slot = some (.arrayLiteral elements))
    (hvalue : valueTo depth a slot = some value) :
    ∃ depth parts, value = .array parts ∧
      List.Forall₂ (fun (element : Slot) part =>
        (if element.isSome then valueTo depth a element else some .undefined) = some part)
          elements parts := by
  cases depth with
  | zero => cases hvalue
  | succ depth =>
    simp only [valueTo, hform] at hvalue
    obtain ⟨parts, hparts, rfl⟩ := Option.map_eq_some_iff.1 hvalue
    exact ⟨depth, parts, rfl, forall₂_of_mapM hparts⟩

/-- The slot to which a step leads has the part of the value, or it is empty and the part is
missing. -/
def HasPart (a : Arena) (slot : Slot) (part : Value) : Prop :=
  slot = none ∧ part = .undefined ∨ slot.isSome = true ∧ ∃ depth, valueTo depth a slot = some part

theorem isSome_of_valueTo {depth : Nat} {slot : Slot} {value : Value}
    (h : valueTo depth a slot = some value) :
    slot.isSome = true := by
  cases slot with
  | none => cases depth <;> cases h
  | some n => rfl

/-- A step into an object literal leads to the property that the pattern takes. -/
theorem hasPart_property {depth : Nat} {slot : Slot} {value : Value} {name : String}
    (hvalue : valueTo depth a slot = some value)
    (hinto : a.leadsInto slot (.property name) = true) :
    ∃ part, value.part? (.property name) = some part ∧
      a.HasPart (DeclaredType.stepInto a slot (.property name)) part := by
  simp only [leadsInto] at hinto
  split at hinto
  · next properties hform =>
    obtain ⟨depth, own, rfl, hall⟩ := exists_own_of_valueTo hform hvalue
    obtain ⟨hcount, hrel⟩ := rel_findSome?_lookup hall name
    rw [hcount] at hinto
    have hstep : DeclaredType.stepInto a slot (.property name) =
        (properties.findSome? (a.initializer? name)).getD none := by
      simp only [DeclaredType.stepInto, hform]
      rfl
    have hlookup : own.reverse.lookup name = own.lookup name :=
      lookup_reverse (by simp only [Bool.or_eq_true, Bool.and_eq_true, beq_iff_eq] at hinto; omega)
    simp only [hstep, Value.part?, hlookup]
    generalize properties.findSome? (a.initializer? name) = found at hrel
    generalize hentry : own.lookup name = entry at hrel
    cases hrel with
    | none =>
      rw [List.count_eq_zero.2 (lookup_eq_none_iff_notMem.1 hentry)] at hinto
      have hown : name ∉ Value.inheritedNames := by simpa using hinto
      exact ⟨.undefined, if_neg hown, .inl ⟨rfl, rfl⟩⟩
    | some hpart => exact ⟨_, rfl, .inr ⟨isSome_of_valueTo hpart, _, hpart⟩⟩
  · cases hinto

/-- A step into an array literal leads to the element that the pattern takes. -/
theorem hasPart_index {depth : Nat} {slot : Slot} {value : Value} {i : Nat}
    (hvalue : valueTo depth a slot = some value) (hinto : a.leadsInto slot (.index i) = true) :
    ∃ part, value.part? (.index i) = some part ∧
      a.HasPart (DeclaredType.stepInto a slot (.index i)) part := by
  simp only [leadsInto] at hinto
  split at hinto
  · next elements hform =>
    obtain ⟨depth, parts, rfl, hall⟩ := exists_parts_of_valueTo hform hvalue
    have hstep : DeclaredType.stepInto a slot (.index i) = elements[i]?.getD none := by
      simp only [DeclaredType.stepInto, hform]
    rw [hstep]
    refine ⟨_, rfl, ?_⟩
    -- an index behind the last element takes nothing, and a hole has no initializer
    by_cases hi : i < elements.length
    · have hi' : i < parts.length := hall.length_eq ▸ hi
      have hget : (if elements[i].isSome then valueTo depth a elements[i] else some .undefined) =
          some parts[i] :=
        hall.get hi hi'
      rw [List.getElem?_eq_getElem hi, List.getElem?_eq_getElem hi']
      change a.HasPart elements[i] parts[i]
      cases helement : elements[i] with
      | none =>
        rw [helement] at hget
        exact .inl ⟨rfl, (Option.some.inj hget).symm⟩
      | some n =>
        rw [helement] at hget
        exact .inr ⟨rfl, depth, hget⟩
    · have hi' : parts.length ≤ i := hall.length_eq ▸ Nat.le_of_not_lt hi
      rw [List.getElem?_eq_none (Nat.le_of_not_lt hi), List.getElem?_eq_none hi']
      exact .inl ⟨rfl, rfl⟩
  · cases hinto

theorem hasPart_of_leadsInto {depth : Nat} {slot : Slot} {value : Value} {key : BindingKey}
    (hvalue : valueTo depth a slot = some value) (hinto : a.leadsInto slot key = true) :
    ∃ part, value.part? key = some part ∧ a.HasPart (DeclaredType.stepInto a slot key) part := by
  cases key with
  | property name => exact hasPart_property hvalue hinto
  | index i => exact hasPart_index hvalue hinto

/-- What a step leads into is not `undefined`. -/
theorem isUndefined_of_leadsInto {depth : Nat} {slot : Slot} {value : Value} {key : BindingKey}
    (hvalue : valueTo depth a slot = some value) (hinto : a.leadsInto slot key = true) :
    value.isUndefined = false := by
  cases key with
  | property name =>
    simp only [leadsInto] at hinto
    split at hinto
    · next properties hform =>
      obtain ⟨_, own, rfl, -⟩ := exists_own_of_valueTo hform hvalue
      rfl
    · cases hinto
  | index i =>
    simp only [leadsInto] at hinto
    split at hinto
    · next elements hform =>
      obtain ⟨_, parts, rfl, -⟩ := exists_parts_of_valueTo hform hvalue
      rfl
    · cases hinto

/-- A value that implies a keyword type, other than that of anything, is a literal of that type. -/
theorem literalType?_of_ofLiteral {slot : Slot} {k : KeywordType}
    (h : DeclaredType.ofLiteral a false slot = .keyword k) (hk : k ≠ .any) :
    ∃ form, a.form? slot = some form ∧ form.literalType? = some k := by
  simp only [DeclaredType.ofLiteral, Bool.false_eq_true, if_false] at h
  split at h <;> first
    | next hform =>
      cases h
      exact ⟨_, hform, rfl⟩
    | cases h
      exact absurd rfl hk
    | cases h

/-- A literal has a value of its type. -/
theorem valueTo_of_literalType? {slot : Slot} {form : Form Slot} {k : KeywordType}
    (hform : a.form? slot = some form) (hk : form.literalType? = some k) (depth : Nat) :
    valueTo (depth + 1) a slot = some (.literal k) := by
  simp only [valueTo, hform]
  cases form <;> first
    | cases hk
      rfl
    | cases hk

/-- Where every step leads into a literal of its kind, an element receives a value of the type that
is found for it. By induction on the steps: all but the last lead to literals again, so that no
default further out is taken. -/
theorem type?_received {depth : Nat} {pattern element slot : Slot} {steps : List PatternStep}
    {value : Value} {k : KeywordType} (hsteps : a.LeadsTo pattern steps element)
    (hvalue : valueTo depth a slot = some value)
    (hthrough : a.leadsThrough slot (steps.map PatternStep.key) = true)
    {propertyName inner default : Slot}
    (helement : a.form? element = some (.bindingElement false propertyName inner default))
    (htype : DeclaredType.ofLiteral a false
      (if ((steps.map PatternStep.key).foldl (DeclaredType.stepInto a) slot).isSome
        then (steps.map PatternStep.key).foldl (DeclaredType.stepInto a) slot else default) =
          .keyword k)
    (hk : k ≠ .any) : (a.received? steps value).bind Value.type? = some k := by
  induction hsteps generalizing depth slot value with
  | @element pattern element step hstep =>
    obtain ⟨_, _, _, helement', -⟩ := stepTo?_cases hstep
    cases Option.some.inj (helement.symm.trans helement')
    obtain ⟨hinto, -⟩ := Bool.and_eq_true_iff.1 hthrough
    obtain ⟨part, hpart, hhas⟩ := hasPart_of_leadsInto hvalue hinto
    simp only [List.map_cons, List.map_nil, List.foldl_cons, List.foldl_nil] at htype
    rw [received?_cons]
    obtain ⟨hnone, rfl⟩ | ⟨hsome, depth', hfound⟩ := hhas
    · -- the part is missing, in the initializer and when the program runs
      rw [hnone, Option.isSome_none, if_neg Bool.false_ne_true] at htype
      obtain ⟨form, hform, htyped⟩ := literalType?_of_ofLiteral htype hk
      have hdefault : a.value? step.default = some (.literal k) :=
        valueTo_of_literalType? hform htyped a.size
      rw [take?_of_undefined hpart (isSome_of_valueTo hdefault), hdefault]
      rfl
    · rw [hsome, if_pos rfl] at htype
      obtain ⟨form, hform, htyped⟩ := literalType?_of_ofLiteral htype hk
      cases depth' with
      | zero => cases hfound
      | succ depth' =>
        cases (valueTo_of_literalType? hform htyped depth').symm.trans hfound
        rw [take?_of_isUndefined_eq_false hpart rfl]
        rfl
  | inner _ hinner ih =>
    obtain ⟨hinto, hrest⟩ := Bool.and_eq_true_iff.1 hthrough
    obtain ⟨part, hpart, hhas⟩ := hasPart_of_leadsInto hvalue hinto
    obtain ⟨next, steps, rfl⟩ := hinner.exists_cons
    obtain ⟨hnext, -⟩ := Bool.and_eq_true_iff.1 hrest
    obtain ⟨hnone, -⟩ | ⟨-, depth', hfound⟩ := hhas
    · -- the next step needs a literal of its kind, so the part cannot be missing
      rw [hnone] at hnext
      cases hkey : next.key <;> simp [hkey, leadsInto, form?, get?] at hnext
    · rw [received?_cons,
        take?_of_isUndefined_eq_false hpart (isUndefined_of_leadsInto hfound hnext)]
      exact ih hfound hrest helement htype

end Arena

namespace Project

open Arena

variable {entry : String} {options : ProjectOptions} {host : Host} {p : Project}
  {file : FileId} {a : Arena}

/-- In a loaded project, take a variable without a type annotation whose initializer is made of
literals, and an element of its pattern, at any depth, to which steps lead through literals of their
kind. When the type of the element is a keyword type, other than that of anything, then the element
receives a value of this type. -/
theorem type?_received_of_typeOf (hload : load entry options host = .ok p)
    (harena : p.arena? file = some a) {node pattern initializer element : Slot} {definite : Bool}
    (hnode : a.form? node = some (.variableDeclaration pattern definite none initializer))
    {value : Value} (hvalue : a.value? initializer = some value) {steps : List PatternStep}
    (hsteps : a.LeadsTo pattern steps element)
    (hthrough : a.leadsThrough initializer (steps.map PatternStep.key) = true) {k : KeywordType}
    (htype : p.typeOf ⟨file, element⟩ = .keyword k) (hk : k ≠ .any) :
    (a.received? steps value).bind Value.type? = some k := by
  have htree := isTree_of_load hload harena
  have hknows : a.KnowsParents := by
    obtain ⟨path, text, rfl⟩ := exists_text_of_load hload harena
    exact (settingParents_parseFile path text).knows
  obtain ⟨propertyName, inner, default, helement⟩ := hsteps.exists_form
  simp only [typeOf, harena, helement, Option.elim_some, DeclaredType.ofForm,
    DeclaredType.ofBinding] at htype
  split at htype
  · next name definite' ascription initializer' path hroot hpath =>
    obtain ⟨heq, rfl⟩ := bindingPath_of_leadsTo htree hknows hnode hsteps hroot hpath
    rw [heq] at hroot
    cases Option.some.inj (hnode.symm.trans hroot)
    exact type?_received hsteps hvalue hthrough helement htype hk
  · cases htype

/-- A variable has a pattern, an initializer and no type annotation. -/
def isUntyped (a : Arena) (node pattern initializer : Slot) : Bool :=
  match a.form? node with
  | some (.variableDeclaration name _ none value) => name == pattern && value == initializer
  | _ => false

theorem exists_form_of_isUntyped {node pattern initializer : Slot}
    (h : isUntyped a node pattern initializer = true) :
    ∃ definite, a.form? node = some (.variableDeclaration pattern definite none initializer) := by
  unfold isUntyped at h
  split at h
  · next name definite value heq =>
    obtain ⟨hname, hvalue⟩ := Bool.and_eq_true_iff.1 h
    rw [← beq_iff_eq.1 hname, ← beq_iff_eq.1 hvalue]
    exact ⟨definite, heq⟩
  · cases h

/-- A variable with a pattern of three levels. The last step takes what is missing in the
initializer, so that its default is what the name receives. -/
def nestedModule : String :=
  "export const \x7b a: [, \x7b b = 2n \x7d] \x7d = \x7b a: [1, \x7b\x7d] \x7d;\n"

/-- The steps to the name of `nestedModule`. -/
def nestedSteps : List PatternStep :=
  [⟨.property "a", none⟩, ⟨.index 1, none⟩, ⟨.property "b", some ⟨4⟩⟩]

set_option maxRecDepth 1000000 in
theorem steps_nestedModule :
    ((Project.ofFiles "/a.ts" [("/a.ts", nestedModule)]).toOption.bind fun p =>
      (p.arena? ⟨0⟩).map fun a =>
      ([a.stepTo? (some ⟨10⟩) (some ⟨9⟩), a.stepTo? (a.nameSlot (some ⟨9⟩)) (some ⟨7⟩),
          a.stepTo? (a.nameSlot (some ⟨7⟩)) (some ⟨5⟩)],
        isUntyped a (some ⟨23⟩) (some ⟨10⟩) (some ⟨22⟩), (a.value? (some ⟨22⟩)).isSome,
        a.leadsThrough (some ⟨22⟩) (nestedSteps.map PatternStep.key), p.typeOf ⟨⟨0⟩, some ⟨5⟩⟩)) =
      some (nestedSteps.map some, true, true, true, .keyword .bigint) :=
  bind_ofFiles (by decide) String.toList_ofList (by decide +kernel)

/-- The name receives a value of the type of its default. -/
theorem type?_received_nestedModule :
    ∃ p a value, Project.ofFiles "/a.ts" [("/a.ts", nestedModule)] = .ok p ∧ p.arena? ⟨0⟩ = some a ∧
      (∃ definite,
        a.form? (some ⟨23⟩) = some (.variableDeclaration (some ⟨10⟩) definite none (some ⟨22⟩))) ∧
      a.value? (some ⟨22⟩) = some value ∧ a.LeadsTo (some ⟨10⟩) nestedSteps (some ⟨5⟩) ∧
      a.leadsThrough (some ⟨22⟩) (nestedSteps.map PatternStep.key) = true ∧
        p.typeOf ⟨⟨0⟩, some ⟨5⟩⟩ = .keyword .bigint ∧
      (a.received? nestedSteps value).bind Value.type? = some .bigint := by
  obtain ⟨p, hp, h⟩ := Option.bind_eq_some_iff.1 steps_nestedModule
  obtain ⟨a, harena, h⟩ := Option.map_eq_some_iff.1 h
  simp only [Prod.mk.injEq, nestedSteps, List.map_cons, List.map_nil, List.cons.injEq] at h
  obtain ⟨⟨hfirst, hsecond, hthird, -⟩, huntyped, hvalue, hthrough, htype⟩ := h
  obtain ⟨definite, hnode⟩ := exists_form_of_isUntyped huntyped
  obtain ⟨value, hvalue⟩ := Option.isSome_iff_exists.1 hvalue
  have hsteps : a.LeadsTo (some ⟨10⟩) nestedSteps (some ⟨5⟩) :=
    .inner hfirst (.inner hsecond (.element hthird))
  have hload := eq_ok_of_toOption hp
  exact ⟨p, a, value, hload, harena, ⟨definite, hnode⟩, hvalue, hsteps, hthrough, htype,
    type?_received_of_typeOf hload harena hnode hvalue hsteps hthrough htype nofun⟩

/-- A variable whose initializer sets a property twice. -/
def repeatedModule : String := "export const \x7b a \x7d = \x7b a: 1, a: true \x7d;\n"

set_option maxRecDepth 1000000 in
/-- The type of the name is that of numbers, and it receives a truth value. -/
theorem exists_name_of_other_type :
    ((Project.ofFiles "/a.ts" [("/a.ts", repeatedModule)]).toOption.bind fun p =>
      (p.arena? ⟨0⟩).map fun a =>
      (isUntyped a (some ⟨17⟩) (some ⟨2⟩) (some ⟨16⟩), a.stepTo? (some ⟨2⟩) (some ⟨1⟩),
        p.typeOf ⟨⟨0⟩, some ⟨1⟩⟩,
        ((a.value? (some ⟨16⟩)).bind (a.received? [⟨.property "a", none⟩])).bind Value.type?)) =
      some (true, some ⟨.property "a", none⟩, .keyword .number, some .boolean) :=
  bind_ofFiles (by decide) String.toList_ofList (by decide +kernel)

end Project

end DeclBundle
