import DeclBundle.Proofs.Meanings
import DeclBundle.Proofs.Printing

/-!
# What a walk overlooks

A declaration is walked to collect its references and it is printed. Both go down from a node to
nodes below it, but not always to the same ones. `Overlooks` lists the places below a node to which
a walk does not go on; everything else that is printed is walked (`walksOn_of_printsPlainly`), and
so every name that is printed there in the place of a reference is visited
(`visits_of_mentionsPlainly`).
-/

set_option autoImplicit false

namespace DeclBundle

open Print (Part Prints skipsLevel)
open Relation (ReflTransGen)

variable {a : Arena}

/-! ## Walks -/

/-- The nodes to which a walk goes on. -/
def Walk.next (a : Arena) : Walk → List Slot
  | stop | unhandled => []
  | into nodes => nodes
  | .members before body => before ++ body.filter fun m => !Print.isOverloadBody a body m
  | entity _ typeArguments | importType typeArguments => typeArguments

/-- A walk goes on from one slot to another. -/
def WalksOn (a : Arena) (n m : Slot) : Prop := m ∈ (Walk.at_ a n).next a

/-! ## Places that are printed and not walked -/

/-- A walk does not go on from a node of this form to the slot `m` below it. -/
def Overlooks (a : Arena) (form : Form Slot) (m : Slot) : Prop :=
  isHidden a form = true ∨
    match form with
    -- members of enums, and everything about imports and exports
    | .enumDeclaration .. | .enumMember .. | .importDeclaration .. | .importClause ..
    | .namespaceImport _
    | .namedImports _ | .importSpecifier .. | .importEquals .. | .externalReference _
    | .exportDeclaration ..
    | .namedExports _ | .namespaceExport _ | .exportSpecifier .. | .exportAssignment ..
    | .globalNamespaceExport _ => True
    -- the inside of a pattern, of a literal and of a dotted name
    | .objectPattern _ | .arrayPattern _ | .bindingElement .. | .literalType _ | .objectLiteral _
    | .arrayLiteral _
    | .propertyAssignment .. | .qualifiedName .. | .propertyAccess .. | .computedName _ => True
    -- names that refer to something; they are looked at as a whole
    | .typeReference name _ | .heritageType name _ | .typeQuery name _ => m = name
    | .importType _ argument qualifier _ => m = argument ∨ m = qualifier
    -- names that declare something, and values
    | .moduleDeclaration _ _ name _ => m = name
    | .parameter _ _ name _ _ initializer | .variableDeclaration name _ _ initializer =>
      m = name ∨ m = initializer
    | .propertyDeclaration _ _ _ _ _ initializer => m = initializer
    -- implementations beside overloads
    | .classDeclaration _ name _ _ members => m = name ∨ Print.isOverloadBody a members m = true
    | .moduleBlock statements => Print.isOverloadBody a statements m = true
    | .sourceFile .. => True
    | _ => False

/-- A walk goes on to every child that it does not overlook. -/
theorem walksOn_or_overlooks {n m : Slot} {form : Form Slot} (h : a.form? n = some form)
    (hm : m ∈ form.children) :
    WalksOn a n m ∨ Overlooks a form m := by
  by_cases hhidden : isHidden a form = true
  · exact .inr (.inl hhidden)
  · simp only [WalksOn, Walk.at_, h, hhidden]
    cases form <;>
      simp [Walk.ofForm, Walk.next, Form.children, Overlooks, hhidden] at hm ⊢ <;>
      grind

/-- What is printed two levels below a node is overlooked. -/
theorem overlooks_of_skipsLevel {form : Form Slot} (h : skipsLevel form = true) (m : Slot) :
    Overlooks a form m := by
  cases form <;> simp_all [skipsLevel, Overlooks, isHidden, Form.modifiers, Form.modifiers?]

/-- A part is printed at a place that the walk does not overlook. -/
def PrintsPlainly (a : Arena) (x y : Part × Slot) : Prop :=
  Prints a x y ∧ ∀ form, a.form? x.2 = some form → ¬ Overlooks a form y.2

/-- What is printed at a place that is not overlooked is walked. -/
theorem walksOn_of_printsPlainly {x y : Part × Slot} (h : PrintsPlainly a x y) :
    WalksOn a x.2 y.2 := by
  obtain ⟨form, hform, hbelow⟩ := Print.exists_form?_of_prints h.1
  have hplain : ¬ Overlooks a form y.2 := h.2 form hform
  have hchild : y.2 ∈ form.children :=
    hbelow.resolve_right fun hskips => hplain (overlooks_of_skipsLevel hskips y.2)
  exact (walksOn_or_overlooks hform hchild).resolve_right hplain

/-! ## Names in the places of references -/

/-- The value is an identifier or a dotted name. -/
def isNamedValue (a : Arena) (value : Slot) : Bool :=
  match a.form? value with
  | some (.identifier _) | some (.propertyAccess ..) => true
  | _ => false

/-- The names that stand for something at a node: names of types, of what a class extends, of what
`typeof` reads, of computed members, in values of enum members, in exports and behind
`import ... =`. An import type is such a name itself. -/
def namesAt (a : Arena) (n : Slot) : List Slot :=
  match a.form? n with
  | some (.typeReference name _) | some (.heritageType name _) | some (.typeQuery name _)
  | some (.importEquals _ _ _ name) => [name].filter (isDottedName a)
  | some (.computedName value) | some (.enumMember _ value) | some (.exportAssignment _ value) =>
    [value].filter (isNamedValue a)
  | some (.exportSpecifier _ propertyName name) =>
    [if propertyName.isSome then propertyName else name].filter (isDottedName a)
  | some (.importType ..) => [n]
  | _ => []

/-- The names at a node of this form are not looked at. -/
def OverlooksNames (a : Arena) (form : Form Slot) : Prop :=
  isHidden a form = true ∨
    match form with
    | .enumMember .. | .exportSpecifier .. | .exportAssignment .. => True
    | _ => False

/-- A name is printed in the place of a reference, somewhere below `root`. -/
def Mentions (a : Arena) (root : Part × Slot) (name : Slot) : Prop :=
  ∃ x y, ReflTransGen (Prints a) root x ∧ Prints a x y ∧ name ∈ namesAt a x.2

/-- A name is printed in the place of a reference, and nothing on the way to it is overlooked. -/
def MentionsPlainly (a : Arena) (root : Part × Slot) (name : Slot) : Prop :=
  ∃ x, ReflTransGen (PrintsPlainly a) root x ∧ name ∈ namesAt a x.2 ∧
    ∀ form, a.form? x.2 = some form → ¬ OverlooksNames a form

/-- The walk visits a name at a node. -/
def VisitsAt (a : Arena) (n name : Slot) : Prop :=
  match Walk.at_ a n with
  | .entity visited _ => name = visited ∧ isDottedName a name = true
  | .importType _ => name = n
  | _ => False

/-- A walk that starts at `root` visits a name. -/
def Visits (a : Arena) (root name : Slot) : Prop :=
  ∃ n, ReflTransGen (WalksOn a) root n ∧ VisitsAt a n name

theorem isDottedName_of_isNamedValue {value : Slot} (h : isNamedValue a value = true) :
    isDottedName a value = true := by
  unfold isNamedValue at h
  unfold isDottedName
  split at h
  · next heq => simp [heq]
  · next heq => simp [heq]
  · cases h

/-- The names at a node are visited when they are looked at. -/
theorem visitsAt_of_mem_namesAt {n name : Slot} (hname : name ∈ namesAt a n)
    (h : ∀ form, a.form? n = some form → ¬ OverlooksNames a form) : VisitsAt a n name := by
  cases hform : a.form? n with
  | none => simp [namesAt, hform] at hname
  | some form =>
    have hseen := h form hform
    have hhidden : isHidden a form = false := by simpa using fun hh => hseen (.inl hh)
    unfold namesAt at hname
    unfold VisitsAt
    simp only [Walk.at_, hform, hhidden] at hname ⊢
    cases form
    case computedName value =>
      obtain ⟨hvalue, hnamed⟩ := List.mem_filter.1 hname
      obtain rfl := List.mem_singleton.1 hvalue
      have hdotted := isDottedName_of_isNamedValue hnamed
      unfold isNamedValue at hnamed
      split at hnamed <;> simp_all [Walk.ofForm]
    case importEquals _ _ _ reference =>
      obtain ⟨hreference, hdotted⟩ := List.mem_filter.1 hname
      obtain rfl := List.mem_singleton.1 hreference
      have hnamed := hdotted
      unfold isDottedName at hnamed
      split at hnamed <;> simp_all [Walk.ofForm]
    -- most forms name nothing
    all_goals try exact absurd hname List.not_mem_nil
    all_goals simp_all [Walk.ofForm, OverlooksNames]
    all_goals exact hname.1 ▸ hname.2

/-- Names that are printed plainly are visited. -/
theorem visits_of_mentionsPlainly {root : Part × Slot} {name : Slot}
    (h : MentionsPlainly a root name) :
    Visits a root.2 name := by
  obtain ⟨x, hpath, hname, hseen⟩ := h
  refine ⟨x.2, ?_, visitsAt_of_mem_namesAt hname hseen⟩
  exact hpath.lift Prod.snd fun _ _ => walksOn_of_printsPlainly

end DeclBundle
