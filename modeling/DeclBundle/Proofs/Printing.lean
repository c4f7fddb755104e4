import DeclBundle.Print.Statement
import Mathlib.Logic.Relation

/-!
# What is printed below a node

`Prints a x y` says that the slot `y` is printed, in its role, as a part of `x`. What is reached
from `x` by such steps is what the text of `x` is made of: the text of each part stands inside the
text of the whole (`textTo_infix`).
-/

set_option autoImplicit false

namespace DeclBundle.Print

/-! ## Parts of pieces -/

namespace Pieces

/-- The slots that are printed as parts. -/
def slots (ps : Pieces) : List Slot := ps.parts.map Prod.snd

@[simp] theorem slots_nil : slots [] = [] := rfl

@[simp] theorem slots_text (text : String) (ps : Pieces) : slots (.text text :: ps) = slots ps :=
  rfl

@[simp] theorem slots_part (role : Part) (slot : Slot) : slots (part role slot) = [slot] := rfl

@[simp] theorem slots_append (ps qs : Pieces) : slots (ps ++ qs) = slots ps ++ slots qs := by
  simp [slots, parts]

@[simp] theorem slots_ite {c : Prop} [Decidable c] (ps qs : Pieces) :
    slots (if c then ps else qs) = if c then slots ps else slots qs := by
  split <;> rfl

@[simp] theorem slots_flatMap {α : Type} (xs : List α) (f : α → Pieces) :
    slots (xs.flatMap f) = xs.flatMap fun x => slots (f x) := by
  induction xs with
  | nil => rfl
  | cons x xs ih => simp [List.flatMap_cons, ih]

@[simp] theorem slots_separated (separator : String) (list : List Pieces) :
    slots (separated separator list) = list.flatMap slots := by
  unfold separated
  induction list with
  | nil => rfl
  | cons ps rest ih =>
    cases rest with
    | nil => simp
    | cons qs rest => simp [List.intercalate_cons_cons, ih]

@[simp] theorem slots_listOf (role : Part) (xs : List Slot) : slots (listOf role xs) = xs := by
  simp [listOf, commas, List.flatMap_map]

@[simp] theorem slots_spaced (list : List Pieces) : slots (spaced list) = list.flatMap slots := by
  simp [spaced]

@[simp] theorem slots_whenSome (slot : Slot) (ps : Pieces) :
    slots (whenSome slot ps) = if slot.isSome then slots ps else [] := by
  simp [whenSome]

@[simp] theorem slots_line (l : Layout) (ps : Pieces) : slots (l.line ps) = slots ps := by
  simp [Layout.line]

end Pieces

/-! ## Parts of nodes -/

open Pieces

variable {a : Arena}

/-- Some of what is printed for a node of this form stands two levels below it. -/
def skipsLevel : Form Slot → Bool
  | .importClause .. | .exportDeclaration .. => true
  | .setAccessor ms _ _ => ms.contains .private_
  | _ => false

@[simp] theorem slots_ascribed (type : Slot) :
    slots (ascribed type) = if type.isSome then [type] else [] := by
  simp [ascribed]

@[simp] theorem slots_typeParameterList (xs : List Slot) : slots (typeParameterList xs) = xs := by
  cases xs <;> simp [typeParameterList]

@[simp] theorem slots_typeArgumentList (xs : List Slot) : slots (typeArgumentList xs) = xs := by
  cases xs <;> simp [typeArgumentList]

@[simp] theorem slots_parameterList (xs : List Slot) : slots (parameterList xs) = xs := by
  simp [parameterList]

@[simp] theorem slots_operand (place : Operand) (slot : Slot) :
    slots (operand a place slot) = if (a.form? slot).isSome then [slot] else [] := by
  unfold operand
  split
  · simp [*]
  · simp [*]

@[simp] theorem slots_signature (s : Signature Slot) :
    slots (signature s) = s.typeParameters ++ s.parameters ++ if s.returnType.isSome then
      [s.returnType] else [] := by
  simp [signature]

@[simp] theorem slots_arrowSignature (s : Signature Slot) :
    slots (arrowSignature s) = s.children := by
  simp [arrowSignature, Signature.children]

theorem mem_children_of_expression {n m : Slot} {form : Form Slot} (h : a.form? n = some form)
    (hm : m ∈ slots (expression a n)) : m ∈ form.children := by
  unfold expression at hm
  rw [h] at hm
  cases form <;> simp_all [Form.children]

/-- The parts of a node are children of it. -/
theorem mem_children_of_type {n m : Slot} {form : Form Slot} (h : a.form? n = some form)
    (hm : m ∈ slots (type a n)) : m ∈ form.children := by
  cases form
  case typeLiteral members =>
    unfold type at hm
    cases members <;> simp_all [Form.children, List.flatMap_map]
  all_goals
    simp only [type, h] at hm
    first
      | exact mem_children_of_expression h hm
      | simp [Form.children, Signature.children, List.flatMap_map] at hm ⊢ <;> grind

theorem mem_children_of_bindingName {n m : Slot} {form : Form Slot} (h : a.form? n = some form)
    (hm : m ∈ slots (bindingName a n)) : m ∈ form.children := by
  cases form
  case objectPattern elements =>
    unfold bindingName at hm
    cases elements <;> simp_all [Form.children]
  all_goals
    simp only [bindingName, h] at hm
    first
      | exact mem_children_of_expression h hm
      | simpa [Form.children] using hm

@[simp] theorem slots_docLines (l : Layout) (n : Slot) : slots (docLines a l n) = [] := by
  unfold docLines
  split
  · split
    · rfl
    · split <;> simp
  · rfl

theorem subset_ascribedOr (type initializer : Slot) (keeps : Bool) :
    slots (ascribedOr a type initializer keeps) ⊆ [type, initializer] := by
  intro m hm
  unfold ascribedOr at hm
  split at hm
  · simp at hm
    simp [hm.2]
  · split at hm
    · simp at hm
      simp [hm]
    · simp at hm

/-- What is printed for a member stands below it. -/
theorem below_of_member {m : Slot} {form : Form Slot} (hm : m ∈ slots (member a form)) :
    m ∈ form.children ∨ skipsLevel form = true := by
  cases form
  case propertyDeclaration ms name isOptional definite type initializer =>
    have hsub := subset_ascribedOr (a := a) type initializer (ms.contains .readonly)
    simp only [member, slots_append, slots_text, slots_nil, slots_part, slots_ite, List.mem_append,
      List.nil_append, List.append_nil, List.mem_singleton] at hm
    refine .inl ?_
    rcases hm with hm | hm
    · simp [Form.children, hm]
    · split at hm
      · cases hm
      · have := hsub hm
        simp [Form.children] at this ⊢
        grind
  all_goals
    simp only [member] at hm
    simp [Form.children, Signature.children, skipsLevel] at hm ⊢ <;> grind

@[simp] theorem slots_enumMembers (l : Layout) (members : List Slot) :
    slots (enumMembers l members) = members := by
  induction members with
  | nil => rfl
  | cons m rest ih => simp [enumMembers, ih]

@[simp] theorem slots_classMembers (l : Layout) (members : List Slot) :
    slots (classMembers a l members) = members := by
  simp [classMembers]

theorem slots_moduleHead (flavor : ModuleFlavor) (name : Slot) :
    slots (moduleHead flavor name) ⊆ [name] := by
  cases flavor <;> simp [moduleHead]

theorem below_of_declaration {m : Slot} {l : Layout} {form : Form Slot}
    (hm : m ∈ slots (declaration a l form)) :
    m ∈ form.children ∨ skipsLevel form = true := by
  cases form
  case moduleDeclaration ms flavor name body =>
    simp only [declaration, slots_append, slots_text, slots_nil, slots_part, List.nil_append,
      List.mem_append, List.mem_singleton] at hm
    refine .inl ?_
    rcases hm with hm | hm
    · have := slots_moduleHead flavor name hm
      simp_all [Form.children]
    · simp [Form.children, hm]
  all_goals
    simp only [declaration] at hm
    simp [Form.children, Signature.children, skipsLevel] at hm ⊢ <;> grind

theorem mem_children_of_heritageClause {n m : Slot} {form : Form Slot} (h : a.form? n = some form)
    (hm : m ∈ slots (heritageClause a n)) : m ∈ form.children := by
  unfold heritageClause at hm
  rw [h] at hm
  split at hm
  · cases hm
  · next heq =>
    obtain rfl := Option.some.inj heq
    simpa [Form.children] using hm
  · cases hm

theorem mem_children_of_variable {flavor : VariableFlavor} {n m : Slot} {form : Form Slot}
    (h : a.form? n = some form) (hm : m ∈ slots (variable_ a flavor n)) : m ∈ form.children := by
  unfold variable_ at hm
  rw [h] at hm
  split at hm
  · next name _ type initializer heq =>
    obtain rfl := Option.some.inj heq
    rw [slots_append, slots_part, List.singleton_append, List.mem_cons] at hm
    rcases hm with rfl | hm
    · simp [Form.children]
    · have := subset_ascribedOr _ _ _ hm
      simp_all [Form.children]
  · cases hm

theorem mem_children_of_parameterProperty {l : Layout} {n m : Slot} {form : Form Slot}
    (h : a.form? n = some form) (hm : m ∈ slots (parameterProperty a l n)) : m ∈ form.children := by
  unfold parameterProperty at hm
  rw [h] at hm
  split at hm
  · next heq =>
    obtain rfl := Option.some.inj heq
    simp [Form.children] at hm ⊢
    grind
  · cases hm

theorem mem_children_of_parameterProperties {l : Layout} {m : Slot} {form : Form Slot}
    (hm : m ∈ slots (parameterProperties l form)) : m ∈ form.children := by
  unfold parameterProperties at hm
  split at hm
  · simpa [Form.children] using hm
  · cases hm

theorem below_of_classMember {l : Layout} {b : Bool} {n m : Slot} {form : Form Slot}
    (h : a.form? n = some form) (hm : m ∈ slots (classMember a l b n)) :
    m ∈ form.children ∨ skipsLevel form = true := by
  unfold classMember at hm
  rw [h] at hm
  dsimp only at hm
  split at hm
  · exact .inl (mem_children_of_parameterProperties hm)
  · simp only [slots_append, slots_docLines, slots_line, List.append_nil, List.mem_append] at hm
    rcases hm with hm | hm
    · exact .inl (mem_children_of_parameterProperties hm)
    · exact below_of_member hm

theorem below_of_typeMember {n m : Slot} {form : Form Slot} (h : a.form? n = some form)
    (hm : m ∈ slots (typeMember a n)) : m ∈ form.children ∨ skipsLevel form = true := by
  unfold typeMember at hm
  rw [h] at hm
  split at hm
  · cases hm
  · cases hm
  · next heq =>
    obtain rfl := Option.some.inj heq
    exact below_of_member hm

theorem mem_children_of_importReference {n m : Slot} {form : Form Slot} (h : a.form? n = some form)
    (hm : m ∈ slots (importReference a n)) : m ∈ form.children := by
  unfold importReference at hm
  rw [h] at hm
  split at hm
  · next heq =>
    obtain rfl := Option.some.inj heq
    simpa [Form.children] using hm
  · exact mem_children_of_expression h hm

theorem mem_children_of_moduleBody {l : Layout} {n m : Slot} {form : Form Slot}
    (h : a.form? n = some form) (hm : m ∈ slots (moduleBody a l n)) : m ∈ form.children := by
  unfold moduleBody at hm
  rw [h] at hm
  split at hm
  · next heq =>
    obtain rfl := Option.some.inj heq
    simpa [Form.children] using hm
  · next heq =>
    obtain rfl := Option.some.inj heq
    simp only [slots_append, slots_text, slots_nil, slots_flatMap, slots_part, slots_line,
      List.nil_append, List.append_nil, List.flatMap_singleton'] at hm
    exact (List.mem_filter.1 hm).1
  · cases hm

theorem below_of_statement {l : Layout} {n m : Slot} {form : Form Slot} (h : a.form? n = some form)
    (hm : m ∈ slots (statement a l n)) : m ∈ form.children ∨ skipsLevel form = true := by
  unfold statement at hm
  rw [h] at hm
  split at hm
  · cases hm
  · cases hm
  · next heq =>
    obtain rfl := Option.some.inj heq
    rw [slots_append, slots_docLines, List.nil_append] at hm
    exact below_of_declaration hm

/-- A slot without a node leaves no text. -/
theorem slots_pieces_of_none {role : Part} {n : Slot} (h : a.form? n = none) :
    slots (pieces a role n) = [] := by
  cases role <;>
    simp [pieces, h, expression, bindingName, bindingElement, type, typeParameter, mappedKey,
      templateSpan, parameter, typeMember, heritageClause, specifier, variable_, parameterProperty,
      classMember, interfaceMember, enumMember, importClause, importReference, moduleBody,
      statement]

theorem below_of_mem_pieces {role : Part} {n m : Slot} {form : Form Slot}
    (h : a.form? n = some form) (hm : m ∈ slots (pieces a role n)) :
    m ∈ form.children ∨ skipsLevel form = true := by
  cases role
  case expression => exact .inl (mem_children_of_expression h hm)
  case bindingName => exact .inl (mem_children_of_bindingName h hm)
  case type => exact .inl (mem_children_of_type h hm)
  case member => exact below_of_typeMember h hm
  case heritageClause => exact .inl (mem_children_of_heritageClause h hm)
  case variable_ => exact .inl (mem_children_of_variable h hm)
  case parameterProperty => exact .inl (mem_children_of_parameterProperty h hm)
  case classMember => exact below_of_classMember h hm
  case interfaceMember =>
    simp only [pieces, interfaceMember, slots_append, slots_docLines, slots_line,
      List.nil_append] at hm
    exact below_of_typeMember h hm
  case importReference => exact .inl (mem_children_of_importReference h hm)
  case moduleBody => exact .inl (mem_children_of_moduleBody h hm)
  case statement => exact below_of_statement h hm
  -- the printers of one kind of node each
  all_goals
    cases form
    all_goals
      simp [pieces, h, bindingElement, typeParameter, mappedKey, templateSpan, parameter, specifier,
        enumMember, importClause] at hm
      try (simp [Form.children, skipsLevel] at hm ⊢ <;> grind)

/-! ## Steps -/

/-- The slot `y` is printed as a part of the slot `x`, each in its role. -/
def Prints (a : Arena) (x y : Part × Slot) : Prop := y ∈ (pieces a x.1 x.2).parts

instance (a : Arena) (x y : Part × Slot) : Decidable (Prints a x y) :=
  inferInstanceAs (Decidable (y ∈ (pieces a x.1 x.2).parts))

/-- A part is printed between other texts. -/
theorem textTo_infix_of_prints {x y : Part × Slot} (h : Prints a x y) (depth : Nat) :
    (textTo a depth y.1 y.2).toList <:+: (textTo a (depth + 1) x.1 x.2).toList := by
  obtain ⟨piece, hpiece, hy⟩ := List.mem_filterMap.1 h
  obtain ⟨before, after, hsplit⟩ := List.append_of_mem hpiece
  rw [textTo, hsplit]
  cases piece with
  | text text => cases hy
  | part role slot =>
    obtain rfl := Option.some.inj hy
    simp only [List.map_append, List.map_cons, String.join_append, String.join_cons,
      String.toList_append]
    exact ⟨_, _, by rw [List.append_assoc]⟩

/-- What is reached over a number of steps leaves its text inside the text of the whole. -/
theorem textTo_infix {x y : Part × Slot} (h : Relation.ReflTransGen (Prints a) x y) :
    ∃ steps, ∀ depth,
      (textTo a depth y.1 y.2).toList <:+: (textTo a (depth + steps) x.1 x.2).toList := by
  induction h with
  | refl => exact ⟨0, fun depth => List.infix_refl _⟩
  | tail _ hstep ih =>
    obtain ⟨steps, hsteps⟩ := ih
    refine ⟨1 + steps, fun depth => ?_⟩
    have hpart := textTo_infix_of_prints hstep depth
    have hwhole := hsteps (depth + 1)
    rw [← Nat.add_assoc]
    exact hpart.trans hwhole

/-- What is printed in a part stands below the node of the whole. -/
theorem exists_form?_of_prints {x y : Part × Slot} (h : Prints a x y) :
    ∃ form, a.form? x.2 = some form ∧ (y.2 ∈ form.children ∨ skipsLevel form = true) := by
  have hm : y.2 ∈ Pieces.slots (pieces a x.1 x.2) := List.mem_map_of_mem h
  cases hform : a.form? x.2 with
  | none =>
    rw [slots_pieces_of_none hform] at hm
    cases hm
  | some form => exact ⟨form, rfl, below_of_mem_pieces hform hm⟩

end DeclBundle.Print
