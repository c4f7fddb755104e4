import DeclBundle.Proofs.Regions
import DeclBundle.Proofs.Traversal

/-!
# Namespaces around nodes

Most nodes lie where the node above them lies. The body of a namespace and the members of an enum
lie in it; parameters of all kinds lie in no namespace, and so do files, modules with quoted names
and what is declared global, with all that lies right in them (`Placement`). So every node lies in
at most one namespace or enum innermost (`Arena.Innermost`), and going outwards from one to the next
ends at an outermost one (`Arena.Nested`).
-/

set_option autoImplicit false

namespace DeclBundle

/-- How a node lies to the one right above it. -/
inductive Placement where
  /-- It lies where that one lies. -/
  | same
  /-- It lies in that one, a namespace or an enum. -/
  | inside
  /-- It lies in no namespace. -/
  | outside
  /-- It is a parameter or a type parameter, which lies in no namespace. -/
  | parameter
  deriving DecidableEq

namespace Form

variable {α : Type}

/-- The parameters and type parameters that a form has. -/
def parameters : Form α → List α
  | functionDeclaration _ _ s _ | methodDeclaration _ _ _ s _ | methodSignature _ _ s
  | callSignature s
  | constructSignature s | functionType s | constructorType _ s => s.typeParameters ++ s.parameters
  | constructorDeclaration _ xs _ | getAccessor _ _ xs _ | setAccessor _ _ xs
  | indexSignature _ xs _
  | classDeclaration _ _ xs _ _ | interfaceDeclaration _ _ xs _ _ | typeAlias _ _ xs _ => xs
  | mappedType _ x _ _ _ | inferType x => [x]
  | _ => []

/-- The statements of a file, the body of a module or a namespace, the members of an enum. -/
def inner : Form α → List α
  | sourceFile xs _ => xs
  | moduleDeclaration _ _ _ body => [body]
  | enumDeclaration _ _ members => members
  | _ => []

/-- Linking declares parameters only. -/
theorem mem_parameters_of_declared {form : Form Slot} {slot : Slot}
    (h : slot ∈ form.plainScheme.declared) :
    slot ∈ form.parameters := by
  cases form
  case moduleDeclaration modifiers flavor name body => cases flavor <;>
    simp [plainScheme, Scheme.declared] at h
  all_goals
    simp_all [plainScheme, Scheme.declared, Scheme.ofSignature, Scheme.ofClass,
      Scheme.typeParameters, parameters, Function.comp_def]

theorem mem_children_of_parameters {form : Form α} {x : α} (h : x ∈ form.parameters) :
    x ∈ form.children := by
  cases form
  case functionDeclaration | methodDeclaration | methodSignature | callSignature |
    constructSignature | functionType | constructorType =>
    simp only [parameters, List.mem_append] at h
    simp only [children, Signature.children, List.mem_cons, List.mem_append]
    tauto
  all_goals simp_all [parameters, children]

/-- A name stands beside them. -/
theorem count_name [BEq α] [LawfulBEq α] {form : Form α} {name : α} (hname : form.name? = some name)
    (h : name ∈ form.parameters ++ form.inner) : 2 ≤ form.children.count name := by
  -- among the children the name comes first, and parameters and inner parts come after it
  have hcount := List.count_pos_iff.2 h
  cases form <;> simp only [name?, reduceCtorEq, Option.some.injEq] at hname <;>
    simp only [parameters, inner, List.append_nil, List.nil_append, List.count_nil,
      Nat.lt_irrefl] at hcount <;>
    subst hname <;>
    simp only [children, Signature.children, List.count_cons_self,
      List.count_append] at hcount ⊢ <;> omega

end Form

namespace Arena

variable (a : Arena)

/-- The node is a file or a module with a quoted name. -/
def isModule (slot : Slot) : Bool :=
  match a.form? slot with
  | some (.sourceFile ..) => true
  | some (.moduleDeclaration _ flavor name _) =>
    flavor ≠ .global && match a.form? name with
      | some (.stringLiteral _) => true
      | _ => false
  | _ => false

/-- The node declares what is global. -/
def isGlobal (slot : Slot) : Bool :=
  match a.form? slot with
  | some (.moduleDeclaration _ flavor _ _) => flavor = .global
  | _ => false

/-- How the node `n` lies right below `m`, which has the given form. -/
def placement (m : NodeId) (form : Form Slot) (n : NodeId) : Placement :=
  if form.parameters.contains (some n) then .parameter
  else if a.isModule (some n) then .outside
  else if !form.inner.contains (some n) then .same
  else if a.isModule (some m) || a.isGlobal (some m) then .outside
  else .inside

/-- The node `n` stands right below `m` and lies so to it. -/
def Places (m : NodeId) (place : Placement) (n : NodeId) : Prop :=
  ∃ form, a.form? (some m) = some form ∧ some n ∈ form.children ∧ a.placement m form n = place

/-- The node is a parameter of some kind. -/
def IsParameter (n : NodeId) : Prop := ∃ m, a.Places m .parameter n

/-- The innermost namespace or enum in which a node lies, if there is one. -/
inductive Innermost : Option NodeId → NodeId → Prop
  | root {n : NodeId} (h : ∀ m place, ¬ a.Places m place n) : Innermost none n
  | outside {m n : NodeId} (h : a.Places m .outside n) : Innermost none n
  | parameter {m n : NodeId} (h : a.Places m .parameter n) : Innermost none n
  | inside {m n : NodeId} (h : a.Places m .inside n) : Innermost (some m) n
  | same {m n : NodeId} {around : Option NodeId} (h : a.Places m .same n)
    (hm : Innermost around m) : Innermost around n

/-- A node lies in as many namespaces and enums, of which `outer` is the outermost one; a node in no
namespace is its own outermost one. -/
inductive Nested : (levels : Nat) → (outer : NodeId) → NodeId → Prop
  | top {n : NodeId} (h : a.Innermost none n) : Nested 0 n n
  | inside {levels : Nat} {outer m n : NodeId} (h : a.Innermost (some m) n)
    (hm : Nested levels outer m) :
    Nested (levels + 1) outer n

variable {a} {m n : NodeId} {place : Placement} {around : Option NodeId}

/-! ## In a tree -/

theorem Places.unique (h : a.IsTree) {m' : NodeId} {place' : Placement} (hn : a.Places m place n)
    (hn' : a.Places m' place' n) : m = m' ∧ place = place' := by
  obtain ⟨form, hform, hmem, rfl⟩ := hn
  obtain ⟨form', hform', hmem', rfl⟩ := hn'
  obtain rfl : m = m' := Option.some.inj (h.parent_unique hform hmem hform' hmem')
  obtain rfl := Option.some.inj (hform.symm.trans hform')
  exact ⟨rfl, rfl⟩

/-- A node lies in one namespace or enum innermost, or in none. -/
theorem Innermost.unique (h : a.IsTree) (hn : a.Innermost around n) {around' : Option NodeId}
    (hn' : a.Innermost around' n) :
    around = around' := by
  -- on the way outwards: a node stands right below one node, and lies so to it in one way
  induction hn generalizing around' with
  | root hroot =>
    cases hn' with
    | root | outside | parameter => rfl
    | inside hplaces | same hplaces => exact absurd hplaces (hroot _ _)
  | outside hplaces | parameter hplaces =>
    cases hn' with
    | root | outside | parameter => rfl
    | inside hplaces' | same hplaces' => cases (hplaces.unique h hplaces').2
  | inside hplaces =>
    cases hn' with
    | root hroot => exact absurd hplaces (hroot _ _)
    | outside hplaces' | parameter hplaces' | same hplaces' => cases (hplaces.unique h hplaces').2
    | inside hplaces' => rw [(hplaces.unique h hplaces').1]
  | same hplaces _ ih =>
    cases hn' with
    | root hroot => exact absurd hplaces (hroot _ _)
    | outside hplaces' | parameter hplaces' | inside hplaces' => cases (hplaces.unique h hplaces').2
    | same hplaces' hm' =>
      obtain ⟨rfl, -⟩ := hplaces.unique h hplaces'
      exact ih hm'

/-- So it has one outermost namespace or enum, and lies in a certain number of them. -/
theorem Nested.unique (h : a.IsTree) {levels levels' : Nat} {outer outer' : NodeId}
    (hn : a.Nested levels outer n) (hn' : a.Nested levels' outer' n) :
    levels = levels' ∧ outer = outer' := by
  induction hn generalizing levels' with
  | top htop =>
    cases hn' with
    | top => exact ⟨rfl, rfl⟩
    | inside hinside => cases htop.unique h hinside
  | inside hinside _ ih =>
    cases hn' with
    | top htop => cases htop.unique h hinside
    | inside hinside' hm' =>
      obtain rfl := Option.some.inj (hinside.unique h hinside')
      obtain ⟨rfl, rfl⟩ := ih hm'
      exact ⟨rfl, rfl⟩

theorem placement_of_mem_parameters {form : Form Slot} (h : some n ∈ form.parameters) :
    a.placement m form n = .parameter :=
  if_pos (List.contains_iff_mem.2 h)

/-- A file or a module with a quoted name lies in no namespace. -/
theorem innermost_of_isModule (h : a.isModule (some n) = true) : a.Innermost none n := by
  by_cases hroot : ∃ m form, a.form? (some m) = some form ∧ some n ∈ form.children
  · obtain ⟨m, form, hform, hn⟩ := hroot
    by_cases hparameter : some n ∈ form.parameters
    · exact .parameter ⟨form, hform, hn, placement_of_mem_parameters hparameter⟩
    · refine .outside ⟨form, hform, hn, ?_⟩
      simp [placement, hparameter, h]
  · exact .root fun m place ⟨form, hform, hn, _⟩ => hroot ⟨m, form, hform, hn⟩

/-! ## Children of forms -/

section Children

variable {form : Form Slot} (hform : a.form? (some m) = some form) (hn : some n ∈ form.children)

include hform hn

theorem not_isParameter (h : a.IsTree) (hparameters : some n ∉ form.parameters) :
    ¬ a.IsParameter n := by
  rintro ⟨k, form', hform', hn', hplace⟩
  obtain rfl : m = k := Option.some.inj (h.parent_unique hform hn hform' hn')
  obtain rfl := Option.some.inj (hform.symm.trans hform')
  rw [placement, if_neg (mt List.contains_iff_mem.1 hparameters)] at hplace
  grind

theorem places_same (hparameters : some n ∉ form.parameters) (hinner : some n ∉ form.inner)
    (hmodule : a.isModule (some n) = false) : a.Places m .same n := by
  refine ⟨form, hform, hn, ?_⟩
  simp [placement, hparameters, hmodule, hinner]

/-- What lies right in a file, in a module with a quoted name or in what is declared global lies in
no namespace. -/
theorem innermost_of_outer (hparameters : some n ∉ form.parameters) (hinner : some n ∈ form.inner)
    (houter : (a.isModule (some m) || a.isGlobal (some m)) = true) : a.Innermost none n := by
  refine .outside ⟨form, hform, hn, ?_⟩
  simp [placement, hparameters, hinner, houter]

theorem places_inside (hparameters : some n ∉ form.parameters) (hinner : some n ∈ form.inner)
    (houter : (a.isModule (some m) || a.isGlobal (some m)) = false)
    (hmodule : a.isModule (some n) = false) :
    a.Places m .inside n := by
  refine ⟨form, hform, hn, ?_⟩
  simp [placement, hparameters, hmodule, hinner, houter]

end Children

/-- A node whose name is not in quotes is no module. -/
theorem isModule_of_name {slot : Slot} {form : Form Slot}
    (hname : a.form? (a.nameSlot slot) = some form) (hform : ∀ text, form ≠ .stringLiteral text) :
    a.isModule slot = false := by
  unfold isModule
  split
  · next hslot =>
    rw [nameSlot, hslot] at hname
    cases hname
  · next modifiers flavor name body hslot =>
    have hname' : a.form? name = some form := by
      rw [nameSlot, hslot] at hname
      exact hname
    rw [hname']
    split
    · next heq => exact absurd (Option.some.inj heq) (hform _)
    · exact Bool.and_false _
  · rfl

/-- A name lies where the node that has it lies. -/
theorem places_name (h : a.IsTree) (hname : a.nameSlot (some m) = some n)
    (hmodule : a.isModule (some n) = false) :
    a.Places m .same n := by
  obtain ⟨form, hform, hname⟩ : ∃ form, a.form? (some m) = some form ∧
      form.name? = some (some n) := by
    rw [nameSlot] at hname
    cases hform : a.form? (some m) with
    | none =>
      rw [hform] at hname
      cases hname
    | some form =>
      rw [hform] at hname
      cases hfound : form.name? with
      | none =>
        rw [Option.bind_some, hfound] at hname
        cases hname
      | some found =>
        rw [Option.bind_some, hfound] at hname
        exact ⟨form, rfl, hfound.trans (congrArg some hname)⟩
  have hbeside : some n ∉ form.parameters ++ form.inner := by
    intro hmem
    have htwo := Form.count_name hname hmem
    have hone := h.count_children_le_one hform (n := n)
    omega
  rw [List.mem_append, not_or] at hbeside
  exact places_same hform (Form.mem_children_of_name? hname) hbeside.1 hbeside.2 hmodule

/-! ## Going down in one place -/

/-- The node `n` is `s`, or is below it and lies where `s` lies. -/
abbrev Through (a : Arena) : NodeId → NodeId → Prop :=
  Relation.ReflTransGen fun m n => a.Places m .same n

variable {s : NodeId}

theorem Through.innermost (h : a.Through s n) (hs : a.Innermost around s) :
    a.Innermost around n := by
  induction h with
  | refl => exact hs
  | tail _ hn ih => exact .same hn ih

theorem Through.within (h : a.Through s n) : a.Within (some s) n := by
  induction h with
  | refl => exact .here s
  | tail _ hn ih =>
    obtain ⟨form, hform, hmem, -⟩ := hn
    exact .child ih hform hmem

/-- The names that a variable declaration introduces lie where it lies. -/
theorem through_of_boundNamesTo (h : a.IsTree) {depth : Nat} {declaration : Slot}
    {bound : NodeId × String} (hbound : bound ∈ boundNamesTo a depth declaration) :
    ∃ d, declaration = some d ∧ a.isModule declaration = false ∧ a.Through d bound.1 := by
  induction depth generalizing declaration with
  | zero => cases hbound
  | succ depth ih =>
    -- the elements of a pattern lie where the declaration lies
    have helements : ∀ {pattern : Form Slot}, a.form? (a.nameSlot declaration) = some pattern →
        a.isModule (a.nameSlot declaration) = false → pattern.parameters = [] → pattern.inner = [] →
        (∀ text, pattern ≠ .stringLiteral text) →
          bound ∈ pattern.children.flatMap (boundNamesTo a depth) →
        ∃ d, declaration = some d ∧ a.isModule declaration = false ∧ a.Through d bound.1 := by
      intro pattern hpattern hmodule hparameters hinner htext hbound
      obtain ⟨element, helement, hbound⟩ := List.mem_flatMap.1 hbound
      obtain ⟨e, rfl, hplain, hthrough⟩ := ih hbound
      cases declaration with
      | none => cases hpattern
      | some d =>
        refine ⟨d, rfl, isModule_of_name hpattern htext, ?_⟩
        cases hname : a.nameSlot (some d) with
        | none =>
          rw [hname] at hpattern
          cases hpattern
        | some p =>
          rw [hname] at hpattern hmodule
          have hp : a.Places d .same p := places_name h hname hmodule
          have he : a.Places p .same e :=
            places_same hpattern helement (by simp [hparameters]) (by simp [hinner]) hplain
          exact .head hp (.head he hthrough)
    unfold boundNamesTo at hbound
    dsimp only at hbound
    split at hbound
    · next d text hname =>
      obtain rfl := List.mem_singleton.1 hbound
      exact ⟨d, rfl, isModule_of_name hname (by simp), .refl⟩
    · next elements hname =>
        exact helements hname (by simp [isModule, hname]) rfl rfl (by simp) hbound
    · next elements hname =>
        exact helements hname (by simp [isModule, hname]) rfl rfl (by simp) hbound
    · cases hbound

end Arena

end DeclBundle
