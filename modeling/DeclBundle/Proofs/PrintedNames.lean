import DeclBundle.Bundle.Basic
import DeclBundle.Project.Loading
import DeclBundle.Proofs.SingleFiles
import DeclBundle.Proofs.Visiting

/-!
# Printed names

Every name that is printed for a declaration in the place of a reference should be visited when the
declaration is walked, and accounted for (`NamesSeen`). That is so for all names but two kinds
(`namesSeen_iff`): those that are printed at a place that the walk overlooks, as in the values of
enum members, and those that are lost.
-/

set_option autoImplicit false

namespace DeclBundle

open Print (Part Prints)
open Relation (ReflTransGen)

namespace Project

variable (p : Project)

/-- What is printed for a declaration: a variable, the type of a name in a pattern, or a statement.
A value that is exported without a name has the type of a literal. -/
def printedRoots (ref : NodeRef) : List (Part × Slot) :=
  match p.arena? ref.file with
  | none => []
  | some a =>
    match a.form? ref.node with
    | some (.variableDeclaration ..) =>
      match a.form? (a.parent ref.node) with
      | some (.variableStatement _ flavor _) => [(.variable_ flavor, ref.node)]
      | _ => []
    | some (.bindingElement ..) =>
      match p.typeOf ref with
      | .part type _ => [(.type, type.node)]
      | _ => []
    | none | some (.exportAssignment ..) => []
    | some _ => [(.statement {}, ref.node)]

/-- A name is printed in the place of a reference for a declaration. -/
def Emits (ref : NodeRef) (name : Slot) : Prop :=
  ∃ a, p.arena? ref.file = some a ∧ ∃ root ∈ p.printedRoots ref, Mentions a root name

/-- The same, and the walk of the declaration overlooks nothing on the way to the name. -/
def EmitsPlainly (ref : NodeRef) (name : Slot) : Prop :=
  ∃ a form, p.arena? ref.file = some a ∧ a.form? ref.node = some form ∧ isHidden a form = false ∧
    ∃ root ∈ p.printedRoots ref, MentionsPlainly a root name

/-- The walk of a declaration of `owner` visits a name, and the name is accounted for. -/
def Sees (c : Collection) (owner : SymbolId) (ref : NodeRef) (name : Slot) : Prop :=
  (∃ a, p.arena? ref.file = some a ∧ Visits a ref.node name) ∧ Accounted p c owner ⟨ref.file, name⟩

/-- Every name that is printed in the place of a reference is visited and accounted for. -/
def NamesSeen (c : Collection) : Prop :=
  ∀ id ∈ c.kept, ∀ ref ∈ p.writtenDeclarations id, ∀ name, p.Emits ref name → p.Sees c id ref name

variable {p}

theorem ofLiteral_ne_part (a : Arena) (isConstant : Bool) (value : Slot) (type : NodeRef)
    (path : List BindingKey) :
    DeclaredType.ofLiteral a isConstant value ≠ .part type path := by
  unfold DeclaredType.ofLiteral
  dsimp only
  intro h
  cases isConstant
  all_goals split at h <;> cases h

/-- A name in a pattern has a part of the type that is written at the pattern. -/
theorem walk_of_typeOf_bindingElement {a : Arena} {ref type : NodeRef} {path : List BindingKey}
    {isRest : Bool} {propertyName name default : Slot} (harena : p.arena? ref.file = some a)
    (hform : a.form? ref.node = some (.bindingElement isRest propertyName name default))
    (htype : p.typeOf ref = .part type path) :
    Walk.ofForm a ref.node (.bindingElement isRest propertyName name default) =
      .into [type.node] := by
  simp only [typeOf, harena, hform, Option.elim, DeclaredType.ofForm,
    DeclaredType.ofBinding] at htype
  split at htype
  · next hroot _ =>
    split at htype
    · simp only [DeclaredType.part.injEq] at htype
      simp [Walk.ofForm, hroot, ← htype.1]
    · exact absurd htype (ofLiteral_ne_part _ _ _ _ _)
  · cases htype

/-- A walk of a declaration goes on to what is printed for it. -/
theorem walks_to_printedRoot {a : Arena} {ref : NodeRef} {form : Form Slot} {root : Part × Slot}
    (harena : p.arena? ref.file = some a) (hform : a.form? ref.node = some form)
    (hhidden : isHidden a form = false) (hroot : root ∈ p.printedRoots ref) :
    ReflTransGen (WalksOn a) ref.node root.2 := by
  unfold printedRoots at hroot
  rw [harena] at hroot
  dsimp only at hroot
  split at hroot
  · split at hroot
    · obtain rfl := List.mem_singleton.1 hroot
      exact .refl
    · cases hroot
  · next heq =>
    split at hroot
    · next type path htype =>
      obtain rfl := List.mem_singleton.1 hroot
      have hwalk := walk_of_typeOf_bindingElement harena heq htype
      obtain rfl := Option.some.inj (hform.symm.trans heq)
      refine .single ?_
      simp [WalksOn, Walk.at_, heq, hhidden, hwalk, Walk.next]
    · cases hroot
  · cases hroot
  · cases hroot
  · obtain rfl := List.mem_singleton.1 hroot
    exact .refl

/-- What is printed plainly is visited. -/
theorem visits_of_emitsPlainly {ref : NodeRef} {name : Slot} (h : p.EmitsPlainly ref name) :
    ∃ a, p.arena? ref.file = some a ∧ Visits a ref.node name := by
  obtain ⟨a, form, harena, hform, hhidden, root, hroot, hmentions⟩ := h
  obtain ⟨n, hpath, hvisits⟩ := visits_of_mentionsPlainly hmentions
  exact ⟨a, harena, n, (walks_to_printedRoot harena hform hhidden hroot).trans hpath, hvisits⟩

/-- **The collection sees all that is printed, if and only if** the names that are printed at
overlooked places are seen in another way, and so are those that are lost. -/
theorem namesSeen_iff (p : Project) (exports_ : List ModuleExport) :
    p.NamesSeen (p.collect exports_) ↔
      ∀ id ∈ (p.collect exports_).kept, ∀ ref ∈ p.writtenDeclarations id, ∀ name, p.Emits ref name →
        (¬ p.EmitsPlainly ref name → p.Sees (p.collect exports_) id ref name) ∧
          (Lost p id ⟨ref.file, name⟩ → Accounted p (p.collect exports_) id ⟨ref.file, name⟩) := by
  constructor
  · intro h id hid ref href name hname
    exact ⟨fun _ => h id hid ref href name hname, fun _ => (h id hid ref href name hname).2⟩
  · intro h id hid ref href name hname
    obtain ⟨hoverlooked, hlost⟩ := h id hid ref href name hname
    by_cases hplain : p.EmitsPlainly ref name
    · obtain ⟨a, harena, hvisits⟩ := visits_of_emitsPlainly hplain
      have hsettled := Collecting.complete_collect hid ref href a harena name hvisits
      exact ⟨⟨a, harena, hvisits⟩, hsettled.elim (fun h => h) hlost⟩
    · exact hoverlooked hplain

/-! ## A name that is not seen -/

theorem not_accounted {p : Project} {c : Collection} {owner : SymbolId} {name : NodeRef}
    (hreferences : c.references.entries = []) (hreserved : c.reserved = [])
    (hfirst : (p.firstOf name).isSome = true) (hsymbol : p.firstSymbol? name = none) :
    ¬ Accounted p c owner name := by
  intro h
  cases h with
  | recorded key r hr _ =>
    have hnone : c.references.get? key = none := by simp [Table.get?, hreferences]
    simp [Collection.referencesTo, hnone] at hr
  | reserved text _ hmem => simp [hreserved] at hmem
  | parameter first hfirst _ => simp [hsymbol] at hfirst
  | member first hfirst _ => simp [hsymbol] at hfirst
  | outside hnone _ => simp [hnone] at hfirst

/-- An enum whose value is a member of an enum that is not exported. -/
def enumModule : String := "enum B \x7b X = 1 \x7d\nexport enum E \x7b A = B.X \x7d\n"

set_option maxRecDepth 1000000 in
theorem names_enumModule :
    ((Project.ofFiles "/a.ts" [("/a.ts", enumModule)]).toOption.bind fun p =>
      (p.bundle true).toOption.bind fun b => (p.arena? ⟨0⟩).map fun a => decide (
        b.collection.kept = [⟨3⟩] ∧ p.writtenDeclarations ⟨3⟩ = [⟨⟨0⟩, some ⟨15⟩⟩] ∧
        p.printedRoots ⟨⟨0⟩, some ⟨15⟩⟩ = [(.statement {}, some ⟨15⟩)] ∧
        Prints a (.statement {}, some ⟨15⟩) (.enumMember ⟨1, true⟩ true, some ⟨14⟩) ∧
        Prints a (.enumMember ⟨1, true⟩ true, some ⟨14⟩)
          (.expression, some ⟨13⟩) ∧ namesAt a (some ⟨14⟩) = [some ⟨13⟩] ∧
        b.collection.references.entries = [] ∧ b.collection.reserved = [] ∧
        p.firstOf ⟨⟨0⟩, some ⟨13⟩⟩ = some ⟨11⟩ ∧ p.firstSymbol? ⟨⟨0⟩, some ⟨13⟩⟩ = none)) =
          some true :=
  Project.bind_ofFiles (by decide) String.toList_ofList (by decide +kernel)

/-- In the bundle of this module the name of the enum in the value is neither recorded nor
reserved. -/
theorem exists_unseen_name :
    ∃ p b, Project.ofFiles "/a.ts" [("/a.ts", enumModule)] = .ok p ∧ p.bundle true = .ok b ∧
      ¬ p.NamesSeen b.collection := by
  have h := names_enumModule
  cases hp : Project.ofFiles "/a.ts" [("/a.ts", enumModule)] with
  | error e => simp [hp, Except.toOption] at h
  | ok p =>
    cases hb : p.bundle true with
    | error e => simp [hp, hb, Except.toOption] at h
    | ok b =>
      simp only [hp, hb, Except.toOption, Option.bind_some] at h
      obtain ⟨a, harena, hfacts⟩ := Option.map_eq_some_iff.1 h
      obtain ⟨hkept, hwritten, hroots, hmember, hvalue, hnames, hreferences, hreserved,
          hfirst, hsymbol⟩ :=
        of_decide_eq_true hfacts
      refine ⟨p, b, rfl, hb, fun hseen => ?_⟩
      have hemits : p.Emits ⟨⟨0⟩, some ⟨15⟩⟩ (some ⟨13⟩) :=
        ⟨a, harena, _, by rw [hroots]; exact List.mem_singleton.2 rfl, _, _, .single hmember,
          hvalue, by simp [hnames]⟩
      have hsees := hseen ⟨3⟩ (by simp [hkept]) ⟨⟨0⟩, some ⟨15⟩⟩ (by simp [hwritten]) _ hemits
      exact not_accounted hreferences hreserved (by rw [hfirst]; rfl) hsymbol hsees.2

end Project

end DeclBundle
