import DeclBundle.Proofs.Exposing
import DeclBundle.Proofs.Regions
import DeclBundle.Proofs.Rewriting

/-!
# References agree with names

In a finished bundle every copy of a reference has the text that names the target of the reference
(`Bundle.references_agree`): a copy of an identifier or of a dotted name has the parts of the text,
and a copy of an import type has become a reference by the text and by the rest of its qualifier.
Which target that is depends only on the node at which the reference stands.
-/

set_option autoImplicit false

namespace DeclBundle

/-- Texts that are added one after the other stand between dots. -/
theorem foldl_dots (text : String) (rest : List String) :
    rest.foldl (fun text part => text ++ "." ++ part) text = ".".intercalate (text :: rest) := by
  induction rest generalizing text with
  | nil => rfl
  | cons part rest ih => exact ih (text ++ "." ++ part)

/-- A copy is the copy of the same slot in a tree with the same notes. -/
theorem Build.SameNotes.isCopy {t t' : BundleTree} (h : SameNotes t t') {file : FileId} {a : Arena}
    {origin slot : Slot} (hcopy : t.IsCopy file a origin slot) : t'.IsCopy file a origin slot := by
  cases slot with
  | none => exact hcopy
  | some n =>
    rw [BundleTree.IsCopy, Option.elim_some, BundleTree.originOf?, h.origins_eq]
    exact hcopy

namespace Bundle

variable (p : Project) (b : Bundle)

/-- The copy of a reference has the text of its target. A copy of an import type is a reference by
name, in which the text is followed by the names in the qualifier after those that lead to the
target, with copies of the type arguments. -/
def HasText (r : Reference) (text : String) (copy : NodeId) : Prop :=
  match r.shape with
  | .identifier | .qualified => b.tree.arena.dottedText (some copy) = text
  | .importType depth => ∃ a isTypeof argument qualifier typeArguments name typeArguments',
    p.arena? r.node.file = some a ∧
    a.form? r.node.node = some (.importType isTypeof argument qualifier typeArguments) ∧
    b.tree.arena.form? (some copy) =
      some
        (if isTypeof then .typeQuery name typeArguments' else .typeReference name typeArguments') ∧
    b.tree.arena.dottedText name =
      ".".intercalate
        (text :: ((Project.entityParts a qualifier).drop depth).filterMap a.nameText?) ∧
    List.Forall₂ (b.tree.IsCopy r.node.file a) typeArguments typeArguments'

/-- All copies of references have the texts of their targets, and no node is a reference to two
targets. -/
structure ReferencesAgree : Prop where
  hasText : ∀ target references r text copy,
    (target, references) ∈ b.collection.references.entries → r ∈ references →
    b.naming.textOf? p target = some text → copy ∈ b.tree.copiesOf r.node → b.HasText p r text copy
  target_unique : ∀ target references r target' references' r',
    (target, references) ∈ b.collection.references.entries → r ∈ references →
    (target', references') ∈ b.collection.references.entries → r' ∈ references' → r.node = r'.node →
      target = target'

variable {p b}

/-- In the bundle of a loaded project, whatever is exported, references agree with the names of
their targets. -/
theorem references_agree {entry : String} {options : ProjectOptions} {host : Host}
    (hload : Project.load entry options host = .ok p) (keepDocs : Bool)
    (exports_ : List ModuleExport) :
    (ofExports p keepDocs exports_).ReferencesAgree p := by
  let copied : BundleTree := .ofCollection p (p.collect exports_)
  have htree : ∀ file a, p.arena? file = some a → a.IsTree := fun _ _ harena =>
    Project.isTree_of_load hload harena
  have hcopies : Build.IsCopyTree p copied :=
    ⟨htree, Build.traced_ofCollection (fun file a harena => (htree file a harena).isOrdered) _,
      Build.namesApart_ofCollection p _⟩
  obtain ⟨_, _, _, hlaid⟩ := exists_isLaidOut p keepDocs exports_
  -- settling writes the names, and laying out only adds nodes and keeps the notes of copies
  have hsettling : Build.IsSettling copied (settledTree p (ofExports p keepDocs exports_)) :=
    Build.isSettling_of_steps (Build.settles_settle hcopies.namesApart copied (.refl copied))
      (.refl copied)
  have hnotes : Build.SameNotes copied (ofExports p keepDocs exports_).tree :=
    hsettling.notes.trans hlaid.notes
  constructor
  case hasText =>
    intro target references r text copy hentry hr htext hcopy
    rw [BundleTree.copiesOf, hnotes.copies_eq] at hcopy
    have href : Build.IsReference p (p.collect exports_)
        (ofExports p keepDocs exports_).naming copied r text copy :=
      ⟨target, references, hentry, hr, htext, hcopy⟩
    have hname (hshape : ∀ depth, r.shape ≠ .importType depth) :
        (ofExports p keepDocs exports_).tree.arena.dottedText (some copy) = text := by
      have hwritten :
          Build.IsWritten copied (settledTree p (ofExports p keepDocs exports_)) copy text :=
        Build.isWritten_settle hcopies href hshape
      obtain ⟨n, hspells, hsame⟩ := hwritten
      obtain ⟨-, form, hform, -⟩ := hspells.exists_form
      refine (hspells.extends hlaid.extends_).dottedText ?_
      exact (hlaid.extends_ _ _ (hsame.trans hform)).trans (hlaid.extends_ _ _ hform).symm
    unfold HasText
    split
    · next hshape => exact hname fun depth heq => by rw [hshape] at heq; cases heq
    · next hshape => exact hname fun depth heq => by rw [hshape] at heq; cases heq
    · next depth hshape =>
      obtain ⟨a, isTypeof, argument, qualifier, typeArguments, typeArguments', harena, hform,
          hrewritten, harguments⟩ :=
        Build.exists_isRewritten_settle hcopies href hshape
      have hrewritten :
        Build.IsRewritten copied (settledTree p (ofExports p keepDocs exports_)) copy isTypeof
        typeArguments' (Build.importTypeText a qualifier text depth) := hrewritten
      obtain ⟨name, hspells, hreference⟩ := hrewritten
      refine ⟨a, isTypeof, argument, qualifier, typeArguments, some name, typeArguments',
        harena, hform,
        hlaid.extends_ _ _ hreference, ?_, harguments.imp fun origin slot hcopy => ?_⟩
      · rw [(hspells.extends hlaid.extends_).dottedText rfl]
        exact foldl_dots text _
      · exact hnotes.isCopy hcopy
  case target_unique =>
    intro target references r target' references' r' hentry hr hentry' hr' hnode
    exact (Collecting.reference_unique hentry hr hentry' hr' hnode).1

/-- Two variables whose type is written once, and an import type, with the module that they refer
to. -/
def importingModules : List (String × String) :=
  [("/a.ts",
    "import * as ns from \x22./b\x22;\nexport declare const \x7b a, b \x7d: ns.F<string>;\n" ++
      "export type T = typeof import(\x22./b\x22).N.c;\n"),
    ("/b.ts", "export interface F<A> \x7b a: A; b: A \x7d\n" ++
      "export namespace N \x7b export const c: F<number> \x7d\n")]

/-- The copies of references to targets with a text. -/
def referenceCopies (b : Bundle) (p : Project) : List (Reference × String × NodeId) :=
  b.collection.references.entries.flatMap fun entry => entry.2.flatMap fun r =>
    (b.tree.copiesOf r.node).flatMap fun copy =>
    (b.naming.textOf? p entry.1).toList.map fun text => (r, text, copy)

set_option maxRecDepth 1000000 in
theorem referenceCopies_importingModules :
    ((Project.ofFiles "/a.ts" importingModules).toOption.bind fun p =>
      (p.bundle true).toOption.map fun b => b.referenceCopies p) = some [
        (⟨⟨⟨0⟩, some ⟨12⟩⟩, .qualified⟩, "F", ⟨3⟩), (⟨⟨⟨0⟩, some ⟨12⟩⟩, .qualified⟩, "F", ⟨26⟩),
        (⟨⟨⟨1⟩, some ⟨14⟩⟩, .identifier⟩, "F", ⟨43⟩),
          (⟨⟨⟨0⟩, some ⟨22⟩⟩, .importType 1⟩, "N", ⟨39⟩)] := by
  decide +kernel

/-- In the bundle of these modules there are references of each shape, one of them with two copies,
and all of them agree with the names of their targets. -/
theorem references_agree_importingModules :
    ∃ p b, Project.ofFiles "/a.ts" importingModules = .ok p ∧ p.bundle true = .ok b ∧
      b.referenceCopies p = [
      (⟨⟨⟨0⟩, some ⟨12⟩⟩, .qualified⟩, "F", ⟨3⟩), (⟨⟨⟨0⟩, some ⟨12⟩⟩, .qualified⟩, "F", ⟨26⟩),
      (⟨⟨⟨1⟩, some ⟨14⟩⟩, .identifier⟩, "F", ⟨43⟩),
        (⟨⟨⟨0⟩, some ⟨22⟩⟩, .importType 1⟩, "N", ⟨39⟩)] ∧
      b.ReferencesAgree p := by
  obtain ⟨p, hp, h⟩ := Option.bind_eq_some_iff.1 referenceCopies_importingModules
  obtain ⟨b, hb, h⟩ := Option.map_eq_some_iff.1 h
  obtain ⟨module, hmodule⟩ := exists_of_bundle (eq_ok_of_toOption hb)
  have hagree := references_agree (eq_ok_of_toOption hp) true (p.exportsOf module)
  rw [hmodule] at hagree
  exact ⟨p, b, eq_ok_of_toOption hp, eq_ok_of_toOption hb, h, hagree⟩

/-- The names of the parameters that are declared around a node, down from `height` nodes above. -/
def parameterNamesAround (a : Arena) : (height : Nat) → Slot → List String
  | 0, _ => []
  | height + 1, node =>
    let declared := (a.form? node).elim [] fun form => form.plainScheme.declared.filterMap a.named?
    declared.map Prod.fst ++ parameterNamesAround a height (a.parent node)

/-- Two modules: the first one uses the interface of the second one in an interface that has a type
parameter with the name of that interface. -/
def shadowingModules : List (String × String) :=
  [("/a.ts",
    "import \x7b T as U \x7d from \x22./b\x22;\nexport interface Foo<T> \x7b x: U; y: T \x7d\n"),
    ("/b.ts", "export interface T \x7b\x7d\n")]

set_option maxRecDepth 1000000 in
theorem references_shadowingModules :
    ((Project.ofFiles "/a.ts" shadowingModules).toOption.bind fun p =>
      (p.bundle true).toOption.map fun b => (b.referenceCopies p,
        (b.collection.referencesTo ⟨4⟩).map Reference.node,
        (p.symbol? ⟨4⟩).any fun s => s.isAny (.single .interface),
        parameterNamesAround b.tree.arena 4 (some ⟨4⟩))) =
      some ([(⟨⟨⟨0⟩, some ⟨11⟩⟩, .identifier⟩, "T", ⟨4⟩)], [⟨⟨0⟩, some ⟨11⟩⟩], true, ["T"]) := by
  decide +kernel

/-- A name that agrees with its target can mean something else: in the bundle of these modules the
reference to the second interface has the name of a type parameter that is declared around it. -/
theorem exists_captured_reference :
    ∃ p b target r text copy, Project.ofFiles "/a.ts" shadowingModules = .ok p ∧
      p.bundle true = .ok b ∧ r.node ∈ (b.collection.referencesTo target).map Reference.node ∧
      (p.symbol? target).any (fun s => s.isAny (.single .interface)) = true ∧
      (r, text, copy) ∈ b.referenceCopies p ∧
      text ∈ parameterNamesAround b.tree.arena 4 (some copy) := by
  obtain ⟨p, hp, h⟩ := Option.bind_eq_some_iff.1 references_shadowingModules
  obtain ⟨b, hb, h⟩ := Option.map_eq_some_iff.1 h
  obtain ⟨hcopies, h⟩ := Prod.mk.inj h
  obtain ⟨hreferences, h⟩ := Prod.mk.inj h
  obtain ⟨hinterface, hnames⟩ := Prod.mk.inj h
  refine ⟨p, b, ⟨4⟩, ⟨⟨⟨0⟩, some ⟨11⟩⟩, .identifier⟩, "T", ⟨4⟩, eq_ok_of_toOption hp,
    eq_ok_of_toOption hb, ?_, hinterface, ?_, ?_⟩
  · rw [hreferences]
    exact List.mem_singleton_self _
  · rw [hcopies]
    exact List.mem_singleton_self _
  · rw [hnames]
    exact List.mem_singleton_self _

end Bundle

end DeclBundle
