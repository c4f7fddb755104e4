import DeclBundle.Print.Type
import DeclBundle.Proofs.Exposing
import DeclBundle.Proofs.Rewriting

/-!
# Parameters that can be left out

A parameter is printed with a question mark when it has one in its file or when it has a default,
and both are decided for each parameter by itself: a type may take the place of the default while
declarations are copied, and what is left of a default is seen by the printer. So a parameter is
marked in a bundle as it is in its file (`Build.marks?_of_steps`), and a list of parameters that is
printed is valid just when, in the file, no required parameter stands behind one with a question
mark, nor behind one with a default (`Bundle.validParameters_iff`). Nothing looks at the parameters
behind a default: in front of a required parameter it makes a list that is not valid.
-/

set_option autoImplicit false

namespace DeclBundle

/-! ## Marks of parameters -/

namespace Arena

/-- What is written at a parameter besides its name and its type. -/
def marks? (a : Arena) (slot : Slot) : Option Form.Marks := (a.form? slot).bind Form.marks?

/-- The slot holds a parameter with a question mark. -/
def isMarkedOptional (a : Arena) (slot : Slot) : Bool :=
  match a.form? slot with
  | some (.parameter _ _ _ optional _ _) => optional
  | _ => false

/-- The slot holds a parameter with a default. -/
def hasDefault (a : Arena) (slot : Slot) : Bool :=
  match a.form? slot with
  | some (.parameter _ isRest _ _ _ initializer) => initializer.isSome && !isRest
  | _ => false

/-- An argument is needed for what is in the slot: it has no question mark and no default, and does
not take the rest. -/
def isRequired (a : Arena) (slot : Slot) : Bool :=
  match a.form? slot with
  | some (.parameter _ isRest _ optional _ initializer) =>
    !isRest && !optional && initializer.isNone
  | _ => true

theorem isOptional_marks? (a : Arena) (slot : Slot) :
    (a.marks? slot).any Form.Marks.isOptional = (a.isMarkedOptional slot || a.hasDefault slot) := by
  unfold marks? isMarkedOptional hasDefault
  cases a.form? slot with
  | none => rfl
  | some form => cases form <;> rfl

theorem isRequired_iff (a : Arena) (slot : Slot) :
    a.isRequired slot =
      !((a.marks? slot).any Form.Marks.isOptional || (a.marks? slot).any Form.Marks.isRest) := by
  unfold marks? isRequired
  cases a.form? slot with
  | none => rfl
  | some form =>
    cases form <;> first
      | rfl
      | skip
    next ms isRest name optional type initializer =>
      cases isRest <;> cases optional <;> cases initializer <;> rfl

end Arena

namespace Print

/-- A text stands by itself among some pieces. -/
def mentions (text : String) (ps : Pieces) : Bool :=
  ps.any fun
    | .text other => other == text
    | .part .. => false

/-- What follows a parameter with a question mark has a question mark as well, or it takes the
rest. -/
def IsValidList (list : List Pieces) : Prop :=
  list.Pairwise fun before after => mentions "?" before = true →
    (mentions "?" after || mentions "..." after) = true

instance (list : List Pieces) : Decidable (IsValidList list) :=
  inferInstanceAs (Decidable (list.Pairwise _))

/-- The marks of a parameter are printed. -/
theorem mentions_parameter (a : Arena) (slot : Slot) :
    mentions "?" (parameter a slot) = (a.marks? slot).any Form.Marks.isOptional ∧
      mentions "..." (parameter a slot) = (a.marks? slot).any Form.Marks.isRest := by
  unfold parameter Arena.marks?
  cases a.form? slot with
  | none => exact ⟨rfl, rfl⟩
  | some form =>
    cases form <;> first
      | exact ⟨rfl, rfl⟩
      | skip
    next ms isRest name optional type initializer =>
      cases isRest <;> cases optional <;> cases initializer <;> cases type <;> exact ⟨rfl, rfl⟩

/-- Whether a list is valid depends on the marks of the parameters alone. -/
theorem isValidList_congr {a b : Arena} {slots slots' : List Slot}
    (h : slots.map a.marks? = slots'.map b.marks?) :
    IsValidList (slots'.map (parameter b)) ↔ IsValidList (slots.map (parameter a)) := by
  have hmarks (a : Arena) (slots : List Slot) : IsValidList (slots.map (parameter a)) ↔
      (slots.map a.marks?).Pairwise fun before after => before.any Form.Marks.isOptional = true →
        (after.any Form.Marks.isOptional || after.any Form.Marks.isRest) = true := by
    rw [IsValidList, List.pairwise_map, List.pairwise_map]
    simp only [mentions_parameter]
  rw [hmarks, hmarks, h]

/-- Parameters are printed as a valid list just when no required one stands behind one with a
question mark, nor behind one with a default. -/
theorem isValidList_iff (a : Arena) (slots : List Slot) :
    IsValidList (slots.map (parameter a)) ↔
      (slots.Pairwise fun before after => a.isMarkedOptional before = true →
        a.isRequired after = false) ∧
        slots.Pairwise fun before after => a.hasDefault before = true →
          a.isRequired after = false := by
  rw [IsValidList, List.pairwise_map, ← List.pairwise_and_iff]
  refine List.Pairwise.iff fun before after => ?_
  rw [(mentions_parameter a before).1, (mentions_parameter a after).1,
    (mentions_parameter a after).2, a.isOptional_marks?, a.isRequired_iff, Bool.or_eq_true, or_imp,
    Bool.not_eq_false']

end Print

/-! ## Marks are kept -/

theorem Form.parameters?_withModifiers {α : Type} (form : Form α) (ms : Modifiers) :
    (form.withModifiers ms).parameters? = form.parameters? := by
  cases form <;> rfl

theorem Form.marks?_withModifiers (form : Form Slot) (ms : Modifiers) :
    (form.withModifiers ms).marks? = form.marks? := by
  cases form <;> rfl

theorem Form.isRead_withModifiers {α : Type} (form : Form α) (ms : Modifiers) :
    (form.withModifiers ms).isRead = form.isRead := by
  cases form <;> rfl

/-- A reference is noted at a name, at a part of one or at an import type. -/
theorem Reference.IsNoted.isRead {p : Project} {key : SymbolId} {r : Reference}
    (h : r.IsNoted p key) {a : Arena} {form : Form Slot} (harena : p.arena? r.node.file = some a)
    (hform : a.form? r.node.node = some form) :
    form.isRead = true := by
  obtain ⟨target, hmeans, -⟩ := Option.bind_eq_some_iff.1 h.means
  obtain ⟨⟨first, names⟩, hstart, -⟩ := Option.bind_eq_some_iff.1 hmeans
  by_contra hread
  have hleftmost : a.leftmost r.node.node = none := by
    unfold Arena.leftmost Arena.leftmostTo
    rw [hform]
    split <;> first
      | rfl
      | next heq => exact absurd (Option.some.inj heq ▸ rfl) hread
  have hfirst : p.firstSymbol? r.node = none := by
    simp [Project.firstSymbol?, Project.firstOf, harena, hleftmost]
  simp only [Project.start?, harena, Option.bind_eq_bind, Option.bind_some, hform, hfirst] at hstart
  split at hstart
  · next heq => exact absurd (Option.some.inj heq ▸ rfl) hread
  · cases hstart

namespace Build

variable {p : Project} {exports_ : List ModuleExport} {plan : Plan} {naming : Naming}
  {copied t t' : BundleTree}

/-- What is written in the parentheses of a node, and at a parameter, is the same in both trees. -/
def SameParameters (t t' : BundleTree) (m : NodeId) : Prop :=
  ∃ form form', t.arena.form? (some m) = some form ∧ t'.arena.form? (some m) = some form' ∧
    form.isRead = false ∧
    form'.isRead = false ∧ form'.parameters? = form.parameters? ∧ form'.marks? = form.marks?

/-- A step keeps what is written in parentheses, because it writes names only where names are
read. -/
theorem sameParameters_of_step (h : IsCopyTree p copied) {m : NodeId} {o : NodeRef} {a : Arena}
    {found form : Form Slot} (ho : copied.originOf? m = some o) (harena : p.arena? o.file = some a)
    (hfound : a.form? o.node = some found) (hread : found.isRead = false)
    (hstep : SettleStep p (p.collect exports_) plan naming copied t t')
    (hform : t.arena.form? (some m) = some form) (hformread : form.isRead = false) :
    SameParameters t t' m := by
  obtain heq | ⟨ms, heq⟩ | ⟨r, text, href, -⟩ | ⟨id, s, old, -, -, rfl, -⟩ :=
    hstep.form?_cases hform
  · exact ⟨form, form, hform, heq, hformread, hformread, rfl, rfl⟩
  · exact ⟨form, _, hform, heq, hformread, (form.isRead_withModifiers ms).trans hformread,
      form.parameters?_withModifiers ms,
      form.marks?_withModifiers ms⟩
  · obtain rfl := Option.some.inj ((href.origin h.isTraced).symm.trans ho)
    obtain ⟨target, hnoted⟩ := href.isNoted
    exact absurd ((hnoted.isRead harena hfound).symm.trans hread) nofun
  · cases hformread

theorem marks?_of_isRead {form : Form Slot} (h : form.isRead = true) : form.marks? = none := by
  cases form <;> first
    | rfl
    | cases h

/-- A name is no parameter, whatever was at the node before. -/
theorem marks?_setDottedName {m : NodeId} (text : String) (hm : m.index < t.arena.size) :
    ∃ form, ((setDottedName m text).run t).2.arena.form? (some m) = some form ∧
      form.marks? = none := by
  obtain ⟨form, hform, heq⟩ := exists_form_setDottedName m text t
  obtain ⟨-, word, hword, hisword⟩ := (spells_dottedName text t (Nat.le_refl _)).exists_form
  obtain rfl := Option.some.inj (hform.symm.trans hword)
  have hlt := Nat.lt_of_lt_of_le hm (adds_dottedName text t).1.size_le
  exact ⟨form, heq ▸ (Arena.form?_replace hlt form _).trans (if_pos rfl),
    marks?_of_isRead (Form.isRead_of_isWord hisword)⟩

/-- What is no parameter becomes none when a text is written there. -/
theorem marks?_nameCopy {m : NodeId} {form : Form Slot} (text : String) (shape : ReferenceShape)
    (hform : t.arena.form? (some m) = some form) (hmarks : form.marks? = none) :
    ∃ form', ((nameCopy text shape m).run t).2.arena.form? (some m) = some form' ∧
      form'.marks? = none := by
  have hlt := Arena.lt_size_of_form? hform
  unfold nameCopy
  split
  · exact marks?_setDottedName text hlt
  · exact marks?_setDottedName text hlt
  · next depth =>
    obtain heq | ⟨isTypeof, argument, qualifier, typeArguments, himport⟩ :=
      nameImportType_cases m text depth t
    · exact ⟨form, by rw [heq]; exact hform, hmarks⟩
    · rw [run_nameImportType himport]
      refine ⟨_, (Arena.form?_replace ?_ _ _).trans (if_pos rfl), by split <;> rfl⟩
      exact Nat.lt_of_lt_of_le hlt (adds_dottedName _ t).1.size_le

/-- Settling makes no parameters. By induction on the steps. -/
theorem marks?_of_steps {m : NodeId} {form : Form Slot} (hform : t.arena.form? (some m) = some form)
    (hmarks : form.marks? = none)
    (hsteps : SettleSteps p (p.collect exports_) plan naming copied t t') :
    ∃ form', t'.arena.form? (some m) = some form' ∧ form'.marks? = none := by
  induction hsteps with
  | refl => exact ⟨form, hform, hmarks⟩
  | @tail t₁ t₂ _ hstep ih =>
    obtain ⟨form₁, hform₁, hmarks₁⟩ := ih
    obtain heq | ⟨ms, heq⟩ | ⟨r, text, -, rfl⟩ | ⟨_, _, _, _, _, -, name, heq⟩ :=
      hstep.form?_cases hform₁
    · exact ⟨form₁, heq, hmarks₁⟩
    · exact ⟨_, heq, (form₁.marks?_withModifiers ms).trans hmarks₁⟩
    · exact marks?_nameCopy text _ hform₁ hmarks₁
    · exact ⟨_, heq, rfl⟩

theorem SameParameters.trans {t'' : BundleTree} {m : NodeId} (h : SameParameters t t' m)
    (h' : SameParameters t' t'' m) :
    SameParameters t t'' m := by
  obtain ⟨form, form', hform, hform', hread, -, hparameters, hmarks⟩ := h
  obtain ⟨_, form'', hsame, hform'', -, hread'', hparameters', hmarks'⟩ := h'
  obtain rfl := Option.some.inj (hform'.symm.trans hsame)
  exact ⟨form, form'', hform, hform'', hread, hread'', hparameters'.trans hparameters,
    hmarks'.trans hmarks⟩

/-- Settling keeps what is written in the parentheses of copies. By induction on the steps. -/
theorem sameParameters_of_steps (h : IsCopyTree p copied) {m : NodeId} {o : NodeRef} {a : Arena}
    {found form : Form Slot} (ho : copied.originOf? m = some o) (harena : p.arena? o.file = some a)
    (hfound : a.form? o.node = some found) (hread : found.isRead = false)
    (hform : copied.arena.form? (some m) = some form) (hformread : form.isRead = false)
    (hsteps : SettleSteps p (p.collect exports_) plan naming copied copied t) :
    SameParameters copied t m := by
  induction hsteps with
  | refl => exact ⟨form, form, hform, hform, hformread, hformread, rfl, rfl⟩
  | tail _ hstep ih =>
    obtain ⟨_, form', -, hform', -, hread', -⟩ := id ih
    exact ih.trans (sameParameters_of_step h ho harena hfound hread hstep hform' hread')

end Build

namespace Bundle

variable {p : Project} {entry : String} {options : ProjectOptions} {host : Host}

/-- The copies of what is kept of a loaded project. -/
theorem isCopyTree_of_load (hload : Project.load entry options host = .ok p)
    (collection : Collection) :
    Build.IsCopyTree p (.ofCollection p collection) where
  isTree _ _ harena := Project.isTree_of_load hload harena
  isTraced :=
    Build.traced_ofCollection (fun _ _ harena => (Project.isTree_of_load hload harena).isOrdered) _
  namesApart := Build.namesApart_ofCollection p _

section Loaded

variable (hload : Project.load entry options host = .ok p) (keepDocs : Bool)
  (exports_ : List ModuleExport)

include hload

/-- What a bundle says of a copy goes back to the tree of copies, by steps of settling. -/
theorem exists_steps_of_load :
    let copied : BundleTree := .ofCollection p (p.collect exports_)
    let b := ofExports p keepDocs exports_
    Build.IsCopyTree p copied ∧
      Build.SettleSteps p (p.collect exports_) b.plan b.naming copied copied (settledTree p b) ∧
      (settledTree p b).arena.Extends b.tree.arena ∧ b.tree.originOf? = copied.originOf? ∧
      b.tree.copiesOf = copied.copiesOf := by
  intro copied b
  have htree : Build.IsCopyTree p copied := isCopyTree_of_load hload _
  obtain ⟨_, _, _, hlaid⟩ := exists_isLaidOut p keepDocs exports_
  have hsteps :
      Build.SettleSteps p (p.collect exports_) b.plan b.naming copied copied (settledTree p b) :=
    Build.settles_settle htree.namesApart copied (.refl copied)
  have hnotes : Build.SameNotes copied b.tree :=
    (Build.isSettling_of_steps hsteps (.refl copied)).notes.trans hlaid.notes
  refine ⟨htree, hsteps, hlaid.extends_, funext fun n => ?_, funext fun o => ?_⟩
  · rw [BundleTree.originOf?, hnotes.origins_eq]
    rfl
  · rw [BundleTree.copiesOf, hnotes.copies_eq]
    rfl

/-- A copy in a bundle of something that is no name and no import type has copies of its parameters,
and is marked like it. -/
theorem keepsParameters_of_load {ref : NodeRef} {a : Arena} {found : Form Slot} {copy : NodeId}
    (harena : p.arena? ref.file = some a) (hfound : a.form? ref.node = some found)
    (hread : found.isRead = false)
    (hcopy : (ofExports p keepDocs exports_).tree.originOf? copy = some ref) :
    ∃ form, (ofExports p keepDocs exports_).tree.arena.form? (some copy) = some form ∧
      (ofExports p keepDocs exports_).tree.KeepsParameters ref.file a found form := by
  obtain ⟨htree, hsteps, hextends, horigin, -⟩ := exists_steps_of_load hload keepDocs exports_
  have hiscopy : (ofExports p keepDocs exports_).tree.IsCopy =
      (BundleTree.ofCollection p (p.collect exports_)).IsCopy := by
    funext file a origin slot
    rw [BundleTree.IsCopy, horigin]
    rfl
  rw [horigin] at hcopy
  obtain ⟨_, _, form, harena', hfound', hform, hmade⟩ := htree.isTraced.exists_form copy ref hcopy
  obtain rfl := Option.some.inj (harena.symm.trans harena')
  obtain rfl := Option.some.inj (hfound.symm.trans hfound')
  obtain ⟨hformread, hkeeps⟩ := hmade.keeps hread
  obtain ⟨_, form', hsame, hform', -, -, hparameters, hmarks⟩ :=
    Build.sameParameters_of_steps htree hcopy harena hfound hread hform hformread hsteps
  obtain rfl := Option.some.inj (hform.symm.trans hsame)
  refine ⟨form', hextends _ _ hform', fun parameters hfoundparameters => ?_, hmarks.trans hkeeps.2⟩
  rw [hiscopy, hparameters]
  exact hkeeps.1 parameters hfoundparameters

/-- A copy in a bundle is marked like what it was copied from. -/
theorem marks?_of_isCopy {file : FileId} {a : Arena} (harena : p.arena? file = some a)
    {origin slot : Slot} (hcopy : (ofExports p keepDocs exports_).tree.IsCopy file a origin slot) :
    (ofExports p keepDocs exports_).tree.arena.marks? slot = a.marks? origin := by
  cases slot with
  | none =>
    unfold Arena.marks?
    rw [show a.form? origin = none from hcopy]
    rfl
  | some copy =>
    obtain ⟨htree, hsteps, hextends, horigin, -⟩ := exists_steps_of_load hload keepDocs exports_
    have hnoted : (ofExports p keepDocs exports_).tree.originOf? copy = some ⟨file, origin⟩ := hcopy
    obtain ⟨_, found, form, harena', hfound, hform, hmade⟩ :=
      htree.isTraced.exists_form copy _ (horigin ▸ hnoted)
    obtain rfl := Option.some.inj (harena.symm.trans harena')
    unfold Arena.marks?
    rw [show a.form? origin = some found from hfound]
    cases hread : found.isRead with
    | false =>
      obtain ⟨form', hform', -, hmarks⟩ :=
        keepsParameters_of_load hload keepDocs exports_ harena hfound hread hnoted
      rw [hform']
      exact hmarks
    | true =>
      -- a name is copied to a name, which stays no parameter
      have hformread : form.isRead = true := by
        obtain ⟨pairs, rfl, rfl, -⟩ := hmade.isCopied hread
        rwa [Form.isRead_map, ← Form.isRead_map Prod.fst]
      obtain ⟨form', hform', hmarks⟩ :=
        Build.marks?_of_steps hform (Build.marks?_of_isRead hformread) hsteps
      rw [hextends _ _ hform']
      exact hmarks.trans (Build.marks?_of_isRead hread).symm

/-- In the bundle of a loaded project, whatever is exported, every copy of something that is called
has as many parameters, and they are printed as a valid list just when in the file no required
parameter stands behind one with a question mark, nor behind one with a default. -/
theorem validParameters_iff {ref : NodeRef} {a : Arena} {found : Form Slot} {parameters : List Slot}
    (harena : p.arena? ref.file = some a) (hfound : a.form? ref.node = some found)
    (hparameters : found.parameters? = some parameters) {copy : NodeId}
    (hcopy : copy ∈ (ofExports p keepDocs exports_).tree.copiesOf ref) :
    ∃ form parameters', (ofExports p keepDocs exports_).tree.arena.form? (some copy) = some form ∧
      form.parameters? = some parameters' ∧ parameters'.length = parameters.length ∧
      (Print.IsValidList
        (parameters'.map (Print.parameter (ofExports p keepDocs exports_).tree.arena)) ↔
        (parameters.Pairwise fun before after => a.isMarkedOptional before = true →
          a.isRequired after = false) ∧
          parameters.Pairwise fun before after => a.hasDefault before = true →
            a.isRequired after = false) := by
  -- nothing that has parameters is read word by word
  have hread : found.isRead = false := by
    cases found <;> first
      | rfl
      | cases hparameters
  have hnoted : (ofExports p keepDocs exports_).tree.originOf? copy = some ref := by
    obtain ⟨htree, -, -, horigin, hcopies⟩ := exists_steps_of_load hload keepDocs exports_
    rw [hcopies] at hcopy
    rw [horigin]
    exact htree.isTraced.copies copy ref hcopy
  obtain ⟨form, hform, hkeeps, -⟩ :=
    keepsParameters_of_load hload keepDocs exports_ harena hfound hread hnoted
  obtain ⟨parameters', hparameters', hall⟩ := hkeeps parameters hparameters
  refine ⟨form, parameters', hform, hparameters', hall.length_eq.symm, ?_⟩
  rw [← Print.isValidList_iff]
  refine Print.isValidList_congr ?_
  rw [← List.forall₂_eq_eq_eq, List.forall₂_map_left_iff, List.forall₂_map_right_iff]
  exact hall.imp fun origin slot hslot =>
    (marks?_of_isCopy hload keepDocs exports_ harena hslot).symm

end Loaded

/-- A class with a method that has a parameter with a question mark, one with a default and one that
takes the rest. -/
def optionalModule : String :=
  "export class C \x7b m(a?: string, b = g(1), ...c: number[]): void \x7b\x7d \x7d\n"

/-- The parameters of what is called at a node of a file, and its copies. -/
def calledAt? (b : Bundle) (p : Project) (ref : NodeRef) : Option (List Slot × List NodeId) := do
  let a ← p.arena? ref.file
  let found ← a.form? ref.node
  return (← found.parameters?, b.tree.copiesOf ref)

theorem exists_of_calledAt? {b : Bundle} {p : Project} {ref : NodeRef} {parameters : List Slot}
    {copies : List NodeId} (h : b.calledAt? p ref = some (parameters, copies)) :
    ∃ a found, p.arena? ref.file = some a ∧ a.form? ref.node = some found ∧
      found.parameters? = some parameters ∧
      b.tree.copiesOf ref = copies := by
  obtain ⟨a, harena, h⟩ := Option.bind_eq_some_iff.1 h
  obtain ⟨found, hfound, h⟩ := Option.bind_eq_some_iff.1 h
  obtain ⟨parameters', hparameters, h⟩ := Option.bind_eq_some_iff.1 h
  obtain ⟨rfl, rfl⟩ := Prod.mk.inj (Option.some.inj h)
  exact ⟨a, found, harena, hfound, hparameters, rfl⟩

set_option maxRecDepth 1000000 in
theorem calledAt?_optionalModule :
    ((Project.ofFiles "/a.ts" [("/a.ts", optionalModule)]).toOption.bind fun p =>
      (p.bundle true).toOption.bind fun b => b.calledAt? p ⟨⟨0⟩, some ⟨14⟩⟩) =
        some ([some ⟨4⟩, some ⟨8⟩, some ⟨12⟩], [⟨13⟩]) :=
  Project.bind_ofFiles (by decide) String.toList_ofList (by decide +kernel)

/-- The parameters of the method are printed as a valid list, because none of them is required. -/
theorem validParameters_optionalModule :
    ∃ p b a found, Project.ofFiles "/a.ts" [("/a.ts", optionalModule)] = .ok p ∧
      p.bundle true = .ok b ∧
      p.arena? ⟨0⟩ = some a ∧ a.form? (some ⟨14⟩) = some found ∧
      found.parameters? = some [some ⟨4⟩, some ⟨8⟩, some ⟨12⟩] ∧
        ⟨13⟩ ∈ b.tree.copiesOf ⟨⟨0⟩, some ⟨14⟩⟩ ∧
      ∃ form parameters', b.tree.arena.form? (some ⟨13⟩) = some form ∧
        form.parameters? = some parameters' ∧
        parameters'.length = 3 ∧
          (Print.IsValidList (parameters'.map (Print.parameter b.tree.arena)) ↔
          ([some ⟨4⟩, some ⟨8⟩, some ⟨12⟩].Pairwise fun before after =>
            a.isMarkedOptional before = true → a.isRequired after = false) ∧
          [some ⟨4⟩, some ⟨8⟩, some ⟨12⟩].Pairwise fun before after =>
            a.hasDefault before = true → a.isRequired after = false) := by
  obtain ⟨p, hp, h⟩ := Option.bind_eq_some_iff.1 calledAt?_optionalModule
  obtain ⟨b, hb, h⟩ := Option.bind_eq_some_iff.1 h
  obtain ⟨module, rfl⟩ := exists_of_bundle (eq_ok_of_toOption hb)
  obtain ⟨a, found, harena, hfound, hparameters, hcopies⟩ := exists_of_calledAt? h
  have hcopy : ⟨13⟩ ∈ (ofExports p true (p.exportsOf module)).tree.copiesOf ⟨⟨0⟩, some ⟨14⟩⟩ := by
    rw [hcopies]
    exact List.mem_singleton_self _
  exact ⟨p, _, a, found, eq_ok_of_toOption hp, eq_ok_of_toOption hb, harena, hfound,
    hparameters, hcopy,
    validParameters_iff (eq_ok_of_toOption hp) true _ harena hfound hparameters hcopy⟩

/-- A function whose first parameter has a default and whose second one is required. -/
def defaultModule : String := "export function f(a = 1, b: string): void \x7b\x7d\n"

set_option maxRecDepth 1000000 in
/-- No parameter of the function has a question mark in its file, and the list that is printed is
not valid. -/
theorem exists_required_behind_optional :
    ((Project.ofFiles "/a.ts" [("/a.ts", defaultModule)]).toOption.bind fun p => do
      let b ← (p.bundle true).toOption
      let a ← p.arena? ⟨0⟩
      let (parameters, copies) ← b.calledAt? p ⟨⟨0⟩, some ⟨9⟩⟩
      let form ← b.tree.arena.form? copies.head?
      let parameters' ← form.parameters?
      return (parameters.map a.isMarkedOptional,
        decide (Print.IsValidList (parameters'.map (Print.parameter b.tree.arena))), b.text)) =
      some ([false, false], false,
        "declare function f(a?: number, b: string): void;\nexport \x7b f \x7d;\n") :=
  Project.bind_ofFiles (by decide) String.toList_ofList (by decide +kernel)

end Bundle

end DeclBundle
