import DeclBundle.Grammar.Statement
import DeclBundle.Symbol.Declaration
import Mathlib.Logic.Relation

/-!
# Declaring is done in steps

Whatever a file declares is declared in a few kinds of steps (`Declarations.Step`): a name is
declared or joins the symbol of the name, an alias is declared, something without a name is
declared, an enum gets a member, a module with a quoted name is found or added, a module exports
another one as a whole, a file gets a symbol. So what each kind of step keeps is kept by the whole
file (`Declarations.steps_declareFile`).
-/

set_option autoImplicit false

namespace DeclBundle.Declarations

variable (f : DeclaringFile)

/-! ## Steps -/

/-- Adds a new member to an enum. -/
def addMember (d : Declarations) (owner : SymbolId) (name : String) (node : NodeId) :
    Declarations :=
  let (d, id) := d.alloc f (.single .enumMember) name
  let d := (d.addDeclaration f id node).modify owner fun s =>
    { s with exports_ := s.exports_.set name id }
  (d.modify id fun s => { s with parent := some owner }).setDeclared node id

/-- Adds one more declaration of a symbol. -/
def redeclare (d : Declarations) (known : SymbolId) (node : NodeId) : Declarations :=
  (d.addDeclaration f known node).setDeclared node known

/-- Adds a module that is exported as a whole. -/
def addStar (d : Declarations) (module : SymbolId) (specifier : String) : Declarations :=
  { d with
    tables.exportStars := d.tables.exportStars.insert module
      ((d.tables.exportStars[module]?).getD [] ++ [specifier]) }

/-- Adds the symbol of a file. -/
def addFile (d : Declarations) (root : NodeId) : Declarations :=
  let (d, id) := d.alloc f (.single .sourceFile) ("\x22" ++ f.path ++ "\x22")
  (d.addDeclaration f id root).setDeclared root id

/-- One step of declaring. -/
inductive Step : Declarations → Declarations → Prop
  | declare (d : Declarations) (c : Container) (flag : SymbolFlag) (name : String) (node : NodeId)
      (exportName : Option String) : Step d (d.declare f c (.single flag) name node exportName).1
  | alias_ (d : Declarations) (c : Container) (node : NodeId) (declared : AliasDeclaration) :
      Step d (d.declareAlias f c node declared)
  | unnamed (d : Declarations) (c : Container) (flag : SymbolFlag) (name : String) (node : NodeId) :
      Step d ((d.addUnnamed f c (.single flag) name node).1.setExport f c name
        (d.addUnnamed f c (.single flag) name node).2 node)
  | member (d : Declarations) (owner : SymbolId) (name : String) (node : NodeId) :
      Step d (d.addMember f owner name node)
  | again (d : Declarations) (known : SymbolId) (node : NodeId) (owner : SymbolId) (name : String)
      (h : (d.symbol? owner).bind (·.exports_.get? name) = some known) :
    Step d (d.redeclare f known node)
  | ambientModule (d : Declarations) (node : NodeId) (text : String) :
      Step d (d.declareAmbientModule f node text).1
  | star (d : Declarations) (module : SymbolId) (specifier : String) :
      Step d (d.addStar module specifier)
  | file (d : Declarations) (root : NodeId) : Step d (d.addFile f root)

/-- Any number of steps. -/
abbrev Steps : Declarations → Declarations → Prop := Relation.ReflTransGen (Step f)

/-- What each step keeps is kept by all of them. -/
theorem Steps.keeps {f : DeclaringFile} {P : Declarations → Prop} {d d' : Declarations}
    (h : Steps f d d') (hstep : ∀ d d', Step f d d' → P d → P d') (hd : P d) : P d' := by
  induction h with
  | refl => exact hd
  | tail _ hlast ih => exact hstep _ _ hlast ih

theorem steps_foldl {α : Type} {step : Declarations → α → Declarations}
    (hstep : ∀ d x, Steps f d (step d x)) (d : Declarations) (xs : List α) :
    Steps f d (xs.foldl step d) :=
  List.foldlRecOn (motive := Steps f d) xs step .refl fun d' h x _ => h.trans (hstep d' x)

/-! ## Statements -/

variable (d : Declarations) (c : Container)

theorem steps_declareAlias (node : NodeId) (declared : AliasDeclaration) :
    Steps f d (d.declareAlias f c node declared) :=
  .single (.alias_ d c node declared)

theorem steps_declareNamed (flag : SymbolFlag) (node : NodeId) (name : Slot)
    (modifiers : Modifiers) :
    Steps f d (d.declareNamed f c (.single flag) node name modifiers).1 := by
  unfold declareNamed
  dsimp only
  split
  · exact .single (.declare d c flag _ node _)
  · split
    · exact .single (.unnamed d c flag "default" node)
    · exact .refl

theorem steps_declareVariables (modifiers : Modifiers) (flavor : VariableFlavor)
    (declarations : List Slot) :
    Steps f d (d.declareVariables f c modifiers flavor declarations) := by
  unfold declareVariables
  apply steps_foldl
  intro d entry
  exact .single (.declare d c _ _ _ _)

theorem steps_declareEnumMembers (owner : SymbolId) (members : List Slot) :
    Steps f d (d.declareEnumMembers f owner members) := by
  unfold declareEnumMembers
  apply steps_foldl
  intro d member
  dsimp only
  split
  · next node _ _ _ =>
    split
    · exact .refl
    · next text _ =>
      split
      · next known hknown => exact .single (.again d known node owner text hknown)
      · exact .single (.member d owner text node)
  · exact .refl

theorem steps_declareImports (clause specifier : Slot) :
    Steps f d (d.declareImports f c clause specifier) := by
  unfold declareImports
  dsimp only
  split
  · split
    · split
      · refine Relation.ReflTransGen.trans ?_ (steps_declareAlias f _ c _ _)
        -- the default import comes before the others
        split
        · exact steps_declareAlias f d c _ _
        · exact .refl
      · split
        · exact steps_declareAlias f d c _ _
        · exact .refl
    · refine Relation.ReflTransGen.trans ?_ (steps_foldl f (fun d element => ?_) _ _)
      · split
        · exact steps_declareAlias f d c _ _
        · exact .refl
      · split
        · split
          · exact steps_declareAlias f d c _ _
          · exact .refl
        · exact .refl
    · split
      · exact steps_declareAlias f d c _ _
      · exact .refl
  · exact .refl

theorem steps_declareImportEquals (node : NodeId) (modifiers : Modifiers) (typeOnly : Bool)
    (name reference : Slot) :
    Steps f d (d.declareImportEquals f c node modifiers typeOnly name reference) := by
  unfold declareImportEquals
  dsimp only
  split
  · exact steps_declareAlias f d c _ _
  · exact .refl

theorem steps_declareExports (typeOnly : Bool) (clause specifier : Slot) :
    Steps f d (d.declareExports f c typeOnly clause specifier) := by
  unfold declareExports
  dsimp only
  split
  · split
    · next specifier module _ _ => exact .single (.star d module specifier)
    · exact .refl
  · split
    · exact steps_declareAlias f d c _ _
    · exact .refl
  · apply steps_foldl
    intro d element
    split
    · split
      · exact steps_declareAlias f d c _ _
      · exact .refl
    · exact .refl
  · exact .refl

theorem steps_declareAssignment (node : NodeId) (isEquals : Bool) (expression : Slot) :
    Steps f d (d.declareAssignment f c node isEquals expression) := by
  unfold declareAssignment
  dsimp only
  split
  · exact steps_declareAlias f d c _ _
  · exact steps_declareAlias f d c _ _
  · exact .single (.unnamed d c .blockScopedVariable _ node)

theorem steps_declareModule {inside : Bool → Container → Declarations → Slot → Declarations}
    (hinside : ∀ isAmbient c d statement, Steps f d (inside isAmbient c d statement))
    (isAmbient : Bool) (node : NodeId) (modifiers : Modifiers) (flavor : ModuleFlavor)
    (name body : Slot) :
    Steps f d (d.declareModule f inside isAmbient c node modifiers flavor name body) := by
  have hall : ∀ isAmbient c (d : Declarations) (statements : List Slot),
      Steps f d (statements.foldl (inside isAmbient c) d) :=
    fun isAmbient c d statements => steps_foldl f (fun d s => hinside isAmbient c d s) d statements
  unfold declareModule
  dsimp only
  split
  · split
    · exact hall _ _ _ _
    · exact .refl
  · next text _ _ =>
    have hmodule : Steps f d (d.declareAmbientModule f node text).1 :=
      .single (.ambientModule d node text)
    split
    · exact hmodule.trans (hall _ _ _ _)
    · exact hmodule
  · have hnamed := fun flag => steps_declareNamed f d c flag node name modifiers
    split
    · exact (hnamed _).trans (hall _ _ _ _)
    · exact (hnamed _).trans (hinside _ _ _ _)
    · exact hnamed _

theorem steps_declareStatement (depth : Nat) (isAmbient : Bool) (statement : Slot) :
    Steps f d (declareStatement f depth isAmbient c d statement) := by
  induction depth generalizing d c isAmbient statement with
  | zero => exact .refl
  | succ depth ih =>
    have hnamed := fun (node : NodeId) (flag : SymbolFlag) => steps_declareNamed f d c flag node
    unfold declareStatement
    dsimp only
    split
    · exact steps_declareVariables f d c _ _ _
    · exact hnamed _ _ _ _
    · exact hnamed _ _ _ _
    · exact hnamed _ _ _ _
    · exact hnamed _ _ _ _
    · next node modifiers name members _ =>
      have henum :=
        hnamed node (if modifiers.contains .const then .constEnum else .regularEnum) name modifiers
      split
      · next heq =>
        rw [heq] at henum
        exact henum.trans (steps_declareEnumMembers f _ _ members)
      · next heq =>
        rw [heq] at henum
        exact henum
    · exact steps_declareModule f d c
        (fun isAmbient c d statement => ih d c isAmbient statement) _ _ _ _ _ _
    · exact steps_declareImports f d c _ _
    · exact steps_declareImportEquals f d c _ _ _ _ _
    · exact steps_declareExports f d c _ _ _
    · exact steps_declareAssignment f d c _ _ _
    · exact .refl

theorem steps_declareStatements (depth : Nat) (isAmbient : Bool) (statements : List Slot) :
    Steps f d (statements.foldl (declareStatement f depth isAmbient c) d) :=
  steps_foldl f (fun d s => steps_declareStatement f d c depth isAmbient s) d statements

/-- A file is declared in steps. -/
theorem steps_declareFile (tables : SharedTables) (root : NodeId) :
    Steps f { tables } (declareFile f tables root).1 := by
  unfold declareFile
  dsimp only
  split
  · split
    · exact (Relation.ReflTransGen.single (.file { tables } root)).trans
        (steps_declareStatements f _ _ _ _ _)
    · exact steps_declareStatements f _ _ _ _ _
  · exact .refl

/-! ## Names that are taken -/

/-- The members of an enum are not compared with what else has their names: nothing is reported for
them. -/
theorem diagnostics_declareEnumMembers (d : Declarations) (owner : SymbolId) (members : List Slot) :
    (d.declareEnumMembers f owner members).diagnostics = d.diagnostics := by
  unfold declareEnumMembers
  refine List.foldlRecOn
    (motive := fun d' : Declarations => d'.diagnostics = d.diagnostics) _ _ rfl ?_
  intro d' hd' member _
  split
  · split
    · exact hd'
    · split
      · exact hd'
      · exact hd'
  · exact hd'

/-- What is reported when statements are declared as those of the only file. -/
def reported (statements : List String) : List String :=
  let parsed := parseFile "/a.ts" ("\n".intercalate statements)
  let declared := (declareFile ⟨⟨0⟩, "/a.ts", parsed.arena⟩ {} parsed.root).1
  declared.diagnostics.map Diagnostic.message

/-- A namespace and an enum of one name, each with something of one name, in a module. -/
def mergedMembers : List String :=
  ["namespace E \x7b export const A = 1; \x7d", "enum E \x7b A \x7d", "export \x7b\x7d"]

/-- Whether a name is reported depends on the order of the statements: a member of an enum joins the
variable that a namespace exports, but not the other way round. -/
theorem exists_reported_in_one_order : ∃ statements, statements.Perm mergedMembers ∧
    reported mergedMembers = [] ∧ reported statements = ["Duplicate identifier \x27A\x27."] :=
  ⟨["enum E \x7b A \x7d", "namespace E \x7b export const A = 1; \x7d", "export \x7b\x7d"],
    .swap .., by decide +kernel, by decide +kernel⟩

end DeclBundle.Declarations
