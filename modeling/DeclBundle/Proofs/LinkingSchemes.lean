import DeclBundle.Symbol.Scope
import Mathlib.Data.List.Basic

/-!
# What forms do with names

A form links names, visits its children and opens regions with names. What it does is a `Scheme`: a
few kinds of them stand for all forms (`Form.scheme`), and visiting a node runs the scheme of its
form (`Links.visitForm_eq`). Some children are not visited like any node, such as the clauses of a
class; the `Manner` of a visit tells them apart.

So what linking one name, declaring one parameter and opening or closing a region keep is kept by a
whole file (`Links.Keeps.visitTo`).
-/

set_option autoImplicit false

namespace DeclBundle

/-! ## Schemes -/

/-- How a node is visited. -/
inductive Manner where
  /-- Like any node. -/
  | plain
  /-- As the name of a member, where only an expression in brackets is linked. -/
  | memberName
  /-- As a clause with what a class or an interface extends. -/
  | heritage (isClass : Bool)
  /-- As one of the types in such a clause. -/
  | base (meaning : Meaning)
  /-- As the clause of an export declaration. -/
  | exportClause
  /-- As one of the names in such a clause. -/
  | exportedName
  deriving DecidableEq

/-- One thing that a form does. -/
inductive LinkedPart where
  | link (entity : Slot) (meaning : Meaning)
  | visit (manner : Manner) (child : Slot)

/-- The child that a part is about. -/
def LinkedPart.slot : LinkedPart → Slot
  | link entity _ => entity
  | visit _ child => child

/-- What a form does. -/
inductive Scheme where
  /-- Only its parts. -/
  | parts (parts : List LinkedPart)
  /-- Some parts, and a region with parameters; in there they are visited first. -/
  | parameters (before : List LinkedPart) (declared : List (SymbolFlag × Slot))
    (rest : List LinkedPart)
  /-- A body in the region of what the node declares. -/
  | container (body : Slot)
  /-- A region for what `infer` introduces in the type after `extends`. It reaches over the type for
  when it matches. -/
  | conditional (check extended whenTrue whenFalse : Slot)
  /-- What `infer` introduces. -/
  | introduction (typeParameter : Slot)

namespace Scheme

/-- Nodes that are visited in order. -/
def plainly (nodes : List Slot) : List LinkedPart := nodes.map (.visit .plain)

/-- Type parameters to declare. -/
def typeParameters (nodes : List Slot) : List (SymbolFlag × Slot) :=
  nodes.map (SymbolFlag.typeParameter, ·)

/-- A signature, whose parameters are visible in all of it. -/
def ofSignature (name : Slot) (s : Signature Slot) : Scheme :=
  parameters [.visit .memberName name]
    (typeParameters s.typeParameters ++ s.parameters.map (SymbolFlag.parameter, ·))
    [.visit .plain s.returnType]

/-- A class or an interface. -/
def ofClass (isClass : Bool) (parameters heritage members : List Slot) : Scheme :=
  .parameters [] (typeParameters parameters)
    (heritage.map (.visit (.heritage isClass)) ++ plainly members)

/-- The parameters that it declares. -/
def declared : Scheme → List Slot
  | parameters _ declared _ => declared.map Prod.snd
  | introduction parameter => [parameter]
  | _ => []

end Scheme

/-- What a form does when its node is visited like any other. -/
def Form.plainScheme : Form Slot → Scheme
  | moduleDeclaration _ flavor _ body =>
    if flavor = .global then .parts [.visit .plain body] else .container body
  | functionDeclaration _ name s _ | methodDeclaration _ name _ s _ | methodSignature name _ s =>
    .ofSignature name s
  | callSignature s | constructSignature s | functionType s | constructorType _ s =>
    .ofSignature none s
  | constructorDeclaration _ parameters _ => .ofSignature none ⟨[], parameters, none⟩
  | getAccessor _ name parameters returnType => .ofSignature name ⟨[], parameters, returnType⟩
  | setAccessor _ name parameters => .ofSignature name ⟨[], parameters, none⟩
  | indexSignature _ parameters ascription => .ofSignature none ⟨[], parameters, ascription⟩
  | classDeclaration _ _ parameters heritage members => .ofClass true parameters heritage members
  | interfaceDeclaration _ _ parameters heritage members =>
    .ofClass false parameters heritage members
  | typeAlias _ _ parameters type =>
    .parameters [] (Scheme.typeParameters parameters) [.visit .plain type]
  | typeParameter _ _ bound default => .parts [.visit .plain bound, .visit .plain default]
  | parameter _ _ _ _ ascription _ | variableDeclaration _ _ ascription _ =>
    .parts [.visit .plain ascription]
  | propertyDeclaration _ name _ _ ascription _ | propertySignature _ name _ ascription =>
    .parts [.visit .memberName name, .visit .plain ascription]
  | typeReference name typeArguments => .parts (.link name .type :: Scheme.plainly typeArguments)
  | typeQuery name typeArguments => .parts (.link name .value :: Scheme.plainly typeArguments)
  | importType _ _ _ typeArguments => .parts (Scheme.plainly typeArguments)
  | computedName expression => .parts [.link expression .value]
  | mappedType _ key nameType _ type =>
    .parameters [] (Scheme.typeParameters [key]) [.visit .plain nameType, .visit .plain type]
  | conditionalType check extended whenTrue whenFalse =>
    .conditional check extended whenTrue whenFalse
  | inferType introduced => .introduction introduced
  | typePredicate _ _ type => .parts [.visit .plain type]
  | exportDeclaration _ clause specifier =>
    .parts (if specifier.isSome then [] else [.visit .exportClause clause])
  | exportAssignment _ expression => .parts [.link expression .any]
  | importEquals _ _ _ reference => .parts [.link reference .any]
  | importDeclaration .. | enumMember .. | identifier _ | verbatim _ | otherStatement => .parts []
  | form => .parts (Scheme.plainly (form.children.filter Option.isSome))

/-- What a form does when its node is visited in some manner. -/
def Form.scheme (form : Form Slot) : Manner → Scheme
  | .plain => form.plainScheme
  | .memberName => .parts <| match form with
    | computedName expression => [.link expression .value]
    | _ => []
  | .heritage isClass => .parts <| match form with
    | heritageClause word types =>
      types.map (.visit (.base (if isClass && word = .extends_ then .value else .type)))
    | _ => []
  | .base meaning => .parts <| match form with
    | heritageType expression typeArguments =>
      .link expression meaning :: Scheme.plainly typeArguments
    | _ => []
  | .exportClause => .parts <| match form with
    | namedExports elements => elements.map (.visit .exportedName)
    | _ => []
  | .exportedName => .parts <| match form with
    | exportSpecifier _ propertyName name =>
      [.link (if propertyName.isSome then propertyName else name) .any]
    | _ => []

/-! ## Running schemes -/

namespace Links

variable (f : LinkingFile) (visit : Slot → Links → Links)

/-- Visits a node in some manner. -/
def visitAs (manner : Manner) (node : Slot) (l : Links) : Links :=
  match manner with
  | .plain => visit node l
  | .memberName => l.linkComputed f node
  | .heritage isClass => visitHeritage f visit isClass [node] l
  | .base meaning =>
    match f.arena.form? node with
    | some (.heritageType expression typeArguments) =>
      visitAll visit typeArguments (l.linkEntity f expression meaning)
    | _ => l
  | .exportClause => linkExported f node l
  | .exportedName =>
    match f.arena.form? node with
    | some (.exportSpecifier _ propertyName name) =>
      l.linkEntity f (if propertyName.isSome then propertyName else name) .any
    | _ => l

/-- Does one part. -/
def runPart (part : LinkedPart) (l : Links) : Links :=
  match part with
  | .link entity meaning => l.linkEntity f entity meaning
  | .visit manner child => visitAs f visit manner child l

/-- Does parts in order. -/
def runParts (parts : List LinkedPart) (l : Links) : Links :=
  parts.foldl (fun l part => runPart f visit part l) l

/-- Does what the form of a node does. -/
def runScheme (node : Slot) (scheme : Scheme) (l : Links) : Links :=
  match scheme with
  | .parts parts => runParts f visit parts l
  | .parameters before declared rest =>
    (runParts f visit before l).within (.names []) fun level l =>
      runParts f visit (Scheme.plainly (declared.map Prod.snd) ++ rest)
        (declared.foldl (fun l d => l.declareIn f level d.1 d.2) l)
  | .container body =>
    match node.bind (l.declared[·]?) with
    | some container => l.within (.container container) fun _ l => visit body l
    | none => visit body l
  | .conditional check extended whenTrue whenFalse =>
    visitConditional visit check extended whenTrue whenFalse l
  | .introduction parameter =>
    let l := match l.inferLevels with
      | level :: _ => l.declareIn f level .typeParameter parameter
      | [] => l
    visit parameter l

theorem runParts_append (parts rest : List LinkedPart) (l : Links) :
    runParts f visit (parts ++ rest) l = runParts f visit rest (runParts f visit parts l) :=
  List.foldl_append

theorem runParts_plainly (nodes : List Slot) (l : Links) :
    runParts f visit (Scheme.plainly nodes) l = visitAll visit nodes l := List.foldl_map

theorem foldl_declareIn_typeParameters (level : Nat) (nodes : List Slot) (l : Links) :
    (Scheme.typeParameters nodes).foldl (fun l d => l.declareIn f level d.1 d.2) l =
      nodes.foldl (fun l p => l.declareIn f level .typeParameter p) l := List.foldl_map

theorem visitSignature_eq (node name : Slot) (s : Signature Slot) (l : Links) :
    visitSignature f visit name s l = runScheme f visit node (.ofSignature name s) l := by
  have hall (level : Nat) (l : Links) :
    runParts f visit (Scheme.plainly ((Scheme.typeParameters s.typeParameters ++
      s.parameters.map (SymbolFlag.parameter, ·)).map Prod.snd) ++ [.visit .plain s.returnType])
      ((Scheme.typeParameters s.typeParameters ++ s.parameters.map (SymbolFlag.parameter, ·)).foldl
        (fun l d => l.declareIn f level d.1 d.2) l) =
      visit s.returnType (visitAll visit s.parameters (visitAll visit s.typeParameters
        (s.parameters.foldl (fun l p => l.declareIn f level .parameter p)
          (s.typeParameters.foldl (fun l p => l.declareIn f level .typeParameter p) l)))) := by
    simp only [Scheme.plainly, Scheme.typeParameters, List.map_append, List.map_map,
      Function.comp_def, List.map_id', List.foldl_append, List.foldl_map, runParts_append]
    rw [← Scheme.plainly, ← Scheme.plainly, runParts_plainly, runParts_plainly]
    rfl
  exact congrArg (within (l.linkComputed f name) (.names []))
    (funext fun level => funext fun l => (hall level l).symm)

theorem visitHeritage_eq (isClass : Bool) (clauses : List Slot) (l : Links) :
    visitHeritage f visit isClass clauses l =
      runParts f visit (clauses.map (.visit (.heritage isClass))) l := by
  rw [runParts, List.foldl_map]
  rfl

theorem visitClass_eq (node : Slot) (isClass : Bool) (parameters heritage members : List Slot)
    (l : Links) :
    visitClass f visit isClass parameters heritage members l =
      runScheme f visit node (.ofClass isClass parameters heritage members) l := by
  have hparameters : (Scheme.typeParameters parameters).map Prod.snd = parameters := by
    simp [Scheme.typeParameters, Function.comp_def]
  simp only [runScheme, Scheme.ofClass, hparameters, runParts_append, runParts_plainly,
    ← visitHeritage_eq, foldl_declareIn_typeParameters]
  rfl

/-- Visiting a node runs the scheme of its form. -/
theorem visitForm_eq (node : Slot) (form : Form Slot) (l : Links) :
    visitForm f visit node form l = runScheme f visit node form.plainScheme l := by
  cases form
  case functionDeclaration | methodDeclaration | methodSignature | callSignature |
    constructSignature | functionType | constructorType | constructorDeclaration | getAccessor |
    setAccessor | indexSignature =>
    exact visitSignature_eq f visit node _ _ l
  case classDeclaration | interfaceDeclaration => exact visitClass_eq f visit node _ _ _ _ l
  case moduleDeclaration modifiers flavor name body =>
    cases flavor
    all_goals rfl
  case typeAlias modifiers name parameters type =>
    have hparameters : (Scheme.typeParameters parameters).map Prod.snd = parameters := by
      simp [Scheme.typeParameters, Function.comp_def]
    simp only [Form.plainScheme, runScheme, hparameters, runParts_append, runParts_plainly,
      foldl_declareIn_typeParameters]
    rfl
  case typeReference | typeQuery => exact (runParts_plainly f visit _ _).symm
  case importType => exact (runParts_plainly f visit _ _).symm
  case exportDeclaration typeOnly clause specifier =>
    cases specifier
    all_goals rfl
  all_goals first
    | rfl
    | exact (runParts_plainly f visit _ _).symm

/-- Visiting it in another manner runs the scheme for that manner. -/
theorem visitAs_eq {manner : Manner} (hmanner : manner ≠ .plain) (node : Slot) (l : Links) :
    visitAs f visit manner node l =
      (f.arena.form? node).elim l fun form => runScheme f visit node (form.scheme manner) l := by
  -- each manner reads one form of its own, and its scheme has no parts for any other
  cases manner with
  | plain => exact absurd rfl hmanner
  | memberName =>
    unfold visitAs linkComputed
    cases f.arena.form? node with
    | none => rfl
    | some form => cases form <;> rfl
  | heritage isClass =>
    show visitHeritage f visit isClass [node] l = _
    rw [visitHeritage, List.foldl_cons, List.foldl_nil]
    cases f.arena.form? node with
    | none => rfl
    | some form =>
      cases form
      case heritageClause word types =>
        show _ = runParts f visit (types.map _) l
        rw [runParts, List.foldl_map]
        rfl
      all_goals rfl
  | base meaning =>
    unfold visitAs
    cases f.arena.form? node with
    | none => rfl
    | some form =>
      cases form
      case heritageType expression typeArguments => exact (runParts_plainly f visit _ _).symm
      all_goals rfl
  | exportClause =>
    unfold visitAs linkExported
    cases f.arena.form? node with
    | none => rfl
    | some form =>
      cases form
      case namedExports elements =>
        show _ = runParts f visit (elements.map _) l
        rw [runParts, List.foldl_map]
        rfl
      all_goals rfl
  | exportedName =>
    unfold visitAs
    cases f.arena.form? node with
    | none => rfl
    | some form => cases form <;> rfl

/-- A node below which names are linked runs the scheme of its form; only a plain visit goes down
one level. -/
theorem visitAs_visitTo (depth : Nat) (manner : Manner) (node : Slot) (l : Links) :
    visitAs f (visitTo f (depth + 1)) manner node l = (f.arena.form? node).elim l fun form =>
      runScheme f (visitTo f (if manner = .plain then depth else depth + 1)) node
        (form.scheme manner) l := by
  by_cases hmanner : manner = .plain
  · subst hmanner
    show visitTo f (depth + 1) node l = _
    unfold visitTo
    cases f.arena.form? node with
    | none => rfl
    | some form => exact visitForm_eq f (visitTo f depth) node form l
  · rw [if_neg hmanner]
    exact visitAs_eq f _ hmanner node l

/-! ## What linking keeps -/

/-- The property does not depend on open regions, and linking a name or declaring one of the given
parameters keeps it. -/
structure KeepsAmong (among : Slot → Prop) (P : Links → Prop) : Prop where
  link : ∀ l entity meaning, P l → P (l.linkEntity f entity meaning)
  declare : ∀ l level flag declaration, among declaration → P l →
    P (l.declareIn f level flag declaration)
  regions : ∀ l scopes inferLevels, P l → P { l with scopes, inferLevels }

/-- The property does not depend on open regions, and linking a name or declaring a parameter keeps
it. -/
abbrev Keeps (P : Links → Prop) : Prop := KeepsAmong f (fun _ => True) P

namespace KeepsAmong

variable {f visit} {among : Slot → Prop} {P : Links → Prop} (h : KeepsAmong f among P)

include h

theorem within {l : Links} (hl : P l) (scope : Scope) {step : Nat → Links → Links}
    (hstep : ∀ level l, P l → P (step level l)) : P (l.within scope step) := by
  have hinside := hstep l.scopes.length _ (h.regions l (scope :: l.scopes) l.inferLevels hl)
  exact h.regions _ _ _ hinside

theorem declareAll {l : Links} (hl : P l) (level : Nat) {declared : List (SymbolFlag × Slot)}
    (hdeclared : ∀ d ∈ declared, among d.2) :
    P (declared.foldl (fun l d => l.declareIn f level d.1 d.2) l) :=
  List.foldlRecOn (motive := P) _ _ hl fun l hl d hd =>
    h.declare l level d.1 d.2 (hdeclared d hd) hl

variable (hvisit : ∀ node l, P l → P (visit node l))

include hvisit

omit h in
theorem visitAll {l : Links} (hl : P l) (nodes : List Slot) : P (visitAll visit nodes l) :=
  List.foldlRecOn (motive := P) _ _ hl fun l hl node _ => hvisit node l hl

theorem visitAs {l : Links} (hl : P l) (manner : Manner) (node : Slot) :
    P (visitAs f visit manner node l) := by
  -- the manners of lists run those of their elements
  have hbase : ∀ l (type : Slot) meaning, P l →
      P (Links.visitAs f visit (.base meaning) type l) := by
    intro l type meaning hl
    unfold Links.visitAs
    dsimp only
    split
    · exact visitAll hvisit (h.link l _ _ hl) _
    · exact hl
  have hexported : ∀ l (element : Slot), P l →
      P (Links.visitAs f visit .exportedName element l) := by
    intro l element hl
    unfold Links.visitAs
    dsimp only
    split
    · exact h.link l _ _ hl
    · exact hl
  cases manner with
  | plain => exact hvisit node l hl
  | memberName =>
    show P (l.linkComputed f node)
    unfold linkComputed
    split
    · exact h.link l _ _ hl
    · exact hl
  | heritage isClass =>
    show P (visitHeritage f visit isClass [node] l)
    unfold visitHeritage
    refine List.foldlRecOn (motive := P) _ _ hl fun l hl clause _ => ?_
    dsimp only
    split
    · exact List.foldlRecOn (motive := P) _ _ hl fun l hl type _ => hbase l type _ hl
    · exact hl
  | base meaning => exact hbase l node meaning hl
  | exportClause =>
    show P (linkExported f node l)
    unfold linkExported
    split
    · exact List.foldlRecOn (motive := P) _ _ hl fun l hl element _ => hexported l element hl
    · exact hl
  | exportedName => exact hexported l node hl

theorem runParts {l : Links} (hl : P l) (parts : List LinkedPart) :
    P (runParts f visit parts l) := by
  refine List.foldlRecOn (motive := P) _ _ hl fun l hl part _ => ?_
  cases part with
  | link entity meaning => exact h.link l entity meaning hl
  | visit manner child => exact h.visitAs hvisit hl manner child

theorem runScheme {l : Links} (hl : P l) (node : Slot) {scheme : Scheme}
    (hscheme : ∀ slot ∈ scheme.declared, among slot) :
    P (runScheme f visit node scheme l) := by
  cases scheme with
  | parts parts => exact h.runParts hvisit hl parts
  | parameters before declared rest =>
    exact h.within (h.runParts hvisit hl before) _ fun level l hl =>
      h.runParts hvisit (h.declareAll hl level fun d hd => hscheme d.2 (List.mem_map_of_mem hd)) _
  | container body =>
    unfold Links.runScheme
    dsimp only
    split
    · exact h.within hl _ fun _ l hl => hvisit body l hl
    · exact hvisit body l hl
  | conditional check extended whenTrue whenFalse =>
    apply hvisit
    apply h.within (hvisit check l hl)
    intro level l hl
    have hextended := hvisit extended _ (h.regions l l.scopes (level :: l.inferLevels) hl)
    exact hvisit whenTrue _ (h.regions _ _ _ hextended)
  | introduction parameter =>
    apply hvisit
    split
    · exact h.declare l _ _ _ (hscheme parameter List.mem_cons_self) hl
    · exact hl

omit hvisit in
/-- What single steps keep is kept by all that is linked below a node. -/
theorem visitTo (hforms : ∀ node form, f.arena.form? node = some form →
    ∀ slot ∈ form.plainScheme.declared, among slot)
    {l : Links} (hl : P l) (depth : Nat) (node : Slot) : P (visitTo f depth node l) := by
  induction depth generalizing node l with
  | zero => exact hl
  | succ depth ih =>
    unfold Links.visitTo
    split
    · next form hform =>
      rw [visitForm_eq]
      exact h.runScheme (fun node l hl => ih hl node) hl node (hforms node form hform)
    · exact hl

end KeepsAmong

variable {f} in
/-- What single steps keep is kept by all that is linked below a node. -/
theorem Keeps.visitTo {P : Links → Prop} (h : Keeps f P) {l : Links} (hl : P l) (depth : Nat)
    (node : Slot) :
    P (Links.visitTo f depth node l) :=
  KeepsAmong.visitTo h (fun _ _ _ _ _ => trivial) hl depth node

end Links

end DeclBundle
