import DeclBundle.Project.Basic
import DeclBundle.Text.Quoted

/-!
# Declared types

The type that a declaration states, or that the literal it is initialized with implies. Constants
keep the type of their literal, variables that can change have the type of all such literals.
-/

set_option autoImplicit false

namespace DeclBundle

/-- The type of a declaration. -/
inductive DeclaredType where
  /-- A type that is written down. -/
  | written (type : NodeRef)
  /-- The type of one literal. -/
  | literal (text : String)
  | keyword (keyword : KeywordType)
  /-- A part of a type that is written down. -/
  | part (type : NodeRef) (path : List BindingKey)
  | unknown
  deriving DecidableEq, Repr

namespace DeclaredType

/-- The type that a value implies. A value that can change has the type of all literals of its
kind. -/
def ofLiteral (a : Arena) (isConstant : Bool) (value : Slot) : DeclaredType :=
  let pick (keyword : KeywordType) (text : String) : DeclaredType :=
    if isConstant then .literal text else .keyword keyword
  match a.form? value with
  | some (.stringLiteral text) => pick .string (Text.quote text)
  | some (.numericLiteral text) => pick .number text
  | some (.bigIntLiteral text) => pick .bigint text
  | some (.booleanLiteral b) => pick .boolean (if b then "true" else "false")
  | some (.templateLiteral text) => pick .string text
  | some .nullLiteral => .keyword (if isConstant then .null else .any)
  | some (.identifier "undefined") => .keyword (if isConstant then .undefined else .any)
  | _ => .unknown

/-- The part of a value to which one step leads. -/
def stepInto (a : Arena) (value : Slot) : BindingKey → Slot
  | .property name =>
    match a.form? value with
    | some (.objectLiteral properties) =>
      (properties.findSome? fun property =>
        match a.form? property with
        | some (.propertyAssignment key initializer) =>
          if a.nameText? key == some name then some initializer else none
        | _ => none).getD none
    | _ => none
  | .index i =>
    match a.form? value with
    | some (.arrayLiteral elements) => (elements[i]?).getD none
    | _ => none

/-- The type of a name in a pattern: a part of the type that is written at the pattern, or else the
type that the part of the value implies, or else the one that the default implies. -/
def ofBinding (a : Arena) (element : NodeRef) (default : Slot) : DeclaredType :=
  match a.form? (a.bindingRoot element.node), a.bindingPath? element.node with
  | some (.variableDeclaration _ _ ascription initializer), some path =>
    if ascription.isSome then .part ⟨element.file, ascription⟩ path
    else
      let value := path.foldl (stepInto a) initializer
      ofLiteral a false (if value.isSome then value else default)
  | _, _ => .unknown

/-- The type of a declaration, given its form. -/
def ofForm (a : Arena) (ref : NodeRef) (form : Form Slot) : DeclaredType :=
  let stated (ascription : Slot) (otherwise : DeclaredType) : DeclaredType :=
    if ascription.isSome then .written ⟨ref.file, ascription⟩ else otherwise
  match form with
  | .variableDeclaration _ _ ascription initializer =>
    let isConstant := match a.form? (a.parent ref.node) with
      | some (.variableStatement _ .const _) => true
      | _ => false
    stated ascription (ofLiteral a isConstant initializer)
  | .parameter _ _ _ _ ascription initializer => stated ascription (ofLiteral a false initializer)
  | .propertyDeclaration modifiers _ _ _ ascription initializer =>
    stated ascription (ofLiteral a (modifiers.contains .readonly) initializer)
  | .propertySignature _ _ _ type | .typeAlias _ _ _ type | .getAccessor _ _ _ type =>
    stated type .unknown
  | .functionDeclaration _ _ s _ | .methodDeclaration _ _ _ s _ | .methodSignature _ _ s =>
    stated s.returnType .unknown
  | .exportAssignment _ value | .enumMember _ value => ofLiteral a true value
  | .bindingElement _ _ _ default => ofBinding a ref default
  | _ => .unknown

end DeclaredType

/-- The type that a declaration states or implies. -/
def Project.typeOf (p : Project) (ref : NodeRef) : DeclaredType :=
  match p.arena? ref.file with
  | none => .unknown
  | some a => (a.form? ref.node).elim .unknown (DeclaredType.ofForm a ref)

end DeclBundle
