import DeclBundle.Print.Piece
import DeclBundle.Text.Quoted

/-!
# Printing types

Names, expressions, types, parameters and members, each on one line. Types keep the parentheses of
the source; more are written only around operands that would be read differently without them.
-/

set_option autoImplicit false

namespace DeclBundle.Print

variable (a : Arena)

/-! ## Names and expressions -/

/-- A name or an expression. Quoted names are quoted anew, and computed names stand in brackets. -/
def expression (slot : Slot) : Pieces :=
  match a.form? slot with
  | some (.identifier text) | some (.privateIdentifier text) | some (.numericLiteral text)
  | some (.bigIntLiteral text) | some (.templateLiteral text) | some (.verbatim text) => text
  | some (.stringLiteral text) => Text.quote text
  | some (.booleanLiteral value) => if value then "true" else "false"
  | some .nullLiteral => "null"
  | some (.qualifiedName left right) | some (.propertyAccess left right) =>
    part .expression left ++ "." ++ part .expression right
  | some (.computedName inner) => "[" ++ part .expression inner ++ "]"
  | _ => []

/-- One slot of a pattern, without its default. -/
def bindingElement (slot : Slot) : Pieces :=
  match a.form? slot with
  | some (.bindingElement isRest propertyName name _) =>
    (if isRest then "..." else "") ++ whenSome propertyName (part .expression propertyName ++ ": ")
      ++ whenSome name (part .bindingName name)
  | _ => []

/-- The name of a variable or of a parameter, or a pattern of names. -/
def bindingName (slot : Slot) : Pieces :=
  match a.form? slot with
  | some (.objectPattern []) => "\x7b\x7d"
  | some (.objectPattern elements) => "\x7b " ++ listOf .bindingElement elements ++ " \x7d"
  | some (.arrayPattern elements) => "[" ++ listOf .bindingElement elements ++ "]"
  | _ => expression a slot

/-! ## Parameters -/

/-- A type after a colon, if there is one. -/
def ascribed (type : Slot) : Pieces := whenSome type (": " ++ part .type type)

/-- Type parameters in angle brackets, if there are any. -/
def typeParameterList (slots : List Slot) : Pieces :=
  if slots.isEmpty then [] else "<" ++ listOf .typeParameter slots ++ ">"

/-- Type arguments in angle brackets, if there are any. -/
def typeArgumentList (slots : List Slot) : Pieces :=
  if slots.isEmpty then [] else "<" ++ listOf .type slots ++ ">"

/-- Parameters in parentheses. -/
def parameterList (slots : List Slot) : Pieces := "(" ++ listOf .parameter slots ++ ")"

/-- Type parameters, parameters and the type of the result. -/
def signature (s : Signature Slot) : Pieces :=
  typeParameterList s.typeParameters ++ parameterList s.parameters ++ ascribed s.returnType

/-- A signature with an arrow before its result. -/
def arrowSignature (s : Signature Slot) : Pieces :=
  typeParameterList s.typeParameters ++ parameterList s.parameters ++ " => " ++
    part .type s.returnType

/-- A type parameter. -/
def typeParameter (slot : Slot) : Pieces :=
  match a.form? slot with
  | some (.typeParameter ms name bound default) =>
    (if ms.contains .const then "const " else "") ++ (if ms.contains .in_ then "in " else "")
      ++ (if ms.contains .out then "out " else "") ++ part .expression name
      ++ whenSome bound (" extends " ++ part .type bound) ++
        whenSome default (" = " ++ part .type default)
  | _ => []

/-- A parameter. One with an initializer is optional; the initializer itself is not written. -/
def parameter (slot : Slot) : Pieces :=
  match a.form? slot with
  | some (.parameter _ isRest name isOptional type initializer) =>
    (if isRest then "..." else "") ++ part .bindingName name
      ++ (if isOptional || (initializer.isSome && !isRest) then "?" else "") ++ ascribed type
  | _ => []

/-! ## Members -/

/-- The modifiers of a member that mean something in a declaration. -/
def memberModifiers (ms : Modifiers) : String :=
  (if ms.contains .private_ then "private "
    else if ms.contains .protected_ then "protected " else "")
    ++ (if ms.contains .static then "static " else "")
    ++ (if ms.contains .abstract_ then "abstract " else "")
    ++ (if ms.contains .readonly then "readonly " else "")
    ++ (if ms.contains .accessor then "accessor " else "")

/-- The modifiers that control access. -/
def accessibility : Modifiers := .ofList [.public_, .private_, .protected_]

/-- The question mark of an optional member. -/
def questionMark (isOptional : Bool) : String := if isOptional then "?" else ""

/-- An initializer that a declaration may keep. -/
def isKeptInitializer (slot : Slot) : Bool :=
  match a.form? slot with
  | some (.stringLiteral _) | some (.numericLiteral _) | some (.bigIntLiteral _)
  | some (.booleanLiteral _)
  | some (.templateLiteral _) => true
  | _ => false

/-- The name of the only parameter of a private setter. -/
def privateSetterParameter (parameters : List Slot) : Pieces :=
  match parameters with
  | [] => []
  | first :: _ =>
    part .bindingName (match a.form? first with
      | some form => form.name?.getD none
      | none => first)

/-- A type after a colon, or an initializer that may be kept in its place. -/
def ascribedOr (type initializer : Slot) (keepsInitializer : Bool) : Pieces :=
  if type.isSome then ascribed type
  else if keepsInitializer &&
    isKeptInitializer a initializer then " = " ++ part .expression initializer
  else []

/-- A member of a class, of an interface or of a type literal. Private members show their name
only. -/
def member (form : Form Slot) : Pieces :=
  match form with
  | .propertyDeclaration ms name isOptional _ type initializer =>
    memberModifiers ms ++ part .expression name ++ questionMark isOptional
      ++ (if ms.contains .private_ then []
        else ascribedOr a type initializer (ms.contains .readonly)) ++ ";"
  | .methodDeclaration ms name isOptional s _ =>
    memberModifiers ms ++ part .expression name ++ questionMark isOptional
      ++ (if ms.contains .private_ then [] else signature s) ++ ";"
  | .constructorDeclaration ms ps _ =>
    memberModifiers (ms.inter accessibility) ++ "constructor"
      ++ (if ms.contains .private_ then ↑"()" else parameterList ps) ++ ";"
  | .getAccessor ms name _ result =>
    memberModifiers ms ++ "get " ++ part .expression name ++ "()"
      ++ (if ms.contains .private_ then [] else ascribed result) ++ ";"
  | .setAccessor ms name ps =>
    memberModifiers ms ++ "set " ++ part .expression name
      ++ (if ms.contains .private_ then "(" ++ privateSetterParameter a ps ++ ")"
        else parameterList ps) ++ ";"
  | .indexSignature ms ps type =>
    memberModifiers ms ++ "[" ++ listOf .parameter ps ++ "]" ++ ascribed type ++ ";"
  | .propertySignature ms name isOptional type =>
    (if ms.contains .readonly then "readonly " else "") ++ part .expression name ++
      questionMark isOptional
      ++ ascribed type ++ ";"
  | .methodSignature name isOptional s =>
    part .expression name ++ questionMark isOptional ++ signature s ++ ";"
  | .callSignature s => signature s ++ ";"
  | .constructSignature s => "new " ++ signature s ++ ";"
  | _ => []

/-- A member of an interface or of a type literal, where constructors have no place. -/
def typeMember (slot : Slot) : Pieces :=
  match a.form? slot with
  | some (.constructorDeclaration ..) | none => []
  | some form => member a form

/-! ## Types -/

/-- The places in which an operand may need parentheses. -/
inductive Operand where
  /-- Before brackets or a question mark. -/
  | beforeBrackets
  /-- After an operator. -/
  | afterOperator
  | inUnion
  | inIntersection
  | checked
  | extended

/-- An operand of this form would be read differently without parentheses. -/
def needsParentheses (form : Form Slot) (place : Operand) : Bool :=
  let isLoose := match form with
    | .functionType _ | .constructorType .. | .conditionalType .. => true
    | _ => false
  match place, form with
  | .extended, .conditionalType .. => true
  | .extended, _ => false
  | .beforeBrackets, .unionType _ | .beforeBrackets, .intersectionType _
  | .beforeBrackets, .typeOperator ..
  | .beforeBrackets, .inferType _ => true
  | .afterOperator, .unionType _ | .afterOperator, .intersectionType _ => true
  | .inIntersection, .unionType _ | .inIntersection, .intersectionType _ => true
  | _, _ => isLoose

/-- A type in an operand position. -/
def operand (place : Operand) (slot : Slot) : Pieces :=
  match a.form? slot with
  | some form => if needsParentheses form place then "(" ++ part .type slot ++ ")"
    else part .type slot
  | none => []

/-- The key of a mapped type and its constraint. -/
def mappedKey (slot : Slot) : Pieces :=
  match a.form? slot with
  | some (.typeParameter _ name bound _) => part .expression name ++ " in " ++ part .type bound
  | _ => []

/-- A substitution of a template type with the text after it. -/
def templateSpan (slot : Slot) : Pieces :=
  match a.form? slot with
  | some (.templateSpan type literal _) => "$\x7b" ++ part .type type ++ "\x7d" ++ literal
  | _ => []

/-- A type. Names and literals can stand for types. -/
def type (slot : Slot) : Pieces :=
  match a.form? slot with
  | some (.keywordType k) => k.spelling
  | some .thisType => "this"
  | some (.literalType literal) => part .expression literal
  | some (.typeReference name arguments) | some (.heritageType name arguments) =>
    part .expression name ++ typeArgumentList arguments
  | some (.arrayType element) => operand a .beforeBrackets element ++ "[]"
  | some (.tupleType elements) => "[" ++ listOf .type elements ++ "]"
  | some (.namedTupleMember isRest name isOptional inner) =>
    (if isRest then "..." else "") ++ part .expression name ++ questionMark isOptional ++ ": " ++
      part .type inner
  | some (.optionalType inner) => operand a .beforeBrackets inner ++ "?"
  | some (.restType inner) => "..." ++ part .type inner
  | some (.unionType types) => separated " | " (types.map (operand a .inUnion))
  | some (.intersectionType types) => separated " & " (types.map (operand a .inIntersection))
  | some (.functionType s) => arrowSignature s
  | some (.constructorType isAbstract s) =>
    (if isAbstract then "abstract " else "") ++ "new " ++ arrowSignature s
  | some (.typeLiteral []) => "\x7b\x7d"
  | some (.typeLiteral members) => "\x7b " ++ spaced (members.map (part .member)) ++ "\x7d"
  | some (.parenthesizedType inner) => "(" ++ part .type inner ++ ")"
  | some (.typeOperator operator inner) =>
    operator.spelling ++ " " ++ operand a .afterOperator inner
  | some (.indexedAccess object index) =>
    operand a .beforeBrackets object ++ "[" ++ part .type index ++ "]"
  | some (.mappedType readonly parameter nameType question value) =>
    "\x7b " ++ (readonly.elim "" fun sign => sign.spelling ++ "readonly ") ++ "[" ++
      part .mappedKey parameter
      ++ whenSome nameType (" as " ++ part .type nameType) ++ "]"
      ++ (question.elim "" fun sign => sign.spelling ++ "?") ++ ascribed value ++ "; \x7d"
  | some (.conditionalType check extended whenTrue whenFalse) =>
    operand a .checked check ++ " extends " ++ operand a .extended extended ++ " ? " ++
      part .type whenTrue
      ++ " : " ++ part .type whenFalse
  | some (.inferType parameter) => "infer " ++ part .typeParameter parameter
  | some (.typeQuery name arguments) =>
    "typeof " ++ part .expression name ++ typeArgumentList arguments
  | some (.importType isTypeof argument qualifier arguments) =>
    (if isTypeof then "typeof " else "") ++ "import(" ++ part .type argument ++ ")"
      ++ whenSome qualifier ("." ++ part .expression qualifier) ++ typeArgumentList arguments
  | some (.typePredicate asserts subject inner) =>
    (if asserts then "asserts " else "") ++ part .type subject ++
      whenSome inner (" is " ++ part .type inner)
  | some (.templateType head spans) =>
    "\x60" ++ head ++ spans.flatMap (part .templateSpan) ++ "\x60"
  | _ => expression a slot

end DeclBundle.Print
