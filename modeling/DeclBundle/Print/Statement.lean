import DeclBundle.Print.Overload
import DeclBundle.Print.Type
import DeclBundle.Text.Words

/-!
# Printing declarations

Statements on lines of their own, indented by four spaces for each block around them. Bodies are
never written: a function ends with a semicolon, and statements that declare nothing leave no text.
-/

set_option autoImplicit false

namespace DeclBundle.Print

variable (a : Arena)

/-! ## Comments -/

/-- A later line of a comment, moved to the indentation of its declaration. -/
def commentLine (cs : List Char) : String :=
  let trimmed := Text.trimStart cs
  let lead := match trimmed with
    | '*' :: _ | '/' :: _ => " "
    | _ => ""
  lead ++ String.ofList (Text.trimEnd trimmed)

/-- The documentation comment of a slot on lines of its own, if it has one and comments are
written. -/
def docLines (l : Layout) (slot : Slot) : Pieces :=
  if l.withDocs then
    match a.doc? slot with
    | none => []
    | some comment =>
      match Text.splitAt '\n' comment.toList with
      | [] => []
      | first :: later =>
        let rest := later.map fun cs => "\n" ++ l.indent ++ commentLine cs
        l.line (String.ofList (Text.trim first) ++ String.join rest)
  else []

/-! ## Parts of statements -/

/-- The modifiers that stand before every kind of declaration. -/
def statementModifiers (ms : Modifiers) : String :=
  (if ms.contains .export_ then "export " else "")
    ++ (if ms.contains .default_ then "default " else "")
    ++ (if ms.contains .declare then "declare " else "")

/-- A heritage clause; one without types leaves no text. -/
def heritageClause (slot : Slot) : Pieces :=
  match a.form? slot with
  | some (.heritageClause _ []) => []
  | some (.heritageClause word types) => " " ++ word.spelling ++ " " ++ listOf .type types
  | _ => []

/-- One name of an import or an export. -/
def specifier (slot : Slot) : Pieces :=
  match a.form? slot with
  | some (.importSpecifier typeOnly propertyName name)
  | some (.exportSpecifier typeOnly propertyName name) =>
    (if typeOnly then "type " else "") ++
      whenSome propertyName (part .expression propertyName ++ " as ")
      ++ part .expression name
  | _ => []

/-- The names of an import or an export in braces. -/
def specifiers (slots : List Slot) : Pieces :=
  if slots.isEmpty then ↑"\x7b\x7d" else "\x7b " ++ listOf .specifier slots ++ " \x7d"

/-- One variable. A constant without a type keeps an initializer that is a literal. -/
def variable_ (flavor : VariableFlavor) (slot : Slot) : Pieces :=
  match a.form? slot with
  | some (.variableDeclaration name _ type initializer) =>
    part .bindingName name ++ ascribedOr a type initializer (flavor = .const)
  | _ => []

/-! ## Classes -/

/-- The name of a member is private to its class. -/
def hasPrivateName (form : Form Slot) : Bool :=
  match form.name?.bind a.form? with
  | some (.privateIdentifier _) => true
  | _ => false

/-- The property that a constructor parameter declares, if it does. -/
def parameterProperty (l : Layout) (slot : Slot) : Pieces :=
  match a.form? slot with
  | some (.parameter ms _ name isOptional type initializer) =>
    if ms.meets (accessibility.insert .readonly) then
      l.line (memberModifiers ms ++ part .bindingName name ++
        questionMark (isOptional || initializer.isSome)
        ++ (if ms.contains .private_ then [] else ascribed type) ++ ";")
    else []
  | _ => []

/-- The form is a member of a class. -/
def isClassMember : Form Slot → Bool
  | .propertyDeclaration .. | .methodDeclaration .. | .constructorDeclaration .. | .getAccessor ..
  | .setAccessor ..
  | .indexSignature .. => true
  | _ => false

/-- The properties that the parameters of a constructor with a body declare. -/
def parameterProperties (l : Layout) : Form Slot → Pieces
  | .constructorDeclaration _ ps true => ps.flatMap (part (.parameterProperty l))
  | _ => []

/-- The lines of one member of a class, after the properties that its parameters declare. -/
def classMember (l : Layout) (isOverloadBody : Bool) (slot : Slot) : Pieces :=
  match a.form? slot with
  | none => []
  | some form =>
    if isOverloadBody || hasPrivateName a form ||
      !isClassMember form then parameterProperties l form
    else parameterProperties l form ++ docLines a l slot ++ l.line (member a form)

/-- The lines of the members of a class. All private names together leave one line. -/
def classMembers (l : Layout) (members : List Slot) : Pieces :=
  (if members.any fun slot => (a.form? slot).any (hasPrivateName a) then l.line "#private;" else [])
    ++ members.flatMap fun slot => part (.classMember l (isOverloadBody a members slot)) slot

/-! ## Interfaces and enums -/

/-- The lines of one member of an interface. -/
def interfaceMember (l : Layout) (slot : Slot) : Pieces :=
  docLines a l slot ++ l.line (typeMember a slot)

/-- The lines of one member of an enum, with a comma unless it is the last. -/
def enumMember (l : Layout) (isLast : Bool) (slot : Slot) : Pieces :=
  match a.form? slot with
  | some (.enumMember name initializer) =>
    docLines a l slot
      ++ l.line
        (part .expression name ++ whenSome initializer (" = " ++ part .expression initializer)
        ++ (if isLast then "" else ","))
  | _ => []

/-- The lines of the members of an enum. -/
def enumMembers (l : Layout) : List Slot → Pieces
  | [] => []
  | slot :: rest => part (.enumMember l rest.isEmpty) slot ++ enumMembers l rest

/-! ## Imports and exports -/

/-- What an import binds besides a default. -/
def namedBindings (slot : Slot) : Pieces :=
  match a.form? slot with
  | some (.namespaceImport n) => "* as " ++ part .expression n
  | some (.namedImports elements) => specifiers elements
  | _ => []

/-- What an import binds, with the word before the module. -/
def importClause (slot : Slot) : Pieces :=
  match a.form? slot with
  | some (.importClause typeOnly name bindings) =>
    (if typeOnly then "type " else "")
      ++ whenSome name (part .expression name ++ (if bindings.isSome then ", " else ""))
      ++ namedBindings a bindings ++ " from "
  | _ => []

/-- What an import equals declaration refers to. -/
def importReference (slot : Slot) : Pieces :=
  match a.form? slot with
  | some (.externalReference inner) => "require(" ++ part .expression inner ++ ")"
  | _ => expression a slot

/-- What an export names. -/
def exportClause (slot : Slot) : Pieces :=
  match a.form? slot with
  | some (.namedExports elements) => specifiers elements
  | some (.namespaceExport name) => "* as " ++ part .expression name
  | _ => "*"

/-! ## Statements -/

/-- The word and the name of a module. -/
def moduleHead (flavor : ModuleFlavor) (name : Slot) : Pieces :=
  match flavor with
  | .global => "global"
  | .namespace_ => "namespace " ++ part .expression name
  | .module_ => "module " ++ part .expression name

/-- The end of the first line of a module and the lines after it, from the rest of a dotted name
on. -/
def moduleBody (l : Layout) (slot : Slot) : Pieces :=
  match a.form? slot with
  | some (.moduleDeclaration _ _ name inner) =>
    "." ++ part .expression name ++ part (.moduleBody l) inner
  | some (.moduleBlock statements) =>
    " \x7b\n" ++ (withoutOverloadBodies a statements).flatMap (part (.statement l.deeper)) ++
      l.line "\x7d"
  | _ => ";\n"

/-- The lines of a declaration without its comment. -/
def declaration (l : Layout) (form : Form Slot) : Pieces :=
  match form with
  | .functionDeclaration ms name s _ =>
    l.line (statementModifiers ms ++ "function " ++ whenSome name (part .expression name) ++
      signature s ++ ";")
  | .classDeclaration ms name ts heritage members =>
    l.line (statementModifiers ms ++ (if ms.contains .abstract_ then "abstract " else "") ++ "class"
        ++ whenSome name (" " ++ part .expression name) ++ typeParameterList ts
        ++ heritage.flatMap (part .heritageClause) ++ " \x7b")
      ++ classMembers a l.deeper members ++ l.line "\x7d"
  | .interfaceDeclaration ms name ts heritage members =>
    l.line (statementModifiers ms ++ "interface " ++ part .expression name ++ typeParameterList ts
        ++ heritage.flatMap (part .heritageClause) ++ " \x7b")
      ++ members.flatMap (part (.interfaceMember l.deeper)) ++ l.line "\x7d"
  | .typeAlias ms name ts value =>
    l.line
      (statementModifiers ms ++ "type " ++ part .expression name ++ typeParameterList ts ++ " = "
      ++ part .type value ++ ";")
  | .enumDeclaration ms name members =>
    l.line (statementModifiers ms ++ (if ms.contains .const then "const " else "") ++ "enum " ++
      part .expression name
        ++ " \x7b")
      ++ enumMembers l.deeper members ++ l.line "\x7d"
  | .variableStatement ms flavor declarations =>
    l.line (statementModifiers ms ++ flavor.spelling ++ " " ++
      listOf (.variable_ flavor) declarations ++ ";")
  | .moduleDeclaration ms flavor name body =>
    l.indent ++ statementModifiers ms ++ moduleHead flavor name ++ part (.moduleBody l) body
  | .importDeclaration clause specifier =>
    l.line ("import " ++ part .importClause clause ++ part .expression specifier ++ ";")
  | .importEquals ms typeOnly name reference =>
    l.line ((if ms.contains .export_ then "export " else "") ++ "import " ++
      (if typeOnly then "type " else "")
      ++ part .expression name ++ " = " ++ part .importReference reference ++ ";")
  | .exportDeclaration typeOnly clause specifier =>
    l.line ("export " ++ (if typeOnly then "type " else "") ++ exportClause a clause
      ++ whenSome specifier (" from " ++ part .expression specifier) ++ ";")
  | .exportAssignment isEquals value =>
    l.line ((if isEquals then "export = " else "export default ") ++ part .expression value ++ ";")
  | .globalNamespaceExport name => l.line ("export as namespace " ++ part .expression name ++ ";")
  | _ => []

/-- The lines of a statement, with its comment before them. -/
def statement (l : Layout) (slot : Slot) : Pieces :=
  match a.form? slot with
  | none | some .otherStatement => []
  | some form => docLines a l slot ++ declaration a l form

/-! ## Texts -/

/-- What is printed for a slot in a role. -/
def pieces (role : Part) (slot : Slot) : Pieces :=
  match role with
  | .expression => expression a slot
  | .bindingName => bindingName a slot
  | .bindingElement => bindingElement a slot
  | .type => type a slot
  | .typeParameter => typeParameter a slot
  | .mappedKey => mappedKey a slot
  | .templateSpan => templateSpan a slot
  | .parameter => parameter a slot
  | .member => typeMember a slot
  | .heritageClause => heritageClause a slot
  | .specifier => specifier a slot
  | .variable_ flavor => variable_ a flavor slot
  | .parameterProperty l => parameterProperty a l slot
  | .classMember l isOverloadBody => classMember a l isOverloadBody slot
  | .interfaceMember l => interfaceMember a l slot
  | .enumMember l isLast => enumMember a l isLast slot
  | .importClause => importClause a slot
  | .importReference => importReference a slot
  | .moduleBody l => moduleBody a l slot
  | .statement l => statement a l slot

/-- The text of a slot in a role, down to `depth` levels. -/
def textTo : (depth : Nat) → Part → Slot → String
  | 0, _, _ => ""
  | depth + 1, role, slot =>
    String.join ((pieces a role slot).map fun
      | .text text => text
      | .part role slot => textTo depth role slot)

/-- The text without the line ends at its end. -/
def withoutLineEnds (text : String) : String :=
  String.ofList (text.toList.reverse.dropWhile (· == '\n')).reverse

/-- The text of a slot in a role. -/
def text (role : Part) (slot : Slot) : String := withoutLineEnds (textTo a (a.size + 1) role slot)

/-- The text of a type. -/
def typeText (slot : Slot) : String := text a .type slot

/-- The text of one statement. -/
def statementText (withDocs : Bool) (slot : Slot) : String := text a (.statement { withDocs }) slot

/-- The texts of the statements that leave some. -/
def statementTexts (withDocs : Bool) (slots : List Slot) : List String :=
  ((withoutOverloadBodies a slots).map (statementText a withDocs)).filter (! ·.isEmpty)

/-- The statements of a file. -/
def statementsOf (root : Slot) : List Slot :=
  match a.form? root with
  | some (.sourceFile statements _) => statements
  | _ => []

/-- The text of a file. -/
def fileText (withDocs : Bool) (root : Slot) : String :=
  String.join ((statementTexts a withDocs (statementsOf a root)).map (· ++ "\n"))

end DeclBundle.Print
