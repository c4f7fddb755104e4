import DeclBundle.Ast.Form

/-!
# Labelled views of nodes

Every form has a name and labelled fields. `Form.fields` lists the fields of a form and
`Form.ofFields` builds a form from whatever answers by label, so that trees can be written to and
read from any labelled format. What is missing reads as the first value of its type.
-/

set_option autoImplicit false

namespace DeclBundle

/-- The value of a labelled field. -/
inductive Field (α : Type) where
  | child (x : α)
  | list (xs : List α)
  | flag (b : Bool)
  | text (s : String)
  | modifiers (ms : Modifiers)
  | word (w : Option String)

/-- Something that answers by label. -/
structure FieldReader (α : Type) where
  child : String → α
  list : String → List α
  flag : String → Bool
  text : String → String
  modifiers : String → Modifiers
  word : String → Option String

/-! ## Words -/

/-- The label of a module flavor. -/
def ModuleFlavor.label : ModuleFlavor → String
  | namespace_ => "namespace"
  | module_ => "module"
  | global => "global"

/-- The label of a sign in a mapped type. -/
def MappedSign.label : MappedSign → String
  | present => "present"
  | plus => "plus"
  | minus => "minus"

/-- The sign with a given label. -/
def MappedSign.ofLabel? (label : String) : Option MappedSign :=
  [present, plus, minus].find? fun s => s.label == label

/-- The first of `all` whose name is the given label, or the very first. -/
def byLabel {α : Type} [Inhabited α] (all : List α) (name : α → String)
    (label : Option String) : α :=
  (all.find? fun a => some (name a) == label).getD (all.headD default)

/-- The variable flavor with a given label. -/
def VariableFlavor.ofLabel : Option String → VariableFlavor := byLabel [var, let_, const] spelling

/-- The module flavor with a given label. -/
def ModuleFlavor.ofLabel : Option String → ModuleFlavor :=
  byLabel [namespace_, module_, global] label

/-- The keyword type with a given label. -/
def KeywordType.ofLabel : Option String → KeywordType :=
  byLabel [any, unknown, number, bigint, string, boolean, symbol, object, void, undefined, null,
    never, intrinsic]
    spelling

/-- The type operator with a given label. -/
def TypeOperator.ofLabel : Option String → TypeOperator :=
  byLabel [keyof, unique, readonly] spelling

/-- The heritage word with a given label. -/
def HeritageWord.ofLabel : Option String → HeritageWord := byLabel [extends_, implements] spelling

/-! ## Forms -/

/-- The labelled fields of a signature. -/
def Signature.fields {α : Type} (s : Signature α) : List (String × Field α) :=
  [("type_parameters", .list s.typeParameters), ("parameters", .list s.parameters),
    ("return_type", .child s.returnType)]

/-- The signature that a reader describes. -/
def FieldReader.signature {α : Type} (r : FieldReader α) : Signature α :=
  ⟨r.list "type_parameters", r.list "parameters", r.child "return_type"⟩

namespace Form

variable {α : Type}

/-- The name of the kind of a form. -/
def kindName : Form α → String
  | sourceFile .. => "SourceFile"
  | identifier .. => "Identifier"
  | privateIdentifier .. => "PrivateIdentifier"
  | qualifiedName .. => "QualifiedName"
  | computedName .. => "ComputedPropertyName"
  | stringLiteral .. => "StringLiteral"
  | numericLiteral .. => "NumericLiteral"
  | bigIntLiteral .. => "BigIntLiteral"
  | booleanLiteral .. => "BooleanLiteral"
  | nullLiteral => "NullLiteral"
  | templateLiteral .. => "TemplateLiteral"
  | propertyAccess .. => "PropertyAccessExpression"
  | verbatim .. => "OpaqueExpression"
  | objectLiteral .. => "ObjectLiteralExpression"
  | propertyAssignment .. => "PropertyAssignment"
  | arrayLiteral .. => "ArrayLiteralExpression"
  | variableStatement .. => "VariableStatement"
  | variableDeclaration .. => "VariableDeclaration"
  | objectPattern .. => "ObjectBindingPattern"
  | arrayPattern .. => "ArrayBindingPattern"
  | bindingElement .. => "BindingElement"
  | functionDeclaration .. => "FunctionDeclaration"
  | classDeclaration .. => "ClassDeclaration"
  | interfaceDeclaration .. => "InterfaceDeclaration"
  | typeAlias .. => "TypeAliasDeclaration"
  | enumDeclaration .. => "EnumDeclaration"
  | enumMember .. => "EnumMember"
  | moduleDeclaration .. => "ModuleDeclaration"
  | moduleBlock .. => "ModuleBlock"
  | importDeclaration .. => "ImportDeclaration"
  | importClause .. => "ImportClause"
  | namespaceImport .. => "NamespaceImport"
  | namedImports .. => "NamedImports"
  | importSpecifier .. => "ImportSpecifier"
  | importEquals .. => "ImportEqualsDeclaration"
  | externalReference .. => "ExternalModuleReference"
  | exportDeclaration .. => "ExportDeclaration"
  | namedExports .. => "NamedExports"
  | namespaceExport .. => "NamespaceExport"
  | exportSpecifier .. => "ExportSpecifier"
  | exportAssignment .. => "ExportAssignment"
  | globalNamespaceExport .. => "NamespaceExportDeclaration"
  | otherStatement => "OpaqueStatement"
  | propertyDeclaration .. => "PropertyDeclaration"
  | methodDeclaration .. => "MethodDeclaration"
  | constructorDeclaration .. => "Constructor"
  | getAccessor .. => "GetAccessor"
  | setAccessor .. => "SetAccessor"
  | indexSignature .. => "IndexSignature"
  | propertySignature .. => "PropertySignature"
  | methodSignature .. => "MethodSignature"
  | callSignature .. => "CallSignature"
  | constructSignature .. => "ConstructSignature"
  | parameter .. => "Parameter"
  | typeParameter .. => "TypeParameter"
  | heritageClause .. => "HeritageClause"
  | heritageType .. => "ExpressionWithTypeArguments"
  | keywordType .. => "KeywordType"
  | thisType => "ThisType"
  | literalType .. => "LiteralType"
  | typeReference .. => "TypeReference"
  | arrayType .. => "ArrayType"
  | tupleType .. => "TupleType"
  | namedTupleMember .. => "NamedTupleMember"
  | optionalType .. => "OptionalType"
  | restType .. => "RestType"
  | unionType .. => "UnionType"
  | intersectionType .. => "IntersectionType"
  | functionType .. => "FunctionType"
  | constructorType .. => "ConstructorType"
  | typeLiteral .. => "TypeLiteral"
  | parenthesizedType .. => "ParenthesizedType"
  | typeOperator .. => "TypeOperator"
  | indexedAccess .. => "IndexedAccessType"
  | mappedType .. => "MappedType"
  | conditionalType .. => "ConditionalType"
  | inferType .. => "InferType"
  | typeQuery .. => "TypeQuery"
  | importType .. => "ImportType"
  | typePredicate .. => "TypePredicate"
  | templateType .. => "TemplateLiteralType"
  | templateSpan .. => "TemplateLiteralTypeSpan"

/-- The labelled fields of a form, in source order. -/
def fields : Form α → List (String × Field α)
  | sourceFile a b => [("statements", .list a), ("is_external_module", .flag b)]
  | identifier a => [("text", .text a)]
  | privateIdentifier a => [("text", .text a)]
  | qualifiedName a b => [("left", .child a), ("right", .child b)]
  | computedName a => [("expression", .child a)]
  | stringLiteral a => [("text", .text a)]
  | numericLiteral a => [("text", .text a)]
  | bigIntLiteral a => [("text", .text a)]
  | booleanLiteral a => [("value", .flag a)]
  | nullLiteral => []
  | templateLiteral a => [("text", .text a)]
  | propertyAccess a b => [("expression", .child a), ("name", .child b)]
  | verbatim a => [("text", .text a)]
  | objectLiteral a => [("properties", .list a)]
  | propertyAssignment a b => [("name", .child a), ("initializer", .child b)]
  | arrayLiteral a => [("elements", .list a)]
  | variableStatement a b c =>
    [("modifiers", .modifiers a), ("flavor", .word (some b.spelling)), ("declarations", .list c)]
  | variableDeclaration a b c d =>
    [("name", .child a), ("exclamation", .flag b), ("type_annotation", .child c),
      ("initializer", .child d)]
  | objectPattern a => [("elements", .list a)]
  | arrayPattern a => [("elements", .list a)]
  | bindingElement a b c d =>
    [("dot_dot_dot", .flag a), ("property_name", .child b), ("name", .child c),
      ("initializer", .child d)]
  | functionDeclaration a b c d =>
    [("modifiers", .modifiers a), ("name", .child b)] ++ c.fields ++ [("has_body", .flag d)]
  | classDeclaration a b c d e =>
    [("modifiers", .modifiers a), ("name", .child b), ("type_parameters", .list c),
      ("heritage_clauses", .list d),
      ("members", .list e)]
  | interfaceDeclaration a b c d e =>
    [("modifiers", .modifiers a), ("name", .child b), ("type_parameters", .list c),
      ("heritage_clauses", .list d),
      ("members", .list e)]
  | typeAlias a b c d =>
    [("modifiers", .modifiers a), ("name", .child b), ("type_parameters", .list c),
      ("type_node", .child d)]
  | enumDeclaration a b c => [("modifiers", .modifiers a), ("name", .child b), ("members", .list c)]
  | enumMember a b => [("name", .child a), ("initializer", .child b)]
  | moduleDeclaration a b c d =>
    [("modifiers", .modifiers a), ("flavor", .word (some b.label)), ("name", .child c),
      ("body", .child d)]
  | moduleBlock a => [("statements", .list a)]
  | importDeclaration a b => [("import_clause", .child a), ("module_specifier", .child b)]
  | importClause a b c =>
    [("is_type_only", .flag a), ("name", .child b), ("named_bindings", .child c)]
  | namespaceImport a => [("name", .child a)]
  | namedImports a => [("elements", .list a)]
  | importSpecifier a b c =>
    [("is_type_only", .flag a), ("property_name", .child b), ("name", .child c)]
  | importEquals a b c d =>
    [("modifiers", .modifiers a), ("is_type_only", .flag b), ("name", .child c),
      ("module_reference", .child d)]
  | externalReference a => [("expression", .child a)]
  | exportDeclaration a b c =>
    [("is_type_only", .flag a), ("export_clause", .child b), ("module_specifier", .child c)]
  | namedExports a => [("elements", .list a)]
  | namespaceExport a => [("name", .child a)]
  | exportSpecifier a b c =>
    [("is_type_only", .flag a), ("property_name", .child b), ("name", .child c)]
  | exportAssignment a b => [("is_export_equals", .flag a), ("expression", .child b)]
  | globalNamespaceExport a => [("name", .child a)]
  | otherStatement => []
  | propertyDeclaration a b c d e f =>
    [("modifiers", .modifiers a), ("name", .child b), ("question", .flag c),
      ("exclamation", .flag d),
      ("type_annotation", .child e), ("initializer", .child f)]
  | methodDeclaration a b c d e =>
    [("modifiers", .modifiers a), ("name", .child b), ("question", .flag c)] ++ d.fields ++
      [("has_body", .flag e)]
  | constructorDeclaration a b c =>
    [("modifiers", .modifiers a), ("parameters", .list b), ("has_body", .flag c)]
  | getAccessor a b c d =>
    [("modifiers", .modifiers a), ("name", .child b), ("parameters", .list c),
      ("return_type", .child d)]
  | setAccessor a b c => [("modifiers", .modifiers a), ("name", .child b), ("parameters", .list c)]
  | indexSignature a b c =>
    [("modifiers", .modifiers a), ("parameters", .list b), ("type_annotation", .child c)]
  | propertySignature a b c d =>
    [("modifiers", .modifiers a), ("name", .child b), ("question", .flag c),
      ("type_annotation", .child d)]
  | methodSignature a b c => [("name", .child a), ("question", .flag b)] ++ c.fields
  | callSignature a => a.fields
  | constructSignature a => a.fields
  | parameter a b c d e f =>
    [("modifiers", .modifiers a), ("dot_dot_dot", .flag b), ("name", .child c),
      ("question", .flag d),
      ("type_annotation", .child e), ("initializer", .child f)]
  | typeParameter a b c d =>
    [("modifiers", .modifiers a), ("name", .child b), ("constraint", .child c),
      ("default", .child d)]
  | heritageClause a b => [("token", .word (some a.spelling)), ("types", .list b)]
  | heritageType a b => [("expression", .child a), ("type_arguments", .list b)]
  | keywordType a => [("keyword", .word (some a.spelling))]
  | thisType => []
  | literalType a => [("literal", .child a)]
  | typeReference a b => [("type_name", .child a), ("type_arguments", .list b)]
  | arrayType a => [("element_type", .child a)]
  | tupleType a => [("elements", .list a)]
  | namedTupleMember a b c d =>
    [("dot_dot_dot", .flag a), ("name", .child b), ("question", .flag c), ("type_node", .child d)]
  | optionalType a => [("type_node", .child a)]
  | restType a => [("type_node", .child a)]
  | unionType a => [("types", .list a)]
  | intersectionType a => [("types", .list a)]
  | functionType a => a.fields
  | constructorType a b => [("is_abstract", .flag a)] ++ b.fields
  | typeLiteral a => [("members", .list a)]
  | parenthesizedType a => [("type_node", .child a)]
  | typeOperator a b => [("operator", .word (some a.spelling)), ("type_node", .child b)]
  | indexedAccess a b => [("object_type", .child a), ("index_type", .child b)]
  | mappedType a b c d e =>
    [("readonly_token", .word (a.map MappedSign.label)), ("type_parameter", .child b),
      ("name_type", .child c),
      ("question_token", .word (d.map MappedSign.label)), ("type_node", .child e)]
  | conditionalType a b c d =>
    [("check_type", .child a), ("extends_type", .child b), ("true_type", .child c),
      ("false_type", .child d)]
  | inferType a => [("type_parameter", .child a)]
  | typeQuery a b => [("expr_name", .child a), ("type_arguments", .list b)]
  | importType a b c d =>
    [("is_type_of", .flag a), ("argument", .child b), ("qualifier", .child c),
      ("type_arguments", .list d)]
  | typePredicate a b c =>
    [("asserts", .flag a), ("parameter_name", .child b), ("type_node", .child c)]
  | templateType a b => [("head", .text a), ("spans", .list b)]
  | templateSpan a b c => [("type_node", .child a), ("literal", .text b), ("is_tail", .flag c)]

/-- The form of the named kind that a reader describes; an unknown kind declares nothing. -/
def ofFields (r : FieldReader α) : String → Form α
  | "SourceFile" => sourceFile (r.list "statements") (r.flag "is_external_module")
  | "Identifier" => identifier (r.text "text")
  | "PrivateIdentifier" => privateIdentifier (r.text "text")
  | "QualifiedName" => qualifiedName (r.child "left") (r.child "right")
  | "ComputedPropertyName" => computedName (r.child "expression")
  | "StringLiteral" => stringLiteral (r.text "text")
  | "NumericLiteral" => numericLiteral (r.text "text")
  | "BigIntLiteral" => bigIntLiteral (r.text "text")
  | "BooleanLiteral" => booleanLiteral (r.flag "value")
  | "NullLiteral" => nullLiteral
  | "TemplateLiteral" => templateLiteral (r.text "text")
  | "PropertyAccessExpression" => propertyAccess (r.child "expression") (r.child "name")
  | "OpaqueExpression" => verbatim (r.text "text")
  | "ObjectLiteralExpression" => objectLiteral (r.list "properties")
  | "PropertyAssignment" => propertyAssignment (r.child "name") (r.child "initializer")
  | "ArrayLiteralExpression" => arrayLiteral (r.list "elements")
  | "VariableStatement" =>
    variableStatement (r.modifiers "modifiers") (VariableFlavor.ofLabel (r.word "flavor"))
      (r.list "declarations")
  | "VariableDeclaration" =>
    variableDeclaration (r.child "name") (r.flag "exclamation") (r.child "type_annotation")
      (r.child "initializer")
  | "ObjectBindingPattern" => objectPattern (r.list "elements")
  | "ArrayBindingPattern" => arrayPattern (r.list "elements")
  | "BindingElement" =>
    bindingElement (r.flag "dot_dot_dot") (r.child "property_name") (r.child "name")
      (r.child "initializer")
  | "FunctionDeclaration" =>
    functionDeclaration (r.modifiers "modifiers") (r.child "name") r.signature (r.flag "has_body")
  | "ClassDeclaration" =>
    classDeclaration (r.modifiers "modifiers") (r.child "name") (r.list "type_parameters")
      (r.list "heritage_clauses") (r.list "members")
  | "InterfaceDeclaration" =>
    interfaceDeclaration (r.modifiers "modifiers") (r.child "name") (r.list "type_parameters")
      (r.list "heritage_clauses") (r.list "members")
  | "TypeAliasDeclaration" =>
    typeAlias (r.modifiers "modifiers") (r.child "name") (r.list "type_parameters")
      (r.child "type_node")
  | "EnumDeclaration" =>
    enumDeclaration (r.modifiers "modifiers") (r.child "name") (r.list "members")
  | "EnumMember" => enumMember (r.child "name") (r.child "initializer")
  | "ModuleDeclaration" =>
    moduleDeclaration (r.modifiers "modifiers") (ModuleFlavor.ofLabel (r.word "flavor"))
      (r.child "name")
      (r.child "body")
  | "ModuleBlock" => moduleBlock (r.list "statements")
  | "ImportDeclaration" => importDeclaration (r.child "import_clause") (r.child "module_specifier")
  | "ImportClause" =>
    importClause (r.flag "is_type_only") (r.child "name") (r.child "named_bindings")
  | "NamespaceImport" => namespaceImport (r.child "name")
  | "NamedImports" => namedImports (r.list "elements")
  | "ImportSpecifier" =>
    importSpecifier (r.flag "is_type_only") (r.child "property_name") (r.child "name")
  | "ImportEqualsDeclaration" =>
    importEquals (r.modifiers "modifiers") (r.flag "is_type_only") (r.child "name")
      (r.child "module_reference")
  | "ExternalModuleReference" => externalReference (r.child "expression")
  | "ExportDeclaration" =>
    exportDeclaration (r.flag "is_type_only") (r.child "export_clause") (r.child "module_specifier")
  | "NamedExports" => namedExports (r.list "elements")
  | "NamespaceExport" => namespaceExport (r.child "name")
  | "ExportSpecifier" =>
    exportSpecifier (r.flag "is_type_only") (r.child "property_name") (r.child "name")
  | "ExportAssignment" => exportAssignment (r.flag "is_export_equals") (r.child "expression")
  | "NamespaceExportDeclaration" => globalNamespaceExport (r.child "name")
  | "OpaqueStatement" => otherStatement
  | "PropertyDeclaration" =>
    propertyDeclaration (r.modifiers "modifiers") (r.child "name") (r.flag "question")
      (r.flag "exclamation")
      (r.child "type_annotation") (r.child "initializer")
  | "MethodDeclaration" =>
    methodDeclaration (r.modifiers "modifiers") (r.child "name") (r.flag "question") r.signature
      (r.flag "has_body")
  | "Constructor" =>
    constructorDeclaration (r.modifiers "modifiers") (r.list "parameters") (r.flag "has_body")
  | "GetAccessor" =>
    getAccessor (r.modifiers "modifiers") (r.child "name") (r.list "parameters")
      (r.child "return_type")
  | "SetAccessor" => setAccessor (r.modifiers "modifiers") (r.child "name") (r.list "parameters")
  | "IndexSignature" =>
    indexSignature (r.modifiers "modifiers") (r.list "parameters") (r.child "type_annotation")
  | "PropertySignature" =>
    propertySignature (r.modifiers "modifiers") (r.child "name") (r.flag "question")
      (r.child "type_annotation")
  | "MethodSignature" => methodSignature (r.child "name") (r.flag "question") r.signature
  | "CallSignature" => callSignature r.signature
  | "ConstructSignature" => constructSignature r.signature
  | "Parameter" =>
    parameter (r.modifiers "modifiers") (r.flag "dot_dot_dot") (r.child "name") (r.flag "question")
      (r.child "type_annotation") (r.child "initializer")
  | "TypeParameter" =>
    typeParameter (r.modifiers "modifiers") (r.child "name") (r.child "constraint")
      (r.child "default")
  | "HeritageClause" => heritageClause (HeritageWord.ofLabel (r.word "token")) (r.list "types")
  | "ExpressionWithTypeArguments" => heritageType (r.child "expression") (r.list "type_arguments")
  | "KeywordType" => keywordType (KeywordType.ofLabel (r.word "keyword"))
  | "ThisType" => thisType
  | "LiteralType" => literalType (r.child "literal")
  | "TypeReference" => typeReference (r.child "type_name") (r.list "type_arguments")
  | "ArrayType" => arrayType (r.child "element_type")
  | "TupleType" => tupleType (r.list "elements")
  | "NamedTupleMember" =>
    namedTupleMember (r.flag "dot_dot_dot") (r.child "name") (r.flag "question")
      (r.child "type_node")
  | "OptionalType" => optionalType (r.child "type_node")
  | "RestType" => restType (r.child "type_node")
  | "UnionType" => unionType (r.list "types")
  | "IntersectionType" => intersectionType (r.list "types")
  | "FunctionType" => functionType r.signature
  | "ConstructorType" => constructorType (r.flag "is_abstract") r.signature
  | "TypeLiteral" => typeLiteral (r.list "members")
  | "ParenthesizedType" => parenthesizedType (r.child "type_node")
  | "TypeOperator" => typeOperator (TypeOperator.ofLabel (r.word "operator")) (r.child "type_node")
  | "IndexedAccessType" => indexedAccess (r.child "object_type") (r.child "index_type")
  | "MappedType" =>
    mappedType ((r.word "readonly_token").bind MappedSign.ofLabel?) (r.child "type_parameter")
      (r.child "name_type")
      ((r.word "question_token").bind MappedSign.ofLabel?) (r.child "type_node")
  | "ConditionalType" =>
    conditionalType (r.child "check_type") (r.child "extends_type") (r.child "true_type")
      (r.child "false_type")
  | "InferType" => inferType (r.child "type_parameter")
  | "TypeQuery" => typeQuery (r.child "expr_name") (r.list "type_arguments")
  | "ImportType" =>
    importType (r.flag "is_type_of") (r.child "argument") (r.child "qualifier")
      (r.list "type_arguments")
  | "TypePredicate" =>
    typePredicate (r.flag "asserts") (r.child "parameter_name") (r.child "type_node")
  | "TemplateLiteralType" => templateType (r.text "head") (r.list "spans")
  | "TemplateLiteralTypeSpan" =>
    templateSpan (r.child "type_node") (r.text "literal") (r.flag "is_tail")
  | _ => otherStatement

end Form

end DeclBundle
