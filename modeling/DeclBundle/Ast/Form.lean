import DeclBundle.Ast.Modifier

/-!
# Forms of nodes

A `Form` is one node of a program without its position: its kind, its words and its children. The
type of children is a parameter, so that one description serves nodes of an arena (children are
slots), their copies and their labelled views. `Form.children` lists the children in source order
and `Form.mapM` replaces them in the same order.
-/

set_option autoImplicit false

namespace DeclBundle

/-! ## Words of the grammar -/

/-- How variables are declared. -/
inductive VariableFlavor where
  | var
  | let_
  | const
  deriving DecidableEq, Repr, Inhabited

/-- The word that declares variables. -/
def VariableFlavor.spelling : VariableFlavor → String
  | var => "var"
  | let_ => "let"
  | const => "const"

/-- The types that are keywords. -/
inductive KeywordType where
  | any
  | unknown
  | number
  | bigint
  | string
  | boolean
  | symbol
  | object
  | void
  | undefined
  | null
  | never
  | intrinsic
  deriving DecidableEq, Repr, Inhabited

/-- How a keyword type is written. -/
def KeywordType.spelling : KeywordType → String
  | any => "any"
  | unknown => "unknown"
  | number => "number"
  | bigint => "bigint"
  | string => "string"
  | boolean => "boolean"
  | symbol => "symbol"
  | object => "object"
  | void => "void"
  | undefined => "undefined"
  | null => "null"
  | never => "never"
  | intrinsic => "intrinsic"

/-- The operators that stand before a type. -/
inductive TypeOperator where
  | keyof
  | unique
  | readonly
  deriving DecidableEq, Repr, Inhabited

/-- How a type operator is written. -/
def TypeOperator.spelling : TypeOperator → String
  | keyof => "keyof"
  | unique => "unique"
  | readonly => "readonly"

/-- How a mapped type sets `readonly` or `?`: plainly, or with a sign. -/
inductive MappedSign where
  | present
  | plus
  | minus
  deriving DecidableEq, Repr, Inhabited

/-- The sign before the word. -/
def MappedSign.spelling : MappedSign → String
  | present => ""
  | plus => "+"
  | minus => "-"

/-- The word of a heritage clause. -/
inductive HeritageWord where
  | extends_
  | implements
  deriving DecidableEq, Repr, Inhabited

/-- How a heritage word is written. -/
def HeritageWord.spelling : HeritageWord → String
  | extends_ => "extends"
  | implements => "implements"

/-- How a module is declared. -/
inductive ModuleFlavor where
  /-- `namespace A` -/
  | namespace_
  /-- `module A` or `module "a"` -/
  | module_
  /-- `declare global` -/
  | global
  deriving DecidableEq, Repr, Inhabited

/-! ## Forms -/

/-- Type parameters, parameters and result of something that can be called. -/
structure Signature (α : Type) where
  typeParameters : List α
  parameters : List α
  returnType : α

/-- A node without its position. Every child is an `α`. -/
inductive Form (α : Type) where
  /-- A whole file; it is a module when it has an import or an export at its top level. -/
  | sourceFile (statements : List α) (isModule : Bool)
  -- names and expressions
  | identifier (text : String)
  | privateIdentifier (text : String)
  | qualifiedName (left right : α)
  | computedName (expression : α)
  /-- The text is the value of the literal, not its spelling. -/
  | stringLiteral (text : String)
  | numericLiteral (text : String)
  | bigIntLiteral (text : String)
  | booleanLiteral (value : Bool)
  | nullLiteral
  /-- The text includes the backticks. -/
  | templateLiteral (text : String)
  | propertyAccess (expression name : α)
  /-- An expression that is kept as it is written. -/
  | verbatim (text : String)
  | objectLiteral (properties : List α)
  /-- Without an initializer it is a shorthand. -/
  | propertyAssignment (name initializer : α)
  | arrayLiteral (elements : List α)
  -- statements and declarations
  | variableStatement (modifiers : Modifiers) (flavor : VariableFlavor) (declarations : List α)
  | variableDeclaration (name : α) (definite : Bool) (ascription initializer : α)
  | objectPattern (elements : List α)
  | arrayPattern (elements : List α)
  /-- A hole of an array pattern has no name. -/
  | bindingElement (isRest : Bool) (propertyName name initializer : α)
  /-- The name may be missing after `export default`. -/
  | functionDeclaration (modifiers : Modifiers) (name : α) (signature : Signature α)
    (hasBody : Bool)
  | classDeclaration (modifiers : Modifiers) (name : α) (typeParameters heritage members : List α)
  | interfaceDeclaration (modifiers : Modifiers) (name : α)
    (typeParameters heritage members : List α)
  | typeAlias (modifiers : Modifiers) (name : α) (typeParameters : List α) (type : α)
  | enumDeclaration (modifiers : Modifiers) (name : α) (members : List α)
  | enumMember (name initializer : α)
  /-- The body is a block, the rest of a dotted name, or missing. -/
  | moduleDeclaration (modifiers : Modifiers) (flavor : ModuleFlavor) (name body : α)
  | moduleBlock (statements : List α)
  /-- Without a clause it is an import for its effects. -/
  | importDeclaration (clause specifier : α)
  | importClause (typeOnly : Bool) (name bindings : α)
  | namespaceImport (name : α)
  | namedImports (elements : List α)
  | importSpecifier (typeOnly : Bool) (propertyName name : α)
  | importEquals (modifiers : Modifiers) (typeOnly : Bool) (name reference : α)
  | externalReference (expression : α)
  /-- Without a clause it exports everything. -/
  | exportDeclaration (typeOnly : Bool) (clause specifier : α)
  | namedExports (elements : List α)
  | namespaceExport (name : α)
  | exportSpecifier (typeOnly : Bool) (propertyName name : α)
  | exportAssignment (isEquals : Bool) (expression : α)
  /-- `export as namespace Name` -/
  | globalNamespaceExport (name : α)
  /-- A statement that declares nothing. -/
  | otherStatement
  -- members and signatures
  | propertyDeclaration (modifiers : Modifiers) (name : α) (optional definite : Bool)
    (ascription initializer : α)
  | methodDeclaration (modifiers : Modifiers) (name : α) (optional : Bool) (signature : Signature α)
    (hasBody : Bool)
  | constructorDeclaration (modifiers : Modifiers) (parameters : List α) (hasBody : Bool)
  | getAccessor (modifiers : Modifiers) (name : α) (parameters : List α) (returnType : α)
  | setAccessor (modifiers : Modifiers) (name : α) (parameters : List α)
  | indexSignature (modifiers : Modifiers) (parameters : List α) (ascription : α)
  | propertySignature (modifiers : Modifiers) (name : α) (optional : Bool) (ascription : α)
  | methodSignature (name : α) (optional : Bool) (signature : Signature α)
  | callSignature (signature : Signature α)
  | constructSignature (signature : Signature α)
  | parameter (modifiers : Modifiers) (isRest : Bool) (name : α) (optional : Bool)
    (ascription initializer : α)
  | typeParameter (modifiers : Modifiers) (name bound default : α)
  | heritageClause (word : HeritageWord) (types : List α)
  | heritageType (expression : α) (typeArguments : List α)
  -- types
  | keywordType (keyword : KeywordType)
  | thisType
  | literalType (literal : α)
  | typeReference (name : α) (typeArguments : List α)
  | arrayType (element : α)
  | tupleType (elements : List α)
  | namedTupleMember (isRest : Bool) (name : α) (optional : Bool) (type : α)
  | optionalType (type : α)
  | restType (type : α)
  | unionType (types : List α)
  | intersectionType (types : List α)
  | functionType (signature : Signature α)
  | constructorType (isAbstract : Bool) (signature : Signature α)
  | typeLiteral (members : List α)
  | parenthesizedType (type : α)
  | typeOperator (operator : TypeOperator) (type : α)
  | indexedAccess (object index : α)
  | mappedType (readonly : Option MappedSign) (typeParameter nameType : α)
    (question : Option MappedSign) (type : α)
  | conditionalType (check extended whenTrue whenFalse : α)
  | inferType (typeParameter : α)
  | typeQuery (name : α) (typeArguments : List α)
  | importType (isTypeof : Bool) (argument qualifier : α) (typeArguments : List α)
  | typePredicate (asserts : Bool) (subject type : α)
  | templateType (head : String) (spans : List α)
  | templateSpan (type : α) (literal : String) (isTail : Bool)

namespace Signature

variable {α β : Type}

/-- The children in source order. -/
def children (s : Signature α) : List α :=
  s.typeParameters ++ s.parameters ++ [s.returnType]

/-- Replaces the children, in source order. -/
def mapM {m : Type → Type} [Monad m] (f : α → m β) (s : Signature α) : m (Signature β) := do
  return ⟨← s.typeParameters.mapM f, ← s.parameters.mapM f, ← f s.returnType⟩

end Signature

namespace Form

variable {α β : Type}

/-- The children in source order. -/
def children : Form α → List α
  | sourceFile statements _ | moduleBlock statements => statements
  | identifier _ | privateIdentifier _ | stringLiteral _ | numericLiteral _ | bigIntLiteral _
  | booleanLiteral _
  | nullLiteral | templateLiteral _ | verbatim _ | otherStatement | keywordType _ | thisType => []
  | qualifiedName a b | propertyAccess a b | propertyAssignment a b | enumMember a b
  | moduleDeclaration _ _ a b | importDeclaration a b | importClause _ a b | importSpecifier _ a b
  | exportSpecifier _ a b | importEquals _ _ a b | exportDeclaration _ a b
  | propertySignature _ a _ b
  | namedTupleMember _ a _ b | indexedAccess a b | typePredicate _ a b => [a, b]
  | computedName a | externalReference a | exportAssignment _ a | namespaceImport a
  | namespaceExport a
  | globalNamespaceExport a | literalType a | arrayType a | optionalType a | restType a
  | parenthesizedType a
  | typeOperator _ a | templateSpan a _ _ | inferType a => [a]
  | objectLiteral xs | arrayLiteral xs | objectPattern xs | arrayPattern xs
  | variableStatement _ _ xs
  | namedImports xs | namedExports xs | constructorDeclaration _ xs _ | heritageClause _ xs
  | tupleType xs
  | unionType xs | intersectionType xs | typeLiteral xs | templateType _ xs => xs
  | bindingElement _ a b c | variableDeclaration a _ b c | propertyDeclaration _ a _ _ b c
  | parameter _ _ a _ b c | typeParameter _ a b c | mappedType _ a b _ c => [a, b, c]
  | functionDeclaration _ a s _ | methodDeclaration _ a _ s _ | methodSignature a _ s =>
    a :: s.children
  | callSignature s | constructSignature s | functionType s | constructorType _ s => s.children
  | classDeclaration _ a xs ys zs | interfaceDeclaration _ a xs ys zs => a :: (xs ++ ys ++ zs)
  | typeAlias _ a xs b | getAccessor _ a xs b => a :: (xs ++ [b])
  | enumDeclaration _ a xs | setAccessor _ a xs | heritageType a xs | typeReference a xs
  | typeQuery a xs => a :: xs
  | indexSignature _ xs b => xs ++ [b]
  | conditionalType a b c d => [a, b, c, d]
  | importType _ a b xs => a :: b :: xs

/-- Replaces the children, in source order. -/
def mapM {m : Type → Type} [Monad m] (f : α → m β) : Form α → m (Form β)
  | sourceFile xs isModule => return sourceFile (← xs.mapM f) isModule
  | identifier t => return identifier t
  | privateIdentifier t => return privateIdentifier t
  | qualifiedName a b => return qualifiedName (← f a) (← f b)
  | computedName a => return computedName (← f a)
  | stringLiteral t => return stringLiteral t
  | numericLiteral t => return numericLiteral t
  | bigIntLiteral t => return bigIntLiteral t
  | booleanLiteral v => return booleanLiteral v
  | nullLiteral => return nullLiteral
  | templateLiteral t => return templateLiteral t
  | propertyAccess a b => return propertyAccess (← f a) (← f b)
  | verbatim t => return verbatim t
  | objectLiteral xs => return objectLiteral (← xs.mapM f)
  | propertyAssignment a b => return propertyAssignment (← f a) (← f b)
  | arrayLiteral xs => return arrayLiteral (← xs.mapM f)
  | variableStatement ms flavor xs => return variableStatement ms flavor (← xs.mapM f)
  | variableDeclaration a definite b c =>
    return variableDeclaration (← f a) definite (← f b) (← f c)
  | objectPattern xs => return objectPattern (← xs.mapM f)
  | arrayPattern xs => return arrayPattern (← xs.mapM f)
  | bindingElement isRest a b c => return bindingElement isRest (← f a) (← f b) (← f c)
  | functionDeclaration ms a s hasBody => return functionDeclaration ms (← f a) (← s.mapM f) hasBody
  | classDeclaration ms a xs ys zs =>
    return classDeclaration ms (← f a) (← xs.mapM f) (← ys.mapM f) (← zs.mapM f)
  | interfaceDeclaration ms a xs ys zs =>
    return interfaceDeclaration ms (← f a) (← xs.mapM f) (← ys.mapM f) (← zs.mapM f)
  | typeAlias ms a xs b => return typeAlias ms (← f a) (← xs.mapM f) (← f b)
  | enumDeclaration ms a xs => return enumDeclaration ms (← f a) (← xs.mapM f)
  | enumMember a b => return enumMember (← f a) (← f b)
  | moduleDeclaration ms flavor a b => return moduleDeclaration ms flavor (← f a) (← f b)
  | moduleBlock xs => return moduleBlock (← xs.mapM f)
  | importDeclaration a b => return importDeclaration (← f a) (← f b)
  | importClause typeOnly a b => return importClause typeOnly (← f a) (← f b)
  | namespaceImport a => return namespaceImport (← f a)
  | namedImports xs => return namedImports (← xs.mapM f)
  | importSpecifier typeOnly a b => return importSpecifier typeOnly (← f a) (← f b)
  | importEquals ms typeOnly a b => return importEquals ms typeOnly (← f a) (← f b)
  | externalReference a => return externalReference (← f a)
  | exportDeclaration typeOnly a b => return exportDeclaration typeOnly (← f a) (← f b)
  | namedExports xs => return namedExports (← xs.mapM f)
  | namespaceExport a => return namespaceExport (← f a)
  | exportSpecifier typeOnly a b => return exportSpecifier typeOnly (← f a) (← f b)
  | exportAssignment isEquals a => return exportAssignment isEquals (← f a)
  | globalNamespaceExport a => return globalNamespaceExport (← f a)
  | otherStatement => return otherStatement
  | propertyDeclaration ms a optional definite b c =>
    return propertyDeclaration ms (← f a) optional definite (← f b) (← f c)
  | methodDeclaration ms a optional s hasBody =>
    return methodDeclaration ms (← f a) optional (← s.mapM f) hasBody
  | constructorDeclaration ms xs hasBody => return constructorDeclaration ms (← xs.mapM f) hasBody
  | getAccessor ms a xs b => return getAccessor ms (← f a) (← xs.mapM f) (← f b)
  | setAccessor ms a xs => return setAccessor ms (← f a) (← xs.mapM f)
  | indexSignature ms xs b => return indexSignature ms (← xs.mapM f) (← f b)
  | propertySignature ms a optional b => return propertySignature ms (← f a) optional (← f b)
  | methodSignature a optional s => return methodSignature (← f a) optional (← s.mapM f)
  | callSignature s => return callSignature (← s.mapM f)
  | constructSignature s => return constructSignature (← s.mapM f)
  | parameter ms isRest a optional b c =>
    return parameter ms isRest (← f a) optional (← f b) (← f c)
  | typeParameter ms a b c => return typeParameter ms (← f a) (← f b) (← f c)
  | heritageClause word xs => return heritageClause word (← xs.mapM f)
  | heritageType a xs => return heritageType (← f a) (← xs.mapM f)
  | keywordType k => return keywordType k
  | thisType => return thisType
  | literalType a => return literalType (← f a)
  | typeReference a xs => return typeReference (← f a) (← xs.mapM f)
  | arrayType a => return arrayType (← f a)
  | tupleType xs => return tupleType (← xs.mapM f)
  | namedTupleMember isRest a optional b => return namedTupleMember isRest (← f a) optional (← f b)
  | optionalType a => return optionalType (← f a)
  | restType a => return restType (← f a)
  | unionType xs => return unionType (← xs.mapM f)
  | intersectionType xs => return intersectionType (← xs.mapM f)
  | functionType s => return functionType (← s.mapM f)
  | constructorType isAbstract s => return constructorType isAbstract (← s.mapM f)
  | typeLiteral xs => return typeLiteral (← xs.mapM f)
  | parenthesizedType a => return parenthesizedType (← f a)
  | typeOperator op a => return typeOperator op (← f a)
  | indexedAccess a b => return indexedAccess (← f a) (← f b)
  | mappedType readonly a b question c =>
    return mappedType readonly (← f a) (← f b) question (← f c)
  | conditionalType a b c d => return conditionalType (← f a) (← f b) (← f c) (← f d)
  | inferType a => return inferType (← f a)
  | typeQuery a xs => return typeQuery (← f a) (← xs.mapM f)
  | importType isTypeof a b xs => return importType isTypeof (← f a) (← f b) (← xs.mapM f)
  | typePredicate asserts a b => return typePredicate asserts (← f a) (← f b)
  | templateType head xs => return templateType head (← xs.mapM f)
  | templateSpan a literal isTail => return templateSpan (← f a) literal isTail

/-- Replaces the children. -/
def map (f : α → β) (form : Form α) : Form β := Id.run (form.mapM fun a => pure (f a))

/-- The modifiers, for the forms that can have some. -/
def modifiers? : Form α → Option Modifiers
  | variableStatement ms _ _ | functionDeclaration ms _ _ _ | classDeclaration ms _ _ _ _
  | interfaceDeclaration ms _ _ _ _ | typeAlias ms _ _ _ | enumDeclaration ms _ _
  | moduleDeclaration ms _ _ _
  | importEquals ms _ _ _ | propertyDeclaration ms _ _ _ _ _ | methodDeclaration ms _ _ _ _
  | constructorDeclaration ms _ _ | getAccessor ms _ _ _ | setAccessor ms _ _
  | indexSignature ms _ _
  | propertySignature ms _ _ _ | parameter ms _ _ _ _ _ | typeParameter ms _ _ _ => some ms
  | _ => none

/-- The modifiers; forms without any have the empty set. -/
def modifiers (form : Form α) : Modifiers := form.modifiers?.getD .empty

/-- Replaces the modifiers of the forms that can have some. -/
def withModifiers (ms : Modifiers) : Form α → Form α
  | variableStatement _ a b => variableStatement ms a b
  | functionDeclaration _ a b c => functionDeclaration ms a b c
  | classDeclaration _ a b c d => classDeclaration ms a b c d
  | interfaceDeclaration _ a b c d => interfaceDeclaration ms a b c d
  | typeAlias _ a b c => typeAlias ms a b c
  | enumDeclaration _ a b => enumDeclaration ms a b
  | moduleDeclaration _ a b c => moduleDeclaration ms a b c
  | importEquals _ a b c => importEquals ms a b c
  | propertyDeclaration _ a b c d e => propertyDeclaration ms a b c d e
  | methodDeclaration _ a b c d => methodDeclaration ms a b c d
  | constructorDeclaration _ a b => constructorDeclaration ms a b
  | getAccessor _ a b c => getAccessor ms a b c
  | setAccessor _ a b => setAccessor ms a b
  | indexSignature _ a b => indexSignature ms a b
  | propertySignature _ a b c => propertySignature ms a b c
  | parameter _ a b c d e => parameter ms a b c d e
  | typeParameter _ a b c => typeParameter ms a b c
  | form => form

/-- The name that a form declares. -/
def name? : Form α → Option α
  | variableDeclaration a _ _ _ | bindingElement _ _ a _ | functionDeclaration _ a _ _
  | classDeclaration _ a _ _ _
  | interfaceDeclaration _ a _ _ _ | typeAlias _ a _ _ | enumDeclaration _ a _ | enumMember a _
  | moduleDeclaration _ _ a _ | importEquals _ _ a _ | namespaceImport a | namespaceExport a
  | importSpecifier _ _ a
  | exportSpecifier _ _ a | propertyDeclaration _ a _ _ _ _ | methodDeclaration _ a _ _ _
  | getAccessor _ a _ _
  | setAccessor _ a _ | propertySignature _ a _ _ | methodSignature a _ _ | parameter _ _ a _ _ _
  | typeParameter _ a _ _ | namedTupleMember _ a _ _ | importClause _ a _ => some a
  | _ => none

/-- The form is a statement that declares something by itself. -/
def isDeclaration : Form α → Bool
  | variableStatement .. | functionDeclaration .. | classDeclaration .. | interfaceDeclaration ..
  | typeAlias ..
  | enumDeclaration .. | moduleDeclaration .. => true
  | _ => false

end Form

end DeclBundle
