import DeclBundle.Path
import DeclBundle.Script.Signature

/-!
# Annotating scripts

A script has its types in documentation comments. Each pass writes one kind of what the comments
state into the text, so that the parser can read it; the passes run one after the other, the ones
that replace statements first. What already has the syntax, and every shape that a pass does not
know, stays as it is written.
-/

set_option autoImplicit false

namespace DeclBundle.Script

open Text

/-- One way to annotate a script. -/
inductive Pass where
  /-- Comments that define types become aliases at the end of the text. -/
  | typedefs
  /-- Object literals become enums. -/
  | enums
  /-- Object literals become namespaces. -/
  | namespaces
  /-- Functions and methods get the types of their parameters and results. -/
  | functions
  /-- Variables get their types, or become constant. -/
  | variableTypes
  /-- Class members get modifiers. -/
  | access
  /-- Imports of files lose the endings of scripts. -/
  | importEndings
  deriving DecidableEq, Repr

namespace Pass

/-- The name of a pass. -/
def name : Pass → String
  | typedefs => "jsdoc-typedef"
  | enums => "jsdoc-enum"
  | namespaces => "jsdoc-namespace"
  | functions => "jsdoc-function"
  | variableTypes => "jsdoc-variable"
  | access => "jsdoc-access"
  | importEndings => "import-extension"

/-- Every pass, in the order in which they run. -/
def all : List Pass :=
  [typedefs, enums, namespaces, functions, variableTypes, access, importEndings]

/-- The pass with a name. -/
def ofName? (name : String) : Option Pass := all.find? fun p => p.name == name

end Pass

/-! ## Type definitions -/

/-- The comment has a tag with this name. -/
def hasTag (doc : DocComment) (name : String) : Bool := doc.tags.any (·.name == name)

/-- One property of a type that a comment defines. -/
def propertyText (tag : DocTag) (name : String) : String :=
  let type := tag.type.getD "*"
  let isOptional := tag.isBracketed || endsWith ['='] type.toList
  name ++ (if isOptional then "?" else "") ++ ": " ++ typeText type ++ "; "

/-- The type that a comment defines, given the tag that defines it. -/
def definedType (doc : DocComment) (definition : DocTag) : String :=
  let properties := doc.tags.filterMap fun tag =>
    if tag.name == "property" || tag.name == "prop" then tag.subject.map (propertyText tag)
      else none
  if properties.isEmpty then definition.type.elim "Object" typeText
  else "\x7b " ++ String.join properties ++ "\x7d"

/-- The alias for the type that a comment defines. -/
def aliasText? (doc : DocComment) : Option String := do
  let definition ← doc.tags.find? (·.name == "typedef")
  let name ← definition.subject
  let description := doc.description.elim "" fun text =>
    "/** " ++ String.ofList (text.toList.map fun c => if c == '\n' then ' ' else c) ++ " */\n"
  return "\n" ++ description ++ "export type " ++ name ++ " = " ++
    definedType doc definition ++ ";\n"

/-- Appends the aliases of all types that comments define. -/
def addAliases (text : String) : String :=
  let aliases := (commentsOf text.toList).filterMap fun comment =>
    aliasText? (DocComment.ofText comment.text)
  if aliases.isEmpty then text else text ++ "\n" ++ String.join aliases

/-! ## Enums and namespaces -/

/-- The text is in quotes. -/
def isQuotedText (cs : List Char) : Bool :=
  2 ≤ cs.length && ['\x22', '\x27'].any fun quote => startsWith [quote] cs && endsWith [quote] cs

/-- A property of an object literal as a member of an enum. -/
def enumMember? (property : List Char) : Option (List Char) := do
  let (key, value) ← cutAt? [':'] property
  let key := trim key
  let value := trim value
  guard ((isName key || isQuotedText key) && !value.isEmpty)
  return key ++ " = ".toList ++ value

/-- The edit that makes an enum of an object literal. -/
def enumEdit? (doc : DocComment) (after : Cursor) : Option Edit := do
  guard (hasTag doc "enum")
  let v ← objectVariable? after
  let members ← v.properties.mapM fun e => enumMember? (charsOf e)
  let body :=
    if members.isEmpty then "\x7b\x7d"
    else "\x7b " ++ String.ofList (joinWith ", ".toList members) ++ " \x7d"
  return ⟨v.span.start, v.span.stop, "enum " ++ String.ofList v.name ++ " " ++ body⟩

/-- A property or a method of an object literal as a member of a namespace. -/
def namespaceMember? (property : List Char) : Option String :=
  let (isAsync, body) := match after? "async".toList property with
    | some body => if body.head?.any isBlank then (true, trimStart body) else (false, property)
    | none => (false, property)
  let name := body.takeWhile isWordPart
  let tail := trimStart (body.drop name.length)
  if !isName name then none
  else
    match tail with
    | '(' :: _ => some
      ((if isAsync then "export async function " else "export function ") ++ String.ofList body)
    | _ =>
      if isAsync then none
      else
        let constant (value : List Char) :=
          some ("export const " ++ String.ofList name ++ " = " ++ String.ofList value ++ ";")
        match tail with
        | ':' :: value => constant (trim value)
        | [] => constant name
        | _ => none

/-- The edit that makes a namespace of an object literal. -/
def namespaceEdit? (doc : DocComment) (after : Cursor) : Option Edit := do
  guard (hasTag doc "namespace")
  let v ← objectVariable? after
  let members ← v.properties.mapM fun e => namespaceMember? (charsOf e)
  let lines := members.map fun member => "    " ++ member ++ "\n"
  return ⟨v.span.start, v.span.stop,
    "declare namespace " ++ String.ofList v.name ++ " \x7b\n" ++ String.join lines ++ "\x7d"⟩

/-! ## Functions and variables -/

/-- The edits for the signature that a comment describes, unless it defines a type. -/
def functionEdits (doc : DocComment) (after : Cursor) : List Edit :=
  let describesSignature := doc.tags.any fun tag =>
    isParameterTag tag || isResultTag tag || tag.name == "async"
  if describesSignature && !hasTag doc "typedef" &&
    !hasTag doc "callback" then signatureEdits doc after else []

/-- A word of a comment, without blanks around it and in lower case. -/
def plainComment (tag : DocTag) : Option String :=
  tag.comment.map fun text => String.ofList (lowercase (trim text.toList))

/-- A tag that says that a variable is constant. -/
def isConstantTag (tag : DocTag) : Bool :=
  ["const", "constant"].contains tag.name
    || (tag.name == "kind" && (plainComment tag).any ["const", "constant"].contains)

/-- The edits for the type of a variable and for its keyword. -/
def variableEdits (doc : DocComment) (after : Cursor) : List Edit :=
  let type := doc.tags.findSome? fun tag => if tag.name == "type" then tag.type else none
  let isConstant := doc.tags.any isConstantTag
  if type.isNone && !isConstant then []
  else
    let start := token (passKeyword "export" after)
    match variableKeyword? start with
    | none => []
    | some (keyword, c) =>
      let constant : List Edit :=
        if isConstant && keyword != "const" then
          [⟨start.offset, start.offset + byteLength keyword.toList, "const"⟩]
        else []
      let typed : List Edit :=
        match type, word? c with
        | some type, some (_, nameEnd) =>
          if peek? nameEnd == some ':' then [] else [.insert nameEnd.offset (": " ++ typeText type)]
        | _, _ => []
      constant ++ typed

/-! ## Modifiers -/

/-- The access that a comment states. -/
def access? (doc : DocComment) : Option String :=
  if hasTag doc "private" then some "private"
  else if hasTag doc "protected" then some "protected"
  else
    doc.tags.findSome? fun tag =>
      if tag.name == "access" then (plainComment tag).filter ["private", "protected"].contains
        else none

/-- The edits for the modifiers of a class member. -/
def memberEdits (doc : DocComment) (after : Cursor) : List Edit :=
  let access := access? doc
  let isReadonly := hasTag doc "readonly"
  if access.isNone && !isReadonly then []
  else
    match memberHead? after with
    | none => []
    | some member =>
      let access := if member.hasAccess then none else access
      (access.map fun word => Edit.insert member.start.offset (word ++ " ")).toList
        ++ (if isReadonly && !member.isMethod then [.insert member.nameStart.offset "readonly "]
          else [])

/-- The edits for the modifiers of a class or of a class member. -/
def accessEdits (doc : DocComment) (after : Cursor) : List Edit :=
  let start := token (passKeyword "default" (passKeyword "export" after))
  if (keyword? "class" start).isSome then
    if hasTag doc "abstract" || hasTag doc "virtual" then [.insert start.offset "abstract "] else []
  else memberEdits doc after

/-! ## Endings of imported files -/

/-- The endings that are left out of imports. -/
def scriptEndings : List String := [".js", ".jsx", ".mjs", ".cjs", ".ts", ".tsx", ".mts", ".cts"]

/-- The edit that shortens the path that is next, perhaps after a parenthesis. -/
def endingEdit? (c : Cursor) : Option Edit := do
  let open_ := token (passMark "(" c)
  let quote ← open_.head?
  guard (quote == '\x22' || quote == '\x27')
  let last ← find? [quote] open_.next
  let specifier := (open_.next.slice? last.offset).getD []
  guard (startsWith "./".toList specifier || startsWith "../".toList specifier)
  let ending ← scriptEndings.find? fun ending => endsWith ending.toList specifier
  return ⟨last.offset - ending.length, last.offset, ""⟩

/-- The positions after the occurrences of a keyword that stands by itself. -/
def keywordEnds (keyword : List Char) (source : List Char) : List Cursor :=
  go source 0 none
where
  go : List Char → Nat → Option Char → List Cursor
    | [], _, _ => []
    | x :: r, o, last =>
      let found := match after? keyword (x :: r) with
        | some rest =>
          if last.any isWordPart || rest.head?.any isWordPart then []
            else [⟨rest, o + byteLength keyword⟩]
        | none => []
      found ++ go r (o + x.utf8Size) (some x)

/-- The edits for the paths of all imports. -/
def endingEdits (source : List Char) : List Edit :=
  ["from", "import"].flatMap fun keyword =>
    (keywordEnds keyword.toList source).filterMap endingEdit?

/-! ## Passes -/

/-- Applies the edits that each documentation comment asks for. -/
def editComments (edits : DocComment → Cursor → List Edit) (text : String) : String :=
  let source := text.toList
  let found := (commentsOf source).flatMap fun comment =>
    edits (DocComment.ofText comment.text) comment.after
  String.ofList (Edit.applyAll source found)

/-- Runs one pass over a text. -/
def Pass.run : Pass → String → String
  | typedefs => addAliases
  | enums => editComments fun doc after => (enumEdit? doc after).toList
  | namespaces => editComments fun doc after => (namespaceEdit? doc after).toList
  | functions => editComments functionEdits
  | variableTypes => editComments variableEdits
  | access => editComments accessEdits
  | importEndings => fun text => String.ofList (Edit.applyAll text.toList (endingEdits text.toList))

/-- Runs passes over the text of a file, one after the other. Only scripts are changed. -/
def annotateWith (passes : List Pass) (path text : String) : String :=
  if Path.isScript path then passes.foldl (fun text pass => pass.run text) text else text

/-- Writes into a script what its comments state about types. -/
def annotate (path text : String) : String := annotateWith Pass.all path text

end DeclBundle.Script
