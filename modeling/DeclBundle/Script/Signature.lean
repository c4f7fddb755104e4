import DeclBundle.DocComment
import DeclBundle.Script.Shape
import DeclBundle.Text.Edit

/-!
# Signatures from documentation

The types of parameters and results that the tags of a comment state, written into the declaration
after the comment. A variable that holds a function gets a function type instead.
-/

set_option autoImplicit false

namespace DeclBundle.Script

open Text

/-! ## Types in comments -/

/-- A type as comments write it, in the syntax of the language: `*` is any type, a leading `?`
allows null, a leading `!` and a trailing `=` say nothing about the type, and type arguments may
follow a dot. -/
def typeText (written : String) : String :=
  let cs := trim written.toList
  let cs := match before? ['='] cs with
    | some bare => trimEnd bare
    | none => cs
  let cs := (after? ['!'] cs).getD cs
  if cs == ['*'] || cs.isEmpty then "any"
  else if cs == ['?'] then "unknown"
  else
    match replaceAll ['.', '<'] ['<'] cs with
    | '?' :: inner => String.ofList inner ++ " | null"
    | plain => String.ofList plain

/-- The type of a parameter: three dots before it make it an array. -/
def parameterType (written : String) : String :=
  match after? "...".toList (trim written.toList) with
  | some element =>
    let element := typeText (String.ofList element)
    if element.toList.any fun c => c == '|' || c == '&' || c == ' ' then "(" ++ element ++ ")[]"
      else element ++ "[]"
  | none => typeText written

/-! ## Tags -/

/-- A tag that describes a parameter. -/
def isParameterTag (tag : DocTag) : Bool := ["param", "arg", "argument"].contains tag.name

/-- A tag that describes the result. -/
def isResultTag (tag : DocTag) : Bool := ["returns", "return"].contains tag.name

/-- The parameter of a tag may be left out. -/
def isOptionalTag (tag : DocTag) : Bool :=
  tag.isBracketed || tag.type.any fun type => endsWith ['='] (trimEnd type.toList)

/-- The type of the result that a comment states. -/
def resultType? (doc : DocComment) : Option String :=
  match doc.tags.findSome? fun tag => if isResultTag tag then tag.type else none with
  | some type => some (typeText type)
  | none => if doc.tags.any (·.name == "async") then some "Promise<any>" else none

/-! ## Parameters -/

/-- A parameter that is a plain name, perhaps with three dots before it or with a default. -/
structure PlainParameter where
  isRest : Bool
  name : List Char
  default : Option (List Char)

/-- Reads a plain parameter. -/
def PlainParameter.ofText? (cs : List Char) : Option PlainParameter :=
  let (isRest, body) := match after? "...".toList cs with
    | some body => (true, trimStart body)
    | none => (false, cs)
  let name := body.takeWhile isWordPart
  if name.isEmpty then none
  else
    match trimStart (body.drop name.length) with
    | [] => some ⟨isRest, name, none⟩
    | '=' :: value => some ⟨isRest, name, some (trim value)⟩
    | _ => none

namespace PlainParameter

/-- The tag for a parameter. -/
def tag? (p : PlainParameter) (doc : DocComment) : Option DocTag :=
  doc.tags.find? fun tag => isParameterTag tag && tag.subject == some (String.ofList p.name)

/-- The parameter with a question mark or without, and with the type of its tag. -/
def withType (p : PlainParameter) (isOptional : Bool) (tag : Option DocTag) : String :=
  (if p.isRest then "..." else "") ++ String.ofList p.name ++ (if isOptional then "?" else "")
    ++ ((tag.bind DocTag.type).elim "" fun type => ": " ++ parameterType type)

/-- A documented parameter as a declaration writes it. -/
def inDeclaration? (p : PlainParameter) (doc : DocComment) : Option String :=
  (p.tag? doc).map fun tag =>
    p.withType (!p.isRest && p.default.isNone && isOptionalTag tag) (some tag)
      ++ p.default.elim "" fun value => " = " ++ String.ofList value

/-- A parameter as a function type writes it. -/
def inFunctionType (p : PlainParameter) (doc : DocComment) : String :=
  let tag := p.tag? doc
  p.withType (!p.isRest && (p.default.isSome || tag.any isOptionalTag)) tag

end PlainParameter

/-- The characters of an excerpt. -/
def charsOf (e : Excerpt) : List Char := (e.start.slice? e.stop).getD []

/-! ## Functions in variables -/

/-- The parameters of the function that is the value of a variable. -/
def functionValue? (c : Cursor) : Option Excerpt :=
  let c := passKeyword "async" c
  match keyword? "function" c with
  | some c =>
    let c := passMark "*" c
    let c := if peek? c == some '(' then c else passWord c
    (parenthesized? c).map Prod.fst
  | none =>
    if peek? c == some '(' then do
      let (inside, after) ← parenthesized? c
      guard (mark? "=>" after).isSome
      return inside
    else do
      let start := token c
      let (name, after) ← word? c
      guard (mark? "=>" after).isSome
      return ⟨start, start.offset + byteLength name⟩

/-- The edit that gives a variable the type of the function that it holds; `c` is after the
keyword. -/
def functionVariableEdit? (doc : DocComment) (c : Cursor) : Option Edit := do
  let (_, nameEnd) ← word? c
  let c ← mark? "=" nameEnd
  guard (peek? c != some '=')
  let inside ← functionValue? c
  let parameters ← (items inside).mapM fun e => PlainParameter.ofText? (charsOf e)
  let texts := parameters.map (·.inFunctionType doc)
  return .insert nameEnd.offset
    (": (" ++ ", ".intercalate texts ++ ") => " ++ (resultType? doc).getD "any")

/-! ## Functions and methods -/

/-- The position before the parameters of the function or method that is next, and whether it can
have a result. -/
def functionHead? (after : Cursor) : Option (Cursor × Bool) :=
  let c := passKeyword "default" (passKeyword "export" after)
  match (keyword? "async" c).or (keyword? "function" c) with
  | some c =>
    let c := passMark "*" (passKeyword "function" c)
    some (if peek? c == some '(' then c else passWord c, true)
  | none => do
    let member ← memberHead? after
    guard member.isMethod
    return (member.nameEnd, !member.isSetter && member.name != "constructor".toList)

/-- The edits for the signature of the function or method that is next. -/
def headEdits (doc : DocComment) (after : Cursor) : List Edit :=
  match functionHead? after with
  | none => []
  | some (c, hasResult) =>
    match parenthesized? c with
    | none => []
    | some (inside, close) =>
      let parameters := (items inside).filterMap fun e => do
        let p ← PlainParameter.ofText? (charsOf e)
        return ⟨e.start.offset, e.stop, ← p.inDeclaration? doc⟩
      let result :=
        if hasResult && peek? close != some ':' then
          (resultType? doc).map fun type => Edit.insert close.offset (": " ++ type)
        else none
      parameters ++ result.toList

/-- The edits for the signature of what is next. -/
def signatureEdits (doc : DocComment) (after : Cursor) : List Edit :=
  match variableKeyword? (passKeyword "default" (passKeyword "export" after)) with
  | some (_, c) => (functionVariableEdit? doc c).toList
  | none => headEdits doc after

end DeclBundle.Script
