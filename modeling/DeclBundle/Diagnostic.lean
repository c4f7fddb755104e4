import DeclBundle.Text.Cursor
import DeclBundle.Text.Words

/-!
# Diagnostics

A `Problem` is a cause; `Problem.code` and `Problem.template` give each cause its number and its
wording, in one place. A `Diagnostic` is a problem that was found somewhere: it keeps the final
text, so that reports can be written and read back without knowing the cause.
-/

set_option autoImplicit false

namespace DeclBundle

open Text (Span)

/-- How serious a diagnostic is. -/
inductive Category where
  | warning
  | error
  | suggestion
  | message
  deriving DecidableEq, Repr, Inhabited

namespace Category

/-- The word for a category in reports. -/
def name : Category → String
  | warning => "warning"
  | error => "error"
  | suggestion => "suggestion"
  | message => "message"

/-- The category that a word names. -/
def ofName? : String → Option Category
  | "warning" => some warning
  | "error" => some error
  | "suggestion" => some suggestion
  | "message" => some message
  | _ => none

theorem ofName?_name (c : Category) : ofName? c.name = some c := by
  cases c <;> rfl

end Category

/-- A message found at a place in a file. A message about no file has an empty file name and an
empty range. -/
structure Diagnostic where
  file : String
  start : Nat
  length : Nat
  message : String
  category : Category
  code : Nat
  deriving DecidableEq, Repr, Inhabited

/-! ## Message templates -/

/-- The placeholder of the argument with number `i`. -/
def placeholder (i : Nat) : List Char :=
  '{' :: ((toString i).toList ++ ['}'])

/-- Substitutes the arguments for their placeholders, one argument after the other: a placeholder
inside an argument is filled by a later argument. -/
def fillTemplate (template : String) (arguments : List String) : String :=
  let filled := arguments.foldl
    (fun (state : List Char × Nat) argument =>
      (Text.replaceAll (placeholder state.2) argument.toList state.1, state.2 + 1))
    (template.toList, 0)
  String.ofList filled.1

/-- Everything that can be wrong with a project. -/
inductive Problem where
  | unterminatedString
  | unterminatedTemplate
  | unterminatedComment
  | unclosedBlock
  | expected (what : String)
  | identifierExpected
  | typeExpected
  | declarationExpected
  | nestedTooDeep
  | duplicateIdentifier (name : String)
  | noExportedMember (specifier name : String)
  | cannotFindModule (specifier : String)
  | cannotReadFile (path : String)
  | fileNotFound (path : String)
  deriving DecidableEq, Repr

namespace Problem

/-- The number under which a problem is reported. -/
def code : Problem → Nat
  | unterminatedString => 1002
  | identifierExpected => 1003
  | expected _ | unclosedBlock => 1005
  | unterminatedComment => 1010
  | typeExpected => 1110
  | declarationExpected => 1128
  | unterminatedTemplate => 1160
  | duplicateIdentifier _ => 2300
  | noExportedMember _ _ => 2305
  | cannotFindModule _ => 2307
  | nestedTooDeep => 2589
  | cannotReadFile _ => 5083
  | fileNotFound _ => 6053

/-- The wording of a problem, with numbered placeholders. -/
def template : Problem → String
  | unterminatedString => "Unterminated string literal."
  | unterminatedTemplate => "Unterminated template literal."
  | unterminatedComment => "'*/' expected."
  | unclosedBlock | expected _ => "'\x7b0\x7d' expected."
  | identifierExpected => "Identifier expected."
  | typeExpected => "Type expected."
  | declarationExpected => "Declaration or statement expected."
  | nestedTooDeep => "Type is nested too deeply to be parsed."
  | duplicateIdentifier _ => "Duplicate identifier '\x7b0\x7d'."
  | noExportedMember _ _ => "Module '\"\x7b0\x7d\"' has no exported member '\x7b1\x7d'."
  | cannotFindModule _ => "Cannot find module '\x7b0\x7d' or its corresponding type declarations."
  | cannotReadFile _ => "Cannot read file '\x7b0\x7d'."
  | fileNotFound _ => "File '\x7b0\x7d' not found."

/-- What the placeholders of a problem's wording stand for. A block that is never closed is reported
with its placeholder left open. -/
def arguments : Problem → List String
  | expected what => [what]
  | duplicateIdentifier name => [name]
  | noExportedMember specifier name => [specifier, name]
  | cannotFindModule specifier => [specifier]
  | cannotReadFile path => [path]
  | fileNotFound path => [path]
  | _ => []

/-- The full text of a problem. -/
def message (p : Problem) : String :=
  fillTemplate p.template p.arguments

end Problem

namespace Diagnostic

/-- An error at a place in a file. -/
def at_ (file : String) (span : Span) (problem : Problem) : Diagnostic :=
  ⟨file, span.start, span.length, problem.message, .error, problem.code⟩

/-- An error that belongs to no file. -/
def global (problem : Problem) : Diagnostic :=
  ⟨"", 0, 0, problem.message, .error, problem.code⟩

/-- The diagnostic is an error. -/
def isError (d : Diagnostic) : Bool := d.category == .error

/-- The byte range of a diagnostic. Offsets have 32 bits. -/
def span (d : Diagnostic) : Span := ⟨d.start, (d.start + d.length) % UInt32.size⟩

/-- One line of text for a diagnostic: file and offset when there is a file, then category, code and
message. -/
def render (d : Diagnostic) : String :=
  let body := d.category.name ++ " TS" ++ toString d.code ++ ": " ++ d.message
  if d.file.isEmpty then body else d.file ++ "@" ++ toString d.start ++ ": " ++ body

end Diagnostic

end DeclBundle
