import DeclBundle.Diagnostic
import DeclBundle.Text.LineMap

/-!
# Reports

Diagnostics as text. A plain report has one line for each diagnostic. A pretty report shows the line
of the source as well, with what the diagnostic is about underlined, counts the errors at the end,
and can be colored.
-/

set_option autoImplicit false

namespace DeclBundle

/-- How a report looks. Only pretty reports have colors. -/
structure ReportStyle where
  pretty : Bool
  color : Bool
  deriving DecidableEq, Repr

namespace Report

open Text

/-! ## Colors -/

/-- The colors of a report, one for each kind of thing in it. -/
inductive Ink where
  | location
  | category (c : Category)
  | code
  | lineNumber
  | margin
  | underline
  deriving DecidableEq, Repr

namespace Ink

/-- The numbers that select a color on a terminal. -/
def codes : Ink → String
  | location => "36"
  | category .error => "1;31"
  | category .warning => "1;33"
  | category .suggestion => "1;34"
  | category .message => "1;36"
  | code => "90"
  | lineNumber => "47;30"
  | margin => "47"
  | underline => "31"

/-- Switches a color on. -/
def start (i : Ink) : String := "\x1b[" ++ i.codes ++ "m"

/-- Switches all colors off. -/
def reset : String := "\x1b[0m"

end Ink

/-- Colors a text. Where the text itself switches colors off, the color is switched on again. -/
def paint (style : ReportStyle) (ink : Ink) (text : String) : String :=
  if style.pretty && style.color then
    let kept := replaceAll Ink.reset.toList (Ink.reset ++ ink.start).toList text.toList
    ink.start ++ String.ofList kept ++ Ink.reset
  else text

/-! ## The underlined line -/

/-- The columns of a character. -/
def width (c : Char) : Nat := if c = '\t' then 4 else 1

/-- Blanks under the first `before` characters of a line, and tildes under the next `marked`
ones. -/
def marks : (before marked : Nat) → List Char → List Char
  | _, _, [] => []
  | before + 1, marked, c :: r => List.replicate (width c) ' ' ++ marks before marked r
  | 0, marked + 1, c :: r => List.replicate (width c) '~' ++ marks 0 marked r
  | 0, 0, _ :: _ => []

/-- What stands under a line. There is always something underlined. -/
def underline (before marked : Nat) (line : List Char) : List Char :=
  let found := marks before marked line
  if found.contains '~' then found else found ++ ['~']

/-- The number of characters that are marked when `before` others stand before them. Columns have 32
bits: when the last one would have a larger number, nothing is marked. -/
def markedCount (before length : Nat) : Nat := (before + length) % UInt32.size - before

/-- A number in three columns, or in more when it is longer. -/
def lineNumber (n : Nat) : String :=
  let digits := (toString n).toList
  String.ofList (List.replicate (3 - digits.length) ' ' ++ digits)

/-- The line that a diagnostic starts in, with what the diagnostic is about underlined. -/
def snippet? (style : ReportStyle) (source : List Char) (d : Diagnostic) : Option String := do
  guard (!d.file.isEmpty && d.length != 0)
  let position := (LineMap.ofText source).position source d.start
  let line ← (lines source)[position.line]?
  let under :=
    String.ofList (underline position.character (markedCount position.character d.length) line)
  return "\n\n" ++ paint style .lineNumber (lineNumber (position.line + 1)) ++ " " ++
    String.ofList line ++ "\n"
    ++ paint style .margin "   " ++ " " ++ paint style .underline under ++ "\n"

/-! ## Diagnostics -/

/-- Where a diagnostic is. A file whose text is not known has no lines. -/
def location (style : ReportStyle) (source : Option (List Char)) (d : Diagnostic) : String :=
  match source.map fun cs => (LineMap.ofText cs).position cs d.start with
  | some p =>
    let line := toString (p.line + 1)
    let column := toString (p.character + 1)
    if style.pretty then d.file ++ ":" ++ line ++ ":" ++ column
      else d.file ++ "(" ++ line ++ "," ++ column ++ ")"
  | none => d.file

/-- One diagnostic. -/
def diagnosticText (style : ReportStyle) (source? : String → Option String)
    (d : Diagnostic) : String :=
  let source := (source? d.file).map String.toList
  let place :=
    if d.file.isEmpty then ""
    else paint style .location (location style source d) ++ if style.pretty then " - " else ": "
  let code := if d.code = 0 then "" else " " ++ paint style .code ("TS" ++ toString d.code)
  let snippet := if style.pretty then (source.bind (snippet? style · d)).getD "" else ""
  place ++ paint style (.category d.category) d.category.name ++ code ++ ": " ++
    d.message ++ snippet

/-- How many errors there are. -/
def summary (errors : Nat) : String :=
  match errors with
  | 0 => ""
  | 1 => "\nFound 1 error.\n"
  | n => "\nFound " ++ toString n ++ " errors.\n"

/-- The report of diagnostics, with the sources that are known. -/
def render (style : ReportStyle) (source? : String → Option String)
    (diagnostics : List Diagnostic) : String :=
  let body := String.join (diagnostics.map fun d => diagnosticText style source? d ++ "\n")
  if style.pretty then body ++ summary (diagnostics.countP (·.isError)) else body

end Report

end DeclBundle
