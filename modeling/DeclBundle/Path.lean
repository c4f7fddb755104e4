import DeclBundle.Text.Words

/-!
# Paths

Paths are texts with `/` between their segments. A normalized path has no empty segment, no `.` and
no `..` that could be resolved; the empty relative path is written `.`.
-/

set_option autoImplicit false

namespace DeclBundle.Path

open Text

/-- Takes one more segment into the segments found so far, the latest first. -/
def addSegment (isAbsolute : Bool) (found : List (List Char)) (segment : List Char) :
    List (List Char) :=
  if segment.isEmpty || segment == ['.'] then found
  else if segment == ['.', '.'] then
    match found with
    | last :: rest => if last == ['.', '.'] then segment :: found else rest
    | [] => if isAbsolute then [] else [segment]
  else segment :: found

/-- The normalized form of a path; backslashes count as slashes. -/
def normalizeChars (path : List Char) : List Char :=
  let slashed := path.map fun c => if c == '\\' then '/' else c
  let isAbsolute := startsWith ['/'] slashed
  let segments := ((splitAt '/' slashed).foldl (addSegment isAbsolute) []).reverse
  let joined := joinWith ['/'] segments
  if isAbsolute then '/' :: joined else if joined.isEmpty then ['.'] else joined

/-- The normalized form of a path; backslashes count as slashes. -/
def normalize (path : String) : String := String.ofList (normalizeChars path.toList)

/-- The directory part of a path. -/
def parent (path : String) : String :=
  match cutAtLast? ['/'] path.toList with
  | some ([], _) => "/"
  | some (front, _) => String.ofList front
  | none => "."

/-- The path starts at the root. -/
def isAbsolute (path : String) : Bool := startsWith ['/'] path.toList

/-- The path that is written `relative` in the directory `dir`. -/
def join (dir relative : String) : String :=
  if isAbsolute relative then normalize relative else normalize (dir ++ "/" ++ relative)

/-- The path ends with one of the endings. -/
def hasEnding (endings : List String) (path : String) : Bool :=
  endings.any fun ending => endsWith ending.toList path.toList

/-- The path of a script without type annotations. -/
def isScript (path : String) : Bool := hasEnding [".js", ".jsx", ".mjs", ".cjs"] path

/-- The path of a declaration file. -/
def isDeclarationFile (path : String) : Bool := hasEnding [".d.ts", ".d.mts", ".d.cts"] path

/-- The normalized form of a path that is written in the directory `cwd`. It is absolute where `cwd`
is; in an unnamed directory a path stays as it is. -/
def absolute (cwd path : String) : String :=
  if isAbsolute path || cwd.isEmpty then normalize path else normalize (cwd ++ "/" ++ path)

end DeclBundle.Path
