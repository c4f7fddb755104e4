import DeclBundle.Path

/-!
# Paths as they were written

Paths in messages keep the form in which they were written, so these operations change a path at its
end only. A slash at the end of a path, and a `.` after a slash, name no part of it.
-/

set_option autoImplicit false

namespace DeclBundle.Path.Written

open Text

/-- A reversed path without what follows its last part. -/
def skipEmptyParts : List Char → List Char
  | '/' :: r => skipEmptyParts r
  | '.' :: '/' :: r => skipEmptyParts r
  | cs => cs

/-- The path up to its last part. The root has no part. -/
def trimmed (path : String) : List Char := (skipEmptyParts path.toList.reverse).reverse

/-- The path without the empty parts and the parts `.` in it, which change nothing about where a
path leads when it leads anywhere. -/
def plain (path : String) : String :=
  let parts := (splitAt '/' path.toList).filter fun part => !part.isEmpty && part != ['.']
  let joined := joinWith ['/'] parts
  String.ofList (if isAbsolute path then '/' :: joined else joined)

/-- The path that is written `relative` in the directory `dir`. -/
def join (dir relative : String) : String :=
  if isAbsolute relative || dir.isEmpty then relative
  else if endsWith ['/'] dir.toList then dir ++ relative
  else dir ++ "/" ++ relative

/-- The directory that a path leads to without its last part. -/
def parent? (path : String) : Option String :=
  match skipEmptyParts path.toList.reverse with
  | [] => none
  | reversed =>
    let front := reversed.dropWhile (· != '/')
    match skipEmptyParts front, front with
    | [], [] => some ""
    | [], _ => some "/"
    | dir, _ => some (String.ofList dir.reverse)

/-- The path and the directories above it, the nearest first, at most `limit` of them. -/
def ancestors : (limit : Nat) → String → List String
  | 0, _ => []
  | limit + 1, path => path :: ((parent? path).elim [] (ancestors limit))

/-- The last part of a path, unless that is `..`. A path that is nothing but `.` has no file name
either. -/
def fileName? (path : String) : Option (List Char) :=
  match (trimmed path).reverse.takeWhile (· != '/') with
  | [] => none
  | name => if name == ['.'] || name == ['.', '.'] then none else some name.reverse

/-- A file name has an ending: a dot that is not its first character. -/
def hasExtension (name : List Char) : Bool :=
  match cutAtLast? ['.'] name with
  | some (stem, _) => !stem.isEmpty
  | none => false

/-- The path with an ending, unless the file has one or the path names no file. -/
def withDefaultExtension (ending path : String) : String :=
  match fileName? path with
  | some name => if hasExtension name then path else String.ofList (trimmed path) ++ ending
  | none => path

end DeclBundle.Path.Written
