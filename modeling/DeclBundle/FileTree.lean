import Std.Data.HashMap
import DeclBundle.Host
import DeclBundle.Path.Written

/-!
# Directories and files

A `FileTree` holds directories and files by their places; the place of a file is its absolute,
normalized path. A path leads to a place one part after the other, and each part but the last has to
be a directory: `a/../b` leads nowhere when there is no directory `a`.
-/

set_option autoImplicit false

namespace DeclBundle

/-- What is at a place. -/
inductive FileEntry where
  | directory
  /-- A file. The text is missing when it cannot be read. -/
  | file (text : Option String)
  deriving DecidableEq, Repr

/-- Directories and files by their places. The root is always there. -/
structure FileTree where
  entries : Std.HashMap String FileEntry := {}

namespace FileTree

open Text

/-- The most bytes in a name. -/
def maxNameBytes : Nat := 255

/-- The most bytes in a path. -/
def maxPathBytes : Nat := 4095

/-- A path can be used: neither it nor a name in it is too long, and no name has a null character in
it. -/
def isUsable (path : String) : Bool :=
  path.utf8ByteSize ≤ maxPathBytes &&
    (splitAt '/' path.toList).all fun name =>
      byteLength name ≤ maxNameBytes && !name.contains '\x00'

/-- The root of all places. -/
def root : String := "/"

/-- The place with a name in the directory at a place. -/
def child (place : String) (name : List Char) : String :=
  if place == root then root ++ String.ofList name else place ++ "/" ++ String.ofList name

/-- What is at a place. -/
def entry? (t : FileTree) (place : String) : Option FileEntry :=
  if place == root then some .directory else t.entries[place]?

/-- Follows one more part of a path. -/
def follow (t : FileTree) (place : String) (part : List Char) : Option String :=
  if t.entry? place != some .directory then none
  else if part.isEmpty || part == ['.'] then some place
  else if part == ['.', '.'] then some (Path.parent place)
  else
    let next := child place part
    if (t.entry? next).isSome then some next else none

/-- The place that an absolute path leads to. -/
def locate? (t : FileTree) (path : String) : Option String :=
  if Path.isAbsolute path && isUsable path then (splitAt '/' path.toList).foldlM t.follow root
    else none

/-- The text of the file at a place. -/
def textAt? (t : FileTree) (place : String) : Option String :=
  match t.entry? place with
  | some (.file text) => text
  | _ => none

/-- The text of the file that a path leads to. -/
def read? (t : FileTree) (path : String) : Option String := (t.locate? path).bind t.textAt?

/-- A path leads to a file. -/
def isFile (t : FileTree) (path : String) : Bool :=
  match (t.locate? path).bind t.entry? with
  | some (.file _) => true
  | _ => false

/-- A path leads to a directory. -/
def isDirectory (t : FileTree) (path : String) : Bool :=
  (t.locate? path).bind t.entry? == some .directory

/-- The places of all files. -/
def filePlaces (t : FileTree) : List String :=
  (t.entries.toList.filter fun (_, entry) => entry != .directory).map (·.1)

/-- The files as a place to read from. -/
def host (t : FileTree) : Host := ⟨t.read?, t.isFile, t.filePlaces⟩

/-! ## Adding -/

/-- The places on the way to an absolute path, with its own at the end. -/
def placesTo (path : String) : List String :=
  let names := (splitAt '/' (Path.normalizeChars path.toList)).filter (! ·.isEmpty)
  (names.foldl (fun (place, found) name => (child place name, child place name :: found))
    (root, [])).2.reverse

/-- Adds a directory and those above it. What is there is kept. -/
def addDirectory (t : FileTree) (path : String) : FileTree :=
  (placesTo path).foldl (fun t place => ⟨t.entries.insertIfNew place .directory⟩) t

/-- Adds a file and the directories above it. -/
def addFile (t : FileTree) (path : String) (text : Option String) : FileTree :=
  let place := Path.normalize path
  ⟨(t.addDirectory (Path.parent place)).entries.insert place (.file text)⟩

/-- Creates a directory and those above it, unless a file is in the way. -/
def createDirectory? (t : FileTree) (path : String) : Option FileTree :=
  if isUsable path && (placesTo path).all fun place => (t.entry? place).all (· == .directory) then
    some (t.addDirectory path)
  else none

/-- Writes a file in a directory that is there, unless a directory is in the way. -/
def write? (t : FileTree) (path text : String) : Option FileTree :=
  let place := Path.normalize path
  if isUsable path && t.entry? (Path.parent place) == some .directory &&
    t.entry? place != some .directory then
    some ⟨t.entries.insert place (.file text)⟩
  else none

end FileTree

end DeclBundle
