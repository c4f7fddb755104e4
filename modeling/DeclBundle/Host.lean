import DeclBundle.Script.Pass
import DeclBundle.Table

/-!
# Where files come from

A `Host` is a place that files are read from. `Host.annotated` is the same place with types written
into its scripts.
-/

set_option autoImplicit false

namespace DeclBundle

/-- A place that files are read from. -/
structure Host where
  readFile : String → Option String
  fileExists : String → Bool
  /-- The normalized paths of all files. -/
  paths : List String

/-- Files that are kept in memory, by their normalized paths. -/
structure MemoryFiles where
  files : Table String String := {}

namespace MemoryFiles

/-- Sets the text of a file. -/
def add (m : MemoryFiles) (path text : String) : MemoryFiles :=
  ⟨m.files.set (Path.normalize path) text⟩

/-- The files as a place to read from. -/
def host (m : MemoryFiles) : Host :=
  ⟨fun path => m.files.get? (Path.normalize path),
    fun path => m.files.contains (Path.normalize path), m.files.keys⟩

end MemoryFiles

/-- The same files, with what comments say about types written into scripts. -/
def Host.annotated (host : Host) : Host :=
  { host with readFile := fun path => (host.readFile path).map (Script.annotate path) }

end DeclBundle
