import DeclBundle.CommandLine.ConfigFile
import DeclBundle.Path.Written

/-!
# Files that build on one another

A configuration file can name another one to build on. `ConfigSource.chain` follows these names from
one file to the last, and `ConfigSource.load` says what the files of the chain say together. The
chain ends, because no file occurs in it twice and there are finitely many of them.
-/

set_option autoImplicit false

namespace DeclBundle

/-- A place that configuration files are read from. -/
structure ConfigSource where
  /-- The place that a path leads to. Different paths can lead to one place. -/
  locate? : String → Option String
  /-- The text of the file at a place. -/
  textAt? : String → Option String
  /-- The places of all files. -/
  places : List String
  /-- There is a text at no other place. -/
  mem_places : ∀ place, (textAt? place).isSome → place ∈ places

namespace ConfigSource

/-- The path of the file that a file in the directory `dir` builds on. The ending `.json` can be
left out. -/
def basePath (dir base : String) : String :=
  Path.Written.withDefaultExtension ".json" (Path.Written.join dir base)

/-- The directory of the file with a path. -/
def directoryOf (path : String) : String := (Path.Written.parent? path).getD path

/-- The files from the one with a path to the last that is built on, each with its paths made
absolute. `visited` holds the places that lead here, and `limit` bounds the number of files. A path
that leads nowhere stands for itself, in its plain form: `a.json/` is taken for `a.json`. -/
def chain (s : ConfigSource) : (limit : Nat) → (visited : List String) → (path : String) →
    Except ConfigError (List ConfigFile)
  | 0, _, path => .error (.unreadable path)
  | limit + 1, visited, path =>
    let found := s.locate? path
    let place := found.getD (Path.Written.plain path)
    if place ∈ visited then .error (.cycle (found.getD path))
    else
      match found.bind s.textAt? with
      | none => .error (.unreadable path)
      | some text =>
        match ConfigFile.ofText? text with
        | none => .error (.unparsable path)
        | some file =>
          let dir := directoryOf path
          let anchored := file.anchor dir
          match file.base with
          | none => .ok [anchored]
          | some base => (s.chain limit (place :: visited) (basePath dir base)).map (anchored :: ·)

/-- What the file with a path says, together with the files that it builds on. -/
def load (s : ConfigSource) (path : String) : Except ConfigError ConfigFile :=
  (s.chain (s.places.length + 1) [] path).map ConfigFile.overlay

end ConfigSource

end DeclBundle
