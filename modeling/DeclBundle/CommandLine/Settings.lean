import DeclBundle.Bundle.Basic
import DeclBundle.CommandLine.Arguments
import DeclBundle.CommandLine.ConfigChain
import DeclBundle.FileTree

/-!
# Settings

Everything that one run needs, from the arguments and the configuration file. Arguments decide
before the file, and the file before the defaults.
-/

set_option autoImplicit false

namespace DeclBundle

/-- The files of a tree as a place that configuration files are read from. -/
def FileTree.configSource (t : FileTree) : ConfigSource where
  locate? := t.locate?
  textAt? := t.textAt?
  places := t.entries.keys
  mem_places place h := by
    by_cases hr : (place == FileTree.root) = true
    · simp [FileTree.textAt?, FileTree.entry?, hr] at h
    · cases he : t.entries[place]? with
      | none => simp [FileTree.textAt?, FileTree.entry?, hr, he] at h
      | some e =>
        exact Std.HashMap.mem_keys.2 (Std.HashMap.mem_iff_isSome_getElem?.2 (by simp [he]))

/-- Everything that one run needs. -/
structure Settings where
  configPath : Option String
  entry : String
  options : ProjectOptions
  /-- The path of the bundle. -/
  output : String
  keepDocs : Bool
  deriving Repr

namespace Settings

/-- The name of a configuration file. -/
def configFileName : String := "tsconfig.json"

/-- The most directories that a configuration file is looked for in. -/
def maxAncestors : Nat := 64

/-- The nearest configuration file, from a directory upwards. -/
def nearestConfig? (t : FileTree) (start : String) : Option String :=
  ((Path.Written.ancestors maxAncestors start).map (Path.Written.join · configFileName)).find?
    t.isFile

/-- The configuration file that is asked for, or else the nearest one. -/
def configPath? (t : FileTree) (cwd : String) (project : Option String) (start : String) :
    Except ConfigError (Option String) :=
  match project with
  | none => .ok (nearestConfig? t start)
  | some project =>
    let asked := Path.Written.join cwd project
    let path := if t.isDirectory asked then Path.Written.join asked configFileName else asked
    if t.isFile path then .ok (some path) else .error (.notFound path)

/-- The entry, and the files that are listed beside it. -/
def entryOf (entry : Option String) (listed : List String) :
    Except ConfigError (String × List String) :=
  match entry, listed with
  | some entry, files => .ok (entry, files.filter (· != entry))
  | none, entry :: files => .ok (entry, files.filter (· != entry))
  | none, [] => .error .noEntry

/-- The path of the bundle. -/
def outputOf (cwd entry : String) (asked : Option String) (options : ConfigOptions) : String :=
  match asked, options.outFile, options.declarationDir with
  | some file, _, _ => Path.absolute cwd file
  | none, some file, _ => file
  | none, none, some dir => Path.Written.join dir Bundle.defaultFileName
  | none, none, none => Path.Written.join (Path.parent entry) Bundle.defaultFileName

/-- The settings of a run in the directory `cwd`. -/
def resolve (t : FileTree) (cwd : String) (arguments : Arguments) :
    Except ConfigError Settings := do
  let asked := arguments.entry.map (Path.absolute cwd)
  let configPath ← configPath? t cwd arguments.project (asked.elim cwd Path.parent)
  let config ← match configPath with
    | some path => t.configSource.load path
    | none => .ok {}
  let configOptions := config.options.getD {}
  let options ← configOptions.projectOptions
  let (entry, files) ← entryOf asked (config.files.getD [])
  let output := outputOf cwd entry arguments.outFile configOptions
  return {
    configPath, entry, output
    options := { arguments.override options with files, outFile := some output }
    keepDocs := !arguments.withoutDocs }

end Settings

end DeclBundle
