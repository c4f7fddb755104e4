import DeclBundle.CommandLine.Run

/-!
# The program

The command line around `Run`: it reads the workspace into a `FileTree`, runs, and writes what the
run comes to. All decisions are made by the run; what is here only moves texts between the disk, the
terminal and the run.
-/

set_option autoImplicit false

namespace DeclBundle.Program

/-- How the program is used. -/
def usage : String := "\n".intercalate [
  "Bundle the public declarations of a project into one declaration file",
  "",
  "Usage: declbundle [OPTIONS] [ENTRY]",
  "",
  "Arguments:",
  "  [ENTRY]  Entry module. Defaults to the first file listed in tsconfig.json",
  "",
  "Options:",
  "  -p, --project <PROJECT>        Path to tsconfig.json or a directory containing it",
  "  -o, --outFile <FILE>           Bundle file to write",
  "  -t, --target <TARGET>          Language version the sources are written against",
  "      --moduleResolution <KIND>  How modules are found: classic, node10 or bundler",
  "      --allowJs [true|false]     Resolve and load scripts without type annotations",
  "      --stdout                   Print the bundle instead of writing a file",
  "      --listFiles                Print the names of all files read",
  "      --pretty [true|false]      Show sources in diagnostics. Defaults to true for terminals",
  "      --noJsDoc                  Leave documentation comments out of the bundle",
  "  -h, --help                     Print help",
  "  -V, --version                  Print version"]

/-- The name and the version of the program. -/
def version : String := "declbundle 0.1.0"

/-- What is wrong with a command line. -/
def describe : ArgumentError → String
  | .unknownArgument => "unexpected argument found"
  | .invalidValue => "a value is missing or not one of those allowed"
  | .conflict => "an argument cannot be used multiple times"
  | .tooManyValues => "unexpected value for an argument that takes none"
  | .helpRequested => usage
  | .versionRequested => version

/-! ## Reading the workspace -/

/-- The text of a file, unless it cannot be read. -/
def readText (path : String) : IO (Option String) := do
  try
    return String.fromUTF8? (← IO.FS.readBinFile path)
  catch _ => return none

/-- The files that can belong to a project. -/
def isOfInterest (name : String) : Bool :=
  Path.hasEnding [".ts", ".tsx", ".mts", ".cts", ".js", ".jsx", ".mjs", ".cjs", ".json"] name

/-- Adds a directory with all that is in it. A directory is not entered again through a link inside
it. -/
partial def addDirectory (t : FileTree) (dir : String) (onTheWay : List String) : IO FileTree := do
  let real ← IO.FS.realPath dir
  if onTheWay.contains real.toString then return t
  let mut t := t.addDirectory dir
  for found in ← real.readDir do
    let path := Path.Written.join dir found.fileName
    if ← found.path.isDir then t ← addDirectory t path (real.toString :: onTheWay)
    else if isOfInterest found.fileName then t := t.addFile path (← readText path)
    else t := t.addFile path none
  return t

/-- The outermost directory above a path that holds a manifest, a configuration file or packages.
Without one it is the directory with the path. -/
def workspaceOf (dir : String) : IO String := do
  let mut outermost := dir
  for above in Path.Written.ancestors Settings.maxAncestors dir do
    let held ← try pure ((← (← IO.FS.realPath above).readDir).map (·.fileName)) catch _ => pure #[]
    if held.any (["package.json", Settings.configFileName, "node_modules"].contains ·) then
      outermost := above
  return outermost

/-- Reads the workspaces that a run in the directory `cwd` can need. -/
def readWorkspaces (cwd : String) (a : Arguments) : IO FileTree := do
  let named := [a.entry, a.project].filterMap id |>.map fun path =>
    Path.parent (Path.absolute cwd path)
  let mut t : FileTree := {}
  for dir in cwd :: named do
    let workspace ← workspaceOf dir
    unless t.isDirectory workspace do
      t ← try addDirectory t workspace [] catch _ => pure t
  return t

/-! ## Writing -/

/-- Writes the bundle of a run to the disk. -/
def writeBundle (r : Run) : IO (Except RunError Unit) := do
  match r.written, r.bundle with
  | some path, some text =>
    try IO.FS.createDirAll (Path.parent path) catch _ =>
      return .error (.directory (Path.parent path))
    try IO.FS.writeFile path text catch _ => return .error (.write path)
    return .ok ()
  | _, _ => return .ok ()

/-- Prints what a run comes to. -/
def print (a : Arguments) (r : Run) : IO Unit := do
  if a.listFiles then r.filesRead.forM fun path => IO.println path
  let terminal ← (← IO.getStderr).isTty
  IO.eprint (r.report ⟨a.pretty.getD terminal, terminal⟩)
  if a.toOutput then IO.print (r.bundle.getD "")

/-- Runs with the given arguments, and answers the exit code. -/
def run (a : Arguments) : IO UInt32 := do
  let cwd := (← IO.currentDir).toString
  let outcome ← match Run.ofArguments (← readWorkspaces cwd a) cwd a with
    | .error e => pure (.error e)
    | .ok r => pure ((← writeBundle r).map fun _ => r)
  match outcome with
  | .error e =>
    IO.eprintln ("Error: " ++ e.message)
    return 1
  | .ok r =>
    print a r
    return if r.failed then 1 else 0

end DeclBundle.Program

/-- The program. -/
def main (words : List String) : IO UInt32 := do
  match DeclBundle.Arguments.ofWords words with
  | .ok a => DeclBundle.Program.run a
  | .error e =>
    let text := DeclBundle.Program.describe e
    if e = .helpRequested || e = .versionRequested then
      IO.println text
      return 0
    else
      IO.eprintln ("error: " ++ text)
      return 2
