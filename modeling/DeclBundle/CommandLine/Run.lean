import DeclBundle.CommandLine.Report
import DeclBundle.CommandLine.Settings
import DeclBundle.Project.Loading

/-!
# Runs

One run finds its settings, loads the project, bundles it and writes the bundle. Scripts are read
with the types that their comments give them.
-/

set_option autoImplicit false

namespace DeclBundle

/-- Why a run does not come to an end. -/
inductive RunError where
  | config (e : ConfigError)
  /-- The entry cannot be loaded. -/
  | load (entry : String)
  /-- The entry is no module. -/
  | bundle
  | directory (path : String)
  | write (path : String)
  deriving DecidableEq, Repr

/-- The text of an error. -/
def RunError.message : RunError → String
  | config e => e.message
  | load entry => "failed to load " ++ entry
  | bundle => "bundling failed"
  | directory path => "failed to create directory " ++ path
  | write path => "failed to write " ++ path

/-- What a run comes to. -/
structure Run where
  settings : Settings
  /-- The files of the project, in the order in which they were loaded. -/
  filesRead : List String
  diagnostics : List Diagnostic
  /-- The text of the bundle, unless the project has errors. -/
  bundle : Option String
  /-- The path that the bundle was written to. -/
  written : Option String
  /-- The files after the run. -/
  tree : FileTree

namespace Run

/-- Writes a bundle, in a directory that is created when it is not there. -/
def writeBundle (t : FileTree) (path text : String) : Except RunError FileTree := do
  let t ← match Path.Written.parent? path with
    | some dir => (t.createDirectory? dir).elim (.error (.directory dir)) .ok
    | none => .ok t
  (t.write? path text).elim (.error (.write path)) .ok

/-- Bundles the project with the given settings. The bundle is written unless it is to be
printed. -/
def ofSettings (t : FileTree) (settings : Settings) (toOutput : Bool) : Except RunError Run :=
  match Project.load settings.entry settings.options t.host.annotated with
  | .error _ => .error (.load settings.entry)
  | .ok project =>
    let filesRead := project.files.toList.map (·.path)
    let diagnostics := project.diagnostics
    match project.bundle settings.keepDocs with
    | .error (.emitSkipped _) =>
      .ok { settings, filesRead, diagnostics, bundle := none, written := none, tree := t }
    | .error _ => .error .bundle
    | .ok b =>
      if toOutput then
        .ok { settings, filesRead, diagnostics, bundle := b.text, written := none, tree := t }
      else (writeBundle t settings.output b.text).map fun tree =>
        { settings, filesRead, diagnostics, bundle := b.text, written := settings.output, tree }

/-- A run in the directory `cwd`. -/
def ofArguments (t : FileTree) (cwd : String) (arguments : Arguments) : Except RunError Run :=
  match Settings.resolve t cwd arguments with
  | .error e => .error (.config e)
  | .ok settings => ofSettings t settings arguments.toOutput

/-- A run fails when errors kept it from making a bundle. -/
def failed (r : Run) : Bool := r.bundle.isNone

/-- The bundle can be read where it was written. -/
def writtenMatches? (r : Run) : Option Bool :=
  r.written.map fun path => r.bundle.isSome && r.tree.read? path == r.bundle

/-- The report on a run. -/
def report (r : Run) (style : ReportStyle) : String :=
  Report.render style r.tree.read? r.diagnostics

end Run

end DeclBundle
