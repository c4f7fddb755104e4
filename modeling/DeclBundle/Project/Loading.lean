import DeclBundle.Grammar.Statement
import DeclBundle.Package.Resolution
import DeclBundle.Project.Member
import DeclBundle.Symbol.Ambient
import DeclBundle.Symbol.Scope
import DeclBundle.Text.Quoted

/-!
# Loading a project

Files are loaded in the order in which they are first asked for, starting from the entry; files that
are listed beside it follow when nothing more is reached. Then the names of all files are declared,
specifiers are connected with files or with modules that have quoted names, and identifiers are
linked.
-/

set_option autoImplicit false

namespace DeclBundle

open Text (Span)

/-- Why there is no project. -/
inductive LoadError where
  | entryNotFound (path : String)
  deriving DecidableEq, Repr

/-- The text of an error. -/
def LoadError.message : LoadError → String
  | entryNotFound path => "entry file '" ++ path ++ "' not found"

/-- The specifiers of imports, exports, external references and import types, in the order of the
nodes. -/
def moduleSpecifiers (a : Arena) : List (String × Span) :=
  a.nodes.toList.filterMap fun node =>
    let specifier? : Option Slot := match node.form with
      | .importDeclaration _ specifier | .exportDeclaration _ _ specifier
      | .externalReference specifier
      | .importType _ specifier _ _ => some specifier
      | _ => none
    match specifier? with
    | none => none
    | some specifier =>
      match a.form? specifier with
      | some (.stringLiteral text) => some (text, a.span specifier)
      | _ => none

/-! ## Loading files -/

/-- The files so far, and what is still to be loaded. -/
structure Loader where
  resolver : Resolver
  files : Array SourceFile := #[]
  /-- The paths that were asked for. -/
  asked : List String := []
  queue : List (String × FileOrigin) := []
  /-- For each specifier that names a file: the file with the specifier, the specifier, and the
  path. -/
  connections : List (FileId × String × String) := []
  /-- The specifiers that name no file, each with the file it is in. -/
  unresolved : List (FileId × ResolutionFailure) := []
  packages : PackageTable := {}
  diagnostics : List Diagnostic := []

namespace Loader

variable (host : Host)

/-- The most files of a project. -/
def maxFiles : Nat := 100000

/-- Asks for a file, unless it was asked for before. -/
def ask (l : Loader) (path : String) (origin : FileOrigin) : Loader :=
  if l.asked.contains path then l
    else { l with asked := path :: l.asked, queue := l.queue ++ [(path, origin)] }

/-- Adds a diagnostic without a place. -/
def report (l : Loader) (problem : Problem) : Loader :=
  { l with diagnostics := l.diagnostics ++ [.global problem] }

/-- Finds the file of a specifier and asks for it. -/
def connect (file : FileId) (path : String) (origin : FileOrigin) (l : Loader)
    (specifier : String × Span) : Loader :=
  let (resolver, answer) := l.resolver.resolve host specifier.1 path specifier.2
  let l := { l with resolver }
  match answer with
  | .ok found =>
    let l := match found.package with
      | some entry => { l with packages := l.packages.add found.path entry }
      | none => l
    { l.ask found.path origin with connections := l.connections ++
      [(file, specifier.1, found.path)] }
  | .error failure => { l with unresolved := l.unresolved ++ [(file, failure)] }

/-- The origin of a file at a path that was asked for with an origin. -/
def originAt (path : String) (origin : FileOrigin) : FileOrigin :=
  if Text.contains "/node_modules/".toList path.toList then .external else origin

/-- Loads one file. -/
def load (l : Loader) (path : String) (origin : FileOrigin) : Loader :=
  match host.readFile path with
  | none => l.report (.cannotReadFile path)
  | some text =>
    let origin := originAt path origin
    let parsed := parseFile path text
    let id : FileId := ⟨l.files.size⟩
    let isModule := match parsed.arena.form? (some parsed.root) with
      | some (.sourceFile _ isModule) => isModule
      | _ => false
    let file : SourceFile :=
      { id, path, text, arena := parsed.arena, root := parsed.root, origin, isModule }
    let l :=
      { l with files := l.files.push file, diagnostics := l.diagnostics ++ parsed.diagnostics }
    let reached : FileOrigin := if origin = .ambient then .ambient else .own
    (moduleSpecifiers parsed.arena).foldl (connect host id path reached) l

/-- Loads what was asked for and all that is reached from there, at most `limit` files. -/
def drain : (limit : Nat) → Loader → Loader
  | 0, l => l
  | limit + 1, l =>
    match l.queue with
    | [] => l
    | (path, origin) :: queue => drain limit ({ l with queue }.load host path origin)

/-- Asks for a file that is listed beside the entry. -/
def askListed (l : Loader) (path : String) : Loader :=
  let path := Path.normalize path
  if host.fileExists path then l.ask path .ambient else l.report (.fileNotFound path)

/-- Loads the files of a project. -/
def run (options : ProjectOptions) (entry : String) : Loader :=
  let start : Loader := { resolver := { rules := ⟨options.resolution, options.allowJs⟩ } }
  let reached := (start.ask entry .own).drain host maxFiles
  let listed := options.files.foldl (askListed host) reached
  listed.drain host (maxFiles - listed.files.size)

/-- The loader has come to an end: all files that it has are read to their ends, and the search for
each of their specifiers has an answer. -/
def hasEnded (l : Loader) : Bool :=
  l.files.all fun file =>
    (parseFile? file.path file.text).isSome &&
      (moduleSpecifiers file.arena).all fun specifier =>
        (Resolution.answer? l.resolver.rules host specifier.1 (Path.parent file.path)).isSome

end Loader

/-! ## Connecting files -/

/-- Files with what they declare together. -/
structure Assembly where
  files : Array SourceFile := #[]
  tables : SharedTables := {}
  packages : PackageTable := {}
  diagnostics : List Diagnostic := []

namespace Assembly

/-- Adds a file and declares what it declares. -/
def declareFile (s : Assembly) (file : SourceFile) : Assembly :=
  let (d, symbol) := Declarations.declareFile ⟨file.id, file.path, file.arena⟩ s.tables file.root
  { s with
    files := s.files.push { file with symbol, declared := d.declared }
    tables := d.tables
    diagnostics := s.diagnostics ++ d.diagnostics }

/-- Sets what a specifier in a file means. -/
def setModule (s : Assembly) (file : FileId) (specifier : String)
    (target : ModuleTarget) : Assembly :=
  let set (f : SourceFile) : SourceFile :=
    { f with modules := f.modules.filter (·.1 != specifier) ++ [(specifier, target)] }
  { s with files := s.files.modify file.index set }

/-- Connects a specifier with the file at a path, if that was loaded. -/
def connectFile (s : Assembly) (connection : FileId × String × String) : Assembly :=
  let (file, specifier, path) := connection
  match s.files.find? (·.path == path) with
  | some target => s.setModule file specifier (.file target.id)
  | none => s

/-- Connects a specifier that names no file with a module that has a quoted name, or reports it. The
package of such a module is the one of the first specifier that meant it. -/
def connectAmbient (s : Assembly) (unresolved : FileId × ResolutionFailure) : Assembly :=
  let (file, failure) := unresolved
  let specifier := failure.specifier
  match s.tables.ambientModules.ambientModule? specifier with
  | some module =>
    let s := s.setModule file specifier (.ambient module)
    let name := (s.tables.symbols.get? module).elim specifier fun symbol =>
      Text.unquoted symbol.name
    { s with packages := s.packages.add name (.ofSpecifier specifier) }
  | none => { s with diagnostics := s.diagnostics ++ [failure.diagnostic] }

/-- Links the names of the file with a number. -/
def linkFile (s : Assembly) (index : Nat) : Assembly :=
  match s.files[index]? with
  | none => s
  | some file =>
    let links := Links.ofFile ⟨file.id, file.arena, s.tables.globals⟩ s.tables.symbols file.declared
      file.root file.symbol
    { s with
      files := s.files.modify index fun f =>
        { f with declared := links.declared, resolved := links.resolved }
      tables.symbols := links.symbols }

/-- Connects the files of a loader. -/
def ofLoader (l : Loader) : Assembly :=
  let declared := l.files.foldl declareFile { packages := l.packages, diagnostics := l.diagnostics }
  let connected := l.unresolved.foldl connectAmbient (l.connections.foldl connectFile declared)
  (List.range connected.files.size).foldl linkFile connected

end Assembly

/-! ## Projects -/

namespace Project

/-- The diagnostic for an import of a name that its module does not export. -/
def missingExport? (p : Project) (symbol : Symbol) : Option Diagnostic :=
  match symbol.aliasOf with
  | some (.export_ specifier exportName) => do
    let _ ← p.moduleOf? symbol.file specifier
    guard (p.aliasTarget? symbol.id).isNone
    let declaration ← symbol.declarations.head?
    let file ← p.file? declaration.file
    return .at_ file.path (file.arena.span declaration.node)
      (.noExportedMember specifier exportName)
  | _ => none

/-- The diagnostics for all imports of names that are not exported. -/
def missingExports (p : Project) : List Diagnostic :=
  p.tables.symbols.symbols.toList.filterMap p.missingExport?

/-- Loads the project with an entry. Of texts and searches that go on forever it takes what there is
up to their limits; `load?` has no answer then. -/
def load (entry : String) (options : ProjectOptions) (host : Host) : Except LoadError Project :=
  let path := Path.normalize entry
  if !host.fileExists path then .error (.entryNotFound path)
  else
    let s := Assembly.ofLoader (Loader.run host options path)
    match s.files.find? (·.path == path) with
    | none => .error (.entryNotFound path)
    | some file =>
      let p : Project := ⟨options, s.files, s.tables, s.packages, s.diagnostics, file.id⟩
      .ok { p with diagnostics := p.diagnostics ++ p.missingExports }

/-- Loads the project with an entry, if loading comes to an end. -/
def load? (entry : String) (options : ProjectOptions) (host : Host) :
    Option (Except LoadError Project) :=
  let path := Path.normalize entry
  if !host.fileExists path || (Loader.run host options path).hasEnded host then
    some (load entry options host)
  else none

/-- Loads the project with an entry from files that are kept in memory, each with its path and its
text. -/
def ofFiles (entry : String) (files : List (String × String)) : Except LoadError Project :=
  load entry {} (files.foldl (fun m file => m.add file.1 file.2) ({} : MemoryFiles)).host

end Project

/-- A result with a value is the value. -/
theorem eq_ok_of_toOption {ε α : Type} {result : Except ε α} {a : α}
    (h : result.toOption = some a) :
    result = .ok a := by
  cases result with
  | error _ => cases h
  | ok _ => exact congrArg Except.ok (Option.some.inj h)

end DeclBundle
