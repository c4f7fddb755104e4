import DeclBundle.Options
import DeclBundle.Package.Specifier
import DeclBundle.Symbol.Declaration

/-!
# Projects

A project is every file that is reached from one entry: the files with their nodes, one arena of
symbols for all of them, the modules that their specifiers mean and the symbols that their names
mean.
-/

set_option autoImplicit false

namespace DeclBundle

/-- How a file belongs to a project. -/
inductive FileOrigin where
  /-- It is reached from the entry. -/
  | own
  /-- It is installed with a package. -/
  | external
  /-- It is listed beside the entry, and gives names to all files. -/
  | ambient
  deriving DecidableEq, Repr, Inhabited

/-- What a specifier in a file means. -/
inductive ModuleTarget where
  | file (id : FileId)
  /-- A module that is declared by a quoted name. -/
  | ambient (symbol : SymbolId)
  deriving DecidableEq, Repr

/-- A file of a project. -/
structure SourceFile where
  id : FileId
  path : String
  text : String
  arena : Arena
  root : NodeId
  origin : FileOrigin
  isModule : Bool
  /-- The symbol of the file, when it is a module. -/
  symbol : Option SymbolId := none
  /-- The symbols of the nodes that declare something. -/
  declared : Std.TreeMap NodeId SymbolId := {}
  /-- The symbols to which identifiers refer. -/
  resolved : Std.TreeMap NodeId SymbolId := {}
  /-- What specifiers mean. -/
  modules : List (String × ModuleTarget) := []

/-- The packages of installed files and of modules with quoted names, by path or name, in the order
in which they were found. -/
abbrev PackageTable := Table String PackageEntry

/-- A project. -/
structure Project where
  options : ProjectOptions
  /-- The files, by their numbers. -/
  files : Array SourceFile
  tables : SharedTables
  packages : PackageTable
  diagnostics : List Diagnostic
  entry : FileId

namespace Project

/-- The file with a number. -/
def file? (p : Project) (id : FileId) : Option SourceFile := p.files[id.index]?

/-- The file at a path. -/
def fileAt? (p : Project) (path : String) : Option SourceFile :=
  let path := Path.normalize path
  p.files.find? (·.path == path)

/-- The symbol with a number. -/
def symbol? (p : Project) (id : SymbolId) : Option Symbol := p.tables.symbols.get? id

/-- The arena of a file. -/
def arena? (p : Project) (id : FileId) : Option Arena := (p.file? id).map SourceFile.arena

/-- The node to which a reference leads. -/
def node? (p : Project) (ref : NodeRef) : Option Node := (p.arena? ref.file).bind (·.get? ref.node)

/-- The form of the node to which a reference leads. -/
def form? (p : Project) (ref : NodeRef) : Option (Form Slot) := (p.node? ref).map Node.form

/-- The declarations of a symbol. -/
def declarationsOf (p : Project) (id : SymbolId) : List NodeRef :=
  (p.symbol? id).elim [] Symbol.declarations

/-- The symbol that a node declares. -/
def declaredSymbol? (p : Project) (ref : NodeRef) : Option SymbolId := do
  (← p.file? ref.file).declared[← ref.node]?

/-- The symbol to which a node refers, or else the one that it declares. -/
def symbolAt? (p : Project) (ref : NodeRef) : Option SymbolId := do
  let file ← p.file? ref.file
  let node ← ref.node
  (file.resolved[node]?).or file.declared[node]?

/-- Something in the project is an error. -/
def hasErrors (p : Project) : Bool := p.diagnostics.any Diagnostic.isError

/-- The errors of the project. -/
def errors (p : Project) : List Diagnostic := p.diagnostics.filter Diagnostic.isError

end Project

end DeclBundle
