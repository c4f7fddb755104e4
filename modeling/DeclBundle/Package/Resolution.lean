import DeclBundle.Diagnostic
import DeclBundle.Host
import DeclBundle.Options
import DeclBundle.Package.Manifest
import DeclBundle.Package.Specifier
import DeclBundle.Path
import DeclBundle.Table

/-!
# Finding the file of a module

A relative specifier names a file or a directory beside the importing file. Any other specifier is
looked up in the directory of that file and in those above it: as a file, or as an installed package
or the package of its types.

A manifest can name a directory as its entry, whose manifest is then followed, and so on. Such a way
may lead back to a manifest on it, and then the search goes on forever. So a search has the type
`Option (Option _)`: it has no answer when it goes on forever, and otherwise its answer is what it
finds, if anything.

`Resolution.answer?` is the search itself, and `Resolution.find?` is what it finds.
`Resolver.resolve` remembers every answer for a directory, failures included, so that a later
request gets the first answer even when the files have changed.
-/

set_option autoImplicit false

namespace DeclBundle

open Text (Span)

/-- The file of a module. -/
structure ResolvedModule where
  path : String
  /-- The package that the file is installed with. -/
  package : Option PackageEntry
  deriving DecidableEq, Repr

/-- Why no file was found. -/
inductive ResolutionCause where
  | notFound
  /-- The specifier is blank. -/
  | invalidSpecifier
  deriving DecidableEq, Repr

/-- A specifier without a file, and the import that asked for it. -/
structure ResolutionFailure where
  cause : ResolutionCause
  specifier : String
  file : String
  span : Span
  deriving DecidableEq, Repr

/-- The diagnostic for a failure. -/
def ResolutionFailure.diagnostic (f : ResolutionFailure) : Diagnostic :=
  .at_ f.file f.span (.cannotFindModule f.specifier)

namespace Resolution

/-- The number of directories that are searched on the way up. -/
def maxDirectories : Nat := 64

/-- How modules are found. -/
structure Rules where
  kind : ResolutionKind
  allowJs : Bool

variable (rules : Rules) (host : Host)

/-! ## Files -/

/-- The endings of files that are found only under their full name. -/
def typedEndings : List String := [".ts", ".tsx", ".mts", ".cts", ".d.ts"]

/-- What can stand on disk for a file with the ending of a script. -/
def typedReplacements : List (String × List String) :=
  [(".js", [".ts", ".tsx", ".d.ts"]), (".jsx", [".tsx", ".d.ts"]), (".mjs", [".mts", ".d.mts"]),
    (".cjs", [".cts", ".d.cts"])]

/-- The endings that can be left out. -/
def impliedEndings : List String :=
  match rules.kind, rules.allowJs with
  | .classic, _ | _, false => [".ts", ".tsx", ".d.ts"]
  | _, true => [".ts", ".tsx", ".d.ts", ".js", ".jsx"]

/-- A path without the ending of a script, and what can replace the ending. -/
def scriptStem? (path : String) : Option (String × List String) :=
  typedReplacements.findSome? fun (ending, replacements) =>
    (Text.before? ending.toList path.toList).map fun stem => (String.ofList stem, replacements)

/-- The first of several paths at which there is a file. -/
def firstFile? (paths : List String) : Option String :=
  (paths.find? host.fileExists).map Path.normalize

/-- The file that a path names, perhaps without its ending or with that of a script. -/
def file? (path : String) : Option String :=
  if Path.hasEnding typedEndings path then firstFile? host [path]
  else
    match scriptStem? path with
    | some (stem, replacements) =>
      firstFile? host (replacements.map (stem ++ ·) ++ (if rules.allowJs then [path] else []))
    | none => firstFile? host ((impliedEndings rules).map (path ++ ·))

/-! ## Directories and packages -/

/-- The path of the manifest of a directory. -/
def manifestPath (dir : String) : String := Path.join dir "package.json"

/-- The manifest of a directory. -/
def manifest? (dir : String) : Option Manifest :=
  (host.readFile (manifestPath dir)).bind Manifest.ofText?

/-- The first result of a search at several places. A search that goes on forever has no answer, and
nothing after it is searched. -/
def firstAnswer? {α β : Type} : List α → (α → Option (Option β)) → Option (Option β)
  | [], _ => some none
  | place :: rest, search =>
    match search place with
    | some none => firstAnswer? rest search
    | answer => answer

/-- What is found for a manifest of a directory: the first entry that `search` finds, and otherwise
the index of the directory. -/
def manifestAnswer? (search : String → Option (Option String)) (dir : String) (m : Manifest) :
    Option (Option String) :=
  (firstAnswer? m.entries fun entry => search (Path.join dir entry)).map
    (·.or (file? rules host (Path.join dir "index")))

/-- The answer of the search for the file or the entry of the directory at a path, when fewer than
`limit` manifests are followed on the way. -/
def entryAnswer? : (limit : Nat) → String → Option (Option String)
  | 0, _ => none
  | limit + 1, path =>
    match file? rules host path with
    | some found => some (some found)
    | none =>
      match manifest? host path with
      | some m => manifestAnswer? rules host (entryAnswer? limit) path m
      | none => some (file? rules host (Path.join path "index"))

/-- The limit for manifests that are followed on one way. There are no more of them than files: on a
longer way a manifest is met again, and then the search goes on forever. -/
def manifestLimit : Nat := host.paths.length + 1

/-- The file or the entry of the directory at a path, when the search finds one. -/
def fileOrDirectory? (path : String) : Option String :=
  (entryAnswer? rules host (manifestLimit host) path).join

/-- What a package exports as its module `subpath`, where packages can say so. -/
def exportTarget? (subpath : Option String) (m : Manifest) : Option String :=
  if rules.kind = .bundler then
    m.exports_.bind (·.target? (subpath.elim "." ("./" ++ ·)))
  else none

/-- The answer of the search for the file of a module in the package in a directory. What the
package exports wins, even when there is no such file. -/
def packageAnswer? (limit : Nat) (dir : String) (subpath : Option String) :
    Option (Option String) :=
  let m := manifest? host dir
  match m.bind (exportTarget? rules subpath) with
  | some target => some (file? rules host (Path.join dir target))
  | none =>
    match subpath with
    | some subpath => entryAnswer? rules host limit (Path.join dir subpath)
    | none =>
      match m with
      | some m => manifestAnswer? rules host (entryAnswer? rules host limit) dir m
      | none => some (file? rules host (Path.join dir "index"))

/-! ## Searches -/

/-- The directory and those above it, the nearest first, at most `limit` of them. -/
def ancestors : (limit : Nat) → String → List String
  | 0, _ => []
  | limit + 1, dir =>
    let above := Path.parent dir
    dir :: (if above == dir then [] else ancestors limit above)

/-- The module that a file is. -/
def moduleAt (path : String) : ResolvedModule := ⟨path, PackageEntry.ofPath? path⟩

/-- The answer of the search for the module of an installed package, or of the package of its
types. -/
def installedAnswer? (limit : Nat) (specifier dir : String) : Option (Option ResolvedModule) :=
  let entry := PackageEntry.ofSpecifier specifier
  firstAnswer? (ancestors maxDirectories dir) fun above =>
    firstAnswer? [entry.package, "@types/" ++ typesPackageName entry.package] fun name =>
      let home := Path.join (Path.join above "node_modules") name
      (packageAnswer? rules host limit home entry.subpath).map fun file =>
        file.map (⟨·, some entry⟩)

/-- The file with the name of the specifier in the directory or in one above it. -/
def nearest? (specifier dir : String) : Option ResolvedModule :=
  ((ancestors maxDirectories dir).findSome? fun above =>
    file? rules host (Path.join above specifier)).map moduleAt

/-- The answer of the search for the module that a specifier names in the files of a directory, when
fewer than `limit` manifests are followed on each way. -/
def answerTo? (limit : Nat) (specifier dir : String) : Option (Option ResolvedModule) :=
  if Text.isBlankText specifier.toList then some none
  else if isRelativeSpecifier specifier then
    (entryAnswer? rules host limit (Path.join dir specifier)).map (·.map moduleAt)
  else if rules.kind.usesPackages then installedAnswer? rules host limit specifier dir
  else some (nearest? rules host specifier dir)

/-- The answer of the search for the module that a specifier names in the files of a directory. -/
def answer? (specifier dir : String) : Option (Option ResolvedModule) :=
  answerTo? rules host (manifestLimit host) specifier dir

/-- The module that a specifier names in the files of a directory, when the search finds one. -/
def find? (specifier dir : String) : Option ResolvedModule :=
  (answer? rules host specifier dir).join

end Resolution

/-! ## Remembering answers -/

/-- How modules are found, and the answers so far, by directory and specifier. -/
structure Resolver where
  rules : Resolution.Rules
  answers : Table (String × String) (Except ResolutionFailure ResolvedModule) := {}

namespace Resolver

/-- Forgets all answers. -/
def clear (r : Resolver) : Resolver := { r with answers := {} }

/-- The answer for a specifier that is not remembered. -/
def answer (r : Resolver) (host : Host) (specifier file : String) (span : Span) :
    Except ResolutionFailure ResolvedModule :=
  match Resolution.find? r.rules host specifier (Path.parent file) with
  | some found => .ok found
  | none =>
    let cause := if Text.isBlankText specifier.toList then .invalidSpecifier else .notFound
    .error ⟨cause, specifier, file, span⟩

/-- The module that a specifier in a file names. The answer is remembered for all files of the
directory; a failure names the file that asked first. -/
def resolve (r : Resolver) (host : Host) (specifier file : String) (span : Span) :
    Resolver × Except ResolutionFailure ResolvedModule :=
  let key := (Path.parent file, specifier)
  match r.answers.get? key with
  | some known => (r, known)
  | none =>
    let found := r.answer host specifier file span
    ({ r with answers := r.answers.set key found }, found)

end Resolver

end DeclBundle
