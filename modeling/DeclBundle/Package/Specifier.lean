import DeclBundle.Text.Words

/-!
# Names of modules and packages

A specifier names a module in an import. It is a path when it starts with a dot or a slash, and
otherwise the name of a package with an optional path inside it. `PackageEntry` is a module of a
package, read from a specifier or from the path of an installed file.
-/

set_option autoImplicit false

namespace DeclBundle

open Text

/-- A module of a package: the name of the package and the path inside it. -/
structure PackageEntry where
  package : String
  subpath : Option String
  deriving DecidableEq, Repr

namespace PackageEntry

/-- The specifier that imports the module. -/
def specifier (e : PackageEntry) : String :=
  match e.subpath with
  | some subpath => if subpath.isEmpty then e.package else e.package ++ "/" ++ subpath
  | none => e.package

/-- The module that a specifier names. The name of a package with a scope has two segments. -/
def ofSpecifier (specifier : String) : PackageEntry :=
  let cs := specifier.toList
  let cut :=
    if startsWith ['@'] cs then
      (cutAt? ['/'] cs).bind fun (scope, rest) =>
        (cutAt? ['/'] rest).map fun (name, subpath) => (scope ++ '/' :: name, subpath)
    else cutAt? ['/'] cs
  match cut with
  | some (package, []) => ⟨String.ofList package, none⟩
  | some (package, subpath) => ⟨String.ofList package, some (String.ofList subpath)⟩
  | none => ⟨specifier, none⟩

end PackageEntry

/-- The specifier is a path. -/
def isRelativeSpecifier (specifier : String) : Bool :=
  specifier == "." || specifier == ".."
    || ["./", "../", "/"].any fun lead => startsWith lead.toList specifier.toList

/-- The name under which the types of a package are published: a scope loses its `@`, and two
underscores stand for the slash after it. -/
def typesPackageName (package : String) : String :=
  match package.toList with
  | '@' :: rest =>
    match cutAt? ['/'] rest with
    | some (scope, name) => String.ofList (scope ++ '_' :: '_' :: name)
    | none => String.ofList rest
  | _ => package

/-- The package whose types are published under a name. -/
def packageOfTypes (name : List Char) : List Char :=
  match cutAt? ['_', '_'] name with
  | some (scope, package) => '@' :: (scope ++ '/' :: package)
  | none => name

/-- The endings that are left out of specifiers, the longer ones first. -/
def specifierEndings : List String :=
  [".d.ts", ".d.mts", ".d.cts", ".ts", ".tsx", ".js", ".jsx", ".mjs", ".cjs"]

/-- The path inside a package under which a file is imported: without its ending, and without a
final `index`. -/
def importSubpath (path : List Char) : List Char :=
  let bare := (specifierEndings.findSome? fun ending => before? ending.toList path).getD path
  if bare == "index".toList then []
  else (before? "/index".toList bare).getD bare

/-- The module of a package that an installed file is, if it is one. -/
def PackageEntry.ofPath? (path : String) : Option PackageEntry := do
  let (_, rest) ← cutAtLast? "/node_modules/".toList path.toList
  let segments := splitAt '/' rest
  let (package, inside) ← match segments with
    | [] => none
    | first :: tail =>
      if first == "@types".toList then
        match tail with
        | name :: tail => some (packageOfTypes name, tail)
        | [] => none
      else if startsWith ['@'] first then
        match tail with
        | name :: tail => some (first ++ '/' :: name, tail)
        | [] => none
      else some (first, tail)
  let subpath := importSubpath (joinWith ['/'] inside)
  return ⟨String.ofList package, if subpath.isEmpty then none else some (String.ofList subpath)⟩

end DeclBundle
