import DeclBundle.Json

/-!
# Package manifests

What the manifest of a package says about its files: where its types and its main module are, and
what it exports.
-/

set_option autoImplicit false

namespace DeclBundle

/-- What a package exports: one file, or a map whose keys are paths inside the package or
conditions. -/
inductive PackageExports where
  | file (target : String)
  | map (entries : List (String × PackageExports))

namespace PackageExports

/-- Sets the value of a key: in its place when the key is there, and otherwise at the end. -/
def insert {α : Type} (key : String) (value : α) : List (String × α) → List (String × α)
  | [] => [(key, value)]
  | (k, v) :: rest => if k == key then (key, value) :: rest else (k, v) :: insert key value rest

/-- Reads exports that nest at most `depth` levels. -/
def ofJson? : (depth : Nat) → JsonValue → Option PackageExports
  | _, .string (some target) => some (.file target)
  | depth + 1, .object members => do
    let entries ← members.mapM fun (key, value) => do return ((← key), (← ofJson? depth value))
    return .map (entries.foldl (fun found (key, value) => insert key value found) [])
  | _, _ => none

/-- The conditions that an import of types satisfies. -/
def conditions : List String := ["types", "import", "default"]

/-- The file that the first satisfied condition leads to, down to `depth` levels. -/
def byCondition? : (depth : Nat) → PackageExports → Option String
  | _, file target => some target
  | 0, map _ => none
  | depth + 1, map entries =>
    entries.findSome? fun (condition, value) =>
      if conditions.contains condition then byCondition? depth value else none

/-- The number of levels to which exports may nest. -/
def maxDepth : Nat := 127

/-- The file that is exported under `key`: `.` for the package itself, and a path that starts with
`./` for a module inside it. Keys that start with a dot make a map one of paths. -/
def target? (exports_ : PackageExports) (key : String) : Option String :=
  match exports_ with
  | file target => if key == "." then some target else none
  | map entries =>
    if entries.any (fun entry => entry.1.toList.head? == some '.') then
      (entries.find? (·.1 == key)).bind fun (_, value) => byCondition? maxDepth value
    else if key == "." then byCondition? maxDepth exports_
    else none

/-- Reads exports from a text that holds nothing else. -/
def ofText? (text : String) : Option PackageExports :=
  (JsonValue.ofText? text).bind (ofJson? maxDepth)

end PackageExports

/-- The manifest of a package. -/
structure Manifest where
  main : Option String
  types : Option String
  typings : Option String
  exports_ : Option PackageExports

namespace Manifest

/-- Reads a manifest. One that is not well-formed, in any of its fields, counts as none. -/
def ofText? (text : String) : Option Manifest := do
  let fields ← JsonValue.fields? ["name", "version", "main", "types", "typings", "exports"] 6
    (← JsonValue.ofText? text)
  match fields with
  | [name, version, main, types, typings, exports_] =>
    let _ ← JsonValue.field? JsonValue.optionalText? name
    let _ ← JsonValue.field? JsonValue.optionalText? version
    let readExports : JsonValue → Option (Option PackageExports)
      | .null => some none
      | value => (PackageExports.ofJson? (PackageExports.maxDepth - 1) value).map some
    return {
      main := ← JsonValue.field? JsonValue.optionalText? main
      types := ← JsonValue.field? JsonValue.optionalText? types
      typings := ← JsonValue.field? JsonValue.optionalText? typings
      exports_ := ← JsonValue.field? readExports exports_ }
  | _ => none

/-- The files that can be the entry of the package, the most telling first. -/
def entries (m : Manifest) : List String := [m.types, m.typings, m.main].filterMap id

end Manifest

end DeclBundle
