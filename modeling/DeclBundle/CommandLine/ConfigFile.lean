import DeclBundle.Json
import DeclBundle.Json.Relaxed
import DeclBundle.Options
import DeclBundle.Path

/-!
# Configuration files

A `ConfigFile` is what a configuration file says, and no more: a setting that the file does not
mention is missing. Files can build on one another. `ConfigFile.onto` lays a file onto the one that
it builds on, so that for each setting the nearest file that has it decides.
-/

set_option autoImplicit false

namespace DeclBundle

/-- Why there are no settings. -/
inductive ConfigError where
  /-- A text is no configuration. -/
  | malformed
  | notFound (path : String)
  | unreadable (path : String)
  /-- A file is no configuration. -/
  | unparsable (path : String)
  /-- A file builds on itself, directly or through others. -/
  | cycle (place : String)
  | unsupportedTarget (word : String)
  | unsupportedResolution (word : String)
  | noEntry
  deriving DecidableEq, Repr

/-- The text of an error. -/
def ConfigError.message : ConfigError → String
  | malformed => "failed to parse tsconfig JSON"
  | notFound path => "tsconfig not found at " ++ path
  | unreadable path => "failed to read tsconfig: " ++ path
  | unparsable path => "failed to parse tsconfig: " ++ path
  | cycle place => "tsconfig extends cycle detected at " ++ place
  | unsupportedTarget word => "unsupported compilerOptions.target '" ++ word ++ "'"
  | unsupportedResolution word => "unsupported compilerOptions.moduleResolution '" ++ word ++ "'"
  | noEntry =>
    "no entry file: pass one on the command line or list it under \"files\" in tsconfig.json"

/-- The options in a configuration file. -/
structure ConfigOptions where
  target : Option String := none
  resolution : Option String := none
  allowJs : Option Bool := none
  declaration : Option Bool := none
  declarationDir : Option String := none
  outFile : Option String := none
  deriving DecidableEq, Repr, Inhabited

/-- What a configuration file says. -/
structure ConfigFile where
  /-- The file that this one builds on. -/
  base : Option String := none
  options : Option ConfigOptions := none
  files : Option (List String) := none
  deriving DecidableEq, Repr, Inhabited

namespace ConfigOptions

open JsonValue

/-- A truth value, which can also be written as a word. -/
def truth? : JsonValue → Option (Option Bool)
  | .null => some none
  | .bool b => some (some b)
  | .string (some word) =>
    match LanguageTarget.plainWord word with
    | "true" | "1" | "yes" | "on" => some (some true)
    | "false" | "0" | "no" | "off" => some (some false)
    | _ => none
  | _ => none

/-- Reads options. -/
def ofJson? (value : JsonValue) : Option ConfigOptions := do
  let labels :=
    ["target", "moduleResolution", "allowJs", "declaration", "declarationDir", "outFile"]
  match ← fields? labels 0 value with
  | [target, resolution, allowJs, declaration, declarationDir, outFile] =>
    return {
      target := ← field? optionalText? target
      resolution := ← field? optionalText? resolution
      allowJs := ← field? truth? allowJs
      declaration := ← field? truth? declaration
      declarationDir := ← field? optionalText? declarationDir
      outFile := ← field? optionalText? outFile }
  | _ => none

/-- These options, and the ones of `base` where they say nothing. -/
def onto (o base : ConfigOptions) : ConfigOptions where
  target := o.target.or base.target
  resolution := o.resolution.or base.resolution
  allowJs := o.allowJs.or base.allowJs
  declaration := o.declaration.or base.declaration
  declarationDir := o.declarationDir.or base.declarationDir
  outFile := o.outFile.or base.outFile

/-- The options of a project. Paths are left out: where the bundle goes is decided with the
arguments. -/
def projectOptions (o : ConfigOptions) : Except ConfigError ProjectOptions := do
  let start : ProjectOptions := {}
  let target ← match o.target with
    | some word => (LanguageTarget.ofText? word).elim (.error (.unsupportedTarget word)) .ok
    | none => .ok start.target
  let resolution ← match o.resolution with
    | some word => (ResolutionKind.ofText? word).elim (.error (.unsupportedResolution word)) .ok
    | none => .ok start.resolution
  return { start with
    target, resolution
    allowJs := o.allowJs.getD start.allowJs
    declaration := o.declaration.getD start.declaration }

end ConfigOptions

namespace ConfigFile

open JsonValue

/-- A text. -/
def text? : JsonValue → Option String
  | .string text => text
  | _ => none

/-- A list of texts, which can be missing. -/
def texts? : JsonValue → Option (Option (List String))
  | .null => some none
  | .array elements => (elements.mapM text?).map some
  | _ => none

/-- Reads options, which can be missing. -/
def options? : JsonValue → Option (Option ConfigOptions)
  | .null => some none
  | value => (ConfigOptions.ofJson? value).map some

/-- Reads the text of a configuration file. -/
def ofText? (text : String) : Option ConfigFile := do
  let value ← JsonValue.ofText? (RelaxedJson.plainText text)
  match ← fields? ["extends", "compilerOptions", "files"] 0 value with
  | [base, options, files] =>
    return {
    base := ← field? optionalText? base
    options := ← field? options? options
    files := ← field? texts? files }
  | _ => none

/-- The paths in a file are written in the directory of the file. -/
def anchor (dir : String) (c : ConfigFile) : ConfigFile :=
  let anchorOptions (o : ConfigOptions) : ConfigOptions :=
    { o with
    declarationDir := o.declarationDir.map (Path.absolute dir)
    outFile := o.outFile.map (Path.absolute dir) }
  { c with
    options := c.options.map anchorOptions
    files := c.files.map (List.map (Path.absolute dir)) }

/-- What a file and the one that it builds on say together. -/
def onto (c base : ConfigFile) : ConfigFile where
  options :=
    match c.options, base.options with
    | some o, some b => some (o.onto b)
    | o, b => o.or b
  files := c.files.or base.files

/-- What a chain of files says, in which each file builds on the next one. -/
def overlay (chain : List ConfigFile) : ConfigFile := chain.foldr onto {}

end ConfigFile

end DeclBundle
