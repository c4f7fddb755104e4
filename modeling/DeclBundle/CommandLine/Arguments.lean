import DeclBundle.Options

/-!
# Arguments

What can be said on the command line. Words are read from left to right. A flag that takes a value
waits for it: the next word is its value unless it is a flag itself. A value is checked when the
next flag or file comes, and at the end, so that a fault in the form of a later word can be reported
before a fault in an earlier value.
-/

set_option autoImplicit false

namespace DeclBundle

/-- What is asked for on the command line. -/
structure Arguments where
  entry : Option String := none
  /-- The configuration file, or the directory with it. -/
  project : Option String := none
  outFile : Option String := none
  target : Option LanguageTarget := none
  resolution : Option ResolutionKind := none
  allowJs : Option Bool := none
  /-- The bundle is printed, and no file is written. -/
  toOutput : Bool := false
  listFiles : Bool := false
  pretty : Option Bool := none
  withoutDocs : Bool := false
  deriving DecidableEq, Repr

/-- Why a command line is not accepted, or asks for something else. -/
inductive ArgumentError where
  /-- A flag that does not exist, or a second file. -/
  | unknownArgument
  /-- A value that is missing, empty or none of those that are allowed. -/
  | invalidValue
  /-- Something that is said twice. -/
  | conflict
  /-- A value for a flag that takes none. -/
  | tooManyValues
  | helpRequested
  | versionRequested
  deriving DecidableEq, Repr

/-- What a word on the command line can set. -/
inductive Setting where
  | entry
  | project
  | outFile
  | target
  | resolution
  | allowJs
  | toOutput
  | listFiles
  | pretty
  | withoutDocs
  deriving DecidableEq, Repr

namespace Setting

/-- How many values a setting takes. -/
inductive ValueCount where
  | none
  | optional
  | one
  deriving DecidableEq, Repr

/-- How many values a setting takes. -/
def valueCount : Setting → ValueCount
  | toOutput | listFiles | withoutDocs => .none
  | allowJs | pretty => .optional
  | entry | project | outFile | target | resolution => .one

end Setting

/-- What a flag stands for. -/
inductive CommandFlag where
  | setting (s : Setting)
  | help
  | version
  deriving DecidableEq, Repr

namespace CommandFlag

/-- The flag with a long name. -/
def ofLongName? : String → Option CommandFlag
  | "project" => some (.setting .project)
  | "outFile" | "out-file" => some (.setting .outFile)
  | "target" => some (.setting .target)
  | "moduleResolution" | "module-resolution" => some (.setting .resolution)
  | "allowJs" | "allow-js" => some (.setting .allowJs)
  | "stdout" => some (.setting .toOutput)
  | "listFiles" | "list-files" => some (.setting .listFiles)
  | "pretty" => some (.setting .pretty)
  | "noJsDoc" | "no-js-doc" => some (.setting .withoutDocs)
  | "help" => some .help
  | "version" => some .version
  | _ => none

/-- The flag of one letter. All of them take a value, or end the reading. -/
def ofLetter? : Char → Option CommandFlag
  | 'p' => some (.setting .project)
  | 'o' => some (.setting .outFile)
  | 't' => some (.setting .target)
  | 'h' => some .help
  | 'V' => some .version
  | _ => none

end CommandFlag

namespace Arguments

/-! ## Values -/

/-- The version that a value names. The case of ASCII letters means nothing; blanks do. -/
def target? (value : String) : Option LanguageTarget :=
  match String.ofList (Text.lowercase value.toList) with
  | "es6" => some .es2015
  | "es-next" => some .esnext
  | word => LanguageTarget.all.find? fun t => t.name == word

/-- The way to find modules that a value names. -/
def resolution? (value : String) : Option ResolutionKind :=
  match String.ofList (Text.lowercase value.toList) with
  | "classic" => some .classic
  | "node10" | "node" => some .node10
  | "bundler" => some .bundler
  | _ => none

/-- The truth value that a value names. -/
def truth? : String → Option Bool
  | "true" => some true
  | "false" => some false
  | _ => none

/-- A path is not empty. -/
def path? (value : String) : Option String := if value.isEmpty then none else some value

/-- Sets something. A value that is left out is read as `true`. -/
def set? (a : Arguments) (s : Setting) (value : String) : Option Arguments :=
  match s with
  | .entry => (path? value).map fun v => { a with entry := v }
  | .project => (path? value).map fun v => { a with project := v }
  | .outFile => (path? value).map fun v => { a with outFile := v }
  | .target => (target? value).map fun v => { a with target := v }
  | .resolution => (resolution? value).map fun v => { a with resolution := v }
  | .allowJs => (truth? value).map fun v => { a with allowJs := v }
  | .pretty => (truth? value).map fun v => { a with pretty := v }
  | .toOutput => some { a with toOutput := true }
  | .listFiles => some { a with listFiles := true }
  | .withoutDocs => some { a with withoutDocs := true }

/-! ## Words -/

/-- What was read so far. -/
structure Reading where
  arguments : Arguments := {}
  /-- What was set. -/
  given : List Setting := []
  /-- What was named last, with its value if that was read. It is not set yet. -/
  pending : Option (Setting × Option String) := none
  /-- No more flags follow. -/
  onlyFiles : Bool := false

namespace Reading

/-- Sets something, once. -/
def accept (r : Reading) (s : Setting) (value : Option String) : Except ArgumentError Reading :=
  if s.valueCount = .one && value.isNone then .error .invalidValue
  else if r.given.contains s then .error .conflict
  else
    match r.arguments.set? s (value.getD "true") with
    | some arguments => .ok { r with arguments, given := s :: r.given }
    | none => .error .invalidValue

/-- Sets what is pending. -/
def settle (r : Reading) : Except ArgumentError Reading :=
  match r.pending with
  | some (s, value) => { r with pending := none }.accept s value
  | none => .ok r

/-- Reads a flag. A fault in the flag itself comes before a fault in what is pending. -/
def readFlag (r : Reading) (flag : Option CommandFlag) (value : Option String) :
    Except ArgumentError Reading :=
  match flag with
  | none => .error .unknownArgument
  | some (.setting s) =>
    if s.valueCount = .none && value.isSome then .error .tooManyValues
    else do
      let r ← r.settle
      if s.valueCount = .none || value.isSome then r.accept s value
      else return { r with pending := some (s, none) }
  | some .help => if value.isSome then .error .tooManyValues else r.settle.bind fun _ =>
    .error .helpRequested
  | some .version => if value.isSome then .error .tooManyValues else r.settle.bind fun _ =>
    .error .versionRequested

/-- Reads a flag with a long name, which an equals sign and a value can follow. -/
def readLong (r : Reading) (word : List Char) : Except ArgumentError Reading :=
  match Text.cutAt? ['='] word with
  | some (name, value) =>
    r.readFlag (CommandFlag.ofLongName? (String.ofList name)) (some (String.ofList value))
  | none => r.readFlag (CommandFlag.ofLongName? (String.ofList word)) none

/-- Reads a flag of one letter, which its value can follow, with or without an equals sign. What
follows a flag that takes no value is not looked at, since such a flag ends the reading. -/
def readShort (r : Reading) (letter : Char) (rest : List Char) : Except ArgumentError Reading :=
  match CommandFlag.ofLetter? letter with
  | some (.setting s) =>
    let value := match rest with
      | [] => none
      | '=' :: value => some (String.ofList value)
      | value => some (String.ofList value)
    r.readFlag (some (.setting s)) value
  | flag => r.readFlag flag none

/-- Reads a word that is neither a flag nor the value of one: the entry. -/
def readFile (r : Reading) (word : String) : Except ArgumentError Reading :=
  if r.given.contains .entry || r.pending.any (·.1 = .entry) then .error .unknownArgument
  else do return { ← r.settle with pending := some (.entry, some word) }

/-- Reads a word. -/
def readWord (r : Reading) (word : String) : Except ArgumentError Reading :=
  if r.onlyFiles then r.readFile word
  else
    match word.toList with
    | ['-', '-'] => .ok { r with onlyFiles := true }
    | '-' :: '-' :: name => r.readLong name
    | '-' :: letter :: rest => r.readShort letter rest
    | _ =>
      match r.pending with
      | some (s, none) => .ok { r with pending := some (s, some word) }
      | _ => r.readFile word

end Reading

/-- The arguments that the words of a command line ask for. -/
def ofWords (words : List String) : Except ArgumentError Arguments := do
  let r ← words.foldlM Reading.readWord {}
  return (← r.settle).arguments

/-- Options, with what the command line says about them. -/
def override (a : Arguments) (options : ProjectOptions) : ProjectOptions :=
  { options with
    target := a.target.getD options.target
    resolution := a.resolution.getD options.resolution
    allowJs := a.allowJs.getD options.allowJs }

end Arguments

end DeclBundle
