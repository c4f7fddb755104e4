import DeclBundle.Text.Words

/-!
# Options

What can be set about a project: the language version it targets, how modules are found, and which
files belong to it.
-/

set_option autoImplicit false

namespace DeclBundle

/-- A version of the language that a project targets. -/
inductive LanguageTarget where
  | es3 | es5 | es2015 | es2016 | es2017 | es2018 | es2019 | es2020 | es2021 | es2022 | es2023
  | esnext
  deriving DecidableEq, Repr, Inhabited

namespace LanguageTarget

/-- The name of a version. -/
def name : LanguageTarget → String
  | es3 => "es3"
  | es5 => "es5"
  | es2015 => "es2015"
  | es2016 => "es2016"
  | es2017 => "es2017"
  | es2018 => "es2018"
  | es2019 => "es2019"
  | es2020 => "es2020"
  | es2021 => "es2021"
  | es2022 => "es2022"
  | es2023 => "es2023"
  | esnext => "esnext"

/-- Every version, the oldest first. -/
def all : List LanguageTarget :=
  [es3, es5, es2015, es2016, es2017, es2018, es2019, es2020, es2021, es2022, es2023, esnext]

/-- Blanks around a word and the case of its letters mean nothing. -/
def plainWord (text : String) : String := String.ofList (Text.lowercase (Text.trim text.toList))

/-- The version that a word names. -/
def ofText? (text : String) : Option LanguageTarget :=
  match plainWord text with
  | "es6" => some es2015
  | "latest" => some esnext
  | word => all.find? fun t => t.name == word

end LanguageTarget

/-- A way to find the file of a module. -/
inductive ResolutionKind where
  /-- Names are looked up as files in the directory and above it. -/
  | classic
  /-- Names are looked up as packages. -/
  | node10
  /-- As `node10`, and packages can say what they export. -/
  | bundler
  deriving DecidableEq, Repr, Inhabited

namespace ResolutionKind

/-- The name of a kind. -/
def name : ResolutionKind → String
  | classic => "classic"
  | node10 => "node10"
  | bundler => "bundler"

/-- The kind that a word names. -/
def ofText? (text : String) : Option ResolutionKind :=
  match LanguageTarget.plainWord text with
  | "classic" => some classic
  | "node" | "node10" | "nodejs" | "node16" | "nodenext" => some node10
  | "bundler" => some bundler
  | _ => none

/-- Names are looked up as packages. -/
def usesPackages : ResolutionKind → Bool
  | classic => false
  | _ => true

end ResolutionKind

/-- The options of a project. -/
structure ProjectOptions where
  target : LanguageTarget := .esnext
  resolution : ResolutionKind := .node10
  /-- Scripts without type annotations can be imported. -/
  allowJs : Bool := true
  declaration : Bool := true
  noEmitOnError : Bool := true
  /-- Files that belong to the project beside the entry and what it imports. -/
  files : List String := []
  outFile : Option String := none
  deriving Repr, Inhabited

end DeclBundle
