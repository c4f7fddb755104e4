import DeclBundle.Options

/-!
# Formats of the log

What lines of a log look like. Anything that names no format names plain text.
-/

set_option autoImplicit false

namespace DeclBundle

/-- A format of the log. -/
inductive LogFormat where
  | text
  | tree
  | json
  deriving DecidableEq, Repr, Inhabited

namespace LogFormat

/-- The name of a format. -/
def name : LogFormat → String
  | text => "text"
  | tree => "tree"
  | json => "json"

/-- The format that a word names. -/
def ofText (word : String) : LogFormat :=
  match LanguageTarget.plainWord word with
  | "tree" => tree
  | "json" => json
  | _ => text

theorem ofText_name (f : LogFormat) : ofText f.name = f := by
  cases f <;> rfl

end LogFormat

end DeclBundle
