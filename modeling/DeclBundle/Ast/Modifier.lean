import DeclBundle.FlagSet

/-!
# Modifiers

The words that can stand before a declaration, a member, a parameter or a type parameter.
-/

set_option autoImplicit false

namespace DeclBundle

/-- A modifier of a declaration or of a member. -/
inductive Modifier where
  | export_
  | default_
  | declare
  | const
  | static
  | readonly
  | public_
  | private_
  | protected_
  | abstract_
  | async
  | override
  | accessor
  | in_
  | out
  deriving DecidableEq, Repr, Inhabited

namespace Modifier

/-- Every modifier, in the order in which sets are shown. -/
def all : List Modifier :=
  [export_, default_, declare, const, static, readonly, public_, private_, protected_, abstract_,
    async, override,
    accessor, in_, out]

/-- How a modifier is written. -/
def spelling : Modifier → String
  | export_ => "export"
  | default_ => "default"
  | declare => "declare"
  | const => "const"
  | static => "static"
  | readonly => "readonly"
  | public_ => "public"
  | private_ => "private"
  | protected_ => "protected"
  | abstract_ => "abstract"
  | async => "async"
  | override => "override"
  | accessor => "accessor"
  | in_ => "in"
  | out => "out"

/-- The modifier that is written so. -/
def ofText? (text : String) : Option Modifier :=
  all.find? fun m => m.spelling == text

instance : Flag Modifier := ⟨all, fun m => m.ctorIdx⟩

theorem ofText?_spelling (m : Modifier) : ofText? m.spelling = some m := by
  cases m <;> decide

end Modifier

/-- A set of modifiers. -/
abbrev Modifiers := FlagSet Modifier

end DeclBundle
