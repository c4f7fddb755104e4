import DeclBundle.Symbol.Table
import DeclBundle.Text.Words

/-!
# Modules with quoted names

The name of a declared module can hold an asterisk, which stands for any text. A specifier means the
module with exactly its name, and otherwise the one whose pattern has the longest text before the
asterisk.
-/

set_option autoImplicit false

namespace DeclBundle

open Text

/-- The length of the text before the asterisk of a pattern, when the pattern matches. -/
def patternMatch? (pattern specifier : List Char) : Option Nat :=
  (cutAt? ['*'] pattern).bind fun (lead, tail) =>
    if lead.length + tail.length ≤ specifier.length && startsWith lead specifier &&
      endsWith tail specifier then
      some lead.length
    else none

/-- The longer match of two; the later one when they are equally long. -/
def betterMatch (best : Option (Nat × SymbolId)) (found : Nat × SymbolId) :
    Option (Nat × SymbolId) :=
  match best with
  | some (length, id) => if length ≤ found.1 then some found else some (length, id)
  | none => some found

/-- The module with a quoted name that a specifier means. -/
def SymbolTable.ambientModule? (t : SymbolTable) (specifier : String) : Option SymbolId :=
  match t.get? specifier with
  | some id => some id
  | none =>
    let found := t.entries.filterMap fun (pattern, id) =>
      (patternMatch? pattern.toList specifier.toList).map (·, id)
    (found.foldl betterMatch none).map Prod.snd

end DeclBundle
