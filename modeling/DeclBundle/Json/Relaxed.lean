import DeclBundle.Text.Character

/-!
# JSON with comments

Configuration files are JSON with line comments, block comments, and a comma that may follow the
last item of an array or object. `withoutComments` and `withoutTrailingCommas` take these out, in
this order; what remains is plain JSON when the text was well formed. Neither of them changes
anything inside a string.
-/

set_option autoImplicit false

namespace DeclBundle.RelaxedJson

open Text

/-- What a character of a text belongs to. -/
inductive Region where
  | plain
  | string
  | lineComment
  | blockComment
  deriving DecidableEq, Repr

/-- The text without its comments. Line ends are kept, also those inside block comments. -/
def withoutComments : Region → List Char → List Char
  | _, [] => []
  | .plain, '/' :: '/' :: r => withoutComments .lineComment r
  | .plain, '/' :: '*' :: r => withoutComments .blockComment r
  | .plain, c :: r => c :: withoutComments (if c = '\x22' then .string else .plain) r
  | .string, '\\' :: c :: r => '\\' :: c :: withoutComments .string r
  | .string, c :: r => c :: withoutComments (if c = '\x22' then .plain else .string) r
  | .lineComment, c :: r =>
    if c = '\n' then c :: withoutComments .plain r else withoutComments .lineComment r
  | .blockComment, '*' :: '/' :: r => withoutComments .plain r
  | .blockComment, c :: r =>
    if c = '\n' then c :: withoutComments .blockComment r else withoutComments .blockComment r

/-- The first character that is no blank closes an array or an object. -/
def closesNext (cs : List Char) : Bool :=
  match cs.dropWhile isBlank with
  | c :: _ => c == ']' || c == '\x7d'
  | [] => false

/-- The text without the commas that stand before the end of an array or an object. -/
def withoutTrailingCommas : (inString : Bool) → List Char → List Char
  | _, [] => []
  | true, '\\' :: c :: r => '\\' :: c :: withoutTrailingCommas true r
  | true, c :: r => c :: withoutTrailingCommas (c != '\x22') r
  | false, c :: r =>
    if c = ',' ∧ closesNext r then withoutTrailingCommas false r
    else c :: withoutTrailingCommas (c == '\x22') r

/-- The plain JSON text that a text with comments stands for. -/
def plainText (text : String) : String :=
  String.ofList (withoutTrailingCommas false (withoutComments .plain text.toList))

end DeclBundle.RelaxedJson
