/-!
# Token kinds

A token is a punctuation mark, a keyword, a name, a literal or one of a few special kinds. Keywords
are kinds of their own, and `Keyword.ofText?` recognises them by their spelling.
-/

set_option autoImplicit false

namespace DeclBundle

/-- Punctuation that the grammar knows by name. -/
inductive Punctuation where
  | openBrace
  | closeBrace
  | openParen
  | closeParen
  | openBracket
  | closeBracket
  | dot
  | dotDotDot
  | semicolon
  | comma
  | lessThan
  | greaterThan
  | equals
  | arrow
  | question
  | questionDot
  | colon
  | bar
  | ampersand
  | asterisk
  | plus
  | minus
  | slash
  | exclamation
  | at_
  | hash
  deriving DecidableEq, Repr, Inhabited

/-- How a punctuation mark is written. -/
def Punctuation.spelling : Punctuation → String
  | openBrace => "\x7b"
  | closeBrace => "\x7d"
  | openParen => "("
  | closeParen => ")"
  | openBracket => "["
  | closeBracket => "]"
  | dot => "."
  | dotDotDot => "..."
  | semicolon => ";"
  | comma => ","
  | lessThan => "<"
  | greaterThan => ">"
  | equals => "="
  | arrow => "=>"
  | question => "?"
  | questionDot => "?."
  | colon => ":"
  | bar => "|"
  | ampersand => "&"
  | asterisk => "*"
  | plus => "+"
  | minus => "-"
  | slash => "/"
  | exclamation => "!"
  | at_ => "@"
  | hash => "#"

/-- The words that the grammar treats specially. -/
inductive Keyword where
  | abstract_ | accessor | any | as_ | asserts | async | bigint | boolean | class_ | const
  | constructor_
  | declare | default_ | enum_ | export_ | extends_ | false_ | from_ | function | get | global
  | implements
  | import_ | in_ | infer | interface | intrinsic | is | keyof | let_ | module_ | namespace_ | never
  | new
  | null | number | object | out | override | private_ | protected_ | public_ | readonly | require
  | return_
  | set | static | string | symbol | this | true_ | type | typeof | undefined | unique | unknown
  | var | void
  deriving DecidableEq, Repr, Inhabited

namespace Keyword

/-- How a keyword is written. -/
def spelling : Keyword → String
  | abstract_ => "abstract"
  | accessor => "accessor"
  | any => "any"
  | as_ => "as"
  | asserts => "asserts"
  | async => "async"
  | bigint => "bigint"
  | boolean => "boolean"
  | class_ => "class"
  | const => "const"
  | constructor_ => "constructor"
  | declare => "declare"
  | default_ => "default"
  | enum_ => "enum"
  | export_ => "export"
  | extends_ => "extends"
  | false_ => "false"
  | from_ => "from"
  | function => "function"
  | get => "get"
  | global => "global"
  | implements => "implements"
  | import_ => "import"
  | in_ => "in"
  | infer => "infer"
  | interface => "interface"
  | intrinsic => "intrinsic"
  | is => "is"
  | keyof => "keyof"
  | let_ => "let"
  | module_ => "module"
  | namespace_ => "namespace"
  | never => "never"
  | new => "new"
  | null => "null"
  | number => "number"
  | object => "object"
  | out => "out"
  | override => "override"
  | private_ => "private"
  | protected_ => "protected"
  | public_ => "public"
  | readonly => "readonly"
  | require => "require"
  | return_ => "return"
  | set => "set"
  | static => "static"
  | string => "string"
  | symbol => "symbol"
  | this => "this"
  | true_ => "true"
  | type => "type"
  | typeof => "typeof"
  | undefined => "undefined"
  | unique => "unique"
  | unknown => "unknown"
  | var => "var"
  | void => "void"

/-- Every keyword, in alphabetical order. -/
def all : List Keyword :=
  [abstract_, accessor, any, as_, asserts, async, bigint, boolean, class_, const, constructor_,
    declare, default_,
    enum_, export_, extends_, false_, from_, function, get, global, implements, import_, in_,
      infer, interface,
    intrinsic, is, keyof, let_, module_, namespace_, never, new, null, number, object, out,
      override, private_,
    protected_, public_, readonly, require, return_, set, static, string, symbol, this, true_,
      type, typeof,
    undefined, unique, unknown, var, void]

/-- The keyword that is spelled so. -/
def ofText? (text : String) : Option Keyword :=
  all.find? fun k => k.spelling == text

/-- Keywords that can never be used as a name of a binding. -/
def isReserved : Keyword → Bool
  | class_ | const | default_ | enum_ | export_ | extends_ | false_ | function | import_ | in_ | new
  | null
  | return_ | this | true_ | typeof | var | void => true
  | _ => false

theorem mem_all (k : Keyword) : k ∈ all := by
  cases k <;> decide

theorem ofText?_spelling (k : Keyword) : ofText? k.spelling = some k := by
  cases k <;> decide

end Keyword

/-- The kind of a token. -/
inductive TokenKind where
  /-- A character that starts no token, and the token before the first scan. -/
  | unknown
  | endOfFile
  | identifier
  | privateIdentifier
  | stringLiteral
  | numericLiteral
  | bigIntLiteral
  /-- A template literal without substitutions. -/
  | wholeTemplate
  | templateHead
  | templateMiddle
  | templateTail
  | regularExpression
  | punctuation (mark : Punctuation)
  /-- Any operator without a kind of its own. -/
  | operator
  | keyword (word : Keyword)
  deriving DecidableEq, Repr, Inhabited

namespace TokenKind

/-- The kind is a keyword. -/
def isKeyword : TokenKind → Bool
  | keyword _ => true
  | _ => false

/-- The kind is a keyword that can never name a binding. -/
def isReserved : TokenKind → Bool
  | keyword k => k.isReserved
  | _ => false

/-- The kind can name a binding. -/
def isBindingName : TokenKind → Bool
  | identifier => true
  | keyword k => !k.isReserved
  | _ => false

/-- The kind can name a property. -/
def isName : TokenKind → Bool
  | identifier | keyword _ => true
  | _ => false

/-- How messages call a token of this kind: its spelling, for the kinds that messages ask for. -/
def description : TokenKind → String
  | punctuation p => p.spelling
  | keyword .as_ => "as"
  | keyword .from_ => "from"
  | keyword .in_ => "in"
  | keyword .require => "require"
  | identifier => "identifier"
  | stringLiteral => "string literal"
  | _ => "token"

end TokenKind

end DeclBundle
