import DeclBundle.Script.Reader

/-!
# Shapes of declarations in scripts

Two shapes that a documentation comment can stand before: a variable that holds an object literal,
and a member of a class.
-/

set_option autoImplicit false

namespace DeclBundle.Script

open Text

/-! ## Object literals -/

/-- A variable that holds an object literal. -/
structure ObjectVariable where
  /-- The bytes from the keyword to the semicolon, if there is one. -/
  span : Span
  name : List Char
  /-- The items of the literal. -/
  properties : List Excerpt

/-- The variable with an object literal that is next, perhaps after `export`. It must be the only
one of its statement. -/
def objectVariable? (c : Cursor) : Option ObjectVariable := do
  let c := passKeyword "export" c
  let start := token c
  let (_, c) ← variableKeyword? c
  let (name, c) ← word? c
  let c ← mark? "=" c
  let open_ := token c
  guard (open_.head? == some '\x7b')
  let close ← closing? open_
  let after := close.next
  guard (peek? after != some ',')
  let stop := ((mark? ";" after).getD after).offset
  return ⟨⟨start.offset, stop⟩, name, items ⟨open_.next, close.offset⟩⟩

/-! ## Class members -/

/-- The head of a class member. -/
structure MemberHead where
  /-- The position of the first modifier. -/
  start : Cursor
  name : List Char
  /-- The position of the name. -/
  nameStart : Cursor
  /-- The position after the name. -/
  nameEnd : Cursor
  hasAccess : Bool
  isMethod : Bool
  isSetter : Bool

/-- The words that can stand before the name of a member. -/
def memberModifiers : List String :=
  ["static", "async", "get", "set", "public", "private", "protected", "readonly", "override"]

/-- The words that start statements, so that they are no members. -/
def statementWords : List String :=
  ["function", "class", "const", "let", "var", "if", "for", "while", "switch", "return", "catch",
    "with", "import",
    "export", "new", "typeof", "throw", "do"]

/-- The word that ends at `c` is the name of a member: a parenthesis, a semicolon, an equals sign,
the end of its line or the end of the text follows. -/
def endsName (c : Cursor) : Bool :=
  let next := token c
  match next.rest with
  | '=' :: r => r.head? != some '>'
  | '(' :: _ | ';' :: _ | [] => true
  | _ => (c.rest.takeWhile isBlank).contains '\n'

/-- The head of the member whose modifiers so far are given, the latest first; `start` is where the
first stands. -/
def memberFrom? (start : Cursor) : (fuel : Nat) → (modifiers : List String) → Cursor →
    Option MemberHead
  | 0, _, _ => none
  | fuel + 1, modifiers, c => do
    let c := passMark "*" c
    guard (peek? c != some '#')
    let nameStart := token c
    let (word, after) ← word? c
    let name := String.ofList word
    guard (!statementWords.contains name)
    if endsName after then
      guard (modifiers.all memberModifiers.contains)
      return {
        start, name := word, nameStart, nameEnd := after,
        hasAccess := modifiers.any ["public", "private", "protected"].contains,
        isMethod := peek? after == some '(',
        isSetter := modifiers.contains "set" }
    else memberFrom? start fuel (name :: modifiers) after

/-- The head of the class member that is next. -/
def memberHead? (c : Cursor) : Option MemberHead :=
  memberFrom? (token c) (c.rest.length + 1) [] c

end DeclBundle.Script
