import DeclBundle.Text.Character

/-!
# JSON

Values of JSON and their reader. The reader is strict. A string may hold escapes that stand for no
character; such a string is read as a value without text, which is fine where the value is not
looked at and an error where it is.
-/

set_option autoImplicit false

namespace DeclBundle

/-- A JSON value. Members of objects keep their order, and a key may occur more than once. -/
inductive JsonValue where
  | null
  | bool (b : Bool)
  | number
  /-- The text is missing when the string holds half of a surrogate pair. -/
  | string (text : Option String)
  | array (elements : List JsonValue)
  | object (members : List (Option String × JsonValue))

namespace JsonValue

open Text

/-- The blanks of JSON. -/
def isSpace (c : Char) : Bool := c == ' ' || c == '\n' || c == '\t' || c == '\r'

/-- Skips blanks. -/
def skipSpace (cs : List Char) : List Char := cs.dropWhile isSpace

/-! ## Strings -/

/-- The value of four hexadecimal digits, and the rest. -/
def fourDigits? : List Char → Option (Nat × List Char)
  | a :: b :: c :: d :: r => do
    let n :=
      (((← hexValue? a) * 16 + (← hexValue? b)) * 16 + (← hexValue? c)) * 16 + (← hexValue? d)
    return (n, r)
  | _ => none

/-- The character of a simple escape. -/
def simpleEscape? : Char → Option Char
  | '\x22' => some '\x22'
  | '\\' => some '\\'
  | '/' => some '/'
  | 'b' => some '\x08'
  | 'f' => some '\x0c'
  | 'n' => some '\n'
  | 'r' => some '\r'
  | 't' => some '\t'
  | _ => none

/-- The character of a surrogate pair. -/
def pairedChar (high low : Nat) : Char :=
  Char.ofNat (0x10000 + (high - 0xD800) * 0x400 + (low - 0xDC00))

/-- A number names the first half of a surrogate pair. -/
def isHighSurrogate (n : Nat) : Bool := 0xD800 ≤ n && n ≤ 0xDBFF

/-- A number names the second half of a surrogate pair. -/
def isLowSurrogate (n : Nat) : Bool := 0xDC00 ≤ n && n ≤ 0xDFFF

/-- Reads a string after its opening quote. `text` holds what was read so far, backwards, and is
missing once half of a pair was found. -/
def readString : (fuel : Nat) → List Char → (text : Option (List Char)) →
    Option (Option String × List Char)
  | 0, _, _ => none
  | fuel + 1, cs, text =>
    match cs with
    | [] => none
    | '\x22' :: r => some (text.map fun t => String.ofList t.reverse, r)
    | '\\' :: 'u' :: r =>
      match fourDigits? r with
      | none => none
      | some (n, r) =>
        if isHighSurrogate n then
          match r with
          | '\\' :: 'u' :: r' =>
            match fourDigits? r' with
            | none => none
            | some (m, r'') =>
              if isLowSurrogate m then readString fuel r'' (text.map (pairedChar n m :: ·))
              else readString fuel r none
          | _ => readString fuel r none
        else if isLowSurrogate n then readString fuel r none
        else readString fuel r (text.map (Char.ofNat n :: ·))
    | '\\' :: c :: r =>
      match simpleEscape? c with
      | some x => readString fuel r (text.map (x :: ·))
      | none => none
    | c :: r => if c.toNat < 0x20 || c == '\\' then none else readString fuel r (text.map (c :: ·))

/-! ## Numbers -/

/-- At least one digit. -/
def digits? (cs : List Char) : Option (List Char) :=
  match cs with
  | c :: r => if c.isDigit then some (r.dropWhile Char.isDigit) else none
  | [] => none

/-- What follows a number. -/
def readNumber (cs : List Char) : Option (List Char) := do
  let unsigned := match cs with
    | '-' :: r => r
    | _ => cs
  let whole ← match unsigned with
    | '0' :: r => if r.head?.any Char.isDigit then none else some r
    | _ => digits? unsigned
  let fraction ← match whole with
    | '.' :: r => digits? r
    | _ => some whole
  match fraction with
  | 'e' :: r | 'E' :: r =>
    match r with
    | '+' :: r | '-' :: r => digits? r
    | _ => digits? r
  | _ => some fraction

/-! ## Values -/

/-- What follows a word. -/
def afterWord? (word : String) (cs : List Char) : Option (List Char) :=
  let w := word.toList
  if w.isPrefixOf cs then some (cs.drop w.length) else none

mutual

/-- Reads a value. -/
def readValue : (fuel : Nat) → List Char → Option (JsonValue × List Char)
  | 0, _ => none
  | fuel + 1, cs =>
    match skipSpace cs with
    | [] => none
    | '\x22' :: r => (readString (r.length + 1) r (some [])).map fun (text, r) => (.string text, r)
    | '[' :: r =>
      match skipSpace r with
      | ']' :: r => some (.array [], r)
      | _ => (readElements fuel r []).map fun (xs, r) => (.array xs, r)
    | '{' :: r =>
      match skipSpace r with
      | '}' :: r => some (.object [], r)
      | _ => (readMembers fuel r []).map fun (xs, r) => (.object xs, r)
    | 'n' :: r => (afterWord? "ull" r).map fun r => (.null, r)
    | 't' :: r => (afterWord? "rue" r).map fun r => (.bool true, r)
    | 'f' :: r => (afterWord? "alse" r).map fun r => (.bool false, r)
    | c :: r => (readNumber (c :: r)).map fun r => (.number, r)

/-- Reads the elements of an array up to its closing bracket. -/
def readElements : (fuel : Nat) → List Char → List JsonValue → Option (List JsonValue × List Char)
  | 0, _, _ => none
  | fuel + 1, cs, done =>
    match readValue fuel cs with
    | none => none
    | some (x, r) =>
      match skipSpace r with
      | ',' :: r => readElements fuel r (x :: done)
      | ']' :: r => some ((x :: done).reverse, r)
      | _ => none

/-- Reads the members of an object up to its closing brace. -/
def readMembers : (fuel : Nat) → List Char → List (Option String × JsonValue) →
    Option (List (Option String × JsonValue) × List Char)
  | 0, _, _ => none
  | fuel + 1, cs, done =>
    match skipSpace cs with
    | '\x22' :: r =>
      match readString (r.length + 1) r (some []) with
      | none => none
      | some (key, r) =>
        match skipSpace r with
        | ':' :: r =>
          match readValue fuel r with
          | none => none
          | some (x, r) =>
            match skipSpace r with
            | ',' :: r => readMembers fuel r ((key, x) :: done)
            | '}' :: r => some (((key, x) :: done).reverse, r)
            | _ => none
        | _ => none
    | _ => none

end

/-- Reads a text that holds one value and nothing else. -/
def ofText? (text : String) : Option JsonValue :=
  let cs := text.toList
  match readValue (cs.length + 1) cs with
  | some (value, rest) => if (skipSpace rest).isEmpty then some value else none
  | none => none

/-! ## Records -/

/-- An optional text: `null` is none, and anything but a string is an error. -/
def optionalText? : JsonValue → Option (Option String)
  | null => some none
  | string (some s) => some (some s)
  | _ => none

/-- The values of the fields of a record with the given labels. A record is written as an object, in
which a label may occur once and other keys are passed over, or as a list of its fields in order, of
which `required` must be there. -/
def fields? (labels : List String) (required : Nat) : JsonValue → Option (List (Option JsonValue))
  | object members =>
    if members.all (·.1.isSome) then
      labels.mapM fun label =>
        match members.filter (·.1 == some label) with
        | [] => some none
        | [(_, value)] => some (some value)
        | _ => none
    else none
  | array elements =>
    if required ≤ elements.length ∧ elements.length ≤ labels.length then
      some (elements.map some ++ List.replicate (labels.length - elements.length) none)
    else none
  | _ => none

/-- Reads a field that may be missing. -/
def field? {α : Type} (read : JsonValue → Option (Option α)) : Option JsonValue → Option (Option α)
  | none => some none
  | some value => read value

end JsonValue

end DeclBundle
