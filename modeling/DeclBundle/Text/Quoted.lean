/-!
# Quoted string literals

`quote` writes a value as a double-quoted literal. A quote, a backslash and the control characters
are escaped, and so are the two separators that end a line in some readers; every other character
stands for itself.
-/

set_option autoImplicit false

namespace DeclBundle.Text

/-- The digit of a value below sixteen, in upper case. -/
def upperHexDigit (n : Nat) : Char :=
  if n < 10 then Char.ofNat ('0'.toNat + n) else Char.ofNat ('A'.toNat + (n - 10))

/-- Four hexadecimal digits of a value below 65536. -/
def fourHexDigits (n : Nat) : List Char :=
  [upperHexDigit (n / 4096 % 16), upperHexDigit (n / 256 % 16), upperHexDigit (n / 16 % 16),
    upperHexDigit (n % 16)]

/-- How one character is written inside a quoted literal. -/
def escapeChar (c : Char) : List Char :=
  if c = '\x22' then ['\\', '\x22']
  else if c = '\\' then ['\\', '\\']
  else if c = '\n' then ['\\', 'n']
  else if c = '\r' then ['\\', 'r']
  else if c = '\t' then ['\\', 't']
  else if c = '\x08' then ['\\', 'b']
  else if c = '\x0c' then ['\\', 'f']
  else if c.toNat = 0x2028 ∨ c.toNat = 0x2029 ∨
    c.toNat < 0x20 then '\\' :: 'u' :: fourHexDigits c.toNat
  else [c]

/-- The characters of the literal that stands for `cs`. -/
def quoteChars (cs : List Char) : List Char :=
  '\x22' :: (cs.flatMap escapeChar ++ ['\x22'])

/-- A value written as a double-quoted literal. -/
def quote (s : String) : String :=
  String.ofList (quoteChars s.toList)

/-- A text without the double quotes at its ends. -/
def unquoted (text : String) : String :=
  let bare (cs : List Char) : List Char := cs.dropWhile (· == '\x22')
  String.ofList (bare (bare text.toList).reverse).reverse

end DeclBundle.Text
