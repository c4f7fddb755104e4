import Mathlib

/-!
# String literals and their values

A string literal is a quote, some parts and the quote again (`StringLiteral`). A part is a character
that stands for itself, an escape or a line continuation, and what a part may be depends on what
follows. The value of a literal is a sequence of code units in UTF-16 (`StringLiteral.units`), so
two escapes can spell one character. Octal escapes are no part of the grammar, as in strict code.
-/

set_option autoImplicit false

namespace DeclBundle

/-! ## UTF-16 -/

/-- The code units of a code point. -/
def utf16 (n : Nat) : List Nat :=
  if n < 0x10000 then [n] else [0xD800 + (n - 0x10000) / 0x400, 0xDC00 + (n - 0x10000) % 0x400]

/-- The code units of a text. -/
def utf16Of (cs : List Char) : List Nat := cs.flatMap fun c => utf16 c.toNat

theorem utf16_of_lt {n : Nat} (h : n < 0x10000) : utf16 n = [n] := if_pos h

theorem utf16_ne_nil (n : Nat) : utf16 n ≠ [] := by
  unfold utf16
  split_ifs <;> nofun

theorem length_utf16_le (n : Nat) : (utf16 n).length ≤ 2 := by
  unfold utf16
  split_ifs <;> simp

theorem utf16Of_singleton (c : Char) : utf16Of [c] = utf16 c.toNat := List.append_nil _

theorem length_le_length_utf16Of (cs : List Char) : cs.length ≤ (utf16Of cs).length := by
  induction cs with
  | nil => exact Nat.le_refl 0
  | cons c cs ih =>
    have hpos := List.length_pos_of_ne_nil (utf16_ne_nil c.toNat)
    rw [utf16Of, List.flatMap_cons, List.length_append, List.length_cons, ← utf16Of]
    omega

/-- The first code unit of a character says how many there are, since no character is a
surrogate. -/
theorem utf16_append_inj {c d : Char} {us vs : List Nat}
    (h : utf16 c.toNat ++ us = utf16 d.toNat ++ vs) :
    c = d ∧ us = vs := by
  have hc : c.toNat.isValidChar := c.valid
  have hd : d.toNat.isValidChar := d.valid
  have hnat : c.toNat = d.toNat ∧ us = vs := by
    -- One unit or two for each of them; a unit alone is less than 0xD800 or more than 0xDFFF, and
    -- the first of two is between.
    unfold Nat.isValidChar at hc hd
    unfold utf16 at h
    split_ifs at h with hc' hd' hd' <;>
      simp only [List.cons_append, List.nil_append, List.cons.injEq] at h
    · exact h
    · exact absurd h.1 (by omega)
    · exact absurd h.1 (by omega)
    · exact ⟨by omega, h.2.2⟩
  exact ⟨Char.toNat_inj.1 hnat.1, hnat.2⟩

theorem utf16Of_injective : Function.Injective utf16Of := by
  intro cs ds h
  induction cs generalizing ds with
  | nil =>
    cases ds with
    | nil => rfl
    | cons d ds => exact absurd (List.append_eq_nil_iff.1 h.symm).1 (utf16_ne_nil _)
  | cons c cs ih =>
    cases ds with
    | nil => exact absurd (List.append_eq_nil_iff.1 h).1 (utf16_ne_nil _)
    | cons d ds =>
      obtain ⟨rfl, hrest⟩ := utf16_append_inj h
      rw [ih hrest]

/-! ## Hexadecimal digits -/

/-- A hexadecimal digit as it is written; the case makes no difference below ten. -/
structure HexDigit where
  value : Fin 16
  isUpper : Bool

namespace HexDigit

/-- The digits in lower case. -/
def lower : Vector Char 16 :=
  #v['0', '1', '2', '3', '4', '5', '6', '7', '8', '9', 'a', 'b', 'c', 'd', 'e', 'f']

/-- The digits in upper case. -/
def upper : Vector Char 16 :=
  #v['0', '1', '2', '3', '4', '5', '6', '7', '8', '9', 'A', 'B', 'C', 'D', 'E', 'F']

def char (d : HexDigit) : Char := if d.isUpper then upper[d.value] else lower[d.value]

/-- The number that some digits spell. -/
def number (ds : List HexDigit) : Nat := ds.foldl (fun n d => n * 16 + d.value.val) 0

/-- Digits in braces. -/
def braced (ds : List HexDigit) : List Char := '\x7b' :: (ds.map char ++ ['\x7d'])

end HexDigit

open HexDigit (number braced)

/-! ## Parts -/

/-- The end of a line after a backslash. -/
inductive LineTerminator where
  | lineFeed
  | carriageReturn
  | both
  | lineSeparator
  | paragraphSeparator

def LineTerminator.chars : LineTerminator → List Char
  | lineFeed => ['\n']
  | carriageReturn => ['\r']
  | both => ['\r', '\n']
  | lineSeparator => ['\u2028']
  | paragraphSeparator => ['\u2029']

/-- A part of a string literal. -/
inductive StringPart where
  | plain (c : Char)
  /-- A backslash and a character that is one of the short escapes, or stands for itself. -/
  | escaped (c : Char)
  /-- A backslash and a zero. -/
  | null
  /-- `\x` and two digits. -/
  | hex (a b : HexDigit)
  /-- `\u` and four digits. -/
  | unit (a b c d : HexDigit)
  /-- `\u` and digits in braces. -/
  | point (digits : List HexDigit)
  /-- A backslash before the end of a line. -/
  | continued (t : LineTerminator)

namespace StringPart

/-- How the part is written. -/
def chars : StringPart → List Char
  | plain c => [c]
  | escaped c => ['\\', c]
  | null => ['\\', '0']
  | hex a b => ['\\', 'x', a.char, b.char]
  | unit a b c d => ['\\', 'u', a.char, b.char, c.char, d.char]
  | point digits => '\\' :: 'u' :: braced digits
  | continued t => '\\' :: t.chars

/-- What a backslash and `c` stand for. -/
def escapedValue (c : Char) : Char :=
  match c with
  | 'b' => '\x08'
  | 't' => '\t'
  | 'n' => '\n'
  | 'v' => '\x0b'
  | 'f' => '\x0c'
  | 'r' => '\r'
  | _ => c

/-- The code units that the part stands for. -/
def units : StringPart → List Nat
  | plain c => utf16 c.toNat
  | escaped c => utf16 (escapedValue c).toNat
  | null => [0]
  | hex a b => [number [a, b]]
  | unit a b c d => [number [a, b, c, d]]
  | point digits => utf16 (number digits)
  | continued _ => []

/-- The character stands for itself in a string with this quote. -/
def IsPlain (quote c : Char) : Prop := c ≠ quote ∧ c ≠ '\\' ∧ c ≠ '\n' ∧ c ≠ '\r'

/-- The part may stand in a string with this quote, before the characters `r`. -/
def IsSound (quote : Char) (r : List Char) : StringPart → Prop
  | plain c => IsPlain quote c
  | escaped c => ¬c.isDigit ∧ c ∉ ['x', 'u', '\n', '\r', '\u2028', '\u2029']
  | null => ¬r.head?.any Char.isDigit
  | hex _ _ => True
  | unit _ _ _ _ => True
  | point digits => digits ≠ [] ∧ number digits ≤ 0x10FFFF
  | continued .carriageReturn => r.head? ≠ some '\n'
  | continued _ => True

instance (quote c : Char) : Decidable (IsPlain quote c) := inferInstanceAs (Decidable (_ ∧ _))

instance (quote : Char) (r : List Char) : (p : StringPart) → Decidable (p.IsSound quote r)
  | plain _ => inferInstanceAs (Decidable (IsPlain _ _))
  | escaped _ | point _ => inferInstanceAs (Decidable (_ ∧ _))
  | null => inferInstanceAs (Decidable (¬_))
  | hex _ _ | unit _ _ _ _ | continued .lineFeed | continued .both | continued .lineSeparator
  | continued .paragraphSeparator => .isTrue trivial
  | continued .carriageReturn => inferInstanceAs (Decidable (_ ≠ _))

/-- The parts may stand between two of these quotes. -/
def AreSound (quote : Char) : List StringPart → Prop
  | [] => True
  | p :: ps => p.IsSound quote (ps.flatMap chars ++ [quote]) ∧ AreSound quote ps

instance (quote : Char) : (ps : List StringPart) → Decidable (AreSound quote ps)
  | [] => .isTrue trivial
  | p :: ps =>
    have := instDecidableAreSound quote ps
    inferInstanceAs (Decidable (p.IsSound quote _ ∧ AreSound quote ps))

end StringPart

/-! ## Literals -/

/-- A well-formed string literal. -/
structure StringLiteral where
  quote : Char
  parts : List StringPart
  isQuote : quote = '\x22' ∨ quote = '\x27'
  areSound : StringPart.AreSound quote parts

namespace StringLiteral

/-- The literal as it is written. -/
def text (t : StringLiteral) : String :=
  String.ofList (t.quote :: (t.parts.flatMap StringPart.chars ++ [t.quote]))

/-- The value of the literal. -/
def units (t : StringLiteral) : List Nat := t.parts.flatMap StringPart.units

end StringLiteral

end DeclBundle
