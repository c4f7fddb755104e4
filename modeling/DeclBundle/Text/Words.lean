import DeclBundle.Text.Character

/-!
# Cutting and joining text

Searching, trimming and splitting on lists of characters. Blanks are those of `isBlank` throughout.
-/

set_option autoImplicit false

namespace DeclBundle.Text

/-- Drops the blanks at the start. -/
def trimStart (cs : List Char) : List Char := cs.dropWhile isBlank

/-- Drops the blanks at the end. -/
def trimEnd (cs : List Char) : List Char := (cs.reverse.dropWhile isBlank).reverse

/-- Drops the blanks at both ends. -/
def trim (cs : List Char) : List Char := trimEnd (trimStart cs)

/-- There is nothing but blanks. -/
def isBlankText (cs : List Char) : Bool := cs.all isBlank

/-- What follows `lead`, when the text starts with it. -/
def after? (lead cs : List Char) : Option (List Char) :=
  match lead, cs with
  | [], cs => some cs
  | _ :: _, [] => none
  | a :: lead, c :: cs => if a = c then after? lead cs else none

/-- What precedes `tail`, when the text ends with it. -/
def before? (tail cs : List Char) : Option (List Char) :=
  (after? tail.reverse cs.reverse).map List.reverse

/-- The text starts with `lead`. -/
def startsWith (lead cs : List Char) : Bool := (after? lead cs).isSome

/-- The text ends with `tail`. -/
def endsWith (tail cs : List Char) : Bool := (before? tail cs).isSome

/-- The text before the first occurrence of `mark` and the text after it. -/
def cutAt? (mark cs : List Char) : Option (List Char × List Char) :=
  go cs []
where
  go : List Char → List Char → Option (List Char × List Char)
    | [], seen => if mark.isEmpty then some (seen.reverse, []) else none
    | c :: r, seen =>
      match after? mark (c :: r) with
      | some rest => some (seen.reverse, rest)
      | none => go r (c :: seen)

/-- The text before the last occurrence of `mark` and the text after it. -/
def cutAtLast? (mark cs : List Char) : Option (List Char × List Char) :=
  (cutAt? mark.reverse cs.reverse).map fun (rear, front) => (front.reverse, rear.reverse)

/-- `mark` occurs in the text. -/
def contains (mark cs : List Char) : Bool := (cutAt? mark cs).isSome

/-- Replaces every occurrence of `mark`, from left to right and without overlap. An empty mark
replaces nothing. -/
def replaceAll (mark by_ cs : List Char) : List Char :=
  go cs 0 []
where
  go : List Char → Nat → List Char → List Char
    | [], _, out => out.reverse
    | _ :: r, passed + 1, out => go r passed out
    | c :: r, 0, out =>
      if mark.isEmpty then go r 0 (c :: out)
      else
        match after? mark (c :: r) with
        | some _ => go r (mark.length - 1) (by_.reverse ++ out)
        | none => go r 0 (c :: out)

/-- The pieces between the characters that satisfy `p`; there is always one more piece than such
characters. -/
def splitWhere (p : Char → Bool) (cs : List Char) : List (List Char) :=
  go cs [] []
where
  go : List Char → List Char → List (List Char) → List (List Char)
    | [], piece, done => (piece.reverse :: done).reverse
    | c :: r, piece, done =>
      if p c then go r [] (piece.reverse :: done) else go r (c :: piece) done

/-- The pieces between the occurrences of one character. -/
def splitAt (mark : Char) (cs : List Char) : List (List Char) :=
  splitWhere (· == mark) cs

/-- Puts `mark` between the pieces. -/
def joinWith (mark : List Char) (pieces : List (List Char)) : List Char :=
  (pieces.intersperse mark).flatten

/-- The lines of a text. A line ends at a line feed, which may follow one carriage return; nothing
after the last line feed is no line. -/
def lines (cs : List Char) : List (List Char) :=
  let pieces := splitAt '\n' cs
  let ended := pieces.dropLast.map fun line => (before? ['\r'] line).getD line
  match pieces.getLast? with
  | some [] | none => ended
  | some last => ended ++ [last]

/-- The maximal runs of characters that are not blank. -/
def words (cs : List Char) : List (List Char) :=
  (splitWhere isBlank cs).filter (! ·.isEmpty)

/-- ASCII letters in lower case, all else unchanged. -/
def lowercase (cs : List Char) : List Char := cs.map Char.toLower

end DeclBundle.Text
