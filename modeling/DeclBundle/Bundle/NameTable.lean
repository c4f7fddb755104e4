import DeclBundle.Symbol.Table
import DeclBundle.Text.Words

/-!
# Names without collisions

A table of the names at the top level of a bundle. Each name is reserved or belongs to one symbol,
and each symbol has at most one name. A name that is taken is followed by others with a number at
their end, until one is free.
-/

set_option autoImplicit false

namespace DeclBundle

/-- To whom a name belongs. -/
inductive NameOwner where
  | symbol (id : SymbolId)
  /-- Nothing in the bundle may have the name. -/
  | reserved
  deriving DecidableEq, Repr

/-! ## Candidates -/

/-- The value of a text of digits. -/
def digitsValue (cs : List Char) : Nat :=
  cs.foldl (fun n c => n * 10 + (c.toNat - '0'.toNat)) 0

/-- The 32-bit number that a text writes, perhaps with a plus sign. -/
def word32? (cs : List Char) : Option UInt32 :=
  let digits := match cs with
    | '+' :: r => r
    | _ => cs
  let n := digitsValue digits
  if !digits.isEmpty && digits.all Char.isDigit && n < UInt32.size then some (UInt32.ofNat n)
  else none

/-- The candidate that follows a name: the number after the last underscore grows by one, and a name
without such a number gets the number one. Numbers have 32 bits. -/
def nextCandidate (name : String) : String :=
  let first := name ++ "_1"
  match Text.cutAtLast? ['_'] name.toList with
  | none => first
  | some (base, number) =>
    match word32? number with
    | some n => if base.isEmpty then first else String.ofList base ++ "_" ++ toString (n + 1).toNat
    | none => first

/-! ## The table -/

/-- The names at the top level of a bundle. -/
structure NameTable where
  names : Table String NameOwner := {}
  assigned : Table SymbolId String := {}

namespace NameTable

/-- Reserves a name, unless it is taken. -/
def reserve (t : NameTable) (name : String) : NameTable :=
  { t with names := t.names.add name .reserved }

/-- The first free name among `limit` candidates that follow each other. There is none when all of
them are taken. -/
def freeName? (t : NameTable) : (limit : Nat) → String → Option String
  | 0, _ => none
  | limit + 1, name =>
    if t.names.contains name then freeName? t limit (nextCandidate name) else some name

/-- The table in which a name belongs to a symbol. -/
def give (t : NameTable) (id : SymbolId) (name : String) : NameTable :=
  ⟨t.names.set name (.symbol id), t.assigned.set id name⟩

/-- Gives a symbol a name that is free, the preferred one or one that follows it. A symbol keeps the
name that it has.

The numbers of candidates start over at zero. So all candidates can be taken, in a table with more
names than there are numbers: then the search for a free one goes on forever, and there is no
answer. Candidates that are taken do not repeat before a free one, so no more of them are tried than
the table has names. -/
def assign? (t : NameTable) (id : SymbolId) (preferred : String) : Option (NameTable × String) :=
  match t.assigned.get? id with
  | some name => some (t, name)
  | none =>
    (t.freeName? (t.names.size + 1) preferred).map fun name => (t.give id name, name)

/-- A name that is longer than all names that are taken. -/
def longName (t : NameTable) : String := String.join t.names.keys ++ "_"

/-- The answer of `assign?`, and a placeholder where its search goes on forever, so that the naming
of a bundle is a function of all plans. A bundle with fewer than 2^32 names has no such search. -/
def assign (t : NameTable) (id : SymbolId) (preferred : String) : NameTable × String :=
  (t.assign? id preferred).getD (t.give id t.longName, t.longName)

/-- The name of a symbol. -/
def nameOf? (t : NameTable) (id : SymbolId) : Option String := t.assigned.get? id

/-- To whom a name belongs. -/
def ownerOf? (t : NameTable) (name : String) : Option NameOwner := t.names.get? name

end NameTable

end DeclBundle
