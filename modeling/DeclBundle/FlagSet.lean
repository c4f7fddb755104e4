/-!
# Sets of flags

A finite set over a type whose members are numbered, kept as the bits of one number. `toList` shows
the members in the order of the type.
-/

set_option autoImplicit false

namespace DeclBundle

/-- A finite type of flags: its members in order, each with a number of its own. -/
class Flag (κ : Type) where
  all : List κ
  index : κ → Nat

/-- A set of flags. -/
structure FlagSet (κ : Type) where
  bits : Nat
  deriving DecidableEq, Repr

namespace FlagSet

variable {κ : Type}

/-- The set without members. -/
def empty : FlagSet κ := ⟨0⟩

instance : Inhabited (FlagSet κ) := ⟨empty⟩
instance : EmptyCollection (FlagSet κ) := ⟨empty⟩

/-- The members of either set. -/
def union (s t : FlagSet κ) : FlagSet κ := ⟨s.bits ||| t.bits⟩

/-- The members of both sets. -/
def inter (s t : FlagSet κ) : FlagSet κ := ⟨s.bits &&& t.bits⟩

/-- The members of `s` that are not members of `t`. -/
def diff (s t : FlagSet κ) : FlagSet κ := ⟨s.bits ^^^ (s.bits &&& t.bits)⟩

/-- The set has no members. -/
def isEmpty (s : FlagSet κ) : Bool := s.bits == 0

/-- The sets share a member. -/
def meets (s t : FlagSet κ) : Bool := !(s.inter t).isEmpty

/-- Every member of `t` is one of `s`. -/
def includes (s t : FlagSet κ) : Bool := (s.inter t).bits == t.bits

variable [Flag κ]

/-- The set with one member. -/
def single (k : κ) : FlagSet κ := ⟨1 <<< Flag.index k⟩

/-- The flag is a member. -/
def contains (s : FlagSet κ) (k : κ) : Bool := s.bits.testBit (Flag.index k)

/-- Adds a member. -/
def insert (s : FlagSet κ) (k : κ) : FlagSet κ := s.union (single k)

/-- Removes a member. -/
def erase (s : FlagSet κ) (k : κ) : FlagSet κ := s.diff (single k)

/-- The members, in the order of the type. -/
def toList (s : FlagSet κ) : List κ := Flag.all.filter s.contains

/-- The set of the listed members. -/
def ofList (ks : List κ) : FlagSet κ := ks.foldl insert empty

theorem contains_empty (k : κ) : (empty : FlagSet κ).contains k = false :=
  Nat.zero_testBit _

theorem contains_union (s t : FlagSet κ) (k : κ) :
    (s.union t).contains k = (s.contains k || t.contains k) :=
  Nat.testBit_or s.bits t.bits _

theorem contains_inter (s t : FlagSet κ) (k : κ) :
    (s.inter t).contains k = (s.contains k && t.contains k) :=
  Nat.testBit_and s.bits t.bits _

theorem contains_diff (s t : FlagSet κ) (k : κ) :
    (s.diff t).contains k = (s.contains k && !t.contains k) := by
  simp only [diff, contains, Nat.testBit_xor, Nat.testBit_and]
  cases s.bits.testBit (Flag.index k) <;> cases t.bits.testBit (Flag.index k) <;> rfl

theorem contains_insert_self (s : FlagSet κ) (k : κ) : (s.insert k).contains k = true := by
  have hsingle : (single k).contains k = true := by
    rw [single, contains, Nat.one_shiftLeft, Nat.testBit_two_pow_self]
  rw [insert, contains_union, hsingle, Bool.or_true]

end FlagSet

end DeclBundle
