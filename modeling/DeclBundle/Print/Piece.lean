import DeclBundle.Ast.Arena

/-!
# Pieces of text

What is printed for a node is a list of pieces: texts, and parts that are printed in their turn,
each in some role. The printers of this directory only say which pieces there are; `Print.textTo`
puts them together.
-/

set_option autoImplicit false

namespace DeclBundle.Print

/-- Where a line stands and whether documentation comments are written. -/
structure Layout where
  level : Nat := 0
  withDocs : Bool := true
  deriving DecidableEq

/-- The roles in which a slot can be printed. -/
inductive Part where
  /-- A name or an expression. -/
  | expression
  /-- The name of a variable or of a parameter, or a pattern of names. -/
  | bindingName
  /-- One slot of a pattern. -/
  | bindingElement
  | type
  | typeParameter
  /-- The key of a mapped type and its constraint. -/
  | mappedKey
  /-- A substitution of a template type with the text after it. -/
  | templateSpan
  | parameter
  /-- A member of an interface or of a type literal. -/
  | member
  | heritageClause
  /-- One name of an import or an export. -/
  | specifier
  | variable_ (flavor : VariableFlavor)
  /-- The property that a constructor parameter declares, if it does. -/
  | parameterProperty (l : Layout)
  /-- The lines of a member of a class; a body beside overloads leaves only its parameter
  properties. -/
  | classMember (l : Layout) (isOverloadBody : Bool)
  /-- The lines of a member of an interface. -/
  | interfaceMember (l : Layout)
  /-- The lines of a member of an enum. -/
  | enumMember (l : Layout) (isLast : Bool)
  /-- What an import binds. -/
  | importClause
  /-- What an import equals declaration refers to. -/
  | importReference
  /-- The rest of a dotted module name and the body behind it. -/
  | moduleBody (l : Layout)
  | statement (l : Layout)
  deriving DecidableEq

/-- A text, or a slot that is printed in some role. -/
inductive Piece where
  | text (text : String)
  | part (role : Part) (slot : Slot)

/-- What is printed, in order. -/
abbrev Pieces := List Piece

/-- A text by itself. -/
instance : Coe String Pieces := ⟨fun text => [.text text]⟩

/-- A part by itself. -/
def part (role : Part) (slot : Slot) : Pieces := [.part role slot]

namespace Pieces

/-- The parts among some pieces. -/
def parts (ps : Pieces) : List (Part × Slot) :=
  ps.filterMap fun
    | .text _ => none
    | .part role slot => some (role, slot)

end Pieces

/-- Pieces with a text between them. -/
def separated (separator : String) (list : List Pieces) : Pieces := List.intercalate separator list

/-- Pieces with commas between them. -/
def commas (list : List Pieces) : Pieces := separated ", " list

/-- Parts in one role with commas between them. -/
def listOf (role : Part) (slots : List Slot) : Pieces := commas (slots.map (part role))

/-- Pieces with a blank after each. -/
def spaced (list : List Pieces) : Pieces := list.flatMap (· ++ " ")

/-- Pieces for something that may be missing. -/
def whenSome (slot : Slot) (ps : Pieces) : Pieces := if slot.isSome then ps else []

namespace Layout

/-- The spaces at the start of a line. -/
def indent (l : Layout) : String := String.join (List.replicate l.level "    ")

/-- One block further in. -/
def deeper (l : Layout) : Layout := { l with level := l.level + 1 }

/-- One line. -/
def line (l : Layout) (ps : Pieces) : Pieces := l.indent ++ ps ++ "\n"

end Layout

end DeclBundle.Print
