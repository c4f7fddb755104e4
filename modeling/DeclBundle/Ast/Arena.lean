import DeclBundle.Ast.Form
import DeclBundle.Text.Cursor
import Std.Data.TreeMap

/-!
# Arenas of nodes

Nodes live in an arena and refer to each other by number. A child that is missing is an empty slot.
Walks over an arena take the number of its nodes as the limit of their depth: no path without a
repeated node is longer.
-/

set_option autoImplicit false

namespace DeclBundle

open Text (Span)

/-- The number of a node in its arena. -/
structure NodeId where
  index : Nat
  deriving DecidableEq, Repr, Inhabited

/-- Nodes are ordered by their numbers. -/
instance : Ord NodeId := ⟨compareOn NodeId.index⟩

instance : Std.TransOrd NodeId := inferInstanceAs (Std.TransCmp (compareOn NodeId.index))

instance : Std.LawfulEqOrd NodeId where
  eq_of_compare {a b} h := by
    have hi : a.index = b.index := Std.LawfulEqOrd.eq_of_compare h
    cases a
    cases b
    simpa using hi

/-- A child of a node, or none. -/
abbrev Slot := Option NodeId

/-- A node: its form, its place in the source and the node above it. -/
structure Node where
  form : Form Slot
  span : Span
  parent : Slot

instance : Inhabited Node := ⟨⟨.otherStatement, .none, none⟩⟩

/-- Nodes and the documentation comments that are attached to slots. -/
structure Arena where
  nodes : Array Node
  docs : Std.TreeMap Slot String

/-- One step from a value to a part of it. -/
inductive BindingKey where
  | property (name : String)
  | index (i : Nat)
  deriving DecidableEq, Repr

namespace Arena

/-- The arena without nodes. -/
def empty : Arena := ⟨#[], {}⟩

instance : Inhabited Arena := ⟨empty⟩

/-- The number of nodes. -/
def size (a : Arena) : Nat := a.nodes.size

/-- The node in a slot. -/
def get? (a : Arena) (slot : Slot) : Option Node := do
  a.nodes[(← slot).index]?

/-- The form of the node in a slot. -/
def form? (a : Arena) (slot : Slot) : Option (Form Slot) :=
  (a.get? slot).map Node.form

/-- The place of the node in a slot; an empty slot has none. -/
def span (a : Arena) (slot : Slot) : Span :=
  (a.get? slot).elim .none Node.span

/-- The node above the one in a slot. -/
def parent (a : Arena) (slot : Slot) : Slot :=
  (a.get? slot).bind Node.parent

/-- The children of the node in a slot, without the missing ones. -/
def children (a : Arena) (slot : Slot) : List NodeId :=
  (a.form? slot).elim [] fun form => form.children.filterMap id

/-- Adds a node without a parent. -/
def add (a : Arena) (form : Form Slot) (span : Span) : Arena × NodeId :=
  ({ a with nodes := a.nodes.push ⟨form, span, none⟩ }, ⟨a.nodes.size⟩)

/-- Changes the node in a slot. -/
def modify (a : Arena) (slot : Slot) (f : Node → Node) : Arena :=
  match slot with
  | some id => { a with nodes := a.nodes.modify id.index f }
  | none => a

/-- Gives the node in a slot another form. -/
def replace (a : Arena) (slot : Slot) (form : Form Slot) : Arena :=
  a.modify slot fun node => { node with form }

/-- Attaches a documentation comment to a slot. -/
def setDoc (a : Arena) (slot : Slot) (text : String) : Arena :=
  { a with docs := a.docs.insert slot text }

/-- The documentation comment of a slot. -/
def doc? (a : Arena) (slot : Slot) : Option String := a.docs[slot]?

/-! ## Parents -/

/-- Makes `parent` the node above each of the listed ones. -/
def adopt (a : Arena) (parent : NodeId) (nodes : List NodeId) : Arena :=
  nodes.foldl
    (fun a child => a.modify (some child) fun node => { node with parent := some parent }) a

/-- Sets the parents of all nodes below a node, down to `depth` levels. -/
def setParentsTo (depth : Nat) (a : Arena) (root : NodeId) : Arena :=
  match depth with
  | 0 => a
  | depth + 1 =>
    let below := a.children (some root)
    below.reverse.foldl (setParentsTo depth) (a.adopt root below)

/-- Sets the parents of all nodes below a slot. -/
def setParents (a : Arena) (root : Slot) : Arena :=
  root.elim a (setParentsTo (a.size + 1) a)

/-! ## Names -/

/-- The text of a name or of a literal that serves as one. -/
def nameText? (a : Arena) (slot : Slot) : Option String :=
  match a.form? slot with
  | some (.identifier text) | some (.privateIdentifier text) | some (.stringLiteral text)
  | some (.numericLiteral text) => some text
  | _ => none

/-- The name that the node in a slot declares. -/
def nameSlot (a : Arena) (slot : Slot) : Slot :=
  ((a.form? slot).bind Form.name?).getD none

/-- The names that a statement declares: those of its variables, or its own. -/
def nameSlots (a : Arena) (statement : Slot) : List Slot :=
  match a.form? statement with
  | some (.variableStatement _ _ declarations) => declarations.map a.nameSlot
  | _ => [a.nameSlot statement]

/-- The parts of a dotted name, down to `depth` levels. -/
def dottedTextTo (depth : Nat) (a : Arena) (slot : Slot) : Option String :=
  match depth with
  | 0 => none
  | depth + 1 =>
    match a.form? slot with
    | some (.identifier text) => some text
    | some (.qualifiedName left right) | some (.propertyAccess left right) => do
      let left ← dottedTextTo depth a left
      let right ← a.nameText? right
      return left ++ "." ++ right
    | _ => none

/-- The text of a dotted name. -/
def dottedText? (a : Arena) (slot : Slot) : Option String := dottedTextTo (a.size + 1) a slot

/-- The first identifier of a dotted name, down to `depth` levels. -/
def leftmostTo (depth : Nat) (a : Arena) (slot : Slot) : Slot :=
  match depth with
  | 0 => none
  | depth + 1 =>
    match a.form? slot with
    | some (.qualifiedName left _) | some (.propertyAccess left _) => leftmostTo depth a left
    | some (.identifier _) => slot
    | _ => none

/-- The first identifier of a dotted name. -/
def leftmost (a : Arena) (slot : Slot) : Slot := leftmostTo (a.size + 1) a slot

/-! ## Binding patterns -/

/-- The variable declaration above a slot, through patterns only, up to `depth` levels. -/
def patternRootTo (depth : Nat) (a : Arena) (slot : Slot) : Slot :=
  match depth with
  | 0 => none
  | depth + 1 =>
    match a.form? slot with
    | some (.objectPattern _) | some (.arrayPattern _) | some (.bindingElement ..) =>
      patternRootTo depth a (a.parent slot)
    | some (.variableDeclaration ..) => slot
    | _ => none

/-- The variable declaration whose pattern contains a binding element. -/
def bindingRoot (a : Arena) (element : Slot) : Slot :=
  patternRootTo (a.size + 1) a (a.parent element)

/-- The step that the pattern above a binding element takes to reach it. -/
def bindingKey? (a : Arena) (element propertyName name : Slot) : Option BindingKey :=
  match a.form? (a.parent element) with
  | some (.objectPattern _) => do
    let key := if propertyName.isSome then propertyName else name
    return .property (← a.nameText? key)
  | some (.arrayPattern elements) => do
    return .index (← elements.findIdx? (· == element))
  | _ => none

/-- The steps to a binding element, followed by `rest`, up to `depth` levels. -/
def bindingPathTo (depth : Nat) (a : Arena) (slot : Slot) (rest : List BindingKey) :
    Option (List BindingKey) :=
  match depth with
  | 0 => none
  | depth + 1 =>
    match a.form? slot with
    | some (.bindingElement isRest propertyName name _) =>
      if isRest then none
      else
        match a.bindingKey? slot propertyName name with
        | some key => bindingPathTo depth a (a.parent (a.parent slot)) (key :: rest)
        | none => none
    | _ => some rest

/-- The steps from the value of a declaration to a binding element, outermost first. Rest elements
and computed keys have none. -/
def bindingPath? (a : Arena) (element : Slot) : Option (List BindingKey) :=
  bindingPathTo (a.size + 1) a element []

/-! ## Walks -/

/-- A node and all nodes below it, each before its children, down to `depth` levels, followed by
`rest`. -/
def preorderTo (depth : Nat) (a : Arena) (root : NodeId) (rest : List NodeId) : List NodeId :=
  match depth with
  | 0 => rest
  | depth + 1 =>
    root :: (a.children (some root)).foldr (fun child rest => preorderTo depth a child rest) rest

/-- A node and all nodes below it, each before its children. -/
def preorder (a : Arena) (root : NodeId) : List NodeId := preorderTo (a.size + 1) a root []

end Arena

end DeclBundle
