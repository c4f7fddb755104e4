import DeclBundle.Ast.Arena

/-!
# Overloads

A function, method or constructor with a body is hidden when a sibling declares the same one without
a body: the siblings are then the signatures by which it can be called.
-/

set_option autoImplicit false

namespace DeclBundle.Print

/-- What overloads of one function share. -/
inductive OverloadKey where
  | function (name : Option String)
  | method (name : Option String) (isStatic : Bool)
  | constructorOf
  deriving DecidableEq

/-- What a form shares with its overloads. -/
def overloadKey? (a : Arena) : Form Slot → Option OverloadKey
  | .functionDeclaration _ name _ _ => some (.function (a.nameText? name))
  | .methodDeclaration ms name _ _ _ => some (.method (a.nameText? name) (ms.contains .static))
  | .constructorDeclaration .. => some .constructorOf
  | _ => none

/-- The form has a body. -/
def hasBody : Form Slot → Bool
  | .functionDeclaration _ _ _ b | .methodDeclaration _ _ _ _ b | .constructorDeclaration _ _ b => b
  | _ => false

/-- A sibling is a signature with the given key. -/
def isSignatureOf (a : Arena) (key : OverloadKey) (sibling : Slot) : Bool :=
  match a.form? sibling with
  | some form => !hasBody form && overloadKey? a form == some key
  | none => false

/-- The node is hidden by a signature among its siblings. -/
def isOverloadBody (a : Arena) (siblings : List Slot) (node : Slot) : Bool :=
  match a.form? node with
  | some form =>
    hasBody form &&
      match overloadKey? a form with
      | some key => siblings.any fun sibling => isSignatureOf a key sibling
      | none => false
  | none => false

/-- The nodes that no sibling hides. -/
def withoutOverloadBodies (a : Arena) (siblings : List Slot) : List Slot :=
  siblings.filter fun node => !isOverloadBody a siblings node

end DeclBundle.Print
