import DeclBundle.Ast.Arena
import DeclBundle.Symbol.Flag
import DeclBundle.Table

/-!
# Symbols

A symbol is what a name stands for: it gathers declarations, and modules, namespaces and enums have
tables of further symbols. All symbols of a project live in one arena and are known by their
numbers.
-/

set_option autoImplicit false

namespace DeclBundle

/-- The number of a symbol in its project. -/
structure SymbolId where
  index : Nat
  deriving DecidableEq, Repr, Inhabited

/-- Symbols are ordered by their numbers. -/
instance : Ord SymbolId := ⟨compareOn SymbolId.index⟩

instance : Std.TransOrd SymbolId := inferInstanceAs (Std.TransCmp (compareOn SymbolId.index))

instance : Std.LawfulEqOrd SymbolId where
  eq_of_compare {a b} h := by
    have hi : a.index = b.index := Std.LawfulEqOrd.eq_of_compare h
    cases a
    cases b
    simpa using hi

/-- The number of a file in its project. -/
structure FileId where
  index : Nat
  deriving DecidableEq, Repr, Inhabited

/-- Files are ordered by their numbers. -/
instance : Ord FileId := ⟨compareOn FileId.index⟩

instance : Std.TransOrd FileId := inferInstanceAs (Std.TransCmp (compareOn FileId.index))

instance : Std.LawfulEqOrd FileId where
  eq_of_compare {a b} h := by
    have hi : a.index = b.index := Std.LawfulEqOrd.eq_of_compare h
    cases a
    cases b
    simpa using hi

/-- A node of a file of the project. -/
structure NodeRef where
  file : FileId
  node : Slot
  deriving DecidableEq, Repr, Inhabited

/-- Nodes of several files are ordered by their files first. -/
instance : Ord NodeRef := ⟨compareLex (compareOn NodeRef.file) (compareOn NodeRef.node)⟩

instance : Std.TransOrd NodeRef :=
  inferInstanceAs (Std.TransCmp (compareLex (compareOn NodeRef.file) (compareOn NodeRef.node)))

instance : Std.LawfulEqOrd NodeRef where
  eq_of_compare {a b} h := by
    obtain ⟨hf, hn⟩ := compareLex_eq_eq.1 h
    have hf : a.file = b.file := Std.LawfulEqOrd.eq_of_compare hf
    have hn : a.node = b.node := Std.LawfulEqOrd.eq_of_compare hn
    cases a
    cases b
    simp_all

/-! ## Tables -/

/-- Names with their symbols, in the order in which the names were first set. -/
abbrev SymbolTable := Table String SymbolId

/-! ## Symbols -/

/-- What an alias stands for. -/
inductive AliasTarget where
  /-- A name of the file in which the alias is declared. -/
  | name (entity : NodeRef)
  /-- An export of another module. -/
  | export_ (specifier exportName : String)
  /-- A whole module. -/
  | module_ (specifier : String)
  deriving DecidableEq, Repr

/-- A symbol. -/
structure Symbol where
  id : SymbolId
  name : String
  flags : SymbolFlags
  /-- The declarations, in the order in which they were found. -/
  declarations : List NodeRef := []
  /-- The exported members of a module, a namespace or an enum. -/
  exports_ : SymbolTable := {}
  /-- Everything that is declared right inside a module or a namespace. -/
  locals : SymbolTable := {}
  /-- The namespace or module around the symbol. -/
  parent : Option SymbolId := none
  /-- The file of the first declaration. -/
  file : FileId
  aliasOf : Option AliasTarget := none
  typeOnly : Bool := false
  deriving Inhabited

namespace Symbol

/-- The symbol is one of the given kinds. -/
def isAny (s : Symbol) (flags : SymbolFlags) : Bool := s.flags.meets flags

/-- The symbol stands for another one. -/
def isAlias (s : Symbol) : Bool := s.flags.contains .alias_

/-- The symbol is a file or a module with a quoted name. -/
def isModule (s : Symbol) : Bool := s.isAny SymbolFlags.file

end Symbol

/-- All symbols of a project, by their numbers. -/
structure SymbolArena where
  symbols : Array Symbol := #[]
  deriving Inhabited

namespace SymbolArena

/-- The number of symbols. -/
def size (a : SymbolArena) : Nat := a.symbols.size

/-- The symbol with a given number. -/
def get? (a : SymbolArena) (id : SymbolId) : Option Symbol := a.symbols[id.index]?

/-- Adds a symbol without declarations. -/
def alloc (a : SymbolArena) (flags : SymbolFlags) (name : String) (file : FileId) :
    SymbolArena × SymbolId :=
  let id : SymbolId := ⟨a.symbols.size⟩
  (⟨a.symbols.push { id, name, flags, file }⟩, id)

/-- Changes a symbol. -/
def modify (a : SymbolArena) (id : SymbolId) (f : Symbol → Symbol) : SymbolArena :=
  ⟨a.symbols.modify id.index f⟩

end SymbolArena

end DeclBundle
