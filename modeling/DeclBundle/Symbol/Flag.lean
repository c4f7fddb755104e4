import DeclBundle.FlagSet

/-!
# Kinds of symbols

The flags of a symbol say what its declarations are. `excludes` lists what a name must not be
already for one more declaration to join it, and `canMerge` asks that of two sets of flags.
-/

set_option autoImplicit false

namespace DeclBundle

/-- What a declaration of a symbol is. -/
inductive SymbolFlag where
  | functionScopedVariable
  | blockScopedVariable
  | property
  | enumMember
  | function
  | class_
  | interface
  | constEnum
  | regularEnum
  | valueModule
  | namespaceModule
  | method
  | typeParameter
  | typeAlias
  | alias_
  | parameter
  /-- A file that is a module. -/
  | sourceFile
  /-- A module that is declared by a quoted name. -/
  | ambientModule
  deriving DecidableEq, Repr, Inhabited

namespace SymbolFlag

/-- Every flag, in the order in which sets are shown. -/
def all : List SymbolFlag :=
  [functionScopedVariable, blockScopedVariable, property, enumMember, function, class_,
    interface, constEnum,
    regularEnum, valueModule, namespaceModule, method, typeParameter, typeAlias, alias_,
      parameter, sourceFile,
    ambientModule]

/-- The name of a flag. -/
def label : SymbolFlag → String
  | functionScopedVariable => "function_scoped_variable"
  | blockScopedVariable => "block_scoped_variable"
  | property => "property"
  | enumMember => "enum_member"
  | function => "function"
  | class_ => "class"
  | interface => "interface"
  | constEnum => "const_enum"
  | regularEnum => "regular_enum"
  | valueModule => "value_module"
  | namespaceModule => "namespace_module"
  | method => "method"
  | typeParameter => "type_parameter"
  | typeAlias => "type_alias"
  | alias_ => "alias"
  | parameter => "parameter"
  | sourceFile => "source_file"
  | ambientModule => "ambient_module"

instance : Flag SymbolFlag := ⟨all, fun f => f.ctorIdx⟩

end SymbolFlag

/-- A set of symbol flags. -/
abbrev SymbolFlags := FlagSet SymbolFlag

namespace SymbolFlags

open SymbolFlag

/-- Variables of either scope. -/
def variable_ : SymbolFlags := .ofList [functionScopedVariable, blockScopedVariable]

/-- Enums of either kind. -/
def enum_ : SymbolFlags := .ofList [constEnum, regularEnum]

/-- Modules of either kind. -/
def module_ : SymbolFlags := .ofList [valueModule, namespaceModule]

/-- What has a value. -/
def value : SymbolFlags :=
  .ofList [functionScopedVariable, blockScopedVariable, property, enumMember, function, class_,
    constEnum, regularEnum,
    valueModule, method, parameter]

/-- What is a type. -/
def type : SymbolFlags :=
  .ofList [class_, interface, constEnum, regularEnum, enumMember, typeParameter, typeAlias]

/-- What has members that are reached by a dot. -/
def namespace_ : SymbolFlags := .ofList [valueModule, namespaceModule, constEnum, regularEnum]

/-- Modules that stand for whole files or for files elsewhere. -/
def file : SymbolFlags := .ofList [sourceFile, ambientModule]

/-- What a name must not be already for a declaration with one flag to join it. -/
def excludedBy : SymbolFlag → SymbolFlags
  | functionScopedVariable => value.erase functionScopedVariable
  | blockScopedVariable | parameter => value
  | function => value.diff (.ofList [function, valueModule, class_])
  | class_ => (value.union type).diff (.ofList [valueModule, interface, function])
  | interface => type.diff (.ofList [interface, class_])
  | regularEnum => (value.union type).diff (.ofList [regularEnum, valueModule])
  | constEnum => (value.union type).diff (.single constEnum)
  | valueModule => value.diff (.ofList [function, class_, regularEnum, valueModule])
  | typeAlias => type
  | _ => .empty

/-- What a name must not be already for a declaration with these flags to join it. -/
def excludes (flags : SymbolFlags) : SymbolFlags :=
  flags.toList.foldl (fun found f => found.union (excludedBy f)) .empty

/-- A declaration with the flags `new` joins a symbol that is `existing`. Aliases are never
joined. -/
def canMerge (existing new : SymbolFlags) : Bool :=
  !existing.contains alias_ && !new.contains alias_ && !existing.meets new.excludes

/-- The set that a word names: a flag or one of the groups. -/
def ofLabel? (label : String) : Option SymbolFlags :=
  match SymbolFlag.all.find? fun f => f.label == label with
  | some f => some (.single f)
  | none =>
    match label with
    | "variable" => some variable_
    | "enum" => some enum_
    | "module" => some module_
    | "value" => some value
    | "type" => some type
    | "namespace" => some namespace_
    | _ => none

end SymbolFlags

end DeclBundle
