import DeclBundle.Symbol.Table

/-!
# Names in scope

Identifiers that refer to something are linked to symbols. Scopes are searched from the inside: type
parameters, parameters, parameters of mapped types and those that `infer` introduces, the namespaces
around, the file or the module with a quoted name, and at last the global names. Of a dotted name
only the first identifier is linked. A name that is found nowhere stays without a link.
-/

set_option autoImplicit false

namespace DeclBundle

/-- What a name is used as. -/
inductive Meaning where
  | type
  | value
  | namespace_
  | any
  deriving DecidableEq, Repr

namespace Meaning

/-- The kinds of symbols that a name can refer to. -/
def flags : Meaning → SymbolFlags
  | type => SymbolFlags.type.insert .alias_
  | value => SymbolFlags.value.insert .alias_
  | namespace_ => SymbolFlags.namespace_.insert .alias_
  | any => .ofList SymbolFlag.all

/-- What the first part of a dotted name is used as. -/
def ofQualifier : Meaning → Meaning
  | type | namespace_ => namespace_
  | value => value
  | any => any

end Meaning

/-- A region in which names are visible. -/
inductive Scope where
  /-- Parameters, the latest first. -/
  | names (entries : List (String × SymbolId))
  /-- What a file, a module or a namespace declares. -/
  | container (symbol : SymbolId)

/-- The file and the names that do not change while its identifiers are linked. -/
structure LinkingFile where
  id : FileId
  arena : Arena
  globals : SymbolTable

/-- The links so far. -/
structure Links where
  symbols : SymbolArena
  /-- The symbols of the nodes that declare something. -/
  declared : Std.TreeMap NodeId SymbolId
  /-- The symbols to which identifiers refer. -/
  resolved : Std.TreeMap NodeId SymbolId := {}
  /-- The open scopes, the innermost first. -/
  scopes : List Scope := []
  /-- For each open conditional type the number of scopes around the one that its `infer` parameters
  are in. -/
  inferLevels : List Nat := []

namespace Links

variable (f : LinkingFile)

/-! ## Looking up -/

/-- The symbol of a name in one scope. -/
def inScope? (l : Links) (name : String) : Scope → Option SymbolId
  | .names entries => (entries.find? (·.1 == name)).map Prod.snd
  | .container symbol => (l.symbols.get? symbol).bind (·.locals.get? name)

/-- A symbol is of a kind that a name can refer to. -/
def accepts (l : Links) (meaning : Meaning) (id : SymbolId) : Bool :=
  (l.symbols.get? id).any (·.isAny meaning.flags)

/-- The symbol to which a name refers. -/
def lookup? (l : Links) (name : String) (meaning : Meaning) : Option SymbolId :=
  match l.scopes.findSome? fun s => (l.inScope? name s).filter (l.accepts meaning) with
  | some id => some id
  | none => (f.globals.get? name).filter (l.accepts meaning)

/-- Links the first identifier of a dotted name. -/
def linkEntity (l : Links) (entity : Slot) (meaning : Meaning) : Links :=
  let found : Option (Slot × Meaning) := match f.arena.form? entity with
    | some (.identifier _) => some (entity, meaning)
    | some (.qualifiedName ..) | some (.propertyAccess ..) =>
      some (f.arena.leftmost entity, meaning.ofQualifier)
    | _ => none
  match found with
  | some (some node, meaning) =>
    match (f.arena.nameText? (some node)).bind (l.lookup? f · meaning) with
    | some id => { l with resolved := l.resolved.insert node id }
    | none => l
  | _ => l

/-! ## Scopes -/

/-- Runs a step inside one more scope; the step is told how many scopes are around it. -/
def within (l : Links) (scope : Scope) (step : (level : Nat) → Links → Links) : Links :=
  let inside := step l.scopes.length { l with scopes := scope :: l.scopes }
  { inside with scopes := inside.scopes.drop 1 }

/-- Declares a parameter in the scope that has `level` scopes around it. -/
def declareIn (l : Links) (level : Nat) (flag : SymbolFlag) (declaration : Slot) : Links :=
  match declaration, f.arena.form? (f.arena.nameSlot declaration) with
  | some node, some (.identifier text) =>
    let (symbols, id) := l.symbols.alloc (.single flag) text f.id
    let symbols := symbols.modify id fun s => { s with declarations := [⟨f.id, declaration⟩] }
    let add : Scope → Scope
      | .names entries => .names ((text, id) :: entries)
      | scope => scope
    { l with
      symbols, declared := l.declared.insert node id,
      scopes := l.scopes.modify (l.scopes.length - 1 - level) add }
  | _, _ => l

/-! ## Visiting -/

variable (visit : Slot → Links → Links)

/-- Visits nodes in order. -/
def visitAll (nodes : List Slot) (l : Links) : Links := nodes.foldl (fun l n => visit n l) l

/-- Links the expression of a computed name. -/
def linkComputed (name : Slot) (l : Links) : Links :=
  match f.arena.form? name with
  | some (.computedName expression) => l.linkEntity f expression .value
  | _ => l

/-- Visits a signature, whose parameters are visible in all of it. -/
def visitSignature (name : Slot) (s : Signature Slot) (l : Links) : Links :=
  (l.linkComputed f name).within (.names []) fun level l =>
    let l := s.typeParameters.foldl (fun l p => l.declareIn f level .typeParameter p) l
    let l := s.parameters.foldl (fun l p => l.declareIn f level .parameter p) l
    visit s.returnType (visitAll visit s.parameters (visitAll visit s.typeParameters l))

/-- Visits what a class or an interface extends. -/
def visitHeritage (isClass : Bool) (clauses : List Slot) (l : Links) : Links :=
  clauses.foldl
    (fun l clause =>
      match f.arena.form? clause with
      | some (.heritageClause word types) =>
        let meaning : Meaning := if isClass && word = .extends_ then .value else .type
        types.foldl
          (fun l type =>
            match f.arena.form? type with
            | some (.heritageType expression typeArguments) =>
              visitAll visit typeArguments (l.linkEntity f expression meaning)
            | _ => l)
          l
      | _ => l)
    l

/-- Visits a class or an interface. -/
def visitClass (isClass : Bool) (typeParameters heritage members : List Slot) (l : Links) : Links :=
  l.within (.names []) fun level l =>
    let l := typeParameters.foldl (fun l p => l.declareIn f level .typeParameter p) l
    visitAll visit members
      (visitHeritage f visit isClass heritage (visitAll visit typeParameters l))

/-- Visits a conditional type. What `infer` introduces is visible in the type after `extends` and in
the type for when it matches. -/
def visitConditional (check extended whenTrue whenFalse : Slot) (l : Links) : Links :=
  let l := (visit check l).within (.names []) fun level l =>
    let l := visit extended { l with inferLevels := level :: l.inferLevels }
    visit whenTrue { l with inferLevels := l.inferLevels.drop 1 }
  visit whenFalse l

/-- Links the names that an export declaration without a specifier exports. -/
def linkExported (clause : Slot) (l : Links) : Links :=
  match f.arena.form? clause with
  | some (.namedExports elements) =>
    elements.foldl
      (fun l element =>
        match f.arena.form? element with
        | some (.exportSpecifier _ propertyName name) =>
          l.linkEntity f (if propertyName.isSome then propertyName else name) .any
        | _ => l)
      l
  | _ => l

/-- Links the names below a node. -/
def visitForm (node : Slot) (form : Form Slot) (l : Links) : Links :=
  match form with
  | .moduleDeclaration _ flavor _ body =>
    match if flavor = .global then none else node.bind (l.declared[·]?) with
    | some container => l.within (.container container) fun _ l => visit body l
    | none => visit body l
  | .functionDeclaration _ name s _ | .methodDeclaration _ name _ s _ | .methodSignature name _ s =>
    visitSignature f visit name s l
  | .callSignature s | .constructSignature s | .functionType s | .constructorType _ s =>
    visitSignature f visit none s l
  | .constructorDeclaration _ parameters _ => visitSignature f visit none ⟨[], parameters, none⟩ l
  | .getAccessor _ name parameters returnType =>
    visitSignature f visit name ⟨[], parameters, returnType⟩ l
  | .setAccessor _ name parameters => visitSignature f visit name ⟨[], parameters, none⟩ l
  | .indexSignature _ parameters ascription =>
    visitSignature f visit none ⟨[], parameters, ascription⟩ l
  | .classDeclaration _ _ typeParameters heritage members =>
    visitClass f visit true typeParameters heritage members l
  | .interfaceDeclaration _ _ typeParameters heritage members =>
    visitClass f visit false typeParameters heritage members l
  | .typeAlias _ _ typeParameters type =>
    l.within (.names []) fun level l =>
      let l := typeParameters.foldl (fun l p => l.declareIn f level .typeParameter p) l
      visit type (visitAll visit typeParameters l)
  | .typeParameter _ _ bound default => visit default (visit bound l)
  | .parameter _ _ _ _ ascription _ | .variableDeclaration _ _ ascription _ => visit ascription l
  | .propertyDeclaration _ name _ _ ascription _ | .propertySignature _ name _ ascription =>
    visit ascription (l.linkComputed f name)
  | .typeReference name typeArguments => visitAll visit typeArguments (l.linkEntity f name .type)
  | .typeQuery name typeArguments => visitAll visit typeArguments (l.linkEntity f name .value)
  | .importType _ _ _ typeArguments => visitAll visit typeArguments l
  | .computedName expression => l.linkEntity f expression .value
  | .mappedType _ typeParameter nameType _ type =>
    l.within (.names []) fun level l =>
      visit type
        (visit nameType (visit typeParameter (l.declareIn f level .typeParameter typeParameter)))
  | .conditionalType check extended whenTrue whenFalse =>
    visitConditional visit check extended whenTrue whenFalse l
  | .inferType typeParameter =>
    let l := match l.inferLevels with
      | level :: _ => l.declareIn f level .typeParameter typeParameter
      | [] => l
    visit typeParameter l
  | .typePredicate _ _ type => visit type l
  | .exportDeclaration _ clause specifier => if specifier.isSome then l else linkExported f clause l
  | .exportAssignment _ expression => l.linkEntity f expression .any
  | .importEquals _ _ _ reference => l.linkEntity f reference .any
  | .importDeclaration .. | .enumMember .. | .identifier _ | .verbatim _ | .otherStatement => l
  | _ => visitAll visit (form.children.filter Option.isSome) l

/-- Links the names below a node, down to `depth` levels. -/
def visitTo : (depth : Nat) → Slot → Links → Links
  | 0, _, l => l
  | depth + 1, node, l =>
    match f.arena.form? node with
    | some form => visitForm f (visitTo depth) node form l
    | none => l

/-- Links the names of a file. -/
def ofFile (symbols : SymbolArena) (declared : Std.TreeMap NodeId SymbolId) (root : NodeId)
    (fileSymbol : Option SymbolId) : Links :=
  visitTo f (f.arena.size + 1) (some root)
    { symbols, declared, scopes := fileSymbol.toList.map .container }

end Links

end DeclBundle
