import DeclBundle.Proofs.ImportGroups

/-!
# Every import is written

The import of a default export and those by name from one specifier share a statement, and a whole
module is imported by a statement of its own (`Build.ImportGroup.statements`). The tree of a bundle
has just these statements, each with its clause as it is printed (`Build.adds_imports_written`). So
for each import of a collection that has a final name there is a statement that imports it from its
specifier under this name (`Build.adds_imports_each`).
-/

set_option autoImplicit false

namespace DeclBundle

namespace Arena

/-- The statement imports from a specifier, under a clause with the given parts. -/
def IsImport (a : Arena) (s : NodeId) (specifier : String) (default bindings : Slot) : Prop :=
  ∃ clause specifierNode,
    a.form? (some s) = some (.importDeclaration (some clause) (some specifierNode)) ∧
    a.form? (some specifierNode) = some (.stringLiteral specifier) ∧
    a.form? (some clause) = some (.importClause false default bindings)

/-- The specifier names an export and the name for it. An export that keeps its name is named
once. -/
def IsImportSpecifier (a : Arena) (s : NodeId) (imported localName : String) : Prop :=
  ∃ propertyName name, a.form? (some s) = some (.importSpecifier false propertyName (some name)) ∧
    a.form? (some name) = some (.identifier localName) ∧
    (propertyName = none ∧ imported = localName ∨
      a.form? propertyName = some (.identifier imported))

/-- The statement imports an export, or the whole module, from a specifier under a name. -/
inductive Imports (a : Arena) (s : NodeId) (specifier : String) : (imported : Option String) →
    (localName : String) →
    Prop where
  | module_ {bindings name : NodeId} {localName : String}
    (hs : a.IsImport s specifier none (some bindings))
    (hbindings : a.form? (some bindings) = some (.namespaceImport (some name)))
    (hname : a.form? (some name) = some (.identifier localName)) :
    Imports a s specifier none localName
  | default {name : NodeId} {bindings : Slot} {localName : String}
    (hs : a.IsImport s specifier (some name) bindings)
    (hname : a.form? (some name) = some (.identifier localName)) :
    Imports a s specifier (some "default") localName
  | named {default : Slot} {bindings element : NodeId} {elements : List Slot}
    {imported localName : String} (hs : a.IsImport s specifier default (some bindings))
    (hbindings : a.form? (some bindings) = some (.namedImports elements))
    (helement : some element ∈ elements) (hnames : a.IsImportSpecifier element imported localName) :
    Imports a s specifier (some imported) localName

end Arena

namespace Build

/-! ## Statements -/

/-- What an import statement has between `import` and `from`: names of exports, or one for the whole
module. -/
inductive ImportClause where
  | names (default : Option String) (named : List (String × String))
  | module_ (localName : String)
  deriving DecidableEq, Repr

/-- The text of an import statement, as data. -/
structure ImportStatement where
  specifier : String
  clause : ImportClause
  deriving DecidableEq, Repr

namespace ImportStatement

/-- The names that a statement binds, with what they stand for. -/
def bindings : ImportStatement → List ImportBinding
  | ⟨specifier, .names default named⟩ =>
    default.toList.map (⟨specifier, some "default", ·⟩) ++ named.map fun names =>
      ⟨specifier, some names.1, names.2⟩
  | ⟨specifier, .module_ localName⟩ => [⟨specifier, none, localName⟩]

/-- The statement does not import the whole module. -/
def isByName : ImportStatement → Bool
  | ⟨_, .names ..⟩ => true
  | ⟨_, .module_ _⟩ => false

end ImportStatement

/-- The statements for a group. -/
def ImportGroup.statements (g : ImportGroup) : List ImportStatement :=
  (if g.default.isSome || !g.named.isEmpty then [⟨g.specifier, .names g.default g.named⟩]
    else []) ++
    g.namespaces.map fun localName => ⟨g.specifier, .module_ localName⟩

/-- The statements for a group bind what the group imports. -/
theorem ImportGroup.bindings_statements (g : ImportGroup) :
    g.statements.flatMap ImportStatement.bindings = g.bindings := by
  have hmodules : (g.namespaces.map fun localName =>
    (⟨g.specifier, .module_ localName⟩ : ImportStatement)).flatMap
      ImportStatement.bindings = g.namespaces.map (⟨g.specifier, none, ·⟩) := by
    rw [List.flatMap_map]
    exact List.map_eq_flatMap.symm
  rw [statements, List.flatMap_append, hmodules, bindings]
  congr 1
  split
  · exact List.flatMap_singleton ..
  · next hempty =>
    simp only [Bool.or_eq_true, not_or, Bool.not_eq_true, Option.isSome_eq_false_iff,
      Option.isNone_iff_eq_none, Bool.not_eq_false', List.isEmpty_iff] at hempty
    rw [hempty.1, hempty.2]
    rfl

end Build

namespace Arena

open Build (ImportStatement)

/-- The slot holds the name, or nothing when there is none. -/
def HasDefaultImport (a : Arena) (slot : Slot) : Option String → Prop
  | none => slot = none
  | some text => a.form? slot = some (.identifier text)

/-- The slot holds names in braces, or nothing when there are none. -/
def HasNamedImports (a : Arena) (slot : Slot) (named : List (String × String)) : Prop :=
  named = [] ∧ slot = none ∨ ∃ elements : List NodeId,
    elements ≠ [] ∧ a.form? slot = some (.namedImports (elements.map some)) ∧
    List.Forall₂ (fun element names => a.IsImportSpecifier element names.1 names.2) elements named

/-- The node is the import statement. -/
def WritesImport (a : Arena) (s : NodeId) : ImportStatement → Prop
  | ⟨specifier, .names default named⟩ => ∃ name bindings, a.IsImport s specifier name bindings ∧
    a.HasDefaultImport name default ∧
      a.HasNamedImports bindings named
  | ⟨specifier, .module_ localName⟩ => ∃ bindings name : NodeId,
    a.IsImport s specifier none (some bindings) ∧
      a.form? (some bindings) = some (.namespaceImport (some name)) ∧
        a.form? (some name) = some (.identifier localName)

/-- A statement imports what it binds. -/
theorem WritesImport.imports {a : Arena} {s : NodeId} {statement : ImportStatement}
    (h : a.WritesImport s statement) {binding : Build.ImportBinding}
    (hbinding : binding ∈ statement.bindings) :
    a.Imports s binding.specifier binding.imported binding.localName := by
  obtain ⟨specifier, clause⟩ := statement
  cases clause with
  | names default named =>
    obtain ⟨name, bindings, himport, hdefault, hnamed⟩ := h
    rcases List.mem_append.1 hbinding with hmem | hmem
    · obtain ⟨text, htext, rfl⟩ := List.mem_map.1 hmem
      obtain rfl := Option.mem_toList.1 htext
      cases name with
      | none => cases hdefault
      | some node => exact .default himport hdefault
    · obtain ⟨names, hnames, rfl⟩ := List.mem_map.1 hmem
      rcases hnamed with ⟨rfl, -⟩ | ⟨elements, -, hform, helements⟩
      · cases hnames
      · obtain ⟨element, helement, hspecifier⟩ := Build.exists_of_forall₂ helements.flip hnames
        cases bindings with
        | none => cases hform
        | some node =>
          exact .named himport hform (List.mem_map.2 ⟨element, helement, rfl⟩) hspecifier
  | module_ localName =>
    obtain ⟨bindings, name, himport, hbindings, hname⟩ := h
    obtain rfl := List.mem_singleton.1 hbinding
    exact .module_ himport hbindings hname

end Arena

namespace Build

theorem adds_frontName_of (first second : String) : Adds (frontName first second) fun slot a =>
    slot = none ∧ first = second ∨ a.form? slot = some (.identifier first) := by
  unfold frontName
  split
  · next heq => exact adds_pure fun _ => .inl ⟨rfl, beq_iff_eq.1 heq⟩
  · exact adds_map ((adds_identifier first).imp fun _ _ hn => .inr hn)

theorem adds_importSpecifier_of (imported localName : String) :
    Adds (importSpecifier imported localName) fun s a =>
      a.IsImportSpecifier s imported localName := by
  refine adds_bind (adds_frontName_of imported localName) fun propertyName => ?_
  refine adds_bind (adds_identifier localName) fun name =>
    (adds_add _).imp fun s a hs hname hfront => ?_
  exact ⟨propertyName, name, hs, hname, hfront⟩

theorem adds_importStatement_of (specifier : String) (name bindings : Slot) :
    Adds (importStatement specifier name bindings) fun s a =>
      a.IsImport s specifier name bindings := by
  refine adds_bind (adds_add _) fun clause => adds_bind (adds_add _) fun specifierNode => ?_
  exact (adds_add _).imp fun s a hs hspecifier hclause =>
    ⟨clause, specifierNode, hs, hspecifier, hclause⟩

theorem adds_moduleImport_of (specifier localName : String) :
    Adds (moduleImport specifier localName) fun s a =>
      a.WritesImport s ⟨specifier, .module_ localName⟩ := by
  refine adds_bind (adds_identifier localName) fun name => adds_bind (adds_add _) fun bindings => ?_
  exact (adds_importStatement_of _ _ _).imp fun s a hs hbindings hname =>
    ⟨bindings, name, hs, hbindings, hname⟩

theorem adds_default_of (default : Option String) :
    Adds (default.mapM identifier) fun slot a => a.HasDefaultImport slot default := by
  cases default with
  | none => exact adds_pure fun _ => rfl
  | some text => exact adds_map (adds_identifier text)

/-- The default import and the imports by name share a statement. -/
theorem adds_namedImport_of (specifier : String) (slot : Slot) (elements : List NodeId) :
    Adds (namedImport specifier slot elements) fun statements a =>
      ∀ default named, a.HasDefaultImport slot default →
      List.Forall₂ (fun element names => a.IsImportSpecifier element names.1 names.2)
        elements named →
      List.Forall₂ a.WritesImport statements
        (if default.isSome || !named.isEmpty then [⟨specifier, .names default named⟩] else []) := by
  -- whether there is a default import and whether there are others is seen from the nodes
  have hslot {a : Arena} {default : Option String} (h : a.HasDefaultImport slot default) :
      default.isSome = slot.isSome := by
    cases default with
    | none => rw [show slot = none from h]; rfl
    | some text =>
      cases slot with
      | none => cases h
      | some node => rfl
  have helements {a : Arena} {named : List (String × String)}
      (h : List.Forall₂ (fun element names => a.IsImportSpecifier element names.1 names.2)
        elements named) :
      named.isEmpty = elements.isEmpty := by cases h <;> rfl
  have hbindings : Adds (namedBindings elements) fun bindings a => ∀ named,
      List.Forall₂ (fun element names => a.IsImportSpecifier element names.1 names.2)
        elements named →
      a.HasNamedImports bindings named := by
    unfold namedBindings
    split
    · next hempty =>
      obtain rfl := List.isEmpty_iff.1 hempty
      exact adds_pure fun a named hnamed => .inl ⟨List.forall₂_nil_left_iff.1 hnamed, rfl⟩
    · next hempty =>
      have hne : elements ≠ [] := fun h => hempty (List.isEmpty_iff.2 h)
      exact adds_map
        ((adds_add _).imp fun node a hform named hnamed => .inr ⟨elements, hne, hform, hnamed⟩)
  unfold namedImport
  split
  · next hsome =>
    refine adds_bind hbindings fun bindings => adds_bind (adds_importStatement_of _ _ _) fun s =>
      adds_pure fun a => ?_
    intro himport hbraces default named hdefault hnamed
    rw [hslot hdefault, helements hnamed, if_pos hsome]
    exact .cons ⟨slot, bindings, himport, hdefault, hbraces named hnamed⟩ .nil
  · next hnone =>
    refine adds_pure fun a default named hdefault hnamed => ?_
    rw [hslot hdefault, helements hnamed, if_neg hnone]
    exact .nil

/-- The statements for a group are written. -/
theorem adds_importStatements_written (g : ImportGroup) :
    Adds (importStatements g) fun nodes a => List.Forall₂ a.WritesImport nodes g.statements := by
  refine adds_bind (adds_default_of g.default) fun default => ?_
  refine adds_bind (adds_mapM fun names _ => adds_importSpecifier_of names.1 names.2)
    fun elements => ?_
  refine adds_bind (adds_namedImport_of g.specifier default elements) fun first => ?_
  refine adds_bind (adds_mapM fun name _ => adds_moduleImport_of g.specifier name) fun others =>
    adds_pure fun a => ?_
  intro hothers hfirst helements hdefault
  refine List.rel_append (hfirst _ _ hdefault helements.flip) ?_
  exact List.forall₂_map_right_iff.2 hothers.flip

variable (collection : Collection) (naming : Naming)

/-- The import statements of a bundle are those for its groups. -/
theorem adds_imports_written : Adds (imports collection naming) fun nodes a =>
    List.Forall₂ a.WritesImport nodes
      ((importGroups collection naming).flatMap ImportGroup.statements) := by
  refine adds_bind (adds_mapM fun g _ => adds_importStatements_written g) fun nodes =>
    adds_pure fun a h => ?_
  exact List.rel_flatten (List.forall₂_map_right_iff.2 h.flip)

/-- Every import with a final name is written. -/
theorem adds_imports_each : Adds (imports collection naming) fun statements a =>
    ∀ i ∈ collection.externals.values, ∀ localName, naming.nameOf? i.symbol = some localName →
      ∃ s ∈ statements, a.Imports s i.specifier i.importedName localName := by
  refine (adds_imports_written collection naming).imp fun nodes a h i hi localName hname => ?_
  have hbinding : ⟨i.specifier, i.importedName, localName⟩ ∈
      (importGroups collection naming).flatMap ImportGroup.bindings := by
    refine (bindings_importGroups collection naming).mem_iff.2 (List.mem_filterMap.2 ⟨i, hi, ?_⟩)
    rw [importBinding?, hname, Option.map_some]
  obtain ⟨g, hg, hbinding⟩ := List.mem_flatMap.1 hbinding
  rw [← g.bindings_statements] at hbinding
  obtain ⟨statement, hstatement, hbinding⟩ := List.mem_flatMap.1 hbinding
  obtain ⟨s, hs, hwritten⟩ := exists_of_forall₂ h.flip (List.mem_flatMap.2 ⟨g, hg, hstatement⟩)
  exact ⟨s, hs, Arena.WritesImport.imports hwritten hbinding⟩

end Build

end DeclBundle
