import DeclBundle.Proofs.Exposing
import Mathlib.Data.String.Basic

/-!
# The imports of a bundle

The statements of a bundle that import from elsewhere are those for its groups of imports: what a
bundle declares, exports and nests in namespaces imports nothing. Together they bind each symbol
that is imported once, from its specifier, as the export that it is, and under its final name
(`Bundle.exists_importsOnce`). Each specifier has one statement at most for a default export and
names, and one for each name of the whole module.
-/

set_option autoImplicit false

namespace DeclBundle

/-! ## Statements that import -/

namespace Arena

/-- The statement imports from elsewhere, as a declaration or as `import ... = require(...)`. -/
def isImport (a : Arena) (statement : Slot) : Bool :=
  match a.form? statement with
  | some (.importDeclaration ..) => true
  | some (.importEquals _ _ _ reference) =>
    match a.form? reference with
    | some (.externalReference _) => true
    | _ => false
  | _ => false

theorem WritesImport.isImport {a : Arena} {s : NodeId} {statement : Build.ImportStatement}
    (h : a.WritesImport s statement) : a.isImport (some s) = true := by
  obtain ⟨specifier, clause⟩ := statement
  cases clause with
  | names default named =>
    obtain ⟨_, _, ⟨_, _, hform, -⟩, -⟩ := h
    rw [Arena.isImport, hform]
  | module_ localName =>
    obtain ⟨_, _, ⟨_, _, hform, -⟩, -⟩ := h
    rw [Arena.isImport, hform]

/-- What has no clause and exposes nothing imports nothing. -/
theorem isImport_of_form? {a : Arena} {slot : Slot} {form : Form Slot}
    (h : a.form? slot = some form) (hclause : form.heads.clause? = none)
    (hform : form.isExposing = false) : a.isImport slot = false := by
  rw [isImport, h]
  cases form with
  | importDeclaration clause specifier => cases hclause
  | importEquals modifiers typeOnly name reference => cases hform
  | _ => rfl

end Arena

namespace Build

/-- The statements import nothing. -/
def ImportNothing (statements : List NodeId) (a : Arena) : Prop :=
  ∀ s ∈ statements, a.isImport (some s) = false

theorem importNothing_nil (a : Arena) : ImportNothing [] a := fun _ h => absurd h List.not_mem_nil

theorem ImportNothing.append {ss ss' : List NodeId} {a : Arena} (h : ImportNothing ss a)
    (h' : ImportNothing ss' a) :
    ImportNothing (ss ++ ss') a := fun s hs => (List.mem_append.1 hs).elim (h s) (h' s)

theorem importNothing_singleton {s : NodeId} {a : Arena} (h : a.isImport (some s) = false) :
    ImportNothing [s] a := by
  intro other hother
  obtain rfl := List.mem_singleton.1 hother
  exact h

theorem adds_exportedAlias_isImport (name text : String) :
    Adds (exportedAlias name text) fun s a => a.isImport (some s) = false := by
  refine adds_bind (adds_identifier name) fun nameNode =>
    adds_bind (adds_dottedName text) fun reference => ?_
  refine (adds_add _).imp fun s a hs hreference _ => ?_
  rw [Arena.isImport, hs]
  rcases hreference with ⟨_, hreference⟩ | ⟨_, _, hreference⟩
  · dsimp only
    rw [hreference]
  · dsimp only
    rw [hreference]

theorem isImport_exportAssignment {a : Arena} {s : NodeId} {isEquals : Bool} {value : Slot}
    (h : a.form? (some s) = some (.exportAssignment isEquals value)) :
    a.isImport (some s) = false := by
  rw [Arena.isImport, h]

theorem adds_exportStatement_isImport (e : ExportStatements) (name text : String) :
    Adds (exportStatement e name text) fun e' a =>
      ImportNothing (e.statements ++ e.whole.toList) a →
        ImportNothing (e'.statements ++ e'.whole.toList) a := by
  have hmore {a : Arena} (h : ImportNothing (e.statements ++ e.whole.toList) a) {s : NodeId}
    (hs : a.isImport (some s) = false) :
      ImportNothing (e.statements ++ [s] ++ e.whole.toList) a ∧
        ImportNothing (e.statements ++ [s]) a := by
    have hstatements : ImportNothing e.statements a := fun s hs => h s (List.mem_append_left _ hs)
    have hall := hstatements.append (importNothing_singleton hs)
    exact ⟨hall.append fun s hs => h s (List.mem_append_right _ hs), hall⟩
  unfold exportStatement
  split
  · refine adds_bind (adds_dottedName text) fun value => adds_bind (adds_add _) fun s => ?_
    exact adds_pure fun a hs _ h => (hmore h (isImport_exportAssignment hs)).2
  · split
    · exact adds_bind (adds_exportSpecifier _ _) fun s => adds_pure fun a _ h => h
    · split
      · refine adds_bind (adds_dottedName text) fun value => adds_bind (adds_add _) fun s => ?_
        exact adds_pure fun a hs _ h => (hmore h (isImport_exportAssignment hs)).1
      · exact adds_bind (adds_exportedAlias_isImport _ _) fun s => adds_pure fun a hs h =>
          (hmore h hs).1

variable (p : Project) (plan : Plan) (naming : Naming)

theorem adds_plannedExports_isImport (planned : List PlannedExport) (e : ExportStatements) :
    Adds (planned.foldlM (plannedExport p naming) e) fun e' a =>
      ImportNothing (e.statements ++ e.whole.toList) a →
        ImportNothing (e'.statements ++ e'.whole.toList) a := by
  induction planned generalizing e with
  | nil => exact adds_pure fun a h => h
  | cons first rest ih =>
    rw [List.foldlM_cons]
    refine adds_bind (Q := fun e' a => ImportNothing (e.statements ++ e.whole.toList) a →
      ImportNothing (e'.statements ++ e'.whole.toList) a) ?_ fun e₁ =>
        (ih e₁).imp fun e₂ a hrest hfirst h => hrest (hfirst h)
    unfold plannedExport
    split
    · exact adds_exportStatement_isImport e first.name _
    · exact adds_pure fun a h => h

/-- Exports import nothing. -/
theorem adds_exportStatements_isImport : Adds (exportStatements p plan naming) ImportNothing := by
  refine adds_bind (adds_plannedExports_isImport p naming plan.exports_ {}) fun e => ?_
  refine adds_bind (Q := ImportNothing) ?_ fun list => adds_pure fun a hlist hall => ?_
  · unfold exportListOf exportList
    split
    · refine adds_bind (Q := fun s a => a.isImport (some s) = false) ?_ fun s =>
        adds_pure fun a hs => importNothing_singleton hs
      refine adds_bind (adds_add _) fun clause => (adds_add _).imp fun s a hs _ => ?_
      rw [Arena.isImport, hs]
    · exact adds_pure importNothing_nil
  · rw [List.append_assoc]
    exact hlist.append (hall (importNothing_nil a))

/-- Namespaces import nothing. -/
theorem adds_namespaceStatements_isImport :
    Adds (namespaceStatements p plan naming) ImportNothing := by
  refine (adds_namespaceStatements_form p plan naming).imp fun statements a h s hs => ?_
  obtain ⟨_, _, _, hform⟩ := h s hs
  rw [Arena.isImport, hform]

/-! ## Groups in order -/

variable (collection : Collection)

theorem specifier_of_mem_statements {g : ImportGroup} {statement : ImportStatement}
    (h : statement ∈ g.statements) :
    statement.specifier = g.specifier := by
  rcases List.mem_append.1 h with h | h
  · split at h
    · rw [List.mem_singleton.1 h]
    · cases h
  · obtain ⟨_, -, rfl⟩ := List.mem_map.1 h
    rfl

theorem pairwise_importedSpecifiers : (importedSpecifiers collection).Pairwise (· < ·) := by
  have hsorted : (importedSpecifiers collection).Pairwise (· ≤ ·) := by
    have h := @List.pairwise_mergeSort _ (fun a b : String => decide (a ≤ b))
      (fun a b c hab hbc => decide_eq_true ((of_decide_eq_true hab).trans (of_decide_eq_true hbc)))
      (fun a b => by simpa using le_total a b)
        (collection.externals.values.map ExternalImport.specifier).eraseDups
    exact h.imp of_decide_eq_true
  exact hsorted.imp₂ (fun a b hle hne => lt_of_le_of_ne hle hne)
    (nodup_importedSpecifiers collection)

/-- A statement for a group binds something. -/
theorem bindings_ne_nil {g : ImportGroup} {statement : ImportStatement}
    (h : statement ∈ g.statements) :
    statement.bindings ≠ [] := by
  rcases List.mem_append.1 h with h | h
  · split at h
    · next hsome =>
      rw [List.mem_singleton.1 h, ImportStatement.bindings]
      simp only [Bool.or_eq_true, Bool.not_eq_true', Option.isSome_iff_ne_none,
        List.isEmpty_eq_false_iff] at hsome
      simp only [ne_eq, List.append_eq_nil_iff, List.map_eq_nil_iff,
        Option.toList_eq_nil_iff, not_and_or]
      exact hsome
    · cases h
  · obtain ⟨_, -, rfl⟩ := List.mem_map.1 h
    exact List.cons_ne_nil _ _

/-- The statements stand in the order of their specifiers, and those by name have different ones. -/
theorem specifiers_importGroups :
    (((importGroups collection naming).flatMap ImportGroup.statements).map
      ImportStatement.specifier).Pairwise (· ≤ ·) ∧
      ((((importGroups collection naming).flatMap ImportGroup.statements).filter
        ImportStatement.isByName).map
        ImportStatement.specifier).Nodup := by
  -- the groups come by growing specifier, and all statements of a group have its specifier
  have hgroups : (importGroups collection naming).Pairwise fun g g' =>
    g.specifier < g'.specifier := by
    rw [importGroups, List.pairwise_map]
    refine (pairwise_importedSpecifiers collection).imp fun {s s'} hlt => ?_
    rwa [(bindings_importGroup collection naming s).1,
      (bindings_importGroup collection naming s').1]
  constructor
  · rw [List.pairwise_map, List.pairwise_flatMap]
    refine ⟨fun g _ => ?_,
      hgroups.imp fun {g g'} hlt statement hstatement statement' hstatement' => ?_⟩
    · refine List.pairwise_of_forall_mem_list fun statement hstatement statement' hstatement' =>
        le_of_eq ?_
      rw [specifier_of_mem_statements hstatement, specifier_of_mem_statements hstatement']
    · rw [specifier_of_mem_statements hstatement, specifier_of_mem_statements hstatement']
      exact le_of_lt hlt
  · rw [List.Nodup, List.pairwise_map, List.filter_flatMap, List.pairwise_flatMap]
    refine ⟨fun g _ => ?_,
      hgroups.imp fun {g g'} hlt statement hstatement statement' hstatement' => ?_⟩
    · have hmodules : (g.namespaces.map fun localName =>
        (⟨g.specifier, .module_ localName⟩ : ImportStatement)).filter
          ImportStatement.isByName = [] := by
        refine List.filter_eq_nil_iff.2 fun statement hstatement => ?_
        obtain ⟨_, -, rfl⟩ := List.mem_map.1 hstatement
        exact Bool.false_ne_true
      rw [ImportGroup.statements, List.filter_append, hmodules, List.append_nil]
      refine List.Pairwise.filter _ ?_
      split
      · exact List.pairwise_singleton _ _
      · exact List.Pairwise.nil
    · rw [specifier_of_mem_statements (List.mem_of_mem_filter hstatement),
        specifier_of_mem_statements (List.mem_of_mem_filter hstatement')]
      exact ne_of_lt hlt

end Build

/-! ## The imports of a bundle -/

namespace Collecting

/-- Imports are found under their symbols, each under one. -/
theorem nodup_externals (p : Project) (exports_ : List ModuleExport) :
    (p.collect exports_).externals.keys.Nodup := by
  have hkeeps : Keeps p fun c => c.found.externals.keys.Nodup := by
    constructor
    case toKeepsNotes =>
      constructor
      case reserve =>
        intro file identifier c hc
        rwa [(Notes.reserve file identifier c).externals]
      case addReference => exact fun _ _ _ hc _ => hc
      case pass => exact fun _ hc => hc
    case addExternal =>
      intro i c hc
      unfold Collecting.addExternal
      split
      · exact hc
      · exact Table.nodup_keys_set hc _ _
    case skip => exact fun _ _ hc _ _ => hc
    case keep => exact fun _ _ hc _ _ => hc
    case enter => exact fun _ _ _ hc _ => hc
  obtain ⟨c, hc, hfound⟩ := hkeeps.collect List.nodup_nil exports_
  exact hfound ▸ hc

end Collecting

namespace Bundle

open Build (ImportStatement ImportBinding)

/-- The listed statements are the imports of a bundle, which bind each symbol that is imported
once. -/
structure ImportsOnce (b : Bundle) (nodes : List NodeId)
    (statements : List ImportStatement) : Prop where
  /-- There are no other statements that import. -/
  nodes_eq : (Print.statementsOf b.tree.arena (some b.root)).filter b.tree.arena.isImport =
    nodes.map some
  written : List.Forall₂ b.tree.arena.WritesImport nodes statements
  /-- Each symbol is imported from its specifier as what it is, under its final name, and nothing
  else is imported. -/
  bindings_perm : ((statements.flatMap ImportStatement.bindings).map some).Perm
    (b.collection.externals.entries.map fun entry =>
      (b.naming.nameOf? entry.1).map fun localName =>
        ⟨entry.2.specifier, entry.2.importedName, localName⟩)
  symbols_nodup : b.collection.externals.keys.Nodup
  /-- A statement binds something. -/
  bindings_ne : ∀ statement ∈ statements, statement.bindings ≠ []
  /-- The default export and names of one specifier share a statement. -/
  byName_nodup : ((statements.filter ImportStatement.isByName).map ImportStatement.specifier).Nodup
  specifiers_le : (statements.map ImportStatement.specifier).Pairwise (· ≤ ·)
  localNames_nodup :
    ((statements.flatMap ImportStatement.bindings).map ImportBinding.localName).Nodup

variable (p : Project) (keepDocs : Bool) (exports_ : List ModuleExport)

/-- Every symbol that is imported has a name, and these are what the imports bind. -/
theorem bindings_perm_externals :
    (((Build.importGroups (ofExports p keepDocs exports_).collection
      (ofExports p keepDocs exports_).naming).flatMap
      Build.ImportGroup.bindings).map some).Perm
    ((ofExports p keepDocs exports_).collection.externals.entries.map fun entry =>
      ((ofExports p keepDocs exports_).naming.nameOf? entry.1).map fun localName =>
        ⟨entry.2.specifier, entry.2.importedName, localName⟩) := by
  refine ((Build.bindings_importGroups _ _).map some).trans (List.Perm.of_eq ?_)
  rw [Table.values, List.filterMap_map, List.map_filterMap]
  refine List.filterMap_eq_map_iff_forall_eq_some.2 fun entry hentry => ?_
  have hsymbol : entry.2.symbol = entry.1 := Collecting.symbol_of_mem_externals hentry
  obtain ⟨localName, hname⟩ : ∃ localName, (ofExports p keepDocs exports_).naming.nameOf? entry.1 =
      some localName :=
    Planning.exists_nameOf?_of_external (p.plan exports_ (p.collect exports_))
      (Table.contains_of_mem hentry)
  rw [Function.comp_apply, Build.importBinding?, hsymbol, hname]
  rfl

/-- Different symbols are imported under different names. -/
theorem nodup_importNames : ((ofExports p keepDocs exports_).collection.externals.keys.map
    (ofExports p keepDocs exports_).naming.nameOf?).Nodup := by
  refine List.Nodup.map_on (fun id hid other _ heq => ?_) (Collecting.nodup_externals p exports_)
  obtain ⟨localName, hname⟩ : ∃ localName, (ofExports p keepDocs exports_).naming.nameOf? id =
      some localName :=
    Planning.exists_nameOf?_of_external (p.plan exports_ (p.collect exports_))
      ((Table.contains_iff_mem_keys _ _).2 hid)
  exact Naming.ofPlan_injective hname (heq ▸ hname)

/-- What is declared imports nothing. -/
theorem isImport_of_mem_settledTree {b : Bundle} {id : SymbolId} {s : NodeId} {a : Arena}
    (hs : s ∈ (settledTree p b).statementsOf id) (ha : (settledTree p b).arena.Extends a) :
    a.isImport (some s) = false := by
  obtain ⟨form, hform, hhidden⟩ := exists_form_of_mem_settledTree p hs
  have hapart : (settledTree p b).NamesApart :=
    (Build.named_settle p b.collection b.naming b.plan
      (Build.namesApart_ofCollection p b.collection)).1
  have hclause := hapart.clause?_eq id s hs
  rw [Arena.heads_of_form? hform] at hclause
  exact Arena.isImport_of_form? (ha _ _ hform) hclause hhidden

/-- The statements that import are those that were added for imports. -/
theorem filter_isImport {b : Bundle} {imports exportStatements namespaces : List NodeId}
    (h : Build.IsLaidOut p b.collection b.plan b.naming
      (settledTree p b) b.root b.tree imports exportStatements namespaces) :
    (Print.statementsOf b.tree.arena (some b.root)).filter b.tree.arena.isImport =
      imports.map some := by
  have hwritten := h.imports _ (Build.adds_imports_written _ _)
  have hexports := h.exports_ _ (Build.adds_exportStatements_isImport p b.plan b.naming)
  have hnamespaces := h.namespaces _ (Build.adds_namespaceStatements_isImport p b.plan b.naming)
  have hdeclarations : Build.ImportNothing ((b.collection.kept.filter (! b.plan.isMoved ·)).flatMap
      (settledTree p b).statementsOf) b.tree.arena := by
    intro s hs
    obtain ⟨id, -, hs⟩ := List.mem_flatMap.1 hs
    exact isImport_of_mem_settledTree p hs h.extends_
  have himports : imports.filter (fun s => b.tree.arena.isImport (some s)) = imports := by
    refine List.filter_eq_self.2 fun s hs => ?_
    obtain ⟨statement, -, hstatement⟩ := Build.exists_of_forall₂ hwritten hs
    exact Arena.WritesImport.isImport hstatement
  have hnone {statements : List NodeId}
    (hstatements : Build.ImportNothing statements b.tree.arena) :
      statements.filter (fun s => b.tree.arena.isImport (some s)) = [] :=
    List.filter_eq_nil_iff.2 fun s hs => by rw [hstatements s hs]; exact Bool.false_ne_true
  rw [Print.statementsOf, h.form_eq]
  dsimp only
  rw [List.filter_map, Function.comp_def, List.filter_append, List.filter_append,
    List.filter_append, himports, hnone hexports, hnone hnamespaces, hnone hdeclarations,
    List.append_nil, List.append_nil, List.append_nil]

/-- The imports of a bundle bind each symbol that is imported once, and nothing else. -/
theorem exists_importsOnce :
    ∃ nodes statements, (ofExports p keepDocs exports_).ImportsOnce nodes statements := by
  obtain ⟨imports, exportStatements, namespaces, h⟩ := exists_isLaidOut p keepDocs exports_
  have hbindings := bindings_perm_externals p keepDocs exports_
  have hnames := nodup_importNames p keepDocs exports_
  have hkeys : (ofExports p keepDocs exports_).collection.externals.keys.Nodup :=
    Collecting.nodup_externals p exports_
  generalize ofExports p keepDocs exports_ = b at *
  obtain ⟨hsorted, hbyName⟩ := Build.specifiers_importGroups b.naming b.collection
  have hgroups :
    ((Build.importGroups b.collection b.naming).flatMap Build.ImportGroup.statements).flatMap
      ImportStatement.bindings =
          (Build.importGroups b.collection b.naming).flatMap Build.ImportGroup.bindings := by
    rw [List.flatMap_assoc]
    exact List.flatMap_congr fun g _ => g.bindings_statements
  rw [← hgroups] at hbindings
  refine ⟨imports, _, filter_isImport p h, h.imports _ (Build.adds_imports_written _ _), hbindings,
    hkeys, ?_, hbyName, hsorted, ?_⟩
  · intro statement hstatement
    obtain ⟨g, -, hstatement⟩ := List.mem_flatMap.1 hstatement
    exact Build.bindings_ne_nil hstatement
  · -- the local names are the names of different symbols
    have hlocal := hbindings.map (Option.map ImportBinding.localName)
    have hof : (b.collection.externals.entries.map fun entry =>
        (b.naming.nameOf? entry.1).map fun localName =>
        (⟨entry.2.specifier, entry.2.importedName, localName⟩ : ImportBinding)).map
          (Option.map ImportBinding.localName) =
        b.collection.externals.keys.map b.naming.nameOf? := by
      rw [List.map_map, Table.keys, List.map_map]
      refine List.map_congr_left fun entry _ => ?_
      simp only [Function.comp_apply, Option.map_map]
      exact Option.map_id'
    rw [hof, List.map_map] at hlocal
    refine List.Nodup.of_map some ?_
    rw [List.map_map]
    exact hlocal.nodup_iff.2 hnames

end Bundle

end DeclBundle
