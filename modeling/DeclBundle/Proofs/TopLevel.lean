import DeclBundle.Bundle.Basic
import DeclBundle.Project.Loading
import DeclBundle.Proofs.FinalNames
import DeclBundle.Proofs.ImportGroups
import DeclBundle.Proofs.ModuleExports
import DeclBundle.Proofs.Planning
import DeclBundle.Proofs.SingleFiles
import DeclBundle.Proofs.Standing
import DeclBundle.Proofs.UniqueNames

/-!
# Names at the top level of a bundle

Four kinds of statements bind names at the top level of a bundle: imports, declarations that are
kept and not moved, namespaces for modules, and exports that give a dotted name another name.
`Bundle.topBindings` lists what each of them binds and for what, and the names that the statements
of the finished file bind are just these (`Bundle.topNames_perm`).

Imports, declarations and namespaces take their names from one table, so none of them binds a name
of another symbol. The name of an export comes from the source and is not in the table: a name is
bound for two things exactly when an export that gives a dotted name another name is called like
something else at the top level (`Bundle.top_names_unique_iff`).
-/

set_option autoImplicit false

namespace DeclBundle

namespace Build

variable (p : Project) (collection : Collection) (naming : Naming)

/-! ## The finished tree -/

/-- What naming wrote at the declarations of a symbol is what its statements bind. -/
theorem boundNames_of_named {plan : Plan} {ids : List SymbolId} {t : BundleTree} (ht : t.NamesApart)
    (h : Named plan naming ids t) {id : SymbolId} (hid : id ∈ ids) {name : String}
    (hname : declaredName? plan naming id = some name) {s : NodeId} (hs : s ∈ t.statementsOf id)
    {text : String} (htext : text ∈ t.arena.boundNames (some s)) : text = name := by
  rw [Arena.boundNames, ht.clause?_eq id s hs] at htext
  obtain ⟨slot, hslot, htext⟩ := List.mem_filterMap.1 htext
  exact h id hid name hname s hs slot hslot text htext

/-- Later nodes change nothing about the statements of symbols. -/
theorem boundNames_of_extends {t : BundleTree} (ht : t.NamesApart) {a : Arena}
    (hext : t.arena.Extends a) {id : SymbolId} {s : NodeId} (hs : s ∈ t.statementsOf id) :
    a.boundNames (some s) = t.arena.boundNames (some s) := by
  have hheads := hext.heads_eq (ht.statement_lt id s hs)
  have hslot : ∀ slot : Slot, (∀ n : NodeId, slot = some n → n.index < t.arena.size) →
      a.nameSlot slot = t.arena.nameSlot slot ∧ a.identifier? slot = t.arena.identifier? slot := by
    intro slot hslot
    cases slot with
    | none => exact ⟨rfl, rfl⟩
    | some n =>
      have hform := hext.form?_eq (hslot n rfl)
      exact ⟨by rw [Arena.nameSlot, Arena.nameSlot, hform], by
        rw [Arena.identifier?, Arena.identifier?, hform]⟩
  -- the slots of the names are read from the heads, and the heads were there before
  have hslots : a.nameSlots (some s) = t.arena.nameSlots (some s) := by
    rw [Arena.nameSlots_eq, Arena.nameSlots_eq, hheads]
    cases hdecl : (t.arena.heads (some s)).variables? with
    | none =>
      have hself := hslot (some s) fun n hn => by
        obtain rfl := Option.some.inj hn
        exact ht.statement_lt id _ hs
      exact congrArg (fun slot => [slot]) hself.1
    | some declarations =>
      refine List.map_congr_left fun d hd => (hslot d ?_).1
      rintro n rfl
      exact ht.variable_lt id s declarations n hs hdecl hd
  rw [Arena.boundNames, Arena.boundNames, hheads, ht.clause?_eq id s hs]
  show (a.nameSlots (some s)).filterMap a.identifier? =
    (t.arena.nameSlots (some s)).filterMap t.arena.identifier?
  rw [hslots]
  refine List.filterMap_congr fun slot hmem => (hslot slot ?_).2
  rintro n rfl
  exact ht.name_lt id s n hs hmem

variable (plan : Plan)

/-- What a finished tree with its root consists of. -/
structure LaidOut (root : NodeId) (t : BundleTree)
    (imports exports_ namespaces : List NodeId) : Prop where
  statements_eq : Print.statementsOf t.arena (some root) =
    (imports ++ (collection.kept.filter (! plan.isMoved ·)).flatMap t.statementsOf ++ exports_ ++
      namespaces).map some
  imports : Bind imports ((importGroups collection naming).flatMap ImportGroup.names) t.arena
  exports_ : Bind exports_ (plan.exports_.filterMap (aliasedName? p naming)) t.arena
  namespaces :
    Bind namespaces (plan.topNamespaces.filterMap fun n => naming.nameOf? n.module) t.arena
  declarations : ∀ id ∈ collection.kept, ∀ name, declaredName? plan naming id = some name →
    ∀ s ∈ t.statementsOf id, ∀ text ∈ t.arena.boundNames (some s), text = name

/-- Settled declarations have their final names, which are still kept apart. -/
theorem named_settle {t : BundleTree} (ht : t.NamesApart) :
    ((settle p collection plan naming).run t).2.NamesApart ∧
      Named plan naming collection.kept ((settle p collection plan naming).run t).2 := by
  let t₁ : BundleTree := ((nameReferences p collection naming).run t).2
  have ht₁ : t₁.NamesApart := (narrows_nameReferences p collection naming t).namesApart ht
  let t₂ : BundleTree := ((nameDeclarations collection plan naming).run t₁).2
  obtain ⟨hnarrow, hnamed⟩ : NarrowsTo t₁ t₂ ∧ Named plan naming collection.kept t₂ :=
    named_nameDeclarations collection ht₁
  have hkeeps : Renames "" [] t₂ ((settle p collection plan naming).run t).2 :=
    keepsNames_setModifiers collection plan "" t₂
  refine ⟨hkeeps.narrowsTo.namesApart (hnarrow.namesApart ht₁),
    fun id hid name hname s hs slot hslot text htext => ?_⟩
  -- modifiers change no names
  rw [hkeeps.statementsOf_eq] at hs
  rw [Arena.nameSlots_of_heads hkeeps.heads_eq] at hslot
  rw [hkeeps.identifier?_eq, if_neg List.not_mem_nil] at htext
  exact hnamed id hid name hname s hs slot hslot text htext

/-- Laying out the copied declarations gives imports, declarations, exports and namespaces under
their final names. -/
theorem exists_laidOut (hplan : ∀ n ∈ plan.topNamespaces, plan.namespaces.contains n.module = true)
    {t : BundleTree} (ht : t.NamesApart) :
    ∃ imports exports_ namespaces,
      LaidOut p collection naming plan ((layOut p collection plan naming).run t).1
      ((layOut p collection plan naming).run t).2 imports exports_ namespaces := by
  obtain ⟨hsettled, hnamed⟩ := named_settle p collection naming plan ht
  obtain ⟨imports, exports_, namespaces, hlaid⟩ := exists_isLaidOut p collection plan naming hplan t
  let settled : BundleTree := ((settle p collection plan naming).run t).2
  let final : BundleTree := ((layOut p collection plan naming).run t).2
  have hof : ∀ id, final.statementsOf id = settled.statementsOf id := fun id => by
    rw [BundleTree.statementsOf, BundleTree.statementsOf, hlaid.notes.statements_eq]
  refine ⟨imports, exports_, namespaces, ?_, hlaid.imports _ (adds_imports collection naming),
    hlaid.exports_ _ (adds_exportStatements p plan naming),
    hlaid.namespaces _ (adds_namespaceStatements p plan naming hplan), ?_⟩
  · rw [Print.statementsOf, hlaid.form_eq, funext hof]
  · intro id hid name hname s hs text htext
    have hs : s ∈ settled.statementsOf id := hof id ▸ hs
    have htext : text ∈ settled.arena.boundNames (some s) :=
      boundNames_of_extends hsettled hlaid.extends_ hs ▸ htext
    exact boundNames_of_named naming hsettled hnamed hid hname hs htext

end Build

namespace Bundle

/-! ## What the names stand for -/

/-- What a name at the top level stands for. -/
inductive TopBinder where
  /-- A declaration, an import or a namespace for a module. -/
  | symbol (id : SymbolId)
  /-- Another name for something, which is declared for the export at a position. -/
  | exported (position : Nat)
  deriving DecidableEq, Repr

/-- The names that the statements at the top level bind, in their order. -/
def topNames (b : Bundle) : List String :=
  (Print.statementsOf b.tree.arena (some b.root)).flatMap b.tree.arena.boundNames

/-- The names that imports bind. -/
def importBindings (b : Bundle) : List (String × SymbolId) :=
  b.collection.externals.values.filterMap fun i => (b.naming.nameOf? i.symbol).map (·, i.symbol)

/-- The names that declarations at the top level bind. -/
def declarationBindings (b : Bundle) : List (String × SymbolId) :=
  (b.collection.kept.filter (! b.plan.isMoved ·)).flatMap fun id =>
    (b.tree.statementsOf id).flatMap fun s => (b.tree.arena.boundNames (some s)).map (·, id)

/-- The names that namespaces for modules bind. -/
def namespaceBindings (b : Bundle) : List (String × SymbolId) :=
  b.plan.topNamespaces.filterMap fun n => (b.naming.nameOf? n.module).map (·, n.module)

/-- The names that are declared for exports, with the positions of the exports. -/
def aliasBindings (b : Bundle) (p : Project) : List (String × Nat) :=
  b.plan.exports_.zipIdx.filterMap fun (planned, position) =>
    (Build.aliasedName? p b.naming planned).map (·, position)

/-- Everything that is bound at the top level. -/
def topBindings (b : Bundle) (p : Project) : List (String × TopBinder) :=
  (b.importBindings ++ b.declarationBindings ++ b.namespaceBindings).map
    (fun (name, id) => (name, .symbol id)) ++
    (b.aliasBindings p).map fun (name, position) => (name, .exported position)

variable (p : Project) (keepDocs : Bool) (exports_ : List ModuleExport)

/-- The tree of a bundle consists of imports, declarations, exports and namespaces. -/
theorem exists_laidOut_ofExports :
    ∃ imports exportStatements namespaces,
      Build.LaidOut p (ofExports p keepDocs exports_).collection
        (ofExports p keepDocs exports_).naming
        (ofExports p keepDocs exports_).plan (ofExports p keepDocs exports_).root
          (ofExports p keepDocs exports_).tree
        imports exportStatements namespaces :=
  Build.exists_laidOut p _ _ _ (fun _ h => Planning.contains_of_mem_topNamespaces p _ h)
    (Build.namesApart_ofCollection p _)

/-! ## All bindings -/

theorem map_fst_aliases {f : PlannedExport → Option String} (planned : List PlannedExport)
    (start : Nat) :
    ((planned.zipIdx start).filterMap fun (e, position) => (f e).map (·, position)).map Prod.fst =
      planned.filterMap f := by
  induction planned generalizing start with
  | nil => rfl
  | cons e planned ih =>
    rw [List.zipIdx_cons, List.filterMap_cons, List.filterMap_cons]
    dsimp only
    cases f e with
    | none => exact ih (start + 1)
    | some name => exact congrArg (name :: ·) (ih (start + 1))

/-- The names that the statements bind are those that are listed. -/
theorem topNames_perm : (ofExports p keepDocs exports_).topNames.Perm
    (((ofExports p keepDocs exports_).topBindings p).map Prod.fst) := by
  let b := ofExports p keepDocs exports_
  obtain ⟨imports, exportStatements, namespaces, hlaid⟩ :=
    exists_laidOut_ofExports p keepDocs exports_
  have himports : (imports.map some).flatMap b.tree.arena.boundNames =
      (Build.importGroups b.collection b.naming).flatMap Build.ImportGroup.names := by
    rw [List.flatMap_map]
    exact hlaid.imports
  have hdeclarations :
    (((b.collection.kept.filter (! b.plan.isMoved ·)).flatMap b.tree.statementsOf).map some).flatMap
      b.tree.arena.boundNames = b.declarationBindings.map Prod.fst := by
    rw [declarationBindings, List.flatMap_map, List.flatMap_assoc, List.map_flatMap]
    refine List.flatMap_congr fun id _ => ?_
    rw [List.map_flatMap]
    refine List.flatMap_congr fun s _ => ?_
    rw [List.map_map]
    exact (List.map_id _).symm
  have hexports : (exportStatements.map some).flatMap b.tree.arena.boundNames =
      (b.aliasBindings p).map Prod.fst := by
    rw [List.flatMap_map, aliasBindings, map_fst_aliases]
    exact hlaid.exports_
  have hnamespaces : (namespaces.map some).flatMap b.tree.arena.boundNames =
      b.namespaceBindings.map Prod.fst := by
    rw [List.flatMap_map, namespaceBindings, List.map_filterMap]
    refine Eq.trans hlaid.namespaces (List.filterMap_congr fun n _ => ?_)
    cases b.naming.nameOf? n.module <;> rfl
  have hgroups : ((Build.importGroups b.collection b.naming).flatMap Build.ImportGroup.names).Perm
      (b.importBindings.map Prod.fst) := by
    refine (Build.names_importGroups b.collection b.naming).trans (List.Perm.of_eq ?_)
    rw [importBindings, List.map_filterMap]
    refine List.filterMap_congr fun i _ => ?_
    cases b.naming.nameOf? i.symbol <;> rfl
  have hnames :
    b.topNames = (Build.importGroups b.collection b.naming).flatMap Build.ImportGroup.names ++
      b.declarationBindings.map Prod.fst ++ (b.aliasBindings p).map Prod.fst ++
        b.namespaceBindings.map Prod.fst := by
    rw [topNames, hlaid.statements_eq, List.map_append, List.map_append, List.map_append,
      List.flatMap_append, List.flatMap_append, List.flatMap_append, himports, hdeclarations,
      hexports, hnamespaces]
  have hbindings : (b.topBindings p).map Prod.fst = b.importBindings.map Prod.fst ++
      b.declarationBindings.map Prod.fst ++ b.namespaceBindings.map Prod.fst ++
        (b.aliasBindings p).map Prod.fst := by
    simp only [topBindings, List.map_append, List.map_map]
    rfl
  show b.topNames.Perm ((b.topBindings p).map Prod.fst)
  rw [hnames, hbindings]
  simp only [List.append_assoc]
  refine hgroups.append (List.Perm.append_left _ ?_)
  exact List.perm_append_comm

/-! ## No name for two symbols -/

variable {p keepDocs exports_}

theorem nameOf?_of_mem_importBindings {b : Bundle} {name : String} {id : SymbolId}
    (h : (name, id) ∈ b.importBindings) : b.naming.nameOf? id = some name := by
  obtain ⟨i, -, hi⟩ := List.mem_filterMap.1 h
  obtain ⟨_, hname, heq⟩ := Option.map_eq_some_iff.1 hi
  cases heq
  exact hname

theorem nameOf?_of_mem_namespaceBindings {b : Bundle} {name : String} {id : SymbolId}
    (h : (name, id) ∈ b.namespaceBindings) : b.naming.nameOf? id = some name := by
  obtain ⟨n, -, hn⟩ := List.mem_filterMap.1 h
  obtain ⟨_, hname, heq⟩ := Option.map_eq_some_iff.1 hn
  cases heq
  exact hname

/-- Every kept declaration that is not moved has a final name. -/
theorem exists_nameOf? {id : SymbolId}
    (hkept : id ∈ (ofExports p keepDocs exports_).collection.kept)
    (hmoved : (ofExports p keepDocs exports_).plan.isMoved id = false) :
    ∃ name, (ofExports p keepDocs exports_).naming.nameOf? id = some name := by
  obtain ⟨s, hs⟩ := Collecting.exists_symbol?_of_kept hkept
  have hdeclaration : (id, preferredName s.name) ∈
      (ofExports p keepDocs exports_).collection.kept.filterMap fun id =>
      if (ofExports p keepDocs exports_).plan.isMoved id then none
      else (p.symbol? id).map fun s => (id, preferredName s.name) := by
    refine List.mem_filterMap.2 ⟨id, hkept, ?_⟩
    rw [hmoved, hs]
    rfl
  exact Naming.nameOf?_ofPlan (List.mem_append_left _ (List.mem_append_left _ hdeclaration))

theorem nameOf?_of_mem_declarationBindings {name : String} {id : SymbolId}
    (h : (name, id) ∈ (ofExports p keepDocs exports_).declarationBindings) :
    (ofExports p keepDocs exports_).naming.nameOf? id = some name := by
  obtain ⟨owner, howner, h⟩ := List.mem_flatMap.1 h
  obtain ⟨s, hs, h⟩ := List.mem_flatMap.1 h
  obtain ⟨text, htext, heq⟩ := List.mem_map.1 h
  obtain rfl : text = name := congrArg Prod.fst heq
  obtain rfl : owner = id := congrArg Prod.snd heq
  obtain ⟨hkept, hmoved⟩ := List.mem_filter.1 howner
  have hmoved : (ofExports p keepDocs exports_).plan.isMoved owner = false := by simpa using hmoved
  obtain ⟨imports, exportStatements, namespaces, hlaid⟩ :=
    exists_laidOut_ofExports p keepDocs exports_
  obtain ⟨name', hname⟩ := exists_nameOf? hkept hmoved
  have hdeclared := (Build.declaredName?_of_unmoved hmoved).trans hname
  rw [hlaid.declarations owner hkept name' hdeclared s hs text htext, hname]

/-- What a symbol binds is its final name. -/
theorem nameOf?_of_mem_topBindings {name : String} {id : SymbolId}
    (h : (name, .symbol id) ∈ (ofExports p keepDocs exports_).topBindings p) :
    (ofExports p keepDocs exports_).naming.nameOf? id = some name := by
  rcases List.mem_append.1 h with h | h
  · obtain ⟨binding, hbinding, heq⟩ := List.mem_map.1 h
    cases heq
    rcases List.mem_append.1 hbinding with hbinding | hbinding
    · rcases List.mem_append.1 hbinding with hbinding | hbinding
      · exact nameOf?_of_mem_importBindings hbinding
      · exact nameOf?_of_mem_declarationBindings hbinding
    · exact nameOf?_of_mem_namespaceBindings hbinding
  · obtain ⟨binding, -, heq⟩ := List.mem_map.1 h
    cases heq

/-- The export at a position has the name that is declared for it. -/
theorem name_of_mem_topBindings {b : Bundle} {name : String} {position : Nat}
    (h : (name, .exported position) ∈ b.topBindings p) :
    (b.plan.exports_.map PlannedExport.name)[position]? = some name := by
  rcases List.mem_append.1 h with h | h
  · obtain ⟨binding, -, heq⟩ := List.mem_map.1 h
    cases heq
  · obtain ⟨⟨name', position'⟩, hbinding, heq⟩ := List.mem_map.1 h
    cases heq
    obtain ⟨⟨planned, position'⟩, hplanned, hname⟩ := List.mem_filterMap.1 hbinding
    obtain ⟨name', halias, heq⟩ := Option.map_eq_some_iff.1 hname
    cases heq
    obtain ⟨text, -, htext⟩ := Option.bind_eq_some_iff.1 halias
    have hname : planned.name = name := by
      unfold Build.aliasName? at htext
      split at htext
      · exact Option.some.inj htext
      · cases htext
    rw [List.getElem?_map, List.mem_zipIdx_iff_getElem?.1 hplanned]
    exact congrArg some hname

/-- Exports have different names, so at most one of them declares a name. -/
theorem position_unique {module : SymbolId} {name : String} {i j : Nat}
    (hi : (name, .exported i) ∈ (ofExports p keepDocs (p.exportsOf module)).topBindings p)
    (hj : (name, .exported j) ∈ (ofExports p keepDocs (p.exportsOf module)).topBindings p) :
    i = j := by
  have hnames : (ofExports p keepDocs (p.exportsOf module)).plan.exports_.map PlannedExport.name =
      (p.exportsOf module).map ModuleExport.name := by
    show (p.plan (p.exportsOf module) _).exports_.map PlannedExport.name = _
    rw [Planning.exports_plan, List.map_map]
    rfl
  have hi := name_of_mem_topBindings hi
  have hj := name_of_mem_topBindings hj
  rw [hnames] at hi hj
  obtain ⟨hlt, -⟩ := List.getElem?_eq_some_iff.1 hi
  exact (List.getElem?_inj hlt (p.nodup_exportsOf module)).1 (hi.trans hj.symm)

/-- The names that are bound at the top level of a bundle are those of imports, declarations,
namespaces and exports of dotted names. A name is bound for one thing only, exactly when no export
of a dotted name is called like an import, a declaration or a namespace. -/
theorem top_names_unique_iff (p : Project) (keepDocs : Bool) (module : SymbolId) :
    (ofExports p keepDocs (p.exportsOf module)).topNames.Perm
        (((ofExports p keepDocs (p.exportsOf module)).topBindings p).map Prod.fst) ∧
      ((∀ name x y, (name, x) ∈ (ofExports p keepDocs (p.exportsOf module)).topBindings p →
          (name, y) ∈ (ofExports p keepDocs (p.exportsOf module)).topBindings p → x = y) ↔
        ∀ name position,
          (name, .exported position) ∈ (ofExports p keepDocs (p.exportsOf module)).topBindings p →
          ∀ id,
            (name, .symbol id) ∉ (ofExports p keepDocs (p.exportsOf module)).topBindings p) := by
  refine ⟨topNames_perm p keepDocs _, ?_, ?_⟩
  · intro hunique name position hposition id hid
    cases hunique name _ _ hposition hid
  · intro hdifferent name x y hx hy
    cases x with
    | symbol id =>
      cases y with
      | symbol id' =>
        exact congrArg _
          (Naming.ofPlan_injective (nameOf?_of_mem_topBindings hx) (nameOf?_of_mem_topBindings hy))
      | exported j => exact absurd hx (hdifferent name j hy id)
    | exported i =>
      cases y with
      | symbol id => exact absurd hy (hdifferent name i hx id)
      | exported j => exact congrArg _ (position_unique hx hy)

/-- A module that exports a member of a namespace under the name of an interface that it keeps. -/
def clashingModule : String :=
  "interface X \x7b\x7d\nnamespace N \x7b export interface F \x7b\x7d \x7d\nimport Q = N.F;\n" ++
    "export \x7b Q as X \x7d;\nexport type Z = X;\n"

set_option maxRecDepth 1000000 in
theorem topBindings_clashingModule :
    ((Project.ofFiles "/a.ts" [("/a.ts", clashingModule)]).toOption.bind fun p =>
      (p.bundle true).toOption.map fun b => (b.topBindings p).filter (·.1 == "X")) =
      some [("X", .symbol ⟨1⟩), ("X", .exported 0)] :=
  Project.bind_ofFiles (by decide) Text.toList_ofList_append (by decide +kernel)

/-- In the bundle of this module `X` is the name of the interface and of the export. -/
theorem exists_clashing_top_name :
    ∃ p b, Project.ofFiles "/a.ts" [("/a.ts", clashingModule)] = .ok p ∧ p.bundle true = .ok b ∧
      ("X", .symbol ⟨1⟩) ∈ b.topBindings p ∧ ("X", .exported 0) ∈ b.topBindings p := by
  have h := topBindings_clashingModule
  cases hp : Project.ofFiles "/a.ts" [("/a.ts", clashingModule)] with
  | error e => simp [hp, Except.toOption] at h
  | ok p =>
    cases hb : p.bundle true with
    | error e => simp [hp, hb, Except.toOption] at h
    | ok b =>
      simp only [hp, hb, Except.toOption, Option.bind_some, Option.map_some, Option.some.injEq] at h
      have hmem : ∀ x ∈ [("X", TopBinder.symbol ⟨1⟩), ("X", .exported 0)], x ∈ b.topBindings p := by
        intro x hx
        rw [← h] at hx
        exact (List.mem_filter.1 hx).1
      exact ⟨p, b, rfl, hb, hmem _ (by simp), hmem _ (by simp)⟩

end Bundle

end DeclBundle
