import DeclBundle.Proofs.DottedNames
import DeclBundle.Proofs.PlanInvariants
import DeclBundle.Proofs.Settling
import DeclBundle.Proofs.SingleFiles

/-!
# What a bundle exposes

`Arena.exposures` reads from a statement of the finished tree what it exposes, each name with the
text of what it stands for: the specifiers of an export, the value of an export assignment, or
another name for a dotted name. Imports, declarations and namespaces expose nothing in this way, and
the statements of exports expose each planned export once, if there is a text for it
(`Bundle.exposures_perm`).
-/

set_option autoImplicit false

namespace DeclBundle

/-! ## Reading exports -/

namespace Arena

/-- What a specifier of an export exposes: its name, with the name of what it stands for. -/
def specifierExposes? (a : Arena) (specifier : Slot) : Option (String × String) :=
  match a.form? specifier with
  | some (.exportSpecifier _ propertyName name) =>
    (a.identifier? name).map fun exported => (exported, (a.identifier? propertyName).getD exported)
  | _ => none

/-- What a statement exposes: names, each with the text of what it stands for. -/
def exposures (a : Arena) (statement : Slot) : List (String × String) :=
  match a.form? statement with
  | some (.exportDeclaration _ clause _) =>
    match a.form? clause with
    | some (.namedExports specifiers) => specifiers.filterMap a.specifierExposes?
    | _ => []
  | some (.exportAssignment isEquals value) =>
    [(if isEquals then "export=" else "default", a.dottedText value)]
  | some (.importEquals modifiers _ name reference) =>
    if modifiers.contains .export_ then
      ((a.identifier? name).map (·, a.dottedText reference)).toList else []
  | _ => []

end Arena

/-- The form exposes names. -/
def Form.isExposing : Form Slot → Bool
  | .exportDeclaration .. | .exportAssignment .. | .importEquals .. => true
  | _ => false

theorem Form.isExposing_withModifiers (form : Form Slot) (ms : Modifiers) :
    (form.withModifiers ms).isExposing = form.isExposing := by
  cases form <;> rfl

theorem Form.isExposing_of_isDeclaration {form : Form Slot} (h : form.isDeclaration = true) :
    form.isExposing = false := by
  cases form <;> first
    | rfl
    | cases h

theorem Arena.exposures_of_form? {a : Arena} {slot : Slot} {form : Form Slot}
    (h : a.form? slot = some form) (hform : form.isExposing = false) : a.exposures slot = [] := by
  rw [exposures, h]
  cases form <;> first
    | rfl
    | cases hform

namespace Build

/-! ## Statements that expose nothing -/

theorem adds_importStatement_exposures (specifier : String) (name bindings : Slot) :
    Adds (importStatement specifier name bindings) fun s a => a.exposures (some s) = [] := by
  refine adds_bind (adds_add _) fun clause => adds_bind (adds_add _) fun specifierNode => ?_
  exact (adds_add _).imp fun s a hs _ _ => Arena.exposures_of_form? hs rfl

/-- The statements expose nothing. -/
def ExposeNothing (statements : List NodeId) (a : Arena) : Prop :=
  ∀ s ∈ statements, a.exposures (some s) = []

theorem exposeNothing_nil (a : Arena) : ExposeNothing [] a := fun _ h => absurd h List.not_mem_nil

theorem exposeNothing_singleton {s : NodeId} {a : Arena} (h : a.exposures (some s) = []) :
    ExposeNothing [s] a := by
  intro other hother
  obtain rfl := List.mem_singleton.1 hother
  exact h

theorem ExposeNothing.append {ss ss' : List NodeId} {a : Arena} (h : ExposeNothing ss a)
    (h' : ExposeNothing ss' a) :
    ExposeNothing (ss ++ ss') a := by
  intro s hs
  rcases List.mem_append.1 hs with hs | hs
  · exact h s hs
  · exact h' s hs

/-- What each step exposes nothing for exposes nothing together. -/
theorem exposeNothing_of_forall₂ {β γ : Type} (statementsOf : γ → List NodeId) {xs : List β}
    {ys : List γ} {a : Arena}
    (h : List.Forall₂ (fun _ y => ExposeNothing (statementsOf y) a) xs ys) :
    ExposeNothing (ys.flatMap statementsOf) a := by
  induction h with
  | nil => exact exposeNothing_nil a
  | cons hhead _ ih => exact hhead.append ih

theorem adds_namedImport_exposures (specifier : String) (default : Slot) (named : List NodeId) :
    Adds (namedImport specifier default named) ExposeNothing := by
  unfold namedImport
  split
  · refine adds_bind (adds_namedBindings named) fun bindings => ?_
    refine adds_bind (adds_importStatement_exposures _ _ _) fun s => adds_pure fun a hs _ =>
      exposeNothing_singleton hs
  · exact adds_pure exposeNothing_nil

theorem adds_moduleImport_exposures (specifier localName : String) :
    Adds (moduleImport specifier localName) fun s a => ExposeNothing [s] a := by
  refine adds_bind (adds_identifier localName) fun name => adds_bind (adds_add _) fun bindings => ?_
  exact (adds_importStatement_exposures _ _ _).imp fun s a hs _ _ => exposeNothing_singleton hs

theorem adds_importStatements_exposures (g : ImportGroup) :
    Adds (importStatements g) ExposeNothing := by
  refine adds_bind (adds_default g.default) fun default =>
    adds_bind (adds_named g.named) fun named => ?_
  refine adds_bind (adds_namedImport_exposures g.specifier default named) fun first => ?_
  refine adds_bind (adds_mapM fun name _ => adds_moduleImport_exposures g.specifier name)
    fun others => ?_
  refine adds_pure fun a hothers hfirst _ _ => hfirst.append ?_
  have h := exposeNothing_of_forall₂ (fun s => [s]) hothers
  rwa [List.flatMap_singleton'] at h

variable (p : Project) (collection : Collection) (plan : Plan) (naming : Naming)

theorem adds_imports_exposures : Adds (imports collection naming) ExposeNothing := by
  refine adds_bind (adds_mapM fun g _ => adds_importStatements_exposures g) fun statements =>
    adds_pure fun a h => ?_
  have hall := exposeNothing_of_forall₂ id h
  rwa [List.flatMap_id] at hall

/-- The statements are namespaces. -/
def AreNamespaces (statements : List NodeId) (a : Arena) : Prop :=
  ∀ s ∈ statements, ∃ modifiers name block,
    a.form? (some s) = some (.moduleDeclaration modifiers .namespace_ name block)

theorem areNamespaces_nil (a : Arena) : AreNamespaces [] a := fun _ h => absurd h List.not_mem_nil

theorem adds_namespaceStatement_form (depth : Nat) (isTop : Bool) (name : String)
    (module : SymbolId) :
    Adds (namespaceStatement p plan naming depth isTop name module) fun statement a =>
      AreNamespaces statement.toList a := by
  cases depth with
  | zero => exact adds_pure areNamespaces_nil
  | succ depth =>
    unfold namespaceStatement
    split
    · exact adds_pure areNamespaces_nil
    · next n _ =>
      have hinner : ∀ name module,
          Adds (namespaceStatement p plan naming depth false name module) fun _ _ => True :=
        fun name module =>
          (adds_namespaceStatement p plan naming depth false name module).imp fun _ _ _ => trivial
      refine adds_bind (adds_mapM fun m _ => adds_memberStatements p naming hinner m.1 m.2)
        fun bodies => ?_
      refine adds_bind (adds_filterMapM fun m _ => adds_memberSpecifier? p naming m.1 m.2)
        fun reexposed => ?_
      refine adds_bind (adds_memberList reexposed) fun list =>
        adds_bind (adds_identifier name) fun nameNode => ?_
      refine adds_bind (adds_add _) fun block => adds_bind (adds_add _) fun s =>
        adds_pure fun a hs _ _ _ _ _ => ?_
      intro other hother
      obtain rfl := List.mem_singleton.1 hother
      exact ⟨_, _, _, hs⟩

theorem adds_namespaceStatements_form : Adds (namespaceStatements p plan naming) AreNamespaces := by
  have htop : ∀ n : PlannedNamespace, Adds (topNamespace? p plan naming n) fun statement a =>
      AreNamespaces statement.toList a := by
    intro n
    unfold topNamespace?
    split
    · exact adds_namespaceStatement_form p plan naming _ true _ _
    · exact adds_pure areNamespaces_nil
  refine (adds_filterMapM fun n _ => htop n).imp fun statements a => ?_
  rintro ⟨made, hmade, rfl⟩ s hs
  obtain ⟨statement, hstatement, hs⟩ := List.mem_filterMap.1 hs
  obtain ⟨n, -, hnamespaces⟩ := exists_of_forall₂ hmade.flip hstatement
  exact hnamespaces s (Option.mem_toList.2 hs)

theorem adds_namespaceStatements_exposures :
    Adds (namespaceStatements p plan naming) ExposeNothing := by
  refine (adds_namespaceStatements_form p plan naming).imp fun statements a h s hs => ?_
  obtain ⟨_, _, _, hform⟩ := h s hs
  exact Arena.exposures_of_form? hform rfl

/-! ## Statements of exports -/

theorem adds_frontName_getD (first second : String) :
    Adds (frontName first second) fun slot a => (a.identifier? slot).getD second = first := by
  unfold frontName
  split
  · next h => exact adds_pure fun a => (beq_iff_eq.1 h).symm
  · exact adds_map
      ((adds_identifier first).imp fun n a hn => by rw [Arena.identifier?_of_form? hn]; rfl)

theorem adds_exportSpecifier_exposes (localName exported : String) :
    Adds (exportSpecifier localName exported) fun s a =>
      a.specifierExposes? (some s) = some (exported, localName) := by
  refine adds_bind (adds_frontName_getD localName exported) fun propertyName => ?_
  refine adds_bind (adds_identifier exported) fun name =>
    (adds_add _).imp fun s a hs hname hfront => ?_
  rw [Arena.specifierExposes?, hs]
  dsimp only
  rw [Arena.identifier?_of_form? hname, Option.map_some, hfront]

theorem adds_exportedAlias_exposures (name text : String) :
    Adds (exportedAlias name text) fun s a => a.exposures (some s) = [(name, text)] := by
  refine adds_bind (adds_identifier name) fun nameNode =>
    adds_bind (adds_dottedName_text text) fun reference => ?_
  refine (adds_add _).imp fun s a hs htext hname => ?_
  have hexported : (FlagSet.single Modifier.export_).contains .export_ = true := by decide
  rw [Arena.exposures, hs]
  dsimp only
  rw [if_pos hexported, Arena.identifier?_of_form? hname, htext]
  rfl

theorem exposures_exportAssignment {a : Arena} {s value : NodeId} {isEquals : Bool} {text : String}
    (hs : a.form? (some s) = some (.exportAssignment isEquals (some value)))
    (htext : a.dottedText (some value) = text) :
    a.exposures (some s) = [(if isEquals then "export=" else "default", text)] := by
  rw [Arena.exposures, hs]
  dsimp only
  rw [htext]

/-- What the statements of exports so far expose. -/
def ExportStatements.exposed (e : ExportStatements) (a : Arena) : List (String × String) :=
  e.specifiers.filterMap (fun s => a.specifierExposes? (some s)) ++
    e.statements.flatMap (fun s => a.exposures (some s)) ++
    e.whole.toList.flatMap fun s => a.exposures (some s)

/-- The statements expose one thing more, and there is one export assignment of the whole module at
most. -/
def ExportStatements.ExposeMore (e e' : ExportStatements) (name text : String) (a : Arena) : Prop :=
  (name = "export=" → e.whole = none) →
    (e'.whole.isSome = true → e.whole.isSome = true ∨ name = "export=") ∧
    (e'.exposed a).Perm (e.exposed a ++ [(name, text)])

theorem adds_exportStatement_exposes (e : ExportStatements) (name text : String) :
    Adds (exportStatement e name text) fun e' a => e.ExposeMore e' name text a := by
  unfold exportStatement
  split
  · next hname =>
    obtain rfl : name = "export=" := beq_iff_eq.1 hname
    refine adds_bind (adds_dottedName_text text) fun value => adds_bind (adds_add _) fun s => ?_
    refine adds_pure fun a hs htext hnone => ⟨fun _ => .inr rfl, ?_⟩
    have hexposes := exposures_exportAssignment hs htext
    simp only [ExportStatements.exposed, hnone rfl, Option.toList_none, Option.toList_some,
      List.flatMap_nil, List.flatMap_singleton, List.append_nil, hexposes]
    exact .refl _
  · split
    · refine adds_bind (adds_exportSpecifier_exposes _ _) fun s =>
        adds_pure fun a hs _ => ⟨.inl, ?_⟩
      have hspecifiers : (e.specifiers ++ [s]).filterMap (fun s => a.specifierExposes? (some s)) =
          e.specifiers.filterMap (fun s => a.specifierExposes? (some s)) ++ [(name, text)] := by
        simp [List.filterMap_append, hs]
      simp only [ExportStatements.exposed, hspecifiers, List.append_assoc]
      refine List.Perm.append_left _ (List.perm_append_comm.trans ?_)
      rw [List.append_assoc]
    · split
      · next hname =>
        obtain rfl : name = "default" := beq_iff_eq.1 hname
        refine adds_bind (adds_dottedName_text text) fun value => adds_bind (adds_add _) fun s => ?_
        refine adds_pure fun a hs htext _ => ⟨.inl, ?_⟩
        have hexposes := exposures_exportAssignment hs htext
        simp only [ExportStatements.exposed, List.flatMap_append, List.flatMap_singleton, hexposes,
          List.append_assoc]
        exact ((List.perm_append_comm.append_left _).append_left _)
      · refine adds_bind (adds_exportedAlias_exposures name text) fun s =>
          adds_pure fun a hs _ => ⟨.inl, ?_⟩
        simp only [ExportStatements.exposed, List.flatMap_append, List.flatMap_singleton, hs,
          List.append_assoc]
        exact ((List.perm_append_comm.append_left _).append_left _)

/-- What a planned export should expose: its name, with the text of what it stands for, if there is
one. -/
def exposure? (planned : PlannedExport) : Option (String × String) :=
  ((exposedSymbol? planned.outcome).bind (naming.textOf? p)).map (planned.name, ·)

theorem adds_plannedExport_exposes (e : ExportStatements) (planned : PlannedExport) :
    Adds (plannedExport p naming e planned) fun e' a =>
      (planned.name = "export=" → e.whole = none) →
      (e'.whole.isSome = true → e.whole.isSome = true ∨ planned.name = "export=") ∧
        (e'.exposed a).Perm (e.exposed a ++ (exposure? p naming planned).toList) := by
  unfold plannedExport exposure?
  cases (exposedSymbol? planned.outcome).bind (naming.textOf? p) with
  | none => exact adds_pure fun a _ => ⟨.inl, by simp⟩
  | some text => exact adds_exportStatement_exposes e planned.name text

/-- Exports with different names expose one thing each. -/
theorem adds_plannedExports_exposes {planned : List PlannedExport}
    (hnames : (planned.map PlannedExport.name).Nodup) (e : ExportStatements) :
    Adds (planned.foldlM (plannedExport p naming) e) fun e' a =>
      ("export=" ∈ planned.map PlannedExport.name → e.whole = none) →
        (e'.exposed a).Perm (e.exposed a ++ planned.filterMap (exposure? p naming)) := by
  induction planned generalizing e with
  | nil => exact adds_pure fun a _ => by simp
  | cons first rest ih =>
    rw [List.map_cons, List.nodup_cons] at hnames
    rw [List.foldlM_cons]
    refine adds_bind (adds_plannedExport_exposes p naming e first) fun e₁ => ?_
    refine (ih hnames.2 e₁).imp fun e₂ a hrest hfirst hnone => ?_
    obtain ⟨hwhole, hexposes⟩ := hfirst fun hname => hnone (hname ▸ List.mem_cons_self)
    have hnone₁ : "export=" ∈ rest.map PlannedExport.name → e₁.whole = none := by
      intro hmem
      by_contra hsome
      rcases hwhole (Option.isSome_iff_ne_none.2 hsome) with hwhole | hname
      · rw [hnone (List.mem_cons_of_mem _ hmem)] at hwhole
        cases hwhole
      · exact hnames.1 (hname ▸ hmem)
    have happend : (first :: rest).filterMap (exposure? p naming) =
        (exposure? p naming first).toList ++ rest.filterMap (exposure? p naming) := by
      rw [List.filterMap_cons]
      cases exposure? p naming first <;> rfl
    rw [happend, ← List.append_assoc]
    exact (hrest hnone₁).trans (hexposes.append_right _)

theorem adds_exportList_exposures (specifiers : List NodeId) :
    Adds (exportList specifiers) fun s a =>
      a.exposures (some s) = specifiers.filterMap fun s => a.specifierExposes? (some s) := by
  refine adds_bind (adds_add _) fun clause => (adds_add _).imp fun s a hs hclause => ?_
  rw [Arena.exposures, hs]
  dsimp only
  rw [hclause]
  dsimp only
  rw [List.filterMap_map]
  rfl

/-- The statements of exports expose all planned exports for which there is a text. -/
theorem adds_exportStatements_exposures (hnames : (plan.exports_.map PlannedExport.name).Nodup) :
    Adds (exportStatements p plan naming) fun statements a =>
      (statements.flatMap fun s => a.exposures (some s)).Perm
        (plan.exports_.filterMap (exposure? p naming)) := by
  refine adds_bind (adds_plannedExports_exposes p naming hnames {}) fun e => ?_
  refine adds_bind (Q := fun list a => (list.flatMap fun s => a.exposures (some s)) =
    e.specifiers.filterMap fun s => a.specifierExposes? (some s)) ?_ fun list =>
      adds_pure fun a hlist hall => ?_
  · unfold exportListOf
    split
    · refine adds_bind (adds_exportList_exposures e.specifiers) fun s => adds_pure fun a hs => ?_
      rw [List.flatMap_singleton, hs]
    · next hempty =>
      have hnil : e.specifiers = [] := by
        simp only [Bool.or_eq_true, not_or, Bool.not_eq_true, Bool.not_eq_false',
          List.isEmpty_iff] at hempty
        exact hempty.1
      rw [hnil]
      exact adds_pure fun a => rfl
  · rw [List.flatMap_append, List.flatMap_append, hlist]
    exact hall fun _ => rfl

end Build

/-! ## Declarations expose nothing -/

/-- No copied statement exposes anything. -/
def BundleTree.HidesStatements (t : BundleTree) : Prop :=
  ∀ id, ∀ s ∈ t.statementsOf id, ∃ form, t.arena.form? (some s) = some form ∧
    form.isExposing = false

namespace Build

/-- Nodes that expose nothing still do so. -/
def Hides (t t' : BundleTree) : Prop :=
  ∀ n form, t.arena.form? (some n) = some form → form.isExposing = false →
    ∃ form', t'.arena.form? (some n) = some form' ∧ form'.isExposing = false

variable {t t' t'' : BundleTree}

theorem Hides.refl (t : BundleTree) : Hides t t := fun _ form hform h => ⟨form, hform, h⟩

theorem Hides.trans (h : Hides t t') (h' : Hides t' t'') : Hides t t'' := by
  intro n form hform hhidden
  obtain ⟨form', hform', hhidden'⟩ := h n form hform hhidden
  exact h' n form' hform' hhidden'

theorem hides_of_extends (h : t.arena.Extends t'.arena) : Hides t t' :=
  fun _ form hform hhidden => ⟨form, h _ _ hform, hhidden⟩

/-- A node is replaced that exposed something before, or that does not do so afterwards. -/
theorem hides_replace {n : NodeId} {form : Form Slot}
    (h : ∀ old, t.arena.form? (some n) = some old →
    old.isExposing = false → form.isExposing = false) : Hides t ((replace n form).run t).2 := by
  intro m old hold hhidden
  show ∃ form', (t.arena.replace (some n) form).form? (some m) = some form' ∧
    form'.isExposing = false
  by_cases hmn : m = n
  · subst hmn
    refine ⟨form, ?_, h old hold hhidden⟩
    rw [Arena.form?_replace (Arena.lt_size_of_form? hold), if_pos rfl]
  · refine ⟨old, ?_, hhidden⟩
    rw [Arena.form?_replace_of_ne (fun heq => hmn (Option.some.inj heq)), hold]

theorem isExposing_of_isName {n : NodeId} {a : Arena} {form : Form Slot} (h : IsName n a)
    (hform : a.form? (some n) = some form) : form.isExposing = false := by
  rcases h with ⟨text, h⟩ | ⟨left, right, h⟩
  · obtain rfl := Option.some.inj (hform.symm.trans h)
    rfl
  · obtain rfl := Option.some.inj (hform.symm.trans h)
    rfl

theorem hides_setDottedName (node : NodeId) (text : String) (t : BundleTree) :
    Hides t ((setDottedName node text).run t).2 := by
  obtain ⟨hext, -, hname⟩ := adds_dottedName text t
  obtain ⟨form, hform, heq⟩ := exists_form_setDottedName node text t
  rw [heq]
  exact (hides_of_extends hext).trans
    (hides_replace fun _ _ _ => isExposing_of_isName (hname _ (.refl _)) hform)

theorem hides_nameImportType (node : NodeId) (text : String) (depth : Nat) (t : BundleTree) :
    Hides t ((nameImportType node text depth).run t).2 := by
  obtain heq | ⟨isTypeof, argument, qualifier, typeArguments, hform⟩ :=
    nameImportType_cases node text depth t
  · rw [heq]
    exact .refl t
  · rw [run_nameImportType hform]
    refine (hides_of_extends (adds_dottedName _ t).1).trans (hides_replace fun _ _ _ => ?_)
    split <;> rfl

variable {p : Project} {collection : Collection} {plan : Plan} {naming : Naming}
  {copied : BundleTree}

/-- Settling exposes nothing new. -/
theorem SettleStep.hides (h : SettleStep p collection plan naming copied t t') : Hides t t' := by
  cases h with
  | name hentry hr htext hcopy =>
    unfold nameCopy
    split
    · exact hides_setDottedName _ _ t
    · exact hides_setDottedName _ _ t
    · exact hides_nameImportType _ _ _ t
  | rename hname hs hn hform => exact hides_replace fun _ _ _ => rfl
  | @modify _ form hform ms =>
    refine hides_replace fun old hold hhidden => ?_
    obtain rfl := Option.some.inj (hform.symm.trans hold)
    rw [Form.isExposing_withModifiers]
    exact hhidden

theorem hides_settle (hcopied : copied.NamesApart) :
    Hides copied ((settle p collection plan naming).run copied).2 := by
  have hsteps : ∀ t', SettleSteps p collection plan naming copied copied t' → Hides copied t' := by
    intro t' h
    induction h with
    | refl => exact .refl _
    | tail _ hstep ih => exact ih.trans hstep.hides
  exact hsteps _ (settles_settle hcopied copied (.refl copied))

theorem hides_implyType (p : Project) (node : NodeId) (t : BundleTree) :
    Hides t ((implyType p node).run t).2 := by
  obtain ⟨-, heq⟩ | ⟨keyword, form, form', -, hform, hform', heq⟩ := implyType_cases p node t
  · rw [heq]
    exact .refl t
  · rw [heq]
    refine (hides_of_extends (adds_add (.keywordType keyword) t).1).trans
      (hides_replace fun _ _ _ => ?_)
    unfold withImpliedType at hform'
    split at hform' <;> cases hform' <;> rfl

theorem hidesStatements_copySymbol (p : Project) (id : SymbolId) {t : BundleTree}
    (h : t.HidesStatements) :
    ((copySymbol p id).run t).2.HidesStatements := by
  let refs := p.writtenDeclarations id
  let made := ((copyDeclarations p refs).run t).1
  let t₁ : BundleTree := ((copyDeclarations p refs).run t).2
  have hwritten : ∀ ref ∈ refs, p.isWritten ref = true := fun ref href => (List.mem_filter.1 href).2
  have hstatements : t₁.statements = t.statements :=
    (makes_copyDeclarations p refs t (Nat.le_refl _)
      (Nat.le_refl _) t.arena.closedFrom_size).1.statements_eq
  intro id' s hs
  have hs : s ∈ (((t₁.statements.set id made).get? id').getD []) := hs
  rw [Table.get?_set] at hs
  split at hs
  · obtain ⟨form, hform, hdecl⟩ := isDeclared_copyDeclarations p hwritten t hs
    exact ⟨form, hform, Form.isExposing_of_isDeclaration hdecl⟩
  · rw [hstatements] at hs
    obtain ⟨form, hform, hhidden⟩ := h id' s hs
    exact ⟨form, extends_copyDeclarations p refs t _ _ hform, hhidden⟩

/-- In the tree of copies no statement exposes anything. -/
theorem hidesStatements_ofCollection (p : Project) (collection : Collection) :
    (BundleTree.ofCollection p collection).HidesStatements := by
  have hcopied : ∀ (kept : List SymbolId) (t : BundleTree), t.HidesStatements →
      ((kept.forM (copySymbol p)).run t).2.HidesStatements := by
    intro kept
    induction kept with
    | nil => exact fun _ h => h
    | cons id kept ih => exact fun t h => ih _ (hidesStatements_copySymbol p id h)
  have hfilled : ∀ (indices : List Nat) (t : BundleTree),
      Hides t ((indices.forM fun index => implyType p ⟨index⟩).run t).2 ∧
        ((indices.forM fun index => implyType p ⟨index⟩).run t).2.statements = t.statements := by
    intro indices
    induction indices with
    | nil => exact fun t => ⟨.refl t, rfl⟩
    | cons index rest ih =>
      intro t
      obtain ⟨hhides, hstatements⟩ := ih ((implyType p ⟨index⟩).run t).2
      exact ⟨(hides_implyType p ⟨index⟩ t).trans hhides,
        hstatements.trans (narrows_implyType p ⟨index⟩ t).statements_eq⟩
  have hstart : BundleTree.HidesStatements {} := fun _ _ h => by cases h
  -- copying makes the statements, and filling in types leaves them as they are
  intro id s hs
  obtain ⟨hhides, hstatements⟩ :=
    hfilled (List.range ((collection.kept.forM (copySymbol p)).run {}).2.arena.size)
    ((collection.kept.forM (copySymbol p)).run {}).2
  have hs : s ∈ (((collection.kept.forM (copySymbol p)).run {}).2).statementsOf id := by
    rw [BundleTree.statementsOf, ← hstatements]
    exact hs
  obtain ⟨form, hform, hhidden⟩ := hcopied collection.kept {} hstart id s hs
  exact hhides s form hform hhidden

end Build

namespace Bundle

/-- What the statements of a bundle expose: names, each with the text of what it stands for. -/
def exposures (b : Bundle) : List (String × String) :=
  (Print.statementsOf b.tree.arena (some b.root)).flatMap b.tree.arena.exposures

/-- A bundle is made of the exports of the entry. -/
theorem exists_of_bundle {p : Project} {keepDocs : Bool} {b : Bundle}
    (h : p.bundle keepDocs = .ok b) :
    ∃ module, ofExports p keepDocs (p.exportsOf module) = b := by
  unfold Project.bundle at h
  split at h
  · cases h
  · split at h
    · cases h
    · next module _ => exact ⟨module, Except.ok.inj h⟩

variable (p : Project) (keepDocs : Bool)

/-- The exports of a module have different names when they are planned. -/
theorem nodup_planned (module : SymbolId) :
    ((ofExports p keepDocs (p.exportsOf module)).plan.exports_.map PlannedExport.name).Nodup := by
  have hnames :
    (p.plan (p.exportsOf module) (p.collect (p.exportsOf module))).exports_.map PlannedExport.name =
      (p.exportsOf module).map ModuleExport.name := by
    rw [Planning.exports_plan, List.map_map]
    rfl
  exact hnames ▸ p.nodup_exportsOf module

variable (exports_ : List ModuleExport)

/-- The tree of a bundle that is only settled. -/
def settledTree (b : Bundle) : BundleTree :=
  ((Build.settle p b.collection b.plan b.naming).run (.ofCollection p b.collection)).2

theorem exists_isLaidOut :
    ∃ imports exportStatements namespaces,
      Build.IsLaidOut p (ofExports p keepDocs exports_).collection
      (ofExports p keepDocs exports_).plan (ofExports p keepDocs exports_).naming
      (settledTree p (ofExports p keepDocs exports_)) (ofExports p keepDocs exports_).root
      (ofExports p keepDocs exports_).tree imports exportStatements namespaces :=
  Build.exists_isLaidOut p _ _ _ (fun _ h => Planning.contains_of_mem_topNamespaces p _ h) _

/-- The kept declarations of a bundle are none of the statements that expose something. -/
theorem exists_form_of_mem_settledTree {b : Bundle} {id : SymbolId} {s : NodeId}
    (hs : s ∈ (settledTree p b).statementsOf id) :
    ∃ form, (settledTree p b).arena.form? (some s) = some form ∧ form.isExposing = false := by
  have hcopied := Build.namesApart_ofCollection p b.collection
  have hsteps : Build.SettleSteps p b.collection b.plan b.naming (.ofCollection p b.collection)
      (.ofCollection p b.collection) (settledTree p b) := Build.settles_settle hcopied _ (.refl _)
  have hs : s ∈ (BundleTree.ofCollection p b.collection).statementsOf id := by
    rw [BundleTree.statementsOf, ← (Build.isSettling_of_steps hsteps (.refl _)).notes.statements_eq]
    exact hs
  obtain ⟨form, hform, hhidden⟩ := Build.hidesStatements_ofCollection p b.collection id s hs
  exact Build.hides_settle hcopied s form hform hhidden

/-- The kept declarations of a bundle expose nothing. -/
theorem exposures_declarations {b : Bundle} {id : SymbolId} {s : NodeId} {a : Arena}
    (hs : s ∈ (settledTree p b).statementsOf id) (ha : (settledTree p b).arena.Extends a) :
    a.exposures (some s) = [] := by
  obtain ⟨form, hform, hhidden⟩ := exists_form_of_mem_settledTree p hs
  exact Arena.exposures_of_form? (ha _ _ hform) hhidden

/-- A bundle exposes its planned exports that have a text, and nothing else. -/
theorem exposures_perm (module : SymbolId) :
    (ofExports p keepDocs (p.exportsOf module)).exposures.Perm
    ((ofExports p keepDocs (p.exportsOf module)).plan.exports_.filterMap
      (Build.exposure? p (ofExports p keepDocs (p.exportsOf module)).naming)) := by
  obtain ⟨imports, exportStatements, namespaces, h⟩ :=
    exists_isLaidOut p keepDocs (p.exportsOf module)
  have hnames := nodup_planned p keepDocs module
  generalize ofExports p keepDocs (p.exportsOf module) = b at *
  have himports := h.imports _ (Build.adds_imports_exposures _ _)
  have hexports := h.exports_ _ (Build.adds_exportStatements_exposures p b.plan b.naming hnames)
  have hnamespaces := h.namespaces _ (Build.adds_namespaceStatements_exposures _ _ _)
  have hdeclarations : Build.ExposeNothing ((b.collection.kept.filter (! b.plan.isMoved ·)).flatMap
      (settledTree p b).statementsOf) b.tree.arena := by
    intro s hs
    obtain ⟨id, -, hs⟩ := List.mem_flatMap.1 hs
    exact exposures_declarations p hs h.extends_
  have hnothing : ∀ statements : List NodeId, Build.ExposeNothing statements b.tree.arena →
      (statements.flatMap fun s => b.tree.arena.exposures (some s)) = [] :=
        fun statements hstatements =>
    List.flatMap_eq_nil_iff.2 hstatements
  have hall : b.exposures = exportStatements.flatMap fun s => b.tree.arena.exposures (some s) := by
    rw [exposures, Print.statementsOf, h.form_eq]
    dsimp only
    rw [List.flatMap_map, List.flatMap_append, List.flatMap_append, List.flatMap_append,
      hnothing _ himports, hnothing _ hdeclarations, hnothing _ hnamespaces, List.nil_append,
      List.nil_append, List.append_nil]
  rw [hall]
  exact hexports

/-- A module with an export whose name is in quotes, since it is no identifier. -/
def quotedExport : String := "interface X \x7b\x7d\nexport \x7b X as \x22a-b\x22 \x7d;\n"

/-- The text of its bundle. -/
def unquotedExport : String := "interface X \x7b\n\x7d\nexport \x7b X as a-b \x7d;\n"

set_option maxRecDepth 1000000 in
theorem bundle_quotedExport :
    ((Project.ofFiles "/a.ts" [("/a.ts", quotedExport)]).toOption.bind fun p =>
      (p.bundle true).toOption.map fun b => (b.exposures, b.text)) =
      some ([("a-b", "X")], unquotedExport) :=
  Project.bind_ofFiles (by decide) String.toList_ofList (by decide +kernel)

set_option maxRecDepth 1000000 in
theorem load_unquotedExport :
    ((Project.ofFiles "/b.ts" [("/b.ts", unquotedExport)]).toOption.bind fun q =>
      ((q.file? q.entry).bind SourceFile.symbol).map (q.exportNamed? · "a-b")) = some none :=
  Project.bind_ofFiles (by decide) String.toList_ofList (by decide +kernel)

set_option maxRecDepth 1000000 in
theorem diagnostics_unquotedExport : (parseFile "/b.ts" unquotedExport).diagnostics.length = 2 := by
  rw [length_diagnostics_parseFile]
  decide +kernel

/-- In the text of a bundle names stand without their quotes: the bundle of this module has the
export, and its text has errors instead. -/
theorem exists_unreadable_export :
    ∃ p b q module, Project.ofFiles "/a.ts" [("/a.ts", quotedExport)] = .ok p ∧
      p.bundle true = .ok b ∧ b.exposures = [("a-b", "X")] ∧
      (parseFile "/b.ts" b.text).diagnostics.length = 2 ∧
      Project.ofFiles "/b.ts" [("/b.ts", b.text)] = .ok q ∧
      (q.file? q.entry).bind SourceFile.symbol = some module ∧
        q.exportNamed? module "a-b" = none := by
  obtain ⟨p, hp, h⟩ := Option.bind_eq_some_iff.1 bundle_quotedExport
  obtain ⟨b, hb, h⟩ := Option.map_eq_some_iff.1 h
  obtain ⟨hexposures, htext⟩ := Prod.mk.inj h
  obtain ⟨q, hq, h⟩ := Option.bind_eq_some_iff.1 load_unquotedExport
  obtain ⟨module, hmodule, hnamed⟩ := Option.map_eq_some_iff.1 h
  have herrors := diagnostics_unquotedExport
  rw [← htext] at hq herrors
  exact ⟨p, b, q, module, eq_ok_of_toOption hp, eq_ok_of_toOption hb, hexposures, herrors,
    eq_ok_of_toOption hq, hmodule, hnamed⟩

end Bundle

end DeclBundle
