import DeclBundle.Proofs.Adding
import DeclBundle.Proofs.DeclaredNames
import Mathlib.Data.List.Perm.Basic

/-!
# The names that statements bind

`Arena.boundNames` reads the names that a statement binds from the finished tree: the names of the
clause of an import, or the names that the statement declares. For every statement that is added to
a bundle these are known from what it was added for: imports bind the final names of what they
import, a namespace binds its own name, and of the statements of exports only those that give a
dotted name another name bind anything.
-/

set_option autoImplicit false

namespace DeclBundle

namespace Arena

/-- The slots of the names in the clause of an import. -/
def clauseSlots (a : Arena) (clause : Slot) : List Slot :=
  match a.form? clause with
  | some (.importClause _ name bindings) =>
    name :: match a.form? bindings with
      | some (.namedImports elements) => elements.map a.nameSlot
      | some (.namespaceImport name) => [name]
      | _ => []
  | _ => []

/-- The names that a statement binds: those of the clause of an import, or those that it
declares. -/
def boundNames (a : Arena) (statement : Slot) : List String :=
  ((a.heads statement).clause?.elim (a.nameSlots statement) a.clauseSlots).filterMap a.identifier?

end Arena

namespace Build

/-- The statements bind the listed names together. -/
def Bind (statements : List NodeId) (names : List String) (a : Arena) : Prop :=
  statements.flatMap (fun s => a.boundNames (some s)) = names

theorem Bind.append {ss ss' : List NodeId} {names names' : List String} {a : Arena}
    (h : Bind ss names a) (h' : Bind ss' names' a) : Bind (ss ++ ss') (names ++ names') a := by
  rw [Bind, List.flatMap_append, h, h']

theorem bind_nil (a : Arena) : Bind [] [] a := rfl

theorem bind_singleton {s : NodeId} {names : List String} {a : Arena}
    (h : a.boundNames (some s) = names) :
    Bind [s] names a := by
  rw [Bind, List.flatMap_singleton, h]

/-- A statement that declares one identifier binds its text. -/
theorem boundNames_of_name {a : Arena} {s n : NodeId} {form : Form Slot} {text : String}
    (hform : a.form? (some s) = some form) (hheads : form.heads = { name? := some (some n) })
    (hname : a.form? (some n) = some (.identifier text)) : a.boundNames (some s) = [text] := by
  have hslots : a.nameSlots (some s) = [some n] := by
    rw [Arena.nameSlots_eq, Arena.nameSlot_eq, Arena.heads_of_form? hform, hheads]
    rfl
  rw [Arena.boundNames, Arena.heads_of_form? hform, hheads]
  show (a.nameSlots (some s)).filterMap a.identifier? = [text]
  rw [hslots, List.filterMap_cons, Arena.identifier?_of_form? hname, List.filterMap_nil]

/-- A statement that declares nothing binds nothing. -/
theorem boundNames_of_heads {a : Arena} {s : NodeId} {form : Form Slot}
    (hform : a.form? (some s) = some form) (hheads : form.heads = {}) :
    a.boundNames (some s) = [] := by
  have hslots : a.nameSlots (some s) = [none] := by
    rw [Arena.nameSlots_eq, Arena.nameSlot_eq, Arena.heads_of_form? hform, hheads]
    rfl
  rw [Arena.boundNames, Arena.heads_of_form? hform, hheads]
  show (a.nameSlots (some s)).filterMap a.identifier? = []
  rw [hslots]
  rfl

/-! ## Imports -/

theorem adds_frontName (first second : String) : Adds (frontName first second) fun _ _ => True := by
  unfold frontName
  split
  · exact adds_pure fun _ => trivial
  · exact adds_map ((adds_identifier first).imp fun _ _ _ => trivial)

theorem adds_importSpecifier (imported localName : String) :
    Adds (importSpecifier imported localName) fun s a =>
      a.identifier? (a.nameSlot (some s)) = some localName := by
  refine adds_bind (adds_frontName imported localName) fun propertyName => ?_
  refine adds_bind (adds_identifier localName) fun name => (adds_add _).imp fun s a hs hname _ => ?_
  rw [Arena.nameSlot_eq, Arena.heads_of_form? hs]
  exact Arena.identifier?_of_form? hname

/-- The slots of the names that are imported beside the default export. -/
def bindingSlots (a : Arena) (bindings : Slot) : List Slot :=
  match a.form? bindings with
  | some (.namedImports elements) => elements.map a.nameSlot
  | some (.namespaceImport name) => [name]
  | _ => []

/-- The statement imports under a clause with the given parts. -/
theorem adds_importStatement (specifier : String) (name bindings : Slot) :
    Adds (importStatement specifier name bindings) fun s a =>
      a.boundNames (some s) = (name :: bindingSlots a bindings).filterMap a.identifier? := by
  refine adds_bind (adds_add _) fun clause => adds_bind (adds_add _) fun specifierNode => ?_
  refine (adds_add _).imp fun s a hs _ hclause => ?_
  rw [Arena.boundNames, Arena.heads_of_form? hs]
  show (a.clauseSlots (some clause)).filterMap a.identifier? = _
  rw [Arena.clauseSlots, hclause]
  rfl

/-- The names that a group of imports binds. -/
def ImportGroup.names (g : ImportGroup) : List String :=
  g.default.toList ++ g.named.map Prod.snd ++ g.namespaces

theorem adds_default (default : Option String) :
    Adds (default.mapM identifier) fun slot a =>
      [slot].filterMap a.identifier? = default.toList := by
  cases default with
  | none => exact adds_pure fun _ => rfl
  | some text =>
    have hidentifier : Adds (identifier text) fun n a =>
      [some n].filterMap a.identifier? = [text] :=
      (adds_identifier text).imp fun n a hn => by
        rw [List.filterMap_cons, Arena.identifier?_of_form? hn]
        rfl
    exact adds_map hidentifier

theorem adds_named (named : List (String × String)) :
    Adds (named.mapM fun names => importSpecifier names.1 names.2) fun specifiers a =>
      ((specifiers.map some).map a.nameSlot).filterMap a.identifier? = named.map Prod.snd := by
  have hall : Adds (named.mapM fun names => importSpecifier names.1 names.2) fun specifiers a =>
      List.Forall₂ (fun names s => a.identifier? (a.nameSlot (some s)) = some names.2) named
          specifiers :=
    adds_mapM fun names _ => adds_importSpecifier names.1 names.2
  refine hall.imp fun specifiers a h => ?_
  clear hall
  induction h with
  | nil => rfl
  | cons hhead _ ih =>
    rw [List.map_cons, List.map_cons, List.filterMap_cons, hhead, List.map_cons]
    exact congrArg _ ih

theorem adds_moduleImport (specifier localName : String) :
    Adds (moduleImport specifier localName) fun s a => a.boundNames (some s) = [localName] := by
  refine adds_bind (adds_identifier localName) fun name => adds_bind (adds_add _) fun bindings => ?_
  refine (adds_importStatement _ _ _).imp fun s a hs hbindings hname => ?_
  have hslots : bindingSlots a (some bindings) = [some name] := by rw [bindingSlots, hbindings]
  rw [hs, hslots]
  show [some name].filterMap a.identifier? = [localName]
  rw [List.filterMap_cons, Arena.identifier?_of_form? hname]
  rfl

theorem adds_namedBindings (named : List NodeId) :
    Adds (namedBindings named) fun bindings a =>
      bindingSlots a bindings = (named.map some).map a.nameSlot := by
  unfold namedBindings
  split
  · next hempty =>
    obtain rfl := List.isEmpty_iff.1 hempty
    exact adds_pure fun _ => rfl
  · exact adds_map ((adds_add _).imp fun n a hn => by rw [bindingSlots, hn])

theorem adds_namedImport (specifier : String) (default : Slot) (named : List NodeId) :
    Adds (namedImport specifier default named) fun statements a =>
      Bind statements ((default :: (named.map some).map a.nameSlot).filterMap a.identifier?) a := by
  unfold namedImport
  split
  · refine adds_bind (adds_namedBindings named) fun bindings => ?_
    refine adds_bind (adds_importStatement _ _ _) fun s => adds_pure fun a hs hbindings =>
      bind_singleton ?_
    rw [hs, hbindings]
  · next hempty =>
    simp only [Bool.or_eq_true, not_or, Bool.not_eq_true, Option.isSome_eq_false_iff,
      Option.isNone_iff_eq_none, Bool.not_eq_false', List.isEmpty_iff] at hempty
    obtain ⟨rfl, rfl⟩ := hempty
    exact adds_pure fun a => bind_nil a

theorem adds_moduleImports (specifier : String) (names : List String) :
    Adds (names.mapM (moduleImport specifier)) fun statements a => Bind statements names a := by
  refine (adds_mapM fun name _ => adds_moduleImport specifier name).imp fun statements a h => ?_
  induction h with
  | nil => rfl
  | cons hhead _ ih => exact (bind_singleton hhead).append ih

/-- A group of imports binds its names. -/
theorem adds_importStatements (g : ImportGroup) :
    Adds (importStatements g) fun statements a => Bind statements g.names a := by
  refine adds_bind (adds_default g.default) fun default =>
    adds_bind (adds_named g.named) fun named => ?_
  refine adds_bind (adds_namedImport g.specifier default named) fun first => ?_
  refine adds_bind (adds_moduleImports g.specifier g.namespaces) fun others => adds_pure fun a => ?_
  intro hothers hfirst hnamed hdefault
  refine Bind.append ?_ hothers
  rw [← hdefault, ← hnamed, ← List.filterMap_append]
  exact hfirst

variable (p : Project) (collection : Collection) (plan : Plan) (naming : Naming)

theorem adds_importGroups (groups : List ImportGroup) :
    Adds (groups.mapM importStatements) fun statements a =>
    Bind statements.flatten (groups.flatMap ImportGroup.names) a := by
  refine (adds_mapM fun g _ => adds_importStatements g).imp fun statements a h => ?_
  induction h with
  | nil => rfl
  | cons hhead _ ih => exact Bind.append hhead ih

/-- The imports bind the names of all groups. -/
theorem adds_imports : Adds (imports collection naming) fun statements a =>
    Bind statements ((importGroups collection naming).flatMap ImportGroup.names) a :=
  adds_bind (adds_importGroups _) fun _ => adds_pure fun _ h => h

/-! ## Exports -/

/-- The name that is declared for an export with a final name: for one that stands for a dotted name
and is no default export. -/
def aliasName? (name text : String) : Option String :=
  if text.toList.contains '.' && name != "default" && name != "export=" then some name else none

/-- The name that is declared for a planned export, if one is. -/
def aliasedName? (planned : PlannedExport) : Option String :=
  ((exposedSymbol? planned.outcome).bind (naming.textOf? p)).bind (aliasName? planned.name)

theorem adds_exportedAlias (name text : String) :
    Adds (exportedAlias name text) fun s a => a.boundNames (some s) = [name] := by
  refine adds_bind (adds_identifier name) fun nameNode =>
    adds_bind (adds_dottedName text) fun reference => ?_
  exact (adds_add _).imp fun s a hs _ hname => boundNames_of_name hs rfl hname

theorem adds_exportSpecifier (localName exported : String) :
    Adds (exportSpecifier localName exported) fun _ _ => True := by
  refine adds_bind (adds_frontName _ _) fun _ => adds_bind (adds_identifier _) fun _ => ?_
  exact (adds_add _).imp fun _ _ _ _ _ => trivial

/-- The statements of exports so far bind the listed names. -/
def ExportStatements.Bind (e : ExportStatements) (names : List String) (a : Arena) : Prop :=
  Build.Bind e.statements names a ∧ Build.Bind e.whole.toList [] a

theorem adds_exportStatement (e : ExportStatements) (name text : String) :
    Adds (exportStatement e name text) fun e' a => ∀ names, e.Bind names a →
      e'.Bind (names ++ (aliasName? name text).toList) a := by
  unfold exportStatement aliasName?
  split
  · next hname =>
    have hnone : (text.toList.contains '.' && name != "default" && name != "export=") = false := by
      simp [beq_iff_eq.1 hname]
    refine adds_bind (adds_dottedName text) fun value => adds_bind (adds_add _) fun s => ?_
    refine adds_pure fun a hs _ names h => ?_
    rw [hnone]
    exact ⟨by simpa using h.1, bind_singleton (boundNames_of_heads hs rfl)⟩
  · next hwhole =>
    split
    · next hdot =>
      have hnone :
          (text.toList.contains '.' && name != "default" && name != "export=") = false := by
        rw [Bool.not_eq_true'] at hdot
        rw [hdot]
        rfl
      refine adds_bind (adds_exportSpecifier _ _) fun s => adds_pure fun a _ names h => ?_
      rw [hnone]
      exact ⟨by simpa using h.1, h.2⟩
    · next hdot =>
      split
      · next hdefault =>
        have hnone :
            (text.toList.contains '.' && name != "default" && name != "export=") = false := by
          simp [beq_iff_eq.1 hdefault]
        refine adds_bind (adds_dottedName text) fun value => adds_bind (adds_add _) fun s => ?_
        refine adds_pure fun a hs _ names h => ?_
        rw [hnone]
        exact ⟨h.1.append (bind_singleton (boundNames_of_heads hs rfl)), h.2⟩
      · next hdefault =>
        -- only this form binds a name of its own
        have hsome :
            (text.toList.contains '.' && name != "default" && name != "export=") = true := by
          simp_all
        refine adds_bind (adds_exportedAlias _ _) fun s => adds_pure fun a hs names h => ?_
        rw [hsome]
        exact ⟨h.1.append (bind_singleton hs), h.2⟩

theorem adds_plannedExport (e : ExportStatements) (planned : PlannedExport) :
    Adds (plannedExport p naming e planned) fun e' a => ∀ names, e.Bind names a →
      e'.Bind (names ++ (aliasedName? p naming planned).toList) a := by
  unfold plannedExport aliasedName?
  cases (exposedSymbol? planned.outcome).bind (naming.textOf? p) with
  | none => exact adds_pure fun a names h => by simpa using h
  | some text => exact adds_exportStatement e planned.name text

theorem adds_plannedExports (planned : List PlannedExport) (e : ExportStatements) :
    Adds (planned.foldlM (plannedExport p naming) e) fun e' a => ∀ names, e.Bind names a →
      e'.Bind (names ++ planned.filterMap (aliasedName? p naming)) a := by
  induction planned generalizing e with
  | nil => exact adds_pure fun a names h => by simpa using h
  | cons first rest ih =>
    rw [List.foldlM_cons]
    refine adds_bind (adds_plannedExport p naming e first) fun e₁ =>
      (ih e₁).imp fun e₂ a hrest hfirst names h => ?_
    have happend : (first :: rest).filterMap (aliasedName? p naming) =
        (aliasedName? p naming first).toList ++ rest.filterMap (aliasedName? p naming) := by
      rw [List.filterMap_cons]
      cases aliasedName? p naming first <;> rfl
    rw [happend, ← List.append_assoc]
    exact hrest _ (hfirst names h)

/-- Exports bind the names that are declared for dotted names, and nothing else. -/
theorem adds_exportStatements : Adds (exportStatements p plan naming) fun statements a =>
    Bind statements (plan.exports_.filterMap (aliasedName? p naming)) a := by
  refine adds_bind (adds_plannedExports p naming plan.exports_ {}) fun e => ?_
  refine adds_bind (Q := fun list a => Bind list [] a) ?_ fun list =>
    adds_pure fun a hlist hall => ?_
  · unfold exportListOf exportList
    split
    · refine adds_bind (Q := fun s a => a.boundNames (some s) = []) ?_ fun s =>
        adds_pure fun a hs => bind_singleton hs
      refine adds_bind (adds_add _) fun clause => (adds_add _).imp fun s a hs _ =>
        boundNames_of_heads hs rfl
    · exact adds_pure fun a => bind_nil a
  · obtain ⟨hstatements, hwhole⟩ := hall [] ⟨bind_nil a, bind_nil a⟩
    have h := (hlist.append hstatements).append hwhole
    simpa using h

/-! ## Namespaces -/

theorem adds_memberStatements {inner : String → SymbolId → Build (Option NodeId)}
    (h : ∀ name module, Adds (inner name module) fun _ _ => True) (name : String)
    (member : NamespaceMember) :
    Adds (memberStatements p naming inner name member) fun _ _ => True := by
  cases member with
  | moved id => exact adds_bind (adds_get fun _ _ => trivial) fun _ => adds_pure fun _ _ => trivial
  | reexposed id => exact adds_pure fun _ => trivial
  | qualified id =>
    refine adds_bind (Q := fun _ _ => True) ?_ fun _ => adds_pure fun _ _ => trivial
    cases naming.textOf? p id with
    | none => exact adds_pure fun _ => trivial
    | some text =>
      rw [Option.mapM_some]
      exact adds_map ((adds_exportedAlias name text).imp fun _ _ _ => trivial)
  | nested module => exact adds_bind (h name module) fun _ => adds_pure fun _ _ => trivial

theorem adds_memberSpecifier? (name : String) (member : NamespaceMember) :
    Adds (memberSpecifier? p naming name member) fun _ _ => True := by
  unfold memberSpecifier?
  split
  · next id =>
    cases naming.textOf? p id with
    | none => exact adds_pure fun _ => trivial
    | some text =>
      rw [Option.mapM_some]
      exact adds_map ((adds_exportSpecifier text name).imp fun _ _ _ => trivial)
  · exact adds_pure fun _ => trivial

theorem adds_memberList (specifiers : List NodeId) :
    Adds (memberList specifiers) fun _ _ => True := by
  unfold memberList exportList
  split
  · exact adds_pure fun _ => trivial
  · refine adds_bind (Q := fun _ _ => True) ?_ fun _ => adds_pure fun _ _ => trivial
    exact adds_bind (adds_add _) fun _ => (adds_add _).imp fun _ _ _ _ => trivial

/-- A namespace binds its name, when there is one for the module. -/
theorem adds_namespaceStatement (depth : Nat) (isTop : Bool) (name : String) (module : SymbolId) :
    Adds (namespaceStatement p plan naming depth isTop name module) fun statement a =>
      Bind statement.toList
        (if depth = 0 ∨ plan.namespaces.contains module = false then [] else [name]) a := by
  induction depth generalizing isTop name module with
  | zero => exact adds_pure fun a => bind_nil a
  | succ depth ih =>
    unfold namespaceStatement
    cases hn : plan.namespaces.get? module with
    | none =>
      refine adds_pure fun a => ?_
      rw [if_pos (.inr (Table.contains_eq_false_iff.2 hn))]
      exact bind_nil a
    | some n =>
      have hnames : (if depth + 1 = 0 ∨ plan.namespaces.contains module = false then []
          else [name]) = [name] :=
        if_neg (by simp [Table.contains_of_get? hn])
      rw [hnames]
      have hinner : ∀ name module,
          Adds (namespaceStatement p plan naming depth false name module) fun _ _ => True :=
        fun name module => (ih false name module).imp fun _ _ _ => trivial
      refine adds_bind (adds_mapM fun m _ => adds_memberStatements p naming hinner m.1 m.2)
        fun bodies => ?_
      refine adds_bind (adds_filterMapM fun m _ => adds_memberSpecifier? p naming m.1 m.2)
        fun reexposed => ?_
      refine adds_bind (adds_memberList reexposed) fun list =>
        adds_bind (adds_identifier name) fun nameNode => ?_
      refine adds_bind (adds_add _) fun block => adds_bind (adds_add _) fun s =>
        adds_pure fun a hs _ hname _ _ _ => ?_
      exact bind_singleton (boundNames_of_name hs rfl hname)

theorem adds_topNamespace? {n : PlannedNamespace} (h : plan.namespaces.contains n.module = true) :
    Adds (topNamespace? p plan naming n) fun statement a =>
      Bind statement.toList (naming.nameOf? n.module).toList a := by
  unfold topNamespace?
  cases naming.nameOf? n.module with
  | none => exact adds_pure fun a => bind_nil a
  | some name =>
    refine (adds_namespaceStatement p plan naming (plan.namespaces.size + 1) true name n.module).imp
      fun s a hs => ?_
    rwa [if_neg (by simp [h])] at hs

/-- The namespaces at the top level bind their final names. -/
theorem adds_namespaceStatements
    (h : ∀ n ∈ plan.topNamespaces, plan.namespaces.contains n.module = true) :
    Adds (namespaceStatements p plan naming) fun statements a =>
      Bind statements (plan.topNamespaces.filterMap fun n => naming.nameOf? n.module) a := by
  refine (adds_filterMapM fun n hn => adds_topNamespace? p plan naming (h n hn)).imp
    fun statements a => ?_
  rintro ⟨made, hmade, rfl⟩
  clear h
  generalize plan.topNamespaces = namespaces at hmade
  induction hmade with
  | nil => rfl
  | @cons n statement ns made hhead _ ih =>
    have h := hhead.append ih
    have hnames :
      (naming.nameOf? n.module).toList ++ ns.filterMap (fun n => naming.nameOf? n.module) =
        (n :: ns).filterMap fun n => naming.nameOf? n.module := by
      rw [List.filterMap_cons]
      cases naming.nameOf? n.module <;> rfl
    have hstatements : statement.toList ++ made.filterMap id =
        (statement :: made).filterMap id := by
      cases statement <;> rfl
    rwa [hnames, hstatements] at h

end Build

end DeclBundle
