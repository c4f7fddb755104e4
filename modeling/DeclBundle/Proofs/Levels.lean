import DeclBundle.Proofs.Exposing
import DeclBundle.Proofs.SingleFiles

/-!
# How deep exports lie

The text for a symbol is found by going up to a name at the top level, and only
`Planning.maxNesting` steps are taken. `Naming.IsBelow` counts the steps that it takes. Whatever a
bundle plans to expose lies below some name at the top level: declarations and namespaces are never
too deep for a text, since namespaces are planned down to `Planning.maxNesting` levels only. Members
of namespaces that are written in the project lie as deep as they are written, so those that are too
deep are left out. All other exports are exposed once each (`Bundle.exposed_once_iff`).
-/

set_option autoImplicit false

namespace DeclBundle

namespace Naming

/-- From a symbol it takes so many steps to go up to a name at the top level: from what is moved and
from a namespace inside another one to the namespace around it, and from a member to its
container. -/
inductive IsBelow (p : Project) (n : Naming) : (level : Nat) → SymbolId → Prop where
  | named {id : SymbolId} {name : String} (hname : n.nameOf? id = some name) : IsBelow p n 0 id
  | placed {id module : SymbolId} {name : String} {level : Nat} (hname : n.nameOf? id = none)
    (hplace : (n.moved.get? id).or (n.nested.get? id) = some (module, name))
    (h : IsBelow p n level module) :
    IsBelow p n (level + 1) id
  | member {id : SymbolId} {s parent : Symbol} {level : Nat} (hname : n.nameOf? id = none)
    (hplace : (n.moved.get? id).or (n.nested.get? id) = none) (hs : p.symbol? id = some s)
    (hparent : s.parent.bind p.symbol? = some parent) (hmodule : parent.isModule = false)
    (h : IsBelow p n level parent.id) : IsBelow p n (level + 1) id

namespace IsBelow

variable {p : Project} {n : Naming} {id : SymbolId} {level : Nat}

/-- There is a text when more steps may be taken than it takes. -/
theorem isSome_textTo (h : IsBelow p n level id) (depth : Nat) :
    (n.textTo p depth id).isSome = true ↔ level < depth := by
  induction h generalizing depth with
  | named hname =>
    cases depth with
    | zero => exact iff_of_false Bool.false_ne_true (Nat.lt_irrefl 0)
    | succ depth =>
      rw [textTo, show n.table.nameOf? _ = _ from hname]
      exact iff_of_true rfl (Nat.zero_lt_succ depth)
  | placed hname hplace _ ih =>
    cases depth with
    | zero => exact iff_of_false Bool.false_ne_true (Nat.not_lt_zero _)
    | succ depth =>
      rw [textTo, show n.table.nameOf? _ = _ from hname]
      dsimp only
      rw [hplace]
      dsimp only
      rw [Option.isSome_map, ih, Nat.succ_lt_succ_iff]
  | @member id s parent level hname hplace hs hparent hmodule _ ih =>
    cases depth with
    | zero => exact iff_of_false Bool.false_ne_true (Nat.not_lt_zero _)
    | succ depth =>
      obtain ⟨parentId, hparentId, hparent⟩ := Option.bind_eq_some_iff.1 hparent
      rw [textTo, show n.table.nameOf? _ = _ from hname]
      dsimp only
      rw [hplace]
      simp only [Option.bind_eq_bind, hs, hparentId, hparent, Option.bind_some, hmodule,
        Bool.false_eq_true, if_false, Option.isSome_map, ih, Nat.succ_lt_succ_iff]

/-- So the number of steps is the same however one goes up. -/
theorem unique {level' : Nat} (h : IsBelow p n level id) (h' : IsBelow p n level' id) :
    level = level' := by
  have hsame : ∀ depth, level < depth ↔ level' < depth := fun depth =>
    (h.isSome_textTo depth).symm.trans (h'.isSome_textTo depth)
  have hle := (hsame (level + 1)).1 (Nat.lt_succ_self _)
  have hle' := (hsame (level' + 1)).2 (Nat.lt_succ_self _)
  omega

theorem isSome_textOf? (h : IsBelow p n level id) : (n.textOf? p id).isSome = true ↔
    level ≤ Planning.maxNesting := by
  rw [textOf?, h.isSome_textTo, Nat.lt_succ_iff]

end IsBelow

/-! ## What a plan is about lies below the top level -/

variable {p : Project} {collection : Collection} {plan : Plan}

theorem isBelow_of_within (hplan : plan.Separates p collection)
    (htops : ∀ n ∈ plan.topNamespaces, plan.nested.get? n.module = none) {top module : SymbolId}
    {names : List String} (hwithin : plan.Within top names module) {topName : String}
    (htop : (ofPlan p collection plan).nameOf? top = some topName) :
    (ofPlan p collection plan).IsBelow p names.length module := by
  induction hwithin with
  | top _ _ => exact .named htop
  | @inside n module outer name names hn _ hnested _ ih =>
    have hcontains : plan.namespaces.contains module = true := Table.contains_of_get? hn
    rw [List.length_append]
    exact .placed (nameOf?_of_nested hplan htops hcontains hnested)
      (place_of_nested hplan hcontains hnested) ih

end Naming

namespace Bundle

variable {p : Project} (keepDocs : Bool) {exports_ : List ModuleExport}

/-- Namespaces at the top level have names. -/
theorem exists_nameOf?_of_top {top : SymbolId} {n : PlannedNamespace}
    (hn : (ofExports p keepDocs exports_).plan.namespaces.get? top = some n)
    (hparent : n.parent = none) :
    ∃ name, (ofExports p keepDocs exports_).naming.nameOf? top = some name := by
  have hentry : (top, n) ∈ (ofExports p keepDocs exports_).plan.namespaces.entries :=
    Table.mem_of_get? hn
  obtain rfl : n.module = top := Planning.module_of_mem_namespaces p _ hentry
  have htop : n ∈ (ofExports p keepDocs exports_).plan.topNamespaces :=
    List.mem_filter.2 ⟨List.mem_map.2 ⟨_, hentry, rfl⟩, by rw [hparent]; rfl⟩
  exact Naming.nameOf?_ofPlan
    (List.mem_append_left _ (List.mem_append_right _ (List.mem_map.2 ⟨n, htop, rfl⟩)))

section

variable (hnumbered : ∀ id s, p.symbol? id = some s → s.id = id)

include hnumbered

/-- A namespace is not too deep for a text, and one with members is less deep than that. -/
theorem exists_isBelow_namespace {module : SymbolId}
    (hmodule : (ofExports p keepDocs exports_).plan.namespaces.contains module = true) :
    ∃ level ≤ Planning.maxNesting, (ofExports p keepDocs exports_).naming.IsBelow p level module ∧
      ((ofExports p keepDocs exports_).plan.membersOf module ≠ [] →
        level < Planning.maxNesting) := by
  have hcoherent := Planning.coherent_plan p (p.collect exports_) exports_
  obtain ⟨top, names, hwithin, hlength, hmembers⟩ := hcoherent.within module hmodule
  obtain ⟨n, hn, hparent⟩ := hwithin.exists_top
  obtain ⟨topName, htop⟩ := exists_nameOf?_of_top keepDocs hn hparent
  exact ⟨names.length, hlength,
    Naming.isBelow_of_within (Planning.separates_plan hnumbered exports_)
    (fun n hn => (Planning.get?_of_mem_topNamespaces p _ exports_ hn).2) hwithin htop, hmembers⟩

/-- A declaration is not too deep for a text. -/
theorem exists_isBelow_kept {id : SymbolId}
    (hkept : id ∈ (ofExports p keepDocs exports_).collection.kept) :
    ∃ level ≤ Planning.maxNesting, (ofExports p keepDocs exports_).naming.IsBelow p level id := by
  cases hmoved : (ofExports p keepDocs exports_).plan.moved.get? id with
  | none =>
    obtain ⟨name, hname⟩ := exists_nameOf? hkept (Table.contains_eq_false_iff.2 hmoved)
    exact ⟨0, Nat.zero_le _, .named hname⟩
  | some place =>
    obtain ⟨module, name⟩ := place
    have hmember :=
      ((Planning.coherent_plan p (p.collect exports_) exports_).moved id module name).1 hmoved
    obtain ⟨level, -, hlevel, hless⟩ := exists_isBelow_namespace keepDocs hnumbered
      (Planning.contains_of_mem_membersOf hmember)
    have hismoved : (ofExports p keepDocs exports_).plan.isMoved id = true :=
      Table.contains_of_get? hmoved
    have hnone := Naming.nameOf?_of_moved (Planning.separates_plan hnumbered exports_)
      (fun n hn => Planning.contains_of_mem_topNamespaces p _ hn) hismoved
    exact ⟨level + 1, hless (List.ne_nil_of_mem hmember),
      .placed hnone (Naming.place_of_moved hmoved) hlevel⟩

/-- Whatever is inside something with a name at the top level, or below one, is below one as
well. -/
theorem exists_isBelow_inside {hops : Nat} {id outer : SymbolId}
    (houter : p.outermostTo hops id = some outer)
    (h : ∃ level, (ofExports p keepDocs exports_).naming.IsBelow p level outer) :
    ∃ level, (ofExports p keepDocs exports_).naming.IsBelow p level id := by
  have hcoherent := Planning.coherent_plan p (p.collect exports_) exports_
  induction hops generalizing id with
  | zero =>
    obtain rfl := Option.some.inj houter
    exact h
  | succ hops ih =>
    -- a name of its own, a place in a namespace, or else the symbol around it
    cases hname : (ofExports p keepDocs exports_).naming.nameOf? id with
    | some name => exact ⟨0, .named hname⟩
    | none =>
      cases hplace : ((ofExports p keepDocs exports_).naming.moved.get? id).or
        ((ofExports p keepDocs exports_).naming.nested.get? id) with
      | some place =>
        obtain ⟨module, name⟩ := place
        have hmodule : (ofExports p keepDocs exports_).plan.namespaces.contains module = true := by
          rcases Option.or_eq_some_iff.1 hplace with hmoved | ⟨-, hnested⟩
          · exact Planning.contains_of_mem_membersOf ((hcoherent.moved id module name).1 hmoved)
          · exact Planning.contains_of_mem_membersOf ((hcoherent.nested id module name).1 hnested)
        obtain ⟨level, -, hlevel, -⟩ := exists_isBelow_namespace keepDocs hnumbered hmodule
        exact ⟨level + 1, .placed hname hplace hlevel⟩
      | none =>
        simp only [Project.outermostTo, Option.bind_eq_bind, Option.bind_eq_some_iff] at houter
        obtain ⟨s, hs, houter⟩ := houter
        split at houter
        · obtain rfl := Option.some.inj houter
          exact h
        · next parentId hparentId =>
          obtain ⟨parent, hparent, houter⟩ := Option.bind_eq_some_iff.1 houter
          split at houter
          · obtain rfl := Option.some.inj houter
            exact h
          · next hmodule =>
            obtain ⟨level, hlevel⟩ := ih houter
            rw [← hnumbered parentId parent hparent] at hlevel
            exact ⟨level + 1, .member hname hplace hs (by rw [hparentId]; exact hparent) (by
              simpa using hmodule) hlevel⟩

/-- Whatever is planned to be exposed lies below a name at the top level, and only members of
namespaces may lie too deep. -/
theorem exists_isBelow_exposed {e : ModuleExport} (he : e ∈ exports_) {outcome : ExportOutcome}
    (h : outcome = Planning.outcomeOf p (p.collect exports_) e) {id : SymbolId}
    (hid : Build.exposedSymbol? outcome = some id) :
    ∃ level, (ofExports p keepDocs exports_).naming.IsBelow p level id ∧
      (Planning.maxNesting < level → outcome = .member id) := by
  have hshallow : ∀ id,
    (∃ level ≤ Planning.maxNesting, (ofExports p keepDocs exports_).naming.IsBelow p level id) →
      ∃ level, (ofExports p keepDocs exports_).naming.IsBelow p level id ∧
        (Planning.maxNesting < level → outcome = .member id) := by
    rintro id ⟨level, hle, hlevel⟩
    exact ⟨level, hlevel, fun hlt => absurd hle (Nat.not_le.2 hlt)⟩
  have hkept : ∀ id, (p.collect exports_).isKept id = true →
      ∃ level ≤ Planning.maxNesting, (ofExports p keepDocs exports_).naming.IsBelow p level id :=
        fun id hkept =>
    exists_isBelow_kept keepDocs hnumbered (List.contains_iff_mem.1 hkept)
  have hexternal : ∀ i, p.target? e.symbol = some (.external i) →
      ∃ level ≤ Planning.maxNesting,
        (ofExports p keepDocs exports_).naming.IsBelow p level i.symbol := by
    intro i htarget
    obtain ⟨c, hfound, hbooked, -, hreached⟩ := Collecting.exists_collected exports_ hnumbered
    have hhas : c.found.Has p (.external i) :=
      Collecting.has_of_reached hbooked trivial (hreached e he _ htarget)
    obtain ⟨name, hname⟩ :=
      Planning.exists_nameOf?_of_external (p.plan exports_ (p.collect exports_))
      (hfound ▸ hhas : (p.collect exports_).externals.contains i.symbol = true)
    exact ⟨0, Nat.zero_le _, .named hname⟩
  cases (h ▸
    Planning.hasOutcome_outcomeOf p _ e : Planning.HasOutcome p (p.collect exports_) e outcome) with
  | direct _ _ _ hisKept =>
    obtain rfl := Option.some.inj hid
    exact hshallow _ (hkept _ hisKept)
  | namespace_ module _ _ =>
    obtain rfl := Option.some.inj hid
    obtain ⟨level, hle, hlevel, -⟩ := exists_isBelow_namespace keepDocs hnumbered
      (Planning.contains_of_outcomeOf p (p.collect exports_) he h.symm)
    exact hshallow _ ⟨level, hle, hlevel⟩
  | external i htarget =>
    obtain rfl := Option.some.inj hid
    exact hshallow _ (hexternal i htarget)
  | externalModule i htarget =>
    obtain rfl := Option.some.inj hid
    exact hshallow _ (hexternal i htarget)
  | member id owner _ htop hisKept =>
    obtain rfl := Option.some.inj hid
    have houter : p.outermostTo (Project.maxContainers + 1) id = some owner :=
      (Option.filter_eq_some_iff.1 htop).1
    obtain ⟨level, -, hlevel⟩ := hkept owner hisKept
    obtain ⟨level, hlevel⟩ := exists_isBelow_inside keepDocs hnumbered houter ⟨level, hlevel⟩
    exact ⟨level, hlevel, fun _ => rfl⟩
  | skipped _ => cases hid

end

/-! ## What is exposed -/

/-- Of exports with different names only one exposes a name. -/
theorem filter_exposures {naming : Naming} {exports_ : List PlannedExport}
    (hnames : (exports_.map PlannedExport.name).Nodup) {e : PlannedExport} (he : e ∈ exports_) :
    (exports_.filterMap (Build.exposure? p naming)).filter (·.1 == e.name) =
      (Build.exposure? p naming e).toList := by
  have hname : ∀ (other : PlannedExport) (x : String × String),
    Build.exposure? p naming other = some x →
      x.1 = other.name := by
    intro other x hx
    obtain ⟨text, -, rfl⟩ := Option.map_eq_some_iff.1 hx
    rfl
  induction exports_ with
  | nil => cases he
  | cons first rest ih =>
    rw [List.map_cons, List.nodup_cons] at hnames
    -- the first export and all others are filtered apart
    have happend : ((first :: rest).filterMap (Build.exposure? p naming)).filter (·.1 == e.name) =
        (Build.exposure? p naming first).toList.filter (·.1 == e.name) ++
          (rest.filterMap (Build.exposure? p naming)).filter (·.1 == e.name) := by
      rw [← List.filter_append, List.filterMap_cons]
      cases Build.exposure? p naming first <;> rfl
    rw [happend]
    rcases List.mem_cons.1 he with rfl | he
    · have hrest : (rest.filterMap (Build.exposure? p naming)).filter (·.1 == e.name) = [] := by
        refine List.filter_eq_nil_iff.2 fun x hx heq => ?_
        obtain ⟨other, hother, hexposes⟩ := List.mem_filterMap.1 hx
        rw [hname other x hexposes] at heq
        exact hnames.1 (beq_iff_eq.1 heq ▸ List.mem_map.2 ⟨other, hother, rfl⟩)
      rw [hrest, List.append_nil]
      refine List.filter_eq_self.2 fun x hx => beq_iff_eq.2 (hname e x ?_)
      exact Option.mem_toList.1 hx
    · have hfirst : (Build.exposure? p naming first).toList.filter (·.1 == e.name) = [] := by
        refine List.filter_eq_nil_iff.2 fun x hx heq => ?_
        rw [hname first x (Option.mem_toList.1 hx)] at heq
        exact hnames.1 (beq_iff_eq.1 heq ▸ List.mem_map.2 ⟨e, he, rfl⟩)
      rw [hfirst, List.nil_append]
      exact ih hnames.2 he

/-- What a bundle exposes under a name. -/
def exposedUnder (b : Bundle) (name : String) : List (String × String) :=
  b.exposures.filter (·.1 == name)

theorem exposedUnder_eq (module : SymbolId) {e : PlannedExport}
    (he : e ∈ (ofExports p keepDocs (p.exportsOf module)).plan.exports_) :
    (ofExports p keepDocs (p.exportsOf module)).exposedUnder e.name =
      (Build.exposure? p (ofExports p keepDocs (p.exportsOf module)).naming e).toList := by
  have hperm := (exposures_perm p keepDocs module).filter (·.1 == e.name)
  rw [filter_exposures (nodup_planned p keepDocs module) he] at hperm
  show (ofExports p keepDocs (p.exportsOf module)).exposures.filter (·.1 == e.name) = _
  cases hexposes : Build.exposure? p (ofExports p keepDocs (p.exportsOf module)).naming e with
  | none =>
    rw [hexposes] at hperm
    exact hperm.eq_nil
  | some x =>
    rw [hexposes] at hperm
    exact List.perm_singleton.1 hperm

/-- An export that is not left out lies below some name at the top level, and it is exposed once,
under its own name and with the text for what it stands for, exactly when it lies at most
`Planning.maxNesting` levels below. Only members of namespaces can lie deeper, and those are not
exposed at all. -/
theorem exposed_once_iff {entry : String} {options : ProjectOptions} {host : Host}
    (hload : Project.load entry options host = .ok p) (keepDocs : Bool) (module : SymbolId)
    {e : PlannedExport} (he : e ∈ (ofExports p keepDocs (p.exportsOf module)).plan.exports_)
    (hplanned : ∀ reason, e.outcome ≠ .skipped reason) :
    ∃ id level, Build.exposedSymbol? e.outcome = some id ∧
      (ofExports p keepDocs (p.exportsOf module)).naming.IsBelow p level id ∧
      ((∃ text, (ofExports p keepDocs (p.exportsOf module)).naming.textOf? p id = some text ∧
        (ofExports p keepDocs (p.exportsOf module)).exposedUnder e.name = [(e.name, text)]) ↔
          level ≤ Planning.maxNesting) ∧
      (Planning.maxNesting < level → e.outcome = .member id ∧
        (ofExports p keepDocs (p.exportsOf module)).exposedUnder e.name = []) := by
  have hnumbered : ∀ id s, p.symbol? id = some s → s.id = id := fun id s hs =>
    Project.id_of_load hload hs
  obtain ⟨id, hid⟩ : ∃ id, Build.exposedSymbol? e.outcome = some id := by
    cases houtcome : e.outcome with
    | skipped reason => exact absurd houtcome (hplanned reason)
    | _ id => exact ⟨id, rfl⟩
  have hmem : e ∈ (p.exportsOf module).map fun e =>
    (⟨e.name, Planning.outcomeOf p (p.collect (p.exportsOf module)) e⟩ :
      PlannedExport) := by
    rw [← Planning.exports_plan]
    exact he
  obtain ⟨origin, horigin, heq⟩ := List.mem_map.1 hmem
  obtain ⟨level, hlevel, hdeep⟩ := exists_isBelow_exposed keepDocs hnumbered horigin
    (congrArg PlannedExport.outcome heq).symm hid
  -- the statements of exports expose what has a text, and the texts are those of the levels
  have hexposed := exposedUnder_eq keepDocs module he
  rw [Build.exposure?, hid, Option.bind_some] at hexposed
  have htext := hlevel.isSome_textOf?
  refine ⟨id, level, hid, hlevel, ⟨?_, ?_⟩, fun hlt => ⟨hdeep hlt, ?_⟩⟩
  · rintro ⟨text, hsome, -⟩
    exact htext.1 (Option.isSome_iff_exists.2 ⟨text, hsome⟩)
  · intro hle
    obtain ⟨text, hsome⟩ := Option.isSome_iff_exists.1 (htext.2 hle)
    refine ⟨text, hsome, ?_⟩
    rw [hexposed, hsome]
    rfl
  · have hnone := Option.not_isSome_iff_eq_none.1 fun hsome =>
      absurd (htext.1 hsome) (Nat.not_le.2 hlt)
    rw [hexposed, hnone]
    rfl

/-- A module that exports an interface in so many namespaces, each inside the one before. -/
def deepModule (levels : Nat) : String :=
  let path := ".".intercalate (List.replicate levels "N")
  "namespace " ++ path ++ " \x7b export interface F \x7b\x7d \x7d\nimport Q = " ++
    path ++ ".F;\n" ++
    "export \x7b Q as X \x7d;\n"

theorem toList_deepModule (levels : Nat) : (deepModule levels).toList =
    "namespace ".toList ++ ((List.replicate levels ['N']).intersperse ['.']).flatten ++
      " \x7b export interface F \x7b\x7d \x7d\nimport Q = ".toList ++
      ((List.replicate levels ['N']).intersperse ['.']).flatten ++ ".F;\n".toList ++
      "export \x7b Q as X \x7d;\n".toList := by
  unfold deepModule
  simp only [String.toList_append, String.toList_intercalate, List.map_replicate]
  rfl

set_option maxRecDepth 1000000 in
theorem exposures_deepModule_one :
    ((Project.ofFiles "/a.ts" [("/a.ts", deepModule 1)]).toOption.bind fun p =>
      (p.bundle true).toOption.map fun b => (b.plan.exports_, b.exposures)) =
      some ([⟨"X", .member ⟨2⟩⟩], [("X", "N.F")]) :=
  Project.bind_ofFiles (by decide) (toList_deepModule 1) (by decide +kernel)

set_option maxRecDepth 1000000 in
theorem exposures_deepModule_many :
    ((Project.ofFiles "/a.ts" [("/a.ts", deepModule 33)]).toOption.bind fun p =>
      (p.bundle true).toOption.map fun b => (b.plan.exports_, b.exposures)) =
        some ([⟨"X", .member ⟨34⟩⟩], []) :=
  Project.bind_ofFiles (by decide) (toList_deepModule 33) (by decide +kernel)

/-- In the bundle of a module with one namespace its member is exposed. -/
theorem exposed_once_deepModule :
    ∃ p module e, Project.ofFiles "/a.ts" [("/a.ts", deepModule 1)] = .ok p ∧
      e ∈ (ofExports p true (p.exportsOf module)).plan.exports_ ∧
        (∀ reason, e.outcome ≠ .skipped reason) ∧
      ∃ id level, Build.exposedSymbol? e.outcome = some id ∧
        (ofExports p true (p.exportsOf module)).naming.IsBelow p level id ∧
          level ≤ Planning.maxNesting ∧
        ∃ text, (ofExports p true (p.exportsOf module)).exposedUnder e.name = [(e.name, text)] := by
  obtain ⟨p, hp, h⟩ := Option.bind_eq_some_iff.1 exposures_deepModule_one
  obtain ⟨b, hb, h⟩ := Option.map_eq_some_iff.1 h
  obtain ⟨hexports, hexposures⟩ := Prod.mk.inj h
  obtain ⟨module, rfl⟩ := exists_of_bundle (eq_ok_of_toOption hb)
  have he : ⟨"X", .member ⟨2⟩⟩ ∈ (ofExports p true (p.exportsOf module)).plan.exports_ := by
    rw [hexports]
    exact List.mem_singleton_self _
  have hplanned : ∀ reason, ExportOutcome.member ⟨2⟩ ≠ .skipped reason := fun _ h => by cases h
  obtain ⟨id, level, hid, hlevel, honce, hdeep⟩ :=
    exposed_once_iff (eq_ok_of_toOption hp) true module he hplanned
  have hle : level ≤ Planning.maxNesting := by
    by_contra hlt
    have hnothing := (hdeep (Nat.not_le.1 hlt)).2
    rw [exposedUnder, hexposures] at hnothing
    revert hnothing
    decide
  obtain ⟨text, -, hexposed⟩ := honce.2 hle
  exact ⟨p, module, _, eq_ok_of_toOption hp, he, hplanned, id, level, hid, hlevel, hle,
    text, hexposed⟩

/-- In the bundle of a module with more namespaces inside each other than that, the member is
lost. -/
theorem exists_lost_export :
    ∃ p b e, Project.ofFiles "/a.ts" [("/a.ts", deepModule 33)] = .ok p ∧ p.bundle true = .ok b ∧
      e ∈ b.plan.exports_ ∧ (∀ reason, e.outcome ≠ .skipped reason) ∧
        b.exposedUnder e.name = [] := by
  obtain ⟨p, hp, h⟩ := Option.bind_eq_some_iff.1 exposures_deepModule_many
  obtain ⟨b, hb, h⟩ := Option.map_eq_some_iff.1 h
  obtain ⟨hexports, hexposures⟩ := Prod.mk.inj h
  refine ⟨p, b, ⟨"X", .member ⟨34⟩⟩, eq_ok_of_toOption hp, eq_ok_of_toOption hb, ?_,
    fun _ heq => (by cases heq), ?_⟩
  · rw [hexports]
    exact List.mem_singleton_self _
  · rw [exposedUnder, hexposures]
    rfl

end Bundle

end DeclBundle
