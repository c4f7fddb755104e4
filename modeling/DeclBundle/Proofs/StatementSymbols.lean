import DeclBundle.Proofs.Enclosures
import DeclBundle.Proofs.SymbolHomes

/-!
# Symbols of statements

A statement that has no statements in it gives symbols to nodes that lie where the statement lies,
and these symbols are at home in the container of the statement (`Declarations.adds_simple`). The
members of an enum are at home in the enum.
-/

set_option autoImplicit false

namespace DeclBundle

/-- A child of a form without parameters and inner parts lies where its node lies, unless it is a
module. -/
theorem Arena.through_child {a : Arena} {m n : NodeId} {form : Form Slot}
    (hform : a.form? (some m) = some form) (hn : some n ∈ form.children)
    (hparameters : form.parameters = []) (hinner : form.inner = [])
    (hmodule : a.isModule (some n) = false) : a.Through m n :=
  .single (places_same hform hn (by simp [hparameters]) (by simp [hinner]) hmodule)

theorem Arena.exists_of_form? {a : Arena} {slot : Slot} {form : Form Slot}
    (h : a.form? slot = some form) :
    ∃ n, slot = some n := by
  cases slot with
  | none => cases h
  | some n => exact ⟨n, rfl⟩

namespace Declarations

variable (f : DeclaringFile) (c : Container) {d : Declarations}

section Simple

variable (h : d.tables.Homed) (hc : d.HasContainer c) {s : NodeId}

include h hc

theorem adds_declareVariables (htree : f.arena.IsTree) {modifiers : Modifiers}
    {flavor : VariableFlavor} {declarations : List Slot}
    (hform : f.arena.form? (some s) = some (.variableStatement modifiers flavor declarations)) :
    Adds c.home (f.arena.Through s) d (d.declareVariables f c modifiers flavor declarations) := by
  unfold declareVariables
  apply Adds.foldl h
  intro d' hd' (node, name) hbound
  obtain ⟨declaration, hdeclaration, hbound⟩ := List.mem_flatMap.1 hbound
  obtain ⟨m, rfl, hmodule, hthrough⟩ := Arena.through_of_boundNamesTo htree hbound
  have hm : f.arena.Through s m := Arena.through_child hform hdeclaration rfl rfl hmodule
  refine (adds_declare f c hd'.homed (hd'.hasContainer hc) ?_ name node _).1.mono ?_
  · cases flavor <;> decide
  · rintro n rfl
    exact hm.trans hthrough

/-- An alias that is declared by a node which lies where the statement lies. -/
theorem adds_aliasAt {node : NodeId} (hnode : f.arena.Through s node)
    (declared : AliasDeclaration) :
    Adds c.home (f.arena.Through s) d (d.declareAlias f c node declared) := by
  refine (adds_declareAlias f c h hc node declared).mono ?_
  rintro n rfl
  exact hnode

/-- The names that are listed below a node, each declared by a node of its own. -/
theorem adds_listed {step : Declarations → Slot → Declarations} {m : NodeId} {form : Form Slot}
    (hm : f.arena.Through s m) (hform : f.arena.form? (some m) = some form)
    (hparameters : form.parameters = []) (hinner : form.inner = [])
    (hstep : ∀ (d : Declarations) (element : Slot), step d element = d ∨ ∃ node declared,
      element = some node ∧
      f.arena.isModule (some node) = false ∧ step d element = d.declareAlias f c node declared) :
    Adds c.home (f.arena.Through s) d (form.children.foldl step d) := by
  apply Adds.foldl h
  intro d' hd' element helement
  rcases hstep d' element with heq | ⟨node, declared, rfl, hmodule, heq⟩
  · rw [heq]
    exact .refl hd'.homed
  · rw [heq]
    have hnode : f.arena.Through m node :=
      Arena.through_child hform helement hparameters hinner hmodule
    exact adds_aliasAt f c hd'.homed (hd'.hasContainer hc) (hm.trans hnode) declared

theorem adds_declareImports {clause specifier : Slot}
    (hform : f.arena.form? (some s) = some (.importDeclaration clause specifier)) :
    Adds c.home (f.arena.Through s) d (d.declareImports f c clause specifier) := by
  unfold declareImports
  extract_lets a addAlias
  subst a
  split
  · next text clauseNode typeOnly name bindings _ hclause =>
    extract_lets withDefault
    have hclauseNode : f.arena.Through s clauseNode :=
      Arena.through_child hform (by simp [Form.children]) rfl rfl (by
        simp [Arena.isModule, hclause])
    have hbinding : ∀ {node : NodeId} {form : Form Slot}, f.arena.form? (some node) = some form →
      some node = bindings →
        f.arena.isModule (some node) = false → f.arena.Through s node := fun _ heq hmodule =>
      hclauseNode.trans (Arena.through_child hclause (by simp [Form.children, heq]) rfl rfl hmodule)
    -- the default import comes first
    have hdefault : Adds c.home (f.arena.Through s) d withDefault := by
      unfold withDefault
      split
      · exact adds_aliasAt f c h hc hclauseNode _
      · exact .refl h
    have hhomed := hdefault.homed
    have hcontainer := hdefault.hasContainer hc
    split
    · next node name' hform' =>
      split
      · have hnode : f.arena.Through s node :=
          hbinding hform' rfl (by simp [Arena.isModule, hform'])
        exact hdefault.trans (adds_aliasAt f c hhomed hcontainer hnode _)
      · exact hdefault
    · next elements hform' =>
      obtain ⟨m, rfl⟩ := Arena.exists_of_form? hform'
      have hm : f.arena.Through s m := hbinding hform' rfl (by simp [Arena.isModule, hform'])
      refine hdefault.trans
        (adds_listed f c hhomed hcontainer hm hform' rfl rfl fun d element => ?_)
      split
      · next node typeOnlyHere propertyName name' hnode =>
        split
        · exact .inr ⟨node, _, rfl, by simp [Arena.isModule, hnode], rfl⟩
        · exact .inl rfl
      · exact .inl rfl
    · exact hdefault
  · exact .refl h

theorem adds_declareExports {typeOnly : Bool} {clause specifier : Slot}
    (hform : f.arena.form? (some s) = some (.exportDeclaration typeOnly clause specifier)) :
    Adds c.home (f.arena.Through s) d (d.declareExports f c typeOnly clause specifier) := by
  have hclause : ∀ {n : NodeId}, some n = clause → f.arena.isModule (some n) = false →
      f.arena.Through s n :=
    fun heq hmodule => Arena.through_child hform (by simp [Form.children, heq]) rfl rfl hmodule
  unfold declareExports
  dsimp only
  split
  · split
    · exact Adds.of_eq h rfl rfl rfl rfl
    · exact .refl h
  · next node name hform' =>
    split
    · have hnode : f.arena.Through s node := hclause rfl (by simp [Arena.isModule, hform'])
      exact adds_aliasAt f c h hc hnode _
    · exact .refl h
  · next elements hform' =>
    obtain ⟨m, rfl⟩ := Arena.exists_of_form? hform'
    have hm : f.arena.Through s m := hclause rfl (by simp [Arena.isModule, hform'])
    refine adds_listed f c h hc hm hform' rfl rfl fun d element => ?_
    split
    · next node typeOnlyHere propertyName name' hnode =>
      split
      · exact .inr ⟨node, _, rfl, by simp [Arena.isModule, hnode], rfl⟩
      · exact .inl rfl
    · exact .inl rfl
  · exact .refl h

theorem adds_declareImportEquals (modifiers : Modifiers) (typeOnly : Bool) (name reference : Slot) :
    Adds c.home (f.arena.Through s) d
      (d.declareImportEquals f c s modifiers typeOnly name reference) := by
  unfold declareImportEquals
  dsimp only
  split
  · exact adds_aliasAt f c h hc .refl _
  · exact .refl h

theorem adds_declareAssignment (isEquals : Bool) (expression : Slot) :
    Adds c.home (f.arena.Through s) d (d.declareAssignment f c s isEquals expression) := by
  unfold declareAssignment
  dsimp only
  split
  · exact adds_aliasAt f c h hc .refl _
  · exact adds_aliasAt f c h hc .refl _
  · have hflag : SymbolFlags.IsPlain (.single .blockScopedVariable) := by decide
    refine (adds_unnamed f c h hc hflag _ s).mono ?_
    rintro n rfl
    exact .refl

theorem adds_namedAt {flags : SymbolFlags} (hflags : flags.IsPlain) (name : Slot)
    (modifiers : Modifiers) :
    Adds c.home (f.arena.Through s) d (d.declareNamed f c flags s name modifiers).1 := by
  refine (adds_declareNamed f c h hc hflags s name modifiers).1.mono ?_
  rintro n rfl
  exact .refl

/-- A statement that is no enum and no module gives symbols to nodes that lie where it lies. -/
theorem adds_simple (htree : f.arena.IsTree) {form : Form Slot}
    (hform : f.arena.form? (some s) = some form)
    (hmodule : ∀ modifiers flavor name body, form ≠ .moduleDeclaration modifiers flavor name body)
    (henum : ∀ modifiers name members, form ≠ .enumDeclaration modifiers name members) (depth : Nat)
    (isAmbient : Bool) :
    Adds c.home (f.arena.Through s) d (declareStatement f depth isAmbient c d (some s)) := by
  cases depth with
  | zero => exact .refl h
  | succ depth =>
    unfold declareStatement
    dsimp only
    rw [hform]
    cases form
    case variableStatement => exact adds_declareVariables f c h hc htree hform
    case functionDeclaration | classDeclaration | interfaceDeclaration | typeAlias =>
      exact adds_namedAt f c h hc (by decide) _ _
    case importDeclaration => exact adds_declareImports f c h hc hform
    case importEquals => exact adds_declareImportEquals f c h hc _ _ _ _
    case exportDeclaration => exact adds_declareExports f c h hc hform
    case exportAssignment => exact adds_declareAssignment f c h hc _ _
    case moduleDeclaration => exact absurd rfl (hmodule _ _ _ _)
    case enumDeclaration => exact absurd rfl (henum _ _ _)
    all_goals exact .refl h

end Simple

/-- The members of an enum are at home in it. -/
theorem adds_declareEnumMembers (h : d.tables.Homed) {owner : SymbolId} (howner : d.Has owner)
    (members : List Slot) :
    Adds ⟨some owner, false⟩ (fun n => some n ∈ members ∧ f.arena.isModule (some n) = false) d
      (d.declareEnumMembers f owner members) := by
  have hcontainer : d.HasContainer (.module_ owner false) := fun symbol hsymbol => by
    obtain rfl := Option.some.inj hsymbol
    exact howner
  unfold declareEnumMembers
  apply Adds.foldl h
  intro d' hd' member hmember
  have hhas : d'.Has owner := hd'.hasContainer hcontainer owner rfl
  have hhomed := hd'.homed
  split
  · next node name _ hnode =>
    have hplace : ∀ n, n = node → some n ∈ members ∧ f.arena.isModule (some n) = false := by
      rintro n rfl
      exact ⟨hmember, by simp [Arena.isModule, hnode]⟩
    split
    · exact .refl hhomed
    · next text _ =>
      split
      · next known hknown =>
        obtain ⟨symbol, hsymbol, hlisted⟩ := Option.bind_eq_some_iff.1 hknown
        exact (adds_redeclare f hhomed (hhomed.home_eq _ _ (.export_ hsymbol hlisted)) node).mono
          hplace
      · exact (adds_addMember f hhomed hhas text node).mono hplace
  · exact .refl hhomed

end Declarations

end DeclBundle
