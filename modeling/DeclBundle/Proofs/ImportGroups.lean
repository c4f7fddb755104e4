import DeclBundle.Proofs.BoundNames

/-!
# Imports by specifier

A group of imports lists what is imported from one specifier, and under which names: as the default
export, by name, or as the whole module (`Build.ImportGroup.bindings`). Sorting imports into groups
loses none and repeats none (`Build.bindings_importGroups`), so that a group has the names of the
imports with its specifier.
-/

set_option autoImplicit false

namespace DeclBundle

/-! ## Groups by key -/

theorem nodup_eraseDups {α : Type} [BEq α] [LawfulBEq α] (xs : List α) : xs.eraseDups.Nodup := by
  induction h : xs.length using Nat.strongRecOn generalizing xs with
  | ind n ih =>
    cases xs with
    | nil => exact List.nodup_nil
    | cons x xs =>
      rw [List.eraseDups_cons]
      refine List.nodup_cons.2 ⟨?_, ih _ ?_ _ rfl⟩
      · rw [List.mem_eraseDups]
        simp
      · subst h
        exact Nat.lt_succ_of_le (List.length_filter_le _ xs)

/-- The groups of a list by their keys are the list in another order. -/
theorem flatMap_filter_perm {α κ : Type} [DecidableEq κ] (key : α → κ) {keys : List κ} {xs : List α}
    (hnodup : keys.Nodup) (hmem : ∀ x ∈ xs, key x ∈ keys) :
    (keys.flatMap fun k => xs.filter fun x => key x == k).Perm xs := by
  induction keys generalizing xs with
  | nil =>
    cases xs with
    | nil => exact .refl _
    | cons x xs => cases hmem x List.mem_cons_self
  | cons k keys ih =>
    obtain ⟨hk, hkeys⟩ := List.nodup_cons.1 hnodup
    have hrest : ∀ x ∈ xs.filter fun x => !(key x == k), key x ∈ keys := by
      intro x hx
      obtain ⟨hx, hne⟩ := List.mem_filter.1 hx
      rcases List.mem_cons.1 (hmem x hx) with heq | hx'
      · simp [heq] at hne
      · exact hx'
    have hgroups : (keys.flatMap fun k' => xs.filter fun x => key x == k') =
        keys.flatMap fun k' => (xs.filter fun x => !(key x == k)).filter fun x => key x == k' := by
      refine List.flatMap_congr fun k' hk' => ?_
      rw [List.filter_filter]
      refine List.filter_congr fun x _ => ?_
      by_cases h : key x = k'
      · have hne : key x ≠ k := fun heq => hk (heq ▸ h ▸ hk')
        simp [h, h ▸ hne]
      · simp [h]
    rw [List.flatMap_cons, hgroups]
    exact ((ih hkeys hrest).append_left _).trans (List.filter_append_perm _ xs)

namespace Build

/-! ## Bindings -/

/-- A name for something of another package: an export, or the whole module. -/
structure ImportBinding where
  specifier : String
  /-- The name of the export. The whole module has none. -/
  imported : Option String
  localName : String
  deriving DecidableEq, Repr

namespace ImportGroup

/-- What a group imports, in the order in which it is written. -/
def bindings (g : ImportGroup) : List ImportBinding :=
  g.default.toList.map (⟨g.specifier, some "default", ·⟩) ++
    g.named.map (fun names => ⟨g.specifier, some names.1, names.2⟩) ++
    g.namespaces.map (⟨g.specifier, none, ·⟩)

theorem map_localName_bindings (g : ImportGroup) :
    g.bindings.map ImportBinding.localName = g.names := by
  rw [bindings, names, List.map_append, List.map_append, List.map_map, List.map_map, List.map_map]
  simp [Function.comp_def]

@[simp] theorem specifier_add (g : ImportGroup) (i : ExternalImport) (localName : String) :
    (g.add i localName).specifier = g.specifier := by
  unfold ImportGroup.add
  split
  · rfl
  · split <;> rfl

/-- What is added is there, and what was there stays. A second default import is added by name. -/
theorem bindings_add (g : ImportGroup) (i : ExternalImport) (localName : String) :
    (g.add i localName).bindings.Perm
      (g.bindings ++ [⟨g.specifier, i.importedName, localName⟩]) := by
  obtain ⟨specifier, default, named, namespaces⟩ := g
  unfold ImportGroup.add bindings
  cases i.importedName with
  | none => simp
  | some imported =>
    dsimp only
    split
    · next hdefault =>
      simp only [Bool.and_eq_true, beq_iff_eq, Option.isNone_iff_eq_none] at hdefault
      obtain ⟨rfl, rfl⟩ := hdefault
      simp only [Option.toList_some, Option.toList_none, List.map_cons, List.map_nil,
        List.nil_append, List.singleton_append]
      exact (List.perm_append_singleton _ _).symm
    · simp only [List.map_append, List.map_cons, List.map_nil, List.append_assoc]
      exact List.Perm.append_left _ (List.Perm.append_left _ List.perm_append_comm)

end ImportGroup

variable (collection : Collection) (naming : Naming)

/-- The name that is bound for an import, if it has one. -/
def importBinding? (i : ExternalImport) : Option ImportBinding :=
  (naming.nameOf? i.symbol).map fun localName => ⟨i.specifier, i.importedName, localName⟩

/-- A group has the imports with its specifier. -/
theorem bindings_importGroup (specifier : String) :
    (importGroup collection naming specifier).specifier = specifier ∧
      (importGroup collection naming specifier).bindings.Perm
        ((collection.externals.values.filter fun i => i.specifier == specifier).filterMap
          (importBinding? naming)) := by
  -- from any group on, since adding an import changes the group for the rest
  have hfold (imports : List ExternalImport) (g : ImportGroup) (hg : g.specifier = specifier) :
      (imports.foldl (fun g i =>
        if i.specifier == specifier then (naming.nameOf? i.symbol).elim g (g.add i) else g)
          g).specifier = specifier ∧
      (imports.foldl (fun g i =>
        if i.specifier == specifier then (naming.nameOf? i.symbol).elim g (g.add i) else g)
          g).bindings.Perm
      (g.bindings ++ (imports.filter fun i => i.specifier == specifier).filterMap
          (importBinding? naming)) := by
    induction imports generalizing g with
    | nil => exact ⟨hg, by simp⟩
    | cons i imports ih =>
      rw [List.foldl_cons]
      by_cases hi : (i.specifier == specifier) = true
      · rw [if_pos hi, List.filter_cons_of_pos (by simpa using hi), List.filterMap_cons,
          importBinding?]
        cases naming.nameOf? i.symbol with
        | none => exact ih g hg
        | some localName =>
          obtain ⟨hspecifier, hbindings⟩ :=
            ih (g.add i localName) (by rw [ImportGroup.specifier_add, hg])
          refine ⟨hspecifier,
            hbindings.trans (((g.bindings_add i localName).append_right _).trans ?_)⟩
          rw [hg, ← beq_iff_eq.1 hi, List.append_assoc]
          exact .refl _
      · rw [if_neg hi, List.filter_cons_of_neg (by simpa using hi)]
        exact ih g hg
  exact hfold _ { specifier } rfl

theorem importedSpecifiers_perm :
    (importedSpecifiers collection).Perm
      (collection.externals.values.map ExternalImport.specifier).eraseDups :=
  List.mergeSort_perm _ _

theorem nodup_importedSpecifiers : (importedSpecifiers collection).Nodup :=
  (importedSpecifiers_perm collection).nodup_iff.2 (nodup_eraseDups _)

theorem mem_importedSpecifiers {i : ExternalImport} (hi : i ∈ collection.externals.values) :
    i.specifier ∈ importedSpecifiers collection :=
  (importedSpecifiers_perm collection).mem_iff.2
    (List.mem_eraseDups.2 (List.mem_map.2 ⟨i, hi, rfl⟩))

/-- All groups together have all imports. -/
theorem bindings_importGroups : ((importGroups collection naming).flatMap ImportGroup.bindings).Perm
    (collection.externals.values.filterMap (importBinding? naming)) := by
  have hgroups : ((importGroups collection naming).flatMap ImportGroup.bindings).Perm
      ((importedSpecifiers collection).flatMap fun s =>
        (collection.externals.values.filter fun i => i.specifier == s).filterMap
            (importBinding? naming)) := by
    rw [importGroups, List.flatMap_map]
    exact List.Perm.flatMap_left _ fun s _ => (bindings_importGroup collection naming s).2
  rw [← List.filterMap_flatMap] at hgroups
  refine hgroups.trans (List.Perm.filterMap _ ?_)
  exact flatMap_filter_perm _ (nodup_importedSpecifiers collection) fun i hi =>
    mem_importedSpecifiers collection hi

/-- All groups together bind the names of all imports. -/
theorem names_importGroups : ((importGroups collection naming).flatMap ImportGroup.names).Perm
    (collection.externals.values.filterMap fun i => naming.nameOf? i.symbol) := by
  have hnames := (bindings_importGroups collection naming).map ImportBinding.localName
  rw [List.map_flatMap, List.map_filterMap] at hnames
  have hgroups : (fun g : ImportGroup => g.bindings.map ImportBinding.localName) =
      ImportGroup.names :=
    funext ImportGroup.map_localName_bindings
  have himports : (fun i => (importBinding? naming i).map ImportBinding.localName) = fun i =>
    naming.nameOf? i.symbol :=
    funext fun i => by rw [importBinding?, Option.map_map]; exact Option.map_id'
  rwa [hgroups, himports] at hnames

end Build

end DeclBundle
