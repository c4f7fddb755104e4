import DeclBundle.Project.Member

/-!
# Exports have different names

No export that is found replaces an earlier one, so a module exports each name once.
-/

set_option autoImplicit false

namespace DeclBundle.Project

variable (p : Project)

/-- The exports found so far have different names. -/
def ExportWalk.Distinct (w : ExportWalk) : Prop := (w.found.map ModuleExport.name).Nodup

theorem ExportWalk.Distinct.addTable {w : ExportWalk} (h : w.Distinct) (isRoot : Bool)
    (table : SymbolTable) :
    (w.addTable isRoot table).Distinct := by
  unfold ExportWalk.addTable
  generalize table.entries = entries
  induction entries generalizing w with
  | nil => exact h
  | cons entry rest ih =>
    refine ih ?_
    dsimp only
    split
    · exact h
    · next hnew =>
      simp only [Bool.or_eq_true, not_or, List.any_eq_true, beq_iff_eq] at hnew
      let e : ModuleExport := ⟨entry.1, entry.2⟩
      show ((w.found ++ [e]).map ModuleExport.name).Nodup
      rw [List.map_append]
      refine List.nodup_append.2 ⟨h, List.nodup_cons.2 ⟨List.not_mem_nil, List.nodup_nil⟩, ?_⟩
      rintro name hname _ hsingle rfl
      obtain ⟨e, he, rfl⟩ := List.mem_map.1 hname
      exact hnew.2 ⟨e, he, List.mem_singleton.1 hsingle⟩

theorem distinct_collectExports (depth : Nat) (isRoot : Bool) (module : SymbolId) {w : ExportWalk}
    (h : w.Distinct) :
    (p.collectExports depth isRoot module w).Distinct := by
  induction depth generalizing isRoot module w with
  | zero => exact h
  | succ depth ih =>
    have hall : ∀ (targets : List SymbolId) (w : ExportWalk), w.Distinct →
        (targets.foldl (fun w target => p.collectExports depth false target w) w).Distinct := by
      intro targets
      induction targets with
      | nil => exact fun _ h => h
      | cons target rest ihrest => exact fun w h => ihrest _ (ih false target h)
    unfold collectExports
    split
    · exact h
    · have hvisited : ExportWalk.Distinct { w with visited := module :: w.visited } := h
      dsimp only
      split
      · exact h
      · exact hall _ _ (hvisited.addTable _ _)

/-- A module exports each name once. -/
theorem nodup_exportsOf (module : SymbolId) : ((p.exportsOf module).map ModuleExport.name).Nodup :=
  p.distinct_collectExports _ true module (w := {}) List.nodup_nil

end DeclBundle.Project
