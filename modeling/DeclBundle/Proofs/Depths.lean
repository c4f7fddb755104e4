import Mathlib.Data.List.Nodup
import Mathlib.Data.List.Perm.Subperm

/-!
# How deep searches go

A search may ask for the answers of other searches, and these for those of further ones. A limit on
the depth keeps such a search from going on forever. When a search needs just the depth `n + 1`, one
of those that it asks for needs just the depth `n`, and so on: all these searches are different. So
when there are only so many searches that ask for others, a limit above their number cuts off
nothing but what never ends (`Deepens.endsIn`).
-/

set_option autoImplicit false

namespace DeclBundle

variable {α κ : Type}

/-- Searches that end in a depth or do not, each with a key. Those that ask for others have one of
the given keys. -/
structure Deepens (EndsIn : Nat → α → Prop) (P : α → Prop) (key : α → κ)
    (keys : List κ) : Prop where
  /-- Nothing ends in no depth. -/
  zero : ∀ x, ¬ EndsIn 0 x
  /-- What ends in a depth ends in a greater one. -/
  succ : ∀ n x, EndsIn n x → EndsIn (n + 1) x
  /-- Different searches have different keys. -/
  injective : ∀ x y, P x → P y → key x = key y → x = y
  /-- A search that needs a depth asks for one that needs the depth before it. -/
  asks : ∀ n x, P x → ¬ EndsIn (n + 1) x → EndsIn (n + 2) x →
    key x ∈ keys ∧ ∃ y, P y ∧ ¬ EndsIn n y ∧ EndsIn (n + 1) y

namespace Deepens

variable {EndsIn : Nat → α → Prop} {P : α → Prop} {key : α → κ} {keys : List κ}
variable (h : Deepens EndsIn P key keys)

include h

theorem endsIn_of_le {m n : Nat} (hle : m ≤ n) {x : α} (hends : EndsIn m x) : EndsIn n x := by
  induction hle with
  | refl => exact hends
  | step _ ih => exact h.succ _ x ih

/-- The searches that a search needs on its way, one for each depth. -/
theorem exists_chain {n : Nat} {x : α} (hx : P x) (hshort : ¬ EndsIn n x)
    (hends : EndsIn (n + 1) x) :
    ∃ xs : List α, xs.length = n ∧ xs.Nodup ∧ ∀ y ∈ xs, P y ∧ key y ∈ keys ∧ EndsIn (n + 1) y := by
  induction n generalizing x with
  | zero => exact ⟨[], rfl, List.nodup_nil, fun y hy => nomatch hy⟩
  | succ n ih =>
    obtain ⟨hkey, y, hy, hyshort, hyends⟩ := h.asks n x hx hshort hends
    obtain ⟨xs, hlength, hnodup, hall⟩ := ih hy hyshort hyends
    -- all others end in a depth that is too small for the first one
    have hfresh : x ∉ xs := by
      intro hmem
      exact hshort (hall x hmem).2.2
    refine ⟨x :: xs, by rw [List.length_cons, hlength], List.nodup_cons.2 ⟨hfresh, hnodup⟩, ?_⟩
    intro z hz
    rcases List.mem_cons.1 hz with rfl | hz
    · exact ⟨hx, hkey, hends⟩
    · obtain ⟨hP, hzkey, hzends⟩ := hall z hz
      exact ⟨hP, hzkey, h.succ _ z hzends⟩

/-- A search that ends has a depth that it needs. -/
theorem exists_needed {n : Nat} {x : α} (hends : EndsIn n x) :
    ∃ least, ¬ EndsIn least x ∧ EndsIn (least + 1) x := by
  induction n with
  | zero => exact absurd hends (h.zero x)
  | succ n ih =>
    by_cases hless : EndsIn n x
    · exact ih hless
    · exact ⟨n, hless, hends⟩

/-- A search that ends in some depth ends in a depth above the number of keys. -/
theorem endsIn {n : Nat} {x : α} (hx : P x) (hends : EndsIn n x) : EndsIn (keys.length + 1) x := by
  obtain ⟨least, hshort, hleast⟩ := h.exists_needed hends
  obtain ⟨xs, hlength, hnodup, hall⟩ := h.exists_chain hx hshort hleast
  have hkeys : (xs.map key).Nodup := by
    refine List.Nodup.map_on ?_ hnodup
    intro y hy z hz heq
    exact h.injective y z (hall y hy).1 (hall z hz).1 heq
  have hsubset : xs.map key ⊆ keys := by
    intro k hk
    obtain ⟨y, hy, rfl⟩ := List.mem_map.1 hk
    exact (hall y hy).2.1
  have hle := (hkeys.subperm hsubset).length_le
  rw [List.length_map, hlength] at hle
  exact h.endsIn_of_le (by omega) hleast

end Deepens

end DeclBundle
