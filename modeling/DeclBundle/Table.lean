/-!
# Tables that keep their order

Keys with values, in the order in which the keys were first set. Setting a key again keeps its
place.
-/

set_option autoImplicit false

namespace DeclBundle

/-- Keys with values, in the order in which the keys were first set. -/
structure Table (κ α : Type) where
  entries : List (κ × α) := []
  deriving Repr

namespace Table

variable {κ α : Type}

instance : Inhabited (Table κ α) := ⟨{}⟩

/-- The number of keys. -/
def size (t : Table κ α) : Nat := t.entries.length

/-- The keys, in order. -/
def keys (t : Table κ α) : List κ := t.entries.map Prod.fst

/-- The values, in the order of their keys. -/
def values (t : Table κ α) : List α := t.entries.map Prod.snd

variable [DecidableEq κ]

/-- The value of a key. -/
def get? (t : Table κ α) (key : κ) : Option α :=
  (t.entries.find? fun entry => entry.1 = key).map Prod.snd

/-- The key is in the table. -/
def contains (t : Table κ α) (key : κ) : Bool := (t.get? key).isSome

/-- Sets the value of a key: in its place when the key is there, and otherwise at the end. -/
def set (t : Table κ α) (key : κ) (value : α) : Table κ α :=
  if t.contains key then ⟨t.entries.map fun entry => if entry.1 = key then (key, value) else entry⟩
  else ⟨t.entries ++ [(key, value)]⟩

/-- Adds a key at the end; a key that is there keeps its value. -/
def add (t : Table κ α) (key : κ) (value : α) : Table κ α :=
  if t.contains key then t else ⟨t.entries ++ [(key, value)]⟩

/-! ## Looking up -/

theorem get?_empty (key : κ) : (({} : Table κ α)).get? key = none := rfl

theorem get?_append_new (entries : List (κ × α)) (key k : κ) (value : α)
    (h : (⟨entries⟩ : Table κ α).contains key = false) :
    (⟨entries ++ [(key, value)]⟩ : Table κ α).get? k =
      if key = k then some value else (⟨entries⟩ : Table κ α).get? k := by
  simp only [contains, get?, Option.isSome_map, Option.isSome_eq_false_iff,
    Option.isNone_iff_eq_none] at h
  by_cases hk : key = k
  · subst hk
    simp [get?, List.find?_append, h]
  · simp [get?, List.find?_append, hk]

/-- After a key was added it has a value, and all other keys have the values that they had. -/
theorem get?_add (t : Table κ α) (key k : κ) (value : α) :
    (t.add key value).get? k = if key = k then some ((t.get? key).getD value) else t.get? k := by
  unfold add
  by_cases h : t.contains key = true
  · rw [if_pos h]
    by_cases hk : key = k
    · subst hk
      obtain ⟨v, hv⟩ := Option.isSome_iff_exists.1 h
      simp [hv]
    · simp [hk]
  · have h' : t.contains key = false := by simpa using h
    rw [if_neg h, get?_append_new _ _ _ _ h']
    have hn : t.get? key = none := by simpa [contains] using h'
    simp [hn]

/-- A key is in the table when it is one of the keys. -/
theorem contains_iff_mem_keys (t : Table κ α) (key : κ) : t.contains key = true ↔ key ∈ t.keys := by
  simp [contains, get?, keys]

theorem contains_of_get? {t : Table κ α} {key : κ} {value : α} (h : t.get? key = some value) :
    t.contains key = true := by
  rw [contains, h]
  rfl

theorem contains_eq_false_iff {t : Table κ α} {key : κ} :
    t.contains key = false ↔ t.get? key = none := by
  rw [contains, Option.isSome_eq_false_iff, Option.isNone_iff_eq_none]

theorem contains_of_mem {t : Table κ α} {key : κ} {value : α} (h : (key, value) ∈ t.entries) :
    t.contains key = true :=
  (t.contains_iff_mem_keys key).2 (List.mem_map.2 ⟨_, h, rfl⟩)

theorem mem_of_get? {t : Table κ α} {key : κ} {value : α} (h : t.get? key = some value) :
    (key, value) ∈ t.entries := by
  obtain ⟨entry, hentry, rfl⟩ := Option.map_eq_some_iff.1 h
  have hkey : entry.1 = key := by simpa using List.find?_some hentry
  rw [← hkey]
  exact List.mem_of_find?_eq_some hentry

/-- When all keys are different, every entry is found under its key. -/
theorem get?_of_mem {t : Table κ α} (h : t.keys.Nodup) {key : κ} {value : α}
    (hmem : (key, value) ∈ t.entries) :
    t.get? key = some value := by
  have hget : ∀ entries : List (κ × α), (entries.map Prod.fst).Nodup → (key, value) ∈ entries →
      (entries.find? (·.1 == key)).map Prod.snd = some value := by
    intro entries
    induction entries with
    | nil => exact fun _ hmem => by cases hmem
    | cons entry entries ih =>
      intro hnodup hmem
      obtain ⟨hnew, hrest⟩ := List.nodup_cons.1 hnodup
      rcases List.mem_cons.1 hmem with rfl | hmem
      · simp
      · have hne : entry.1 ≠ key := by
          rintro rfl
          exact hnew (List.mem_map.2 ⟨_, hmem, rfl⟩)
        rw [List.find?_cons_of_neg (by simpa using hne)]
        exact ih hrest hmem
  exact hget t.entries h hmem

/-- After a key was set it has the value, and all other keys have the values that they had. -/
theorem get?_set (t : Table κ α) (key k : κ) (value : α) :
    (t.set key value).get? k = if key = k then some value else t.get? k := by
  unfold set
  by_cases h : t.contains key = true
  · rw [if_pos h]
    have hkeys : ∀ entry : κ × α, (if entry.1 = key then (key, value) else entry).1 = entry.1 := by
      intro entry
      split
      · next heq => exact heq.symm
      · rfl
    have hmap :
      (⟨t.entries.map fun entry => if entry.1 = key then (key, value) else entry⟩ : Table κ α).get?
      k =
        (t.entries.find? fun entry => entry.1 = k).map fun entry =>
          (if entry.1 = key then (key, value) else entry).2 := by
      simp only [get?, List.find?_map, Option.map_map, Function.comp_def, hkeys]
    rw [hmap]
    by_cases hk : key = k
    · subst hk
      obtain ⟨v, hv⟩ := Option.isSome_iff_exists.1 (show (t.get? key).isSome = true from h)
      obtain ⟨entry, hentry, -⟩ := Option.map_eq_some_iff.1 hv
      have hfst : entry.1 = key := by simpa using List.find?_some hentry
      simp [hentry, hfst]
    · cases hf : t.entries.find? (fun entry => entry.1 = k) with
      | none => simp [get?, hk, hf]
      | some entry =>
        have hfst : entry.1 = k := by simpa using List.find?_some hf
        simp [get?, hk, hf, hfst, Ne.symm hk]
  · have h' : t.contains key = false := by simpa using h
    rw [if_neg h, get?_append_new _ _ _ _ h']

theorem contains_set {t : Table κ α} {key k : κ} {value : α} :
    (t.set key value).contains k = true ↔ key = k ∨ t.contains k = true := by
  by_cases h : key = k <;> simp [contains, get?_set, h]

/-- Setting a key adds it to the keys, unless it is there. -/
theorem keys_set (t : Table κ α) (key : κ) (value : α) :
    (t.set key value).keys = if t.contains key then t.keys else t.keys ++ [key] := by
  unfold set
  split
  · rw [keys, keys, List.map_map]
    refine List.map_congr_left fun entry _ => ?_
    by_cases h : entry.1 = key <;> simp [h]
  · simp [keys]

/-- No key is there twice. -/
theorem nodup_keys_set {t : Table κ α} (h : t.keys.Nodup) (key : κ) (value : α) :
    (t.set key value).keys.Nodup := by
  rw [keys_set]
  split
  · exact h
  · next hnew =>
    refine List.nodup_append.2 ⟨h, List.nodup_cons.2 ⟨List.not_mem_nil, List.nodup_nil⟩, ?_⟩
    rintro k hk _ hsingle rfl
    obtain rfl := List.mem_singleton.1 hsingle
    exact hnew ((t.contains_iff_mem_keys k).2 hk)

/-- Of two values that are set for one key, the second one counts. -/
theorem set_set (t : Table κ α) (key : κ) (first second : α) :
    (t.set key first).set key second = t.set key second := by
  have hthere : (t.set key first).contains key = true := contains_set.2 (.inl rfl)
  have hmap : ∀ entries : List (κ × α),
      (entries.map fun entry => if entry.1 = key then (key, first) else entry).map
        (fun entry => if entry.1 = key then (key, second) else entry) =
        entries.map fun entry => if entry.1 = key then (key, second) else entry := by
    intro entries
    rw [List.map_map]
    refine List.map_congr_left fun entry _ => ?_
    by_cases h : entry.1 = key <;> simp [h]
  rw [set, if_pos hthere]
  by_cases h : t.contains key = true
  · rw [set, if_pos h, set, if_pos h, hmap]
  · have hother : t.entries.map (fun entry => if entry.1 = key then (key, second) else entry) =
        t.entries := by
      refine (List.map_congr_left fun entry hentry => if_neg ?_).trans (List.map_id _)
      rintro rfl
      exact h (contains_of_mem hentry)
    rw [set, if_neg h, set, if_neg h, List.map_append, hother]
    simp

/-- A key that is there and one that is not are set in any order. -/
theorem set_comm {t : Table κ α} {key new : κ} (h : t.contains key = true)
    (hnew : t.contains new = false) (value other : α) :
    (t.set key value).set new other = (t.set new other).set key value := by
  have hne : new ≠ key := by
    rintro rfl
    rw [h] at hnew
    cases hnew
  have hthere : (t.set new other).contains key = true := contains_set.2 (.inr h)
  have hkeep : ¬ (t.set key value).contains new = true := fun hc => by
    rcases contains_set.1 hc with heq | hc
    · exact hne heq.symm
    · rw [hnew] at hc
      cases hc
  have hnew' : ¬ t.contains new = true := by simp [hnew]
  rw [set, if_neg hkeep, set, if_pos h, set, if_pos hthere, set, if_neg hnew', List.map_append]
  simp [hne]

/-- Setting a key adds no other entry. -/
theorem mem_entries_set {t : Table κ α} {key : κ} {value : α} {entry : κ × α}
    (h : entry ∈ (t.set key value).entries) : entry = (key, value) ∨ entry ∈ t.entries := by
  unfold set at h
  split at h
  · obtain ⟨old, hold, rfl⟩ := List.mem_map.1 h
    split
    · exact .inl rfl
    · exact .inr hold
  · rcases List.mem_append.1 h with h | h
    · exact .inr h
    · exact .inl (List.mem_singleton.1 h)

end Table

end DeclBundle
