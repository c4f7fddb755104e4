import DeclBundle.Bundle.Naming

/-!
# Names belong to one symbol

`NameTable.Consistent` says that the two halves of a table of names agree: the name of a symbol
belongs to that symbol. Reserving a name and giving a symbol a name keep this, because a symbol gets
a name that is free (`NameTable.contains_freeName`). In the naming of every plan, two symbols with
one name are therefore the same (`Naming.ofPlan_injective`), and all symbols that ask for a name
have one (`Naming.nameOf?_ofPlan`).
-/

set_option autoImplicit false

namespace DeclBundle.NameTable

/-! ## Free names -/

/-- Every key of the table is shorter than the long name. -/
theorem length_lt_longName {t : NameTable} {name : String} (h : name ∈ t.names.keys) :
    name.length < t.longName.length := by
  have hjoin : name.length ≤ (String.join t.names.keys).length := by
    obtain ⟨before, after, hsplit⟩ := List.append_of_mem h
    rw [hsplit]
    simp only [String.join_append, String.join_cons, String.length_append]
    omega
  simp only [longName, String.length_append]
  have hone : "_".length = 1 := rfl
  omega

theorem contains_longName (t : NameTable) : t.names.contains t.longName = false := by
  cases h : t.names.contains t.longName with
  | false => rfl
  | true =>
    exact absurd (length_lt_longName ((t.names.contains_iff_mem_keys _).1 h)) (Nat.lt_irrefl _)

/-- The name that is chosen is free, whatever is preferred. -/
theorem contains_of_freeName? {t : NameTable} {limit : Nat} {name found : String}
    (h : t.freeName? limit name = some found) : t.names.contains found = false := by
  induction limit generalizing name with
  | zero => cases h
  | succ limit ih =>
    unfold freeName? at h
    split at h
    · exact ih h
    · next hfree =>
      obtain rfl := Option.some.inj h
      simpa using hfree

/-! ## Agreement -/

/-- The name of a symbol belongs to that symbol. -/
def Consistent (t : NameTable) : Prop :=
  ∀ id name, t.nameOf? id = some name → t.ownerOf? name = some (.symbol id)

theorem consistent_empty : Consistent {} := by
  intro id name h
  simp [nameOf?, Table.get?_empty] at h

theorem Consistent.reserve {t : NameTable} (h : t.Consistent) (name : String) :
    (t.reserve name).Consistent := by
  intro id n hn
  have howner : t.ownerOf? n = some (.symbol id) := h id n hn
  simp only [ownerOf?, NameTable.reserve, Table.get?_add]
  split
  · next heq =>
    subst heq
    simp only [ownerOf?] at howner
    rw [howner, Option.getD_some]
  · exact howner

/-- A name that the table does not contain has no owner. -/
theorem ownerOf?_of_contains {t : NameTable} {name : String} (h : t.names.contains name = false) :
    t.ownerOf? name = none :=
  Table.contains_eq_false_iff.1 h

theorem assign?_of_some {t : NameTable} {id : SymbolId} {name : String}
    (h : t.nameOf? id = some name) (preferred : String) :
    t.assign? id preferred = some (t, name) := by
  simp only [nameOf?] at h
  simp only [assign?, h]

theorem assign?_of_none {t : NameTable} {id : SymbolId} (h : t.nameOf? id = none)
    (preferred : String) : t.assign? id preferred =
      (t.freeName? (t.names.size + 1) preferred).map fun name => (t.give id name, name) := by
  simp only [nameOf?] at h
  simp only [assign?, h]

theorem assign_of_some {t : NameTable} {id : SymbolId} {name : String}
    (h : t.nameOf? id = some name) (preferred : String) : t.assign id preferred = (t, name) := by
  rw [assign, assign?_of_some h, Option.getD_some]

/-- A symbol without a name gets one that nothing had. -/
theorem assign_of_none {t : NameTable} {id : SymbolId} (h : t.nameOf? id = none)
    (preferred : String) :
    ∃ name, t.ownerOf? name = none ∧ t.assign id preferred = (t.give id name, name) := by
  rw [assign, assign?_of_none h]
  cases hfound : t.freeName? (t.names.size + 1) preferred with
  | none => exact ⟨t.longName, ownerOf?_of_contains t.contains_longName, rfl⟩
  | some found => exact ⟨found, ownerOf?_of_contains (contains_of_freeName? hfound), rfl⟩

/-- The owner of a name after it was given away. -/
theorem ownerOf?_give (t : NameTable) (id : SymbolId) (name other : String) :
    (t.give id name).ownerOf? other =
      if name = other then some (.symbol id) else t.ownerOf? other := by
  simp only [give, ownerOf?, Table.get?_set]

/-- The name of a symbol after one was given away. -/
theorem nameOf?_give (t : NameTable) (id other : SymbolId) (name : String) :
    (t.give id name).nameOf? other = if id = other then some name else t.nameOf? other := by
  simp only [give, nameOf?, Table.get?_set]

/-- A name that nothing had is given to one symbol. -/
theorem Consistent.give {t : NameTable} (h : t.Consistent) (id : SymbolId) {name : String}
    (hfree : t.ownerOf? name = none) : (t.give id name).Consistent := by
  intro other n hn
  rw [nameOf?_give] at hn
  rw [ownerOf?_give]
  by_cases hother : id = other
  · subst hother
    rw [if_pos rfl] at hn
    rw [if_pos (Option.some.inj hn)]
  · rw [if_neg hother] at hn
    have howner : t.ownerOf? n = some (.symbol other) := h other n hn
    have hne : name ≠ n := by
      rintro rfl
      rw [hfree] at howner
      cases howner
    rw [if_neg hne]
    exact howner

theorem Consistent.assign {t : NameTable} (h : t.Consistent) (id : SymbolId) (preferred : String) :
    (t.assign id preferred).1.Consistent := by
  cases hid : t.nameOf? id with
  | some name =>
    rw [assign_of_some hid]
    exact h
  | none =>
    obtain ⟨name, hfree, heq⟩ := assign_of_none hid preferred
    rw [heq]
    exact h.give id hfree

/-- No two symbols of a consistent table have one name. -/
theorem Consistent.injective {t : NameTable} (h : t.Consistent) {x y : SymbolId} {name : String}
    (hx : t.nameOf? x = some name) (hy : t.nameOf? y = some name) : x = y := by
  have hxy := (h x name hx).symm.trans (h y name hy)
  simpa using hxy

/-! ## Names stay -/

/-- A symbol that has a name keeps it. -/
theorem nameOf?_assign_of_some {t : NameTable} {id other : SymbolId} {name preferred : String}
    (h : t.nameOf? other = some name) : (t.assign id preferred).1.nameOf? other = some name := by
  cases hid : t.nameOf? id with
  | some _ => rw [assign_of_some hid, h]
  | none =>
    obtain ⟨free, -, heq⟩ := assign_of_none hid preferred
    have hne : id ≠ other := by
      rintro rfl
      rw [hid] at h
      cases h
    rw [heq, nameOf?_give, if_neg hne, h]

/-- Afterwards the symbol has the name that was chosen. -/
theorem nameOf?_assign (t : NameTable) (id : SymbolId) (preferred : String) :
    (t.assign id preferred).1.nameOf? id = some (t.assign id preferred).2 := by
  cases hid : t.nameOf? id with
  | some name => rw [assign_of_some hid, hid]
  | none =>
    obtain ⟨name, -, heq⟩ := assign_of_none hid preferred
    rw [heq, nameOf?_give, if_pos rfl]

end NameTable

namespace Naming

/-! ## The naming of a plan -/

theorem consistent_reserveAll (names : List String) (t : NameTable) (h : t.Consistent) :
    (names.foldl NameTable.reserve t).Consistent := by
  induction names generalizing t with
  | nil => exact h
  | cons name rest ih => exact ih _ (h.reserve name)

/-- Gives the listed symbols names in turn. -/
theorem consistent_assignAll (wanted : List (SymbolId × String)) (t : NameTable)
    (h : t.Consistent) :
    (wanted.foldl (fun t (id, preferred) => (t.assign id preferred).1) t).Consistent := by
  induction wanted generalizing t with
  | nil => exact h
  | cons first rest ih => exact ih _ (h.assign first.1 first.2)

theorem nameOf?_assignAll_of_some (wanted : List (SymbolId × String)) {t : NameTable}
    {id : SymbolId} {name : String} (h : t.nameOf? id = some name) :
    (wanted.foldl (fun t (id, preferred) => (t.assign id preferred).1) t).nameOf? id =
      some name := by
  induction wanted generalizing t with
  | nil => exact h
  | cons first rest ih => exact ih (NameTable.nameOf?_assign_of_some h)

theorem nameOf?_assignAll_of_mem {wanted : List (SymbolId × String)} {id : SymbolId}
    {preferred : String} (h : (id, preferred) ∈ wanted) (t : NameTable) :
    ∃ name, (wanted.foldl (fun t (id, preferred) => (t.assign id preferred).1) t).nameOf? id =
      some name := by
  induction wanted generalizing t with
  | nil => cases h
  | cons first rest ih =>
    rcases List.mem_cons.1 h with rfl | h
    · exact ⟨_, nameOf?_assignAll_of_some rest (t.nameOf?_assign id preferred)⟩
    · exact ih h _

/-- Nothing else gets a name. -/
theorem mem_of_nameOf?_assignAll {wanted : List (SymbolId × String)} {t : NameTable} {id : SymbolId}
    {name : String}
    (h : (wanted.foldl (fun t (id, preferred) => (t.assign id preferred).1) t).nameOf? id =
      some name)
    (hnone : t.nameOf? id = none) : ∃ preferred, (id, preferred) ∈ wanted := by
  induction wanted generalizing t with
  | nil =>
    have hsome : t.nameOf? id = some name := h
    rw [hnone] at hsome
    cases hsome
  | cons first rest ih =>
    by_cases hfirst : first.1 = id
    · exact ⟨first.2, hfirst ▸ List.mem_cons_self⟩
    · have hother : (t.assign first.1 first.2).1.nameOf? id = none := by
        cases hid : t.nameOf? first.1 with
        | some _ => rw [NameTable.assign_of_some hid, hnone]
        | none =>
          obtain ⟨free, -, heq⟩ := NameTable.assign_of_none hid first.2
          rw [heq, NameTable.nameOf?_give, if_neg hfirst, hnone]
      obtain ⟨preferred, hmem⟩ := ih h hother
      exact ⟨preferred, List.mem_cons_of_mem _ hmem⟩

theorem assigned_reserveAll (names : List String) (t : NameTable) :
    (names.foldl NameTable.reserve t).assigned = t.assigned := by
  induction names generalizing t with
  | nil => rfl
  | cons name rest ih => exact ih _

variable (p : Project) (collection : Collection) (plan : Plan)

theorem consistent_ofPlan : (ofPlan p collection plan).table.Consistent :=
  consistent_assignAll _ _ (consistent_reserveAll _ _ NameTable.consistent_empty)

variable {p collection plan}

/-- Two symbols with one final name are the same symbol. -/
theorem ofPlan_injective {x y : SymbolId} {name : String}
    (hx : (ofPlan p collection plan).nameOf? x = some name)
    (hy : (ofPlan p collection plan).nameOf? y = some name) : x = y :=
  (consistent_ofPlan p collection plan).injective hx hy

/-- Every symbol that asks for a name has one. -/
theorem nameOf?_ofPlan {id : SymbolId} {preferred : String}
    (h : (id, preferred) ∈ namedSymbols p collection plan) :
    ∃ name, (ofPlan p collection plan).nameOf? id = some name :=
  nameOf?_assignAll_of_mem h _

/-- Only symbols that ask for a name have one. -/
theorem mem_namedSymbols {id : SymbolId} {name : String}
    (h : (ofPlan p collection plan).nameOf? id = some name) :
    ∃ preferred, (id, preferred) ∈ namedSymbols p collection plan := by
  refine mem_of_nameOf?_assignAll h ?_
  rw [NameTable.nameOf?, assigned_reserveAll]
  rfl

end DeclBundle.Naming
