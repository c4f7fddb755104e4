import DeclBundle.Proofs.NameCalls
import DeclBundle.Proofs.TreeLoops

/-!
# Names that are tried

A symbol whose preferred name is taken tries one candidate after the other, each with a number one
greater than the one before. The numbers have 32 bits, so the greatest one is followed by zero: the
number overflows (`Overflows`), and from there on the candidates come back. A name comes back
exactly when it is numbered as candidates are (`IsNumbered`), and then with every 2^32nd candidate.

`NameTable.searchRound` is one round of the search, which goes on until a candidate is free and
counts nothing. It ends just when one of the first 2^32 + 2 candidates is free, with the name that
`NameTable.assign?` gives away (`NameTable.candidates_exact`). A table of names can hold all of them
(`NameTable.exists_endless_search`).
-/

set_option autoImplicit false

namespace DeclBundle

/-! ## Numbers at the end of names -/

/-- The name is numbered as the candidates for another name are: no leading zeros, no sign. -/
def IsNumbered (name : String) : Prop := ∃ base n, base ≠ "" ∧ name = numbered base n

/-- The name before its last underscore and the number after it. -/
def ending? (name : String) : Option (String × UInt32) :=
  match Text.cutAtLast? ['_'] name.toList with
  | none => none
  | some ([], _) => none
  | some (base, number) => (word32? number).map (String.ofList base, ·)

/-- The candidate after the name needs a number that 32 bits cannot hold. -/
def Overflows (name : String) : Prop :=
  ∃ base, ending? name = some (base, UInt32.ofNat (UInt32.size - 1))

/-- A number grows by one, and a name without one gets the first. -/
theorem nextCandidate_eq (name : String) :
    nextCandidate name = (ending? name).elim (name ++ "_1") fun ending =>
      numbered ending.1 (ending.2 + 1) := by
  unfold nextCandidate ending?
  cases Text.cutAtLast? ['_'] name.toList with
  | none => rfl
  | some cut =>
    obtain ⟨base, number⟩ := cut
    cases base with
    | nil => cases hnumber : word32? number <;> simp [hnumber]
    | cons c base => cases hnumber : word32? number <;> simp [hnumber, numbered]

theorem ending?_numbered {base : String} (h : base ≠ "") (n : UInt32) :
    ending? (numbered base n) = some (base, n) := by
  have hlist : (numbered base n).toList = base.toList ++ '_' :: Nat.toDigits 10 n.toNat := by
    rw [numbered, String.toList_append, String.toList_append, toList_toString]
    simp
  obtain ⟨c, rest, hbase⟩ := List.exists_cons_of_ne_nil (l := base.toList) (by simpa using h)
  rw [ending?, hlist, Text.cutAtLast?_append Nat.underscore_not_in_toDigits, hbase]
  show (word32? (Nat.toDigits 10 n.toNat)).map (String.ofList (c :: rest), ·) = some (base, n)
  rw [word32?_toDigits, Option.map_some, ← hbase, String.ofList_toList]

/-- What stands before a number is not empty. -/
theorem base_ne_of_ending? {name base : String} {n : UInt32} (h : ending? name = some (base, n)) :
    base ≠ "" := by
  unfold ending? at h
  split at h
  · cases h
  · cases h
  · next before number hnonempty _ =>
    obtain ⟨_, -, heq⟩ := Option.map_eq_some_iff.1 h
    obtain ⟨rfl, -⟩ := Prod.mk.inj heq
    intro hempty
    exact hnonempty (by simpa using hempty)

theorem overflows_numbered {base : String} (h : base ≠ "") (n : UInt32) :
    Overflows (numbered base n) ↔ n.toNat = UInt32.size - 1 := by
  have hlast : (UInt32.ofNat (UInt32.size - 1)).toNat = UInt32.size - 1 := by decide
  rw [Overflows, ending?_numbered h]
  constructor
  · rintro ⟨_, heq⟩
    obtain ⟨-, rfl⟩ := Prod.mk.inj (Option.some.inj heq)
    exact hlast
  · intro hn
    refine ⟨base, ?_⟩
    rw [← UInt32.toNat_inj.1 (hn.trans hlast.symm)]

/-! ## The sequence of candidates -/

/-- How many candidates there are before the first one whose number overflows. -/
def stepsToOverflow (name : String) : Nat :=
  match ending? name with
  | some (_, n) => UInt32.size - 1 - n.toNat
  | none => if name = "" then UInt32.size else UInt32.size - 1

/-- Unless the name is empty, its candidates are numbered one by one from the first step on. -/
theorem exists_candidate_succ {name : String} (h : name ≠ "") :
    ∃ base n, base ≠ "" ∧ (∀ k, candidate name (k + 1) = numbered base (n + UInt32.ofNat (k + 1))) ∧
      stepsToOverflow name = UInt32.size - 1 - n.toNat ∧
        (Overflows name ↔ n.toNat = UInt32.size - 1) := by
  have hall : ∀ base n, base ≠ "" → nextCandidate name = numbered base (n + 1) →
      ∀ k, candidate name (k + 1) = numbered base (n + UInt32.ofNat (k + 1)) := by
    intro base n hbase hnext k
    rw [candidate_succ, hnext, candidate_numbered hbase, Nat.add_comm k 1,
      UInt32.ofNat_add, ← UInt32.add_assoc]
    rfl
  have hnext := nextCandidate_eq name
  unfold stepsToOverflow Overflows
  cases hending : ending? name with
  | none =>
    rw [hending] at hnext
    refine ⟨name, 0, h, hall name 0 h ?_, ?_, ?_⟩
    · rw [hnext, Option.elim_none, numbered, String.append_assoc]
      rfl
    · simp [h]
    · simp
  | some ending =>
    obtain ⟨base, n⟩ := ending
    have hbase := base_ne_of_ending? hending
    rw [hending] at hnext
    refine ⟨base, n, hbase, hall base n hbase hnext, rfl, ?_⟩
    rw [← overflows_numbered hbase, Overflows, ending?_numbered hbase]

theorem overflows_candidate_iff_of_ne {name : String} (h : name ≠ "") (k : Nat) :
    Overflows (candidate name k) ↔ ∃ rounds, k = stepsToOverflow name + rounds * UInt32.size := by
  obtain ⟨base, n, hbase, hcandidate, hsteps, hself⟩ := exists_candidate_succ h
  have hn := n.toNat_lt_size
  rw [hsteps]
  cases k with
  | zero =>
    show Overflows name ↔ _
    rw [hself]
    -- the number of a candidate is the sum modulo 2^32, so it is the last one once in a round
    constructor
    · intro hlast
      exact ⟨0, by omega⟩
    · rintro ⟨rounds, hrounds⟩
      omega
  | succ k =>
    have hpow : 2 ^ 32 = UInt32.size := rfl
    rw [hcandidate, overflows_numbered hbase, UInt32.toNat_add, UInt32.toNat_ofNat', hpow,
      Nat.add_mod, Nat.mod_mod, ← Nat.add_mod]
    constructor
    · intro hlast
      refine ⟨(n.toNat + (k + 1)) / UInt32.size, ?_⟩
      have hdiv := Nat.div_add_mod (n.toNat + (k + 1)) UInt32.size
      rw [Nat.mul_comm] at hdiv
      omega
    · rintro ⟨rounds, hrounds⟩
      have hsum : n.toNat + (k + 1) = (UInt32.size - 1) + UInt32.size * rounds := by
        rw [Nat.mul_comm]
        omega
      rw [hsum, Nat.add_mul_mod_self_left]
      decide

/-- The number of the `k`-th candidate overflows when `k` is a multiple of 2^32 behind the first
such candidate. -/
theorem overflows_candidate_iff (name : String) (k : Nat) :
    Overflows (candidate name k) ↔ ∃ rounds, k = stepsToOverflow name + rounds * UInt32.size := by
  by_cases h : name = ""
  · -- the candidates of the empty name are those of `_1`, one step later
    subst h
    have hone : stepsToOverflow "" = stepsToOverflow "_1" + 1 := by decide
    cases k with
    | zero =>
      constructor
      · intro hoverflows
        obtain ⟨base, hending⟩ := hoverflows
        cases hending
      · rintro ⟨rounds, hrounds⟩
        omega
    | succ k =>
      have hnext : nextCandidate "" = "_1" := by decide
      rw [candidate_succ, hnext, overflows_candidate_iff_of_ne (by decide), hone]
      constructor
      · rintro ⟨rounds, hrounds⟩
        exact ⟨rounds, by omega⟩
      · rintro ⟨rounds, hrounds⟩
        exact ⟨rounds, by omega⟩
  · exact overflows_candidate_iff_of_ne h k

/-- Every candidate but the name itself and the one after it is numbered. -/
theorem isNumbered_candidate (name : String) (k : Nat) : IsNumbered (candidate name (k + 2)) := by
  obtain ⟨base, n, hbase, hnumbered⟩ := exists_candidate_eq_numbered name
  exact ⟨base, _, hbase, hnumbered k⟩

/-- Two candidates are the same exactly when they are a multiple of 2^32 apart and the first of them
is numbered. -/
theorem candidate_eq_iff (name : String) {i j : Nat} (h : i < j) :
    candidate name i = candidate name j ↔ IsNumbered (candidate name i) ∧ UInt32.size ∣ j - i := by
  constructor
  · intro heq
    have hsize : UInt32.size ∣ j - i := by
      by_contra hnot
      -- the same candidates meet again within one round
      have hmod : 0 < (j - i) % UInt32.size := Nat.pos_of_ne_zero fun hzero =>
        hnot (Nat.dvd_of_mod_eq_zero hzero)
      obtain ⟨base, n, -, hnumbered⟩ := exists_candidate_eq_numbered name
      have hlater : candidate name (i + 2) = candidate name (j + 2) := by
        rw [candidate_add, heq, ← candidate_add]
      rw [hnumbered, hnumbered] at hlater
      have hwords := congrArg UInt32.toNat ((UInt32.add_right_inj _).1 (numbered_injective hlater))
      rw [UInt32.toNat_ofNat', UInt32.toNat_ofNat'] at hwords
      have hsame : (j - i) % UInt32.size = 0 := Nat.sub_mod_eq_zero_of_mod_eq hwords.symm
      omega
    refine ⟨?_, hsize⟩
    have htwo : 2 ≤ j := by
      have hle := Nat.le_of_dvd (Nat.sub_pos_of_lt h) hsize
      have hbig : 2 ≤ UInt32.size := by decide
      omega
    obtain ⟨k, rfl⟩ := Nat.exists_eq_add_of_le' htwo
    rw [heq]
    exact isNumbered_candidate name k
  · rintro ⟨⟨base, n, hbase, hname⟩, rounds, hrounds⟩
    have hj : j = i + UInt32.size * rounds := by omega
    have hzero : UInt32.ofNat (UInt32.size * rounds) = 0 := by
      apply UInt32.toNat_inj.1
      rw [UInt32.toNat_ofNat']
      exact Nat.mul_mod_right _ _
    rw [hj, candidate_add, hname, candidate_numbered hbase, hzero, UInt32.add_zero]

/-- From the third candidate on, they come back after 2^32 steps. -/
theorem candidate_add_size (name : String) (k : Nat) :
    candidate name (k + 2 + UInt32.size) = candidate name (k + 2) := by
  have hpos : 0 < UInt32.size := by decide
  refine ((candidate_eq_iff name (by omega)).2 ⟨isNumbered_candidate name k, ?_⟩).symm
  rw [Nat.add_sub_cancel_left]

namespace NameTable

/-! ## The search for a free name -/

/-- One round of the search for a free name. -/
def searchRound (t : NameTable) (name : String) : String ⊕ String :=
  if t.names.contains name then .inl (nextCandidate name) else .inr name

/-- The search ends with the first free candidate. -/
theorem ends_search_iff {t : NameTable} {name found : String} :
    Ends t.searchRound name found ↔ t.IsFirstFree name found := by
  constructor
  · intro h
    -- each round that goes on passes one candidate that is taken
    induction h with
    | @answer name found hround =>
      unfold searchRound at hround
      split at hround
      · cases hround
      · next hfree =>
        cases hround
        have hfree : t.names.contains name = false := by simpa using hfree
        refine ⟨0, rfl, contains_eq_false_iff.1 hfree, ?_⟩
        intro j hj
        exact absurd hj (Nat.not_lt_zero j)
    | @again name next found hround hrest ih =>
      unfold searchRound at hround
      split at hround
      · next htaken =>
        cases hround
        obtain ⟨k, hfound, hfree, hbefore⟩ := ih
        refine ⟨k + 1, hfound.trans (candidate_succ name k).symm, hfree, ?_⟩
        intro j hj
        cases j with
        | zero => exact contains_eq_true_iff.1 htaken
        | succ j =>
          rw [candidate_succ]
          exact hbefore j (Nat.lt_of_succ_lt_succ hj)
      · cases hround
  · rintro ⟨k, hfound, hfree, hbefore⟩
    induction k generalizing name with
    | zero =>
      obtain rfl : found = name := hfound
      exact .answer (by simp [searchRound, contains_eq_false_iff.2 hfree])
    | succ k ih =>
      have htaken : t.names.contains name = true :=
        contains_eq_true_iff.2 (hbefore 0 (Nat.succ_pos k))
      refine .again (t := nextCandidate name) (by simp [searchRound, htaken]) (ih ?_ ?_)
      · rw [hfound, candidate_succ]
      · intro j hj
        rw [← candidate_succ]
        exact hbefore (j + 1) (Nat.succ_lt_succ hj)

/-- When one candidate is free the search ends. -/
theorem exists_ends_search {t : NameTable} {name : String} {k : Nat}
    (h : t.names.contains (candidate name k) = false) :
    ∃ found, Ends t.searchRound name found := by
  obtain ⟨found, hfound⟩ := exists_isFirstFree (contains_eq_false_iff.1 h)
  exact ⟨found, ends_search_iff.2 hfound⟩

/-- What holds of all candidates in the first round holds of all others. -/
theorem exists_first_round {P : String → Prop} {name : String} {k : Nat}
    (h : P (candidate name k)) :
    ∃ j < UInt32.size + 2, P (candidate name j) := by
  induction k using Nat.strongRecOn with
  | ind k ih =>
    by_cases hk : k < UInt32.size + 2
    · exact ⟨k, hk, h⟩
    · -- the candidate stood one round before as well
      obtain ⟨m, rfl⟩ := Nat.exists_eq_add_of_le (Nat.le_of_not_lt hk)
      have hback : candidate name (UInt32.size + 2 + m) = candidate name (m + 2) := by
        rw [← candidate_add_size name m]
        exact congrArg (candidate name) (by omega)
      have hpos : 0 < UInt32.size := by decide
      rw [hback] at h
      exact ih (m + 2) (by omega) h

/-- The numbers of the candidates for a name overflow at the first one with the greatest number and
after every 2^32 further ones; a candidate comes back exactly when it is numbered, and with every
2^32nd candidate after it. The search for a free name ends just when one of the first 2^32 + 2
candidates is free, in particular in every table with fewer than 2^32 names, and then a symbol
without a name gets the name that it ends with. -/
theorem candidates_exact (name : String) :
    (∀ k, Overflows (candidate name k) ↔
      ∃ rounds, k = stepsToOverflow name + rounds * UInt32.size) ∧
    (∀ i j, i < j → (candidate name i = candidate name j ↔
      IsNumbered (candidate name i) ∧ UInt32.size ∣ j - i)) ∧
    ∀ t : NameTable,
      ((∃ found, Ends t.searchRound name found) ↔
        ∃ k < UInt32.size + 2, t.names.contains (candidate name k) = false) ∧
      (t.names.size < UInt32.size → ∃ found, Ends t.searchRound name found) ∧
      ∀ found, Ends t.searchRound name found → t.names.contains found = false ∧
        ∀ id, t.nameOf? id = none → (t.assign? id name).map Prod.snd = some found := by
  refine ⟨overflows_candidate_iff name, fun i j => candidate_eq_iff name,
    fun t => ⟨⟨?_, ?_⟩, ?_, ?_⟩⟩
  · rintro ⟨found, h⟩
    obtain ⟨k, rfl, hfree, -⟩ := ends_search_iff.1 h
    exact exists_first_round (P := fun other => t.names.contains other = false)
      (contains_eq_false_iff.2 hfree)
  · rintro ⟨k, -, hfree⟩
    exact exists_ends_search hfree
  · intro hsize
    obtain ⟨k, -, hfree⟩ := exists_free hsize name
    exact exists_ends_search (contains_eq_false_iff.2 hfree)
  · intro found h
    have hfirst := ends_search_iff.1 h
    have ⟨_, _, hfree, _⟩ := hfirst
    refine ⟨contains_eq_false_iff.2 hfree, fun id hid => ?_⟩
    have hanswer : t.assign? id name = some (t.give id found, found) :=
      (assign?_eq_some_iff hid).2 ⟨hfirst, rfl⟩
    rw [hanswer, Option.map_some]

/-- With `A_4294967295` reserved alone, the candidates of this name come back after 2^32 steps, and
the search for a free one ends long before. -/
theorem candidates_exact_of_reserved :
    candidate "A_4294967295" 0 = candidate "A_4294967295" UInt32.size ∧
      ∃ found, Ends (({} : NameTable).reserve "A_4294967295").searchRound "A_4294967295" found := by
  obtain ⟨-, hback, hsearch⟩ := candidates_exact "A_4294967295"
  have hnumbered : IsNumbered (candidate "A_4294967295" 0) :=
    ⟨"A", UInt32.ofNat (UInt32.size - 1), by decide, by decide⟩
  refine ⟨(hback 0 UInt32.size (by decide)).2 ⟨hnumbered, ⟨1, by decide⟩⟩, ?_⟩
  exact (hsearch _).2.1 (by decide)

/-- A table that reserves the names with a base and one of the first numbers. -/
def reservingNumbered (base : String) (numbers : Nat) : NameTable :=
  { names := ⟨(List.range numbers).map fun n => (numbered base (UInt32.ofNat n), .reserved)⟩ }

theorem contains_reservingNumbered (base : String) {numbers : Nat} {n : UInt32}
    (h : n.toNat < numbers) :
    (reservingNumbered base numbers).names.contains (numbered base n) = true := by
  have hmem :
      (numbered base n, NameOwner.reserved) ∈ (reservingNumbered base numbers).names.entries := by
    refine List.mem_map.2 ⟨n.toNat, List.mem_range.2 h, ?_⟩
    rw [UInt32.ofNat_toNat]
  exact Table.contains_of_mem hmem

/-- The number of `A_4294967295` overflows: the candidate after it is `A_0`, and 2^32 candidates
later it is tried again. In a table with all of these names the search for a free one does not
end. -/
theorem exists_endless_search :
    Overflows "A_4294967295" ∧ candidate "A_4294967295" 1 = "A_0" ∧
      candidate "A_4294967295" UInt32.size = "A_4294967295" ∧
      ∃ t : NameTable, ∀ found, ¬ Ends t.searchRound "A_4294967295" found := by
  have hname : "A_4294967295" = numbered "A" (UInt32.ofNat (UInt32.size - 1)) := by decide
  have hbase : "A" ≠ "" := by decide
  have hround : UInt32.ofNat UInt32.size = 0 := by decide
  refine ⟨?_, ?_, ?_, ?_⟩
  · rw [hname, overflows_numbered hbase]
    decide
  · decide
  · rw [hname, candidate_numbered hbase, hround, UInt32.add_zero]
  · refine ⟨reservingNumbered "A" UInt32.size, fun found h => ?_⟩
    obtain ⟨k, hfound, hfree, -⟩ := ends_search_iff.1 h
    rw [hname, candidate_numbered hbase] at hfound
    exact contains_eq_true_iff.1 (contains_reservingNumbered "A" (UInt32.toNat_lt_size _))
      (hfound ▸ hfree)

end NameTable

end DeclBundle
