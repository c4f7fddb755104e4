import DeclBundle.Proofs.UniqueNames
import Mathlib.Data.List.Nodup
import Mathlib.Data.List.Perm.Subperm
import Mathlib.Data.Nat.Find
import Mathlib.Logic.Function.Iterate

/-!
# What calls do to a table of names

A table of names is changed by two calls only: a name is reserved, or a symbol asks for one.
Whatever calls are made on an empty table, names and symbols correspond to each other, and the table
only grows at its end (`NameTable.lawful_after`).

A call that asks for a name tries one candidate after the other and may do so forever, so the table
after calls is an `Option`. The candidates before the first free one are all different, which is why
the limit on them in `NameTable.assign?` hides no answer (`NameTable.freeName?_iff_isFirstFree`).
From the second step on candidates are numbered, and their numbers have 32 bits: the first 2^32 of
them are different, and in a table with fewer names than that one of them is free
(`NameTable.exists_free`). So the names of a bundle with fewer than 2^32 names are those that its
calls give (`Naming.after?_calls`).
-/

set_option autoImplicit false

namespace DeclBundle

/-! ## Candidates -/

namespace Text

theorem after?_cons_nil (c d : Char) (r : List Char) :
    after? [c] (d :: r) = if c = d then some r else none := by
  simp only [after?]

/-- The text is cut at the first place where a character stands. -/
theorem cutAt?_go_append {c : Char} {before : List Char} (h : c ∉ before) (rest seen : List Char) :
    cutAt?.go [c] (before ++ c :: rest) seen = some (seen.reverse ++ before, rest) := by
  induction before generalizing seen with
  | nil => simp [cutAt?.go, after?_cons_nil]
  | cons d before ih =>
    obtain ⟨hd, hbefore⟩ := List.ne_and_not_mem_of_not_mem_cons h
    rw [List.cons_append, cutAt?.go, after?_cons_nil, if_neg hd]
    simp [ih hbefore]

/-- The text is cut at the last place where a character stands. -/
theorem cutAtLast?_append {c : Char} {rest : List Char} (h : c ∉ rest) (before : List Char) :
    cutAtLast? [c] (before ++ c :: rest) = some (before, rest) := by
  have hcut : cutAt? [c] (rest.reverse ++ c :: before.reverse) =
      some (rest.reverse, before.reverse) :=
    cutAt?_go_append (by simpa using h) _ _
  have hreverse : (before ++ c :: rest).reverse = rest.reverse ++ c :: before.reverse := by simp
  rw [cutAtLast?, hreverse, List.reverse_singleton, hcut]
  simp

end Text

/-- A name that ends in an underscore and a number. -/
def numbered (base : String) (n : UInt32) : String := base ++ "_" ++ toString n.toNat

theorem toList_toString (n : Nat) : (toString n).toList = Nat.toDigits 10 n := by
  rw [Nat.toString_eq_ofList_toDigits, String.toList_ofList]

theorem word32?_of_digits {cs : List Char} (hne : cs ≠ []) (hdigits : ∀ c ∈ cs, c.isDigit = true)
    (hlt : digitsValue cs < UInt32.size) : word32? cs = some (UInt32.ofNat (digitsValue cs)) := by
  have hall : cs.all Char.isDigit = true := List.all_eq_true.2 hdigits
  unfold word32?
  split
  · have hplus := hdigits '+' List.mem_cons_self
    exact absurd hplus (by decide)
  · simp [hne, hall, hlt]

theorem digitsValue_toDigits (n : Nat) : digitsValue (Nat.toDigits 10 n) = n := by
  have hread : digitsValue (Nat.toDigits 10 n) = Nat.ofDigitChars 10 (Nat.toDigits 10 n) 0 := by
    rw [Nat.ofDigitChars_eq_foldl, digitsValue]
    simp only [Nat.mul_comm]
  rw [hread, Nat.ofDigitChars_ten_toDigits]

/-- A number is read as it is written. -/
theorem word32?_toDigits (n : UInt32) : word32? (Nat.toDigits 10 n.toNat) = some n := by
  have hvalue := digitsValue_toDigits n.toNat
  have hlt : digitsValue (Nat.toDigits 10 n.toNat) < UInt32.size := by
    rw [hvalue]
    exact n.toNat_lt_size
  rw [word32?_of_digits Nat.toDigits_ne_nil _ hlt, hvalue, UInt32.ofNat_toNat]
  exact fun c hc => Nat.isDigit_of_mem_toDigits (by decide) (by decide) hc

/-- The number of a candidate grows by one, and starts over at zero. -/
theorem nextCandidate_numbered {base : String} (h : base ≠ "") (n : UInt32) :
    nextCandidate (numbered base n) = numbered base (n + 1) := by
  have hlist : (numbered base n).toList = base.toList ++ '_' :: Nat.toDigits 10 n.toNat := by
    rw [numbered, String.toList_append, String.toList_append, toList_toString]
    simp
  have hbase : base.toList.isEmpty = false := by simpa using h
  rw [nextCandidate, hlist, Text.cutAtLast?_append Nat.underscore_not_in_toDigits]
  simp only [word32?_toDigits, hbase, Bool.false_eq_true, if_false, String.ofList_toList]
  rfl

theorem numbered_injective {base : String} {m n : UInt32}
    (h : numbered base m = numbered base n) : m = n := by
  have hdigits : Nat.toDigits 10 m.toNat = Nat.toDigits 10 n.toNat := by
    rw [← toList_toString, ← toList_toString, (String.append_right_inj _).1 h]
  rw [← UInt32.toNat_inj, ← Nat.ofDigitChars_ten_toDigits (n := m.toNat), hdigits,
    Nat.ofDigitChars_ten_toDigits]

/-- What follows a name is numbered. The empty name and names like `_1` get numbers after a further
underscore. -/
theorem exists_numbered (name : String) :
    nextCandidate name = "_1" ∨ ∃ base n, base ≠ "" ∧ nextCandidate name = numbered base n := by
  have hfirst : name ++ "_1" = "_1" ∨ ∃ base n, base ≠ "" ∧ name ++ "_1" = numbered base n := by
    by_cases hname : name = ""
    · exact .inl (by rw [hname]; rfl)
    · exact .inr ⟨name, 1, hname, by rw [numbered, String.append_assoc]; rfl⟩
  unfold nextCandidate
  split
  · exact hfirst
  · next base number _ =>
    split
    · next n _ =>
      dsimp only
      split
      · exact hfirst
      · next hbase => exact .inr ⟨String.ofList base, n + 1, by simpa using hbase, rfl⟩
    · exact hfirst

/-- The candidates for a name, the name itself first. -/
def candidate (name : String) (k : Nat) : String := nextCandidate^[k] name

theorem candidate_succ (name : String) (k : Nat) :
    candidate name (k + 1) = candidate (nextCandidate name) k :=
  Function.iterate_succ_apply _ _ _

theorem candidate_add (name : String) (i k : Nat) :
    candidate name (i + k) = candidate (candidate name i) k := by
  rw [candidate, Nat.add_comm, Function.iterate_add_apply]
  rfl

theorem candidate_numbered {base : String} (h : base ≠ "") (n : UInt32) (k : Nat) :
    candidate (numbered base n) k = numbered base (n + UInt32.ofNat k) := by
  induction k with
  | zero => simp [candidate]
  | succ k ih =>
    have hstep : candidate (numbered base n) (k + 1) =
        nextCandidate (candidate (numbered base n) k) :=
      Function.iterate_succ_apply' _ _ _
    rw [hstep, ih, nextCandidate_numbered h, UInt32.add_assoc, UInt32.ofNat_add]
    rfl

/-- All candidates but two are numbered one by one. -/
theorem exists_candidate_eq_numbered (name : String) :
    ∃ base n, base ≠ "" ∧ ∀ k, candidate name (k + 2) = numbered base (n + UInt32.ofNat k) := by
  have hsecond : ∃ base n, base ≠ "" ∧ nextCandidate (nextCandidate name) = numbered base n := by
    rcases exists_numbered name with hone | ⟨base, n, hbase, hnext⟩
    · exact ⟨"_1", 1, by decide, by rw [hone]; decide⟩
    · exact ⟨base, n + 1, hbase, by rw [hnext, nextCandidate_numbered hbase]⟩
  obtain ⟨base, n, hbase, hnext⟩ := hsecond
  refine ⟨base, n, hbase, fun k => ?_⟩
  rw [candidate_succ, candidate_succ, hnext, candidate_numbered hbase]

/-- The first 2^32 candidates are different. -/
theorem candidate_ne {name : String} {i j : Nat} (hij : i < j) (hj : j < UInt32.size) :
    candidate name i ≠ candidate name j := by
  intro h
  obtain ⟨base, n, -, hnumbered⟩ := exists_candidate_eq_numbered name
  have htwo : ∀ k, candidate name (k + 2) = nextCandidate^[2] (candidate name k) := fun k =>
    (Function.iterate_add_apply _ 2 k name).symm ▸ by rw [Nat.add_comm]; rfl
  have hlater : candidate name (i + 2) = candidate name (j + 2) := by rw [htwo, htwo, h]
  rw [hnumbered, hnumbered] at hlater
  have hwords : UInt32.ofNat i = UInt32.ofNat j :=
    UInt32.add_right_inj _ |>.1 (numbered_injective hlater)
  have hnumbers := congrArg UInt32.toNat hwords
  rw [UInt32.toNat_ofNat_of_lt' (Nat.lt_trans hij hj), UInt32.toNat_ofNat_of_lt' hj] at hnumbers
  exact Nat.ne_of_lt hij hnumbers

/-- A new key comes at the end of a table. -/
theorem Table.entries_set_of_none {κ α : Type} [DecidableEq κ] {t : Table κ α} {key : κ}
    (h : t.get? key = none) (value : α) :
    (t.set key value).entries = t.entries ++ [(key, value)] := by
  rw [Table.set, Table.contains_eq_false_iff.2 h, if_neg Bool.false_ne_true]

namespace NameTable

/-- The name is the first free one among the candidates for another. -/
def IsFirstFree (t : NameTable) (preferred name : String) : Prop :=
  ∃ k, name = candidate preferred k ∧ t.ownerOf? name = none ∧
    ∀ j < k, t.ownerOf? (candidate preferred j) ≠ none

theorem contains_eq_false_iff {t : NameTable} {name : String} :
    t.names.contains name = false ↔ t.ownerOf? name = none :=
  Table.contains_eq_false_iff

theorem contains_eq_true_iff {t : NameTable} {name : String} :
    t.names.contains name = true ↔ t.ownerOf? name ≠ none :=
  Option.isSome_iff_ne_none

/-- What is tried up to a limit are the candidates before it, one after the other. -/
theorem freeName?_eq_some_iff {t : NameTable} {limit : Nat} {preferred name : String} :
    t.freeName? limit preferred = some name ↔
      ∃ k < limit, name = candidate preferred k ∧ t.ownerOf? name = none ∧
        ∀ j < k, t.ownerOf? (candidate preferred j) ≠ none := by
  induction limit generalizing preferred with
  | zero => simp [freeName?]
  | succ limit ih =>
    unfold freeName?
    split
    · next htaken =>
      have hfirst : t.ownerOf? (candidate preferred 0) ≠ none := contains_eq_true_iff.1 htaken
      -- the candidates from the second one on are those of the next name
      rw [ih]
      constructor
      · rintro ⟨k, hk, hname, hfree, hbefore⟩
        refine ⟨k + 1, by omega, by rw [hname, candidate_succ], hfree, ?_⟩
        intro j hj
        cases j with
        | zero => exact hfirst
        | succ j =>
          rw [candidate_succ]
          exact hbefore j (by omega)
      · rintro ⟨k, hk, hname, hfree, hbefore⟩
        cases k with
        | zero => exact absurd (hname ▸ hfree) hfirst
        | succ k =>
          refine ⟨k, by omega, by rw [hname, candidate_succ], hfree, ?_⟩
          intro j hj
          rw [← candidate_succ]
          exact hbefore (j + 1) (by omega)
    · next hfree =>
      have hfirst : t.ownerOf? preferred = none := contains_eq_false_iff.1 (by simpa using hfree)
      constructor
      · intro h
        obtain rfl := Option.some.inj h
        exact ⟨0, by omega, rfl, hfirst, by omega⟩
      · rintro ⟨k, -, hname, -, hbefore⟩
        cases k with
        | zero => rw [hname, candidate, Function.iterate_zero, id]
        | succ k => exact absurd hfirst (hbefore 0 (by omega))

variable {t : NameTable} {preferred : String} {k : Nat}

/-- The candidates before the first free one are different: two equal ones would come back
forever. -/
theorem nodup_candidates (hfree : t.ownerOf? (candidate preferred k) = none)
    (hbefore : ∀ j < k, t.ownerOf? (candidate preferred j) ≠ none) :
    ((List.range k).map (candidate preferred)).Nodup := by
  have hne : ∀ i j, i < j → j < k → candidate preferred i ≠ candidate preferred j := by
    intro i j hij hj heq
    -- from `j` the free candidate is as far away as from `i`, where all before it are taken
    have htaken : t.ownerOf? (candidate preferred (i + (k - j))) ≠ none := hbefore _ (by omega)
    rw [candidate_add, heq, ← candidate_add, Nat.add_sub_cancel' (Nat.le_of_lt hj)] at htaken
    exact htaken hfree
  refine List.Nodup.map_on ?_ List.nodup_range
  intro i hi j hj heq
  rw [List.mem_range] at hi hj
  rcases Nat.lt_trichotomy i j with hlt | heq' | hlt
  · exact absurd heq (hne i j hlt hj)
  · exact heq'
  · exact absurd heq.symm (hne j i hlt hi)

/-- Different candidates that are taken are no more than the names in the table. -/
theorem le_size_of_nodup (hnodup : ((List.range k).map (candidate preferred)).Nodup)
    (htaken : ∀ j < k, t.ownerOf? (candidate preferred j) ≠ none) : k ≤ t.names.size := by
  have hsubset : (List.range k).map (candidate preferred) ⊆ t.names.keys := by
    intro other hother
    obtain ⟨j, hj, rfl⟩ := List.mem_map.1 hother
    have hcontains := contains_eq_true_iff.2 (htaken j (List.mem_range.1 hj))
    exact (t.names.contains_iff_mem_keys _).1 hcontains
  have hle := (hnodup.subperm hsubset).length_le
  have hkeys : t.names.keys.length = t.names.size := List.length_map _
  rwa [List.length_map, List.length_range, hkeys] at hle

/-- The limit of `assign?` hides no free candidate. -/
theorem freeName?_iff_isFirstFree {name : String} :
    t.freeName? (t.names.size + 1) preferred = some name ↔ t.IsFirstFree preferred name := by
  rw [freeName?_eq_some_iff]
  constructor
  · rintro ⟨k, -, h⟩
    exact ⟨k, h⟩
  · rintro ⟨k, rfl, hfree, hbefore⟩
    have hle := le_size_of_nodup (nodup_candidates hfree hbefore) hbefore
    exact ⟨k, by omega, rfl, hfree, hbefore⟩

/-- When a candidate is free there is a first one. -/
theorem exists_isFirstFree (h : t.ownerOf? (candidate preferred k) = none) :
    ∃ name, t.IsFirstFree preferred name := by
  classical
  have hex : ∃ k, t.ownerOf? (candidate preferred k) = none := ⟨k, h⟩
  exact ⟨_, Nat.find hex, rfl, Nat.find_spec hex, fun j hj => Nat.find_min hex hj⟩

/-- In a table with fewer than 2^32 names one of the first candidates is free. -/
theorem exists_free (hsize : t.names.size < UInt32.size) (preferred : String) :
    ∃ k ≤ t.names.size, t.ownerOf? (candidate preferred k) = none := by
  by_contra hnone
  have htaken : ∀ j < t.names.size + 1, t.ownerOf? (candidate preferred j) ≠ none := by
    intro j hj hfree
    exact hnone ⟨j, by omega, hfree⟩
  have hnodup : ((List.range (t.names.size + 1)).map (candidate preferred)).Nodup := by
    refine List.Nodup.map_on ?_ List.nodup_range
    intro i hi j hj heq
    rw [List.mem_range] at hi hj
    rcases Nat.lt_trichotomy i j with hlt | heq' | hlt
    · exact absurd heq (candidate_ne hlt (by omega))
    · exact heq'
    · exact absurd heq.symm (candidate_ne hlt (by omega))
  have hle := le_size_of_nodup hnodup htaken
  omega

/-! ## Choosing a name -/

/-- What a symbol without a name gets. -/
theorem assign?_eq_some_iff {id : SymbolId} (h : t.nameOf? id = none)
    {answer : NameTable × String} :
    t.assign? id preferred = some answer ↔
      t.IsFirstFree preferred answer.2 ∧ answer.1 = t.give id answer.2 := by
  rw [assign?_of_none h, Option.map_eq_some_iff]
  constructor
  · rintro ⟨name, hname, rfl⟩
    exact ⟨freeName?_iff_isFirstFree.1 hname, rfl⟩
  · rintro ⟨hname, hgive⟩
    exact ⟨answer.2, freeName?_iff_isFirstFree.2 hname, Prod.ext hgive.symm rfl⟩

/-- A symbol without a name gets one exactly when one of the candidates is free. -/
theorem exists_assign?_iff {id : SymbolId} (h : t.nameOf? id = none) :
    (∃ answer, t.assign? id preferred = some answer) ↔
      ∃ k, t.ownerOf? (candidate preferred k) = none := by
  constructor
  · rintro ⟨answer, hanswer⟩
    obtain ⟨⟨k, hname, hfree, -⟩, -⟩ := (assign?_eq_some_iff h).1 hanswer
    exact ⟨k, hname ▸ hfree⟩
  · rintro ⟨k, hfree⟩
    obtain ⟨name, hname⟩ := exists_isFirstFree hfree
    exact ⟨(t.give id name, name), (assign?_eq_some_iff h).2 ⟨hname, rfl⟩⟩

/-- It gets none exactly when all of them are taken. -/
theorem assign?_eq_none_iff {id : SymbolId} (h : t.nameOf? id = none) :
    t.assign? id preferred = none ↔ ∀ k, t.ownerOf? (candidate preferred k) ≠ none := by
  have hiff : (∃ answer, t.assign? id preferred = some answer) ↔
      ∃ k, t.ownerOf? (candidate preferred k) = none := exists_assign?_iff h
  rw [← Option.ne_none_iff_exists'] at hiff
  rw [← not_iff_not]
  exact hiff.trans (by simp)

/-- In a table with fewer than 2^32 names every symbol gets its answer. -/
theorem exists_assign?_of_lt (hsize : t.names.size < UInt32.size) (id : SymbolId)
    (preferred : String) : ∃ answer, t.assign? id preferred = some answer := by
  cases hid : t.nameOf? id with
  | some name => exact ⟨(t, name), assign?_of_some hid preferred⟩
  | none =>
    obtain ⟨k, -, hfree⟩ := exists_free hsize preferred
    exact (exists_assign?_iff hid).2 ⟨k, hfree⟩

/-- A call that gives an answer either changes nothing or gives a name away that nothing had. -/
theorem assign?_cases {id : SymbolId} {answer : NameTable × String}
    (h : t.assign? id preferred = some answer) :
    (t.nameOf? id = some answer.2 ∧ answer.1 = t) ∨
      (t.nameOf? id = none ∧ t.ownerOf? answer.2 = none ∧ answer.1 = t.give id answer.2) := by
  cases hid : t.nameOf? id with
  | some name =>
    rw [assign?_of_some hid, Option.some.injEq] at h
    exact .inl ⟨by rw [← h], by rw [← h]⟩
  | none =>
    obtain ⟨⟨k, hname, hfree, -⟩, hgive⟩ := (assign?_eq_some_iff hid).1 h
    exact .inr ⟨rfl, hfree, hgive⟩

/-! ## Calls -/

/-- A call to a table of names. -/
inductive Call where
  /-- Nothing in the bundle may have the name. -/
  | reserve (name : String)
  /-- A symbol asks for a name. -/
  | assign (id : SymbolId) (preferred : String)
  deriving DecidableEq, Repr

/-- The table after a call, which may go on forever. -/
def call? (t : NameTable) : Call → Option NameTable
  | .reserve name => some (t.reserve name)
  | .assign id preferred => (t.assign? id preferred).map Prod.fst

/-- The table after calls in turn. -/
def after? (t : NameTable) (calls : List Call) : Option NameTable := calls.foldlM call? t

theorem after?_cons (t : NameTable) (c : Call) (calls : List Call) :
    t.after? (c :: calls) = (t.call? c).bind fun t' => t'.after? calls := List.foldlM_cons ..

theorem after?_append (t : NameTable) (calls later : List Call) :
    t.after? (calls ++ later) = (t.after? calls).bind fun t' => t'.after? later := by
  rw [after?, List.foldlM_append]
  rfl

/-- What every call keeps holds after calls in turn. -/
theorem after?_induction {P : NameTable → Prop} (hcall : ∀ t c t', P t → t.call? c = some t' → P t')
    {t t' : NameTable} (h : P t) {calls : List Call}
    (hafter : t.after? calls = some t') : P t' := by
  induction calls generalizing t with
  | nil => exact Option.some.inj hafter ▸ h
  | cons c calls ih =>
    rw [after?_cons, Option.bind_eq_some_iff] at hafter
    obtain ⟨between, hfirst, hrest⟩ := hafter
    exact ih (hcall t c between h hfirst) hrest

/-- A later table has more entries at its end only, and symbols keep their names. -/
structure Grows (t t' : NameTable) : Prop where
  entries : t.names.entries <+: t'.names.entries
  nameOf?_eq : ∀ id name, t.nameOf? id = some name → t'.nameOf? id = some name

namespace Grows

variable {t t' t'' : NameTable}

theorem refl (t : NameTable) : Grows t t := ⟨List.prefix_rfl, fun _ _ h => h⟩

theorem trans (h : Grows t t') (h' : Grows t' t'') : Grows t t'' :=
  ⟨h.entries.trans h'.entries,
    fun id name hname => h'.nameOf?_eq id name (h.nameOf?_eq id name hname)⟩

/-- No name changes its owner. -/
theorem ownerOf?_eq (h : Grows t t') {name : String} {owner : NameOwner}
    (howner : t.ownerOf? name = some owner) :
    t'.ownerOf? name = some owner := by
  obtain ⟨added, hadded⟩ := h.entries
  obtain ⟨entry, hentry, rfl⟩ := Option.map_eq_some_iff.1 howner
  rw [ownerOf?, Table.get?, ← hadded, List.find?_append, hentry]
  rfl

end Grows

theorem grows_call {t t' : NameTable} {c : Call} (h : t.call? c = some t') : Grows t t' := by
  cases c with
  | reserve name =>
    obtain rfl := Option.some.inj h
    refine ⟨?_, fun _ _ h => h⟩
    show t.names.entries <+: (t.names.add name .reserved).entries
    unfold Table.add
    split
    · exact List.prefix_rfl
    · exact List.prefix_append _ _
  | assign id preferred =>
    obtain ⟨answer, hanswer, rfl⟩ := Option.map_eq_some_iff.1 h
    rcases assign?_cases hanswer with ⟨-, heq⟩ | ⟨hid, hfree, heq⟩
    · rw [heq]
      exact .refl t
    · rw [heq]
      refine ⟨⟨[(answer.2, .symbol id)], (Table.entries_set_of_none hfree _).symm⟩, ?_⟩
      intro other name hother
      have hne : id ≠ other := by
        rintro rfl
        rw [hid] at hother
        cases hother
      rw [nameOf?_give, if_neg hne, hother]

theorem grows_after {t t' : NameTable} {calls : List Call} (h : t.after? calls = some t') :
    Grows t t' :=
  after?_induction (fun _ _ _ hgrows hcall => hgrows.trans (grows_call hcall)) (.refl t) h

/-- A call adds one name at most. -/
theorem size_call_le {t t' : NameTable} {c : Call} (h : t.call? c = some t') :
    t'.names.size ≤ t.names.size + 1 := by
  cases c with
  | reserve name =>
    obtain rfl := Option.some.inj h
    show (t.names.add name .reserved).entries.length ≤ t.names.entries.length + 1
    unfold Table.add
    split
    · omega
    · simp
  | assign id preferred =>
    obtain ⟨answer, hanswer, rfl⟩ := Option.map_eq_some_iff.1 h
    rcases assign?_cases hanswer with ⟨-, heq⟩ | ⟨-, hfree, heq⟩
    · rw [heq]
      omega
    · rw [heq]
      show (t.names.set answer.2 (.symbol id)).entries.length ≤ t.names.entries.length + 1
      rw [Table.entries_set_of_none hfree]
      simp

/-- So calls that are fewer than the numbers of candidates all give answers. -/
theorem exists_after? {t : NameTable} {calls : List Call}
    (h : t.names.size + calls.length ≤ UInt32.size) : ∃ t', t.after? calls = some t' := by
  induction calls generalizing t with
  | nil => exact ⟨t, rfl⟩
  | cons c calls ih =>
    rw [List.length_cons] at h
    have hfirst : ∃ between, t.call? c = some between := by
      cases c with
      | reserve name => exact ⟨t.reserve name, rfl⟩
      | assign id preferred =>
        have hlt : t.names.size < UInt32.size := by omega
        obtain ⟨answer, hanswer⟩ := exists_assign?_of_lt hlt id preferred
        exact ⟨answer.1, Option.map_eq_some_iff.2 ⟨answer, hanswer, rfl⟩⟩
    obtain ⟨between, hbetween⟩ := hfirst
    have hsize := size_call_le hbetween
    rw [after?_cons, hbetween, Option.bind_some]
    exact ih (by omega)

/-- The call asks for a symbol without a name, and all candidates are taken. -/
def Call.SearchesForever (t : NameTable) : Call → Prop
  | .reserve _ => False
  | .assign id preferred =>
    t.nameOf? id = none ∧ ∀ k, t.ownerOf? (candidate preferred k) ≠ none

theorem call?_eq_none_iff {t : NameTable} {c : Call} :
    t.call? c = none ↔ c.SearchesForever t := by
  cases c with
  | reserve name => simp [call?, Call.SearchesForever]
  | assign id preferred =>
    rw [call?, Option.map_eq_none_iff, Call.SearchesForever]
    cases hid : t.nameOf? id with
    | some name => simp [assign?_of_some hid]
    | none => simp [assign?_eq_none_iff hid]

/-- Calls in turn have no result exactly when one of them searches forever. -/
theorem after?_eq_none_iff {t : NameTable} {calls : List Call} :
    t.after? calls = none ↔ ∃ before c rest between, calls = before ++ c :: rest ∧
      t.after? before = some between ∧ c.SearchesForever between := by
  constructor
  · intro h
    induction calls generalizing t with
    | nil => cases h
    | cons c calls ih =>
      cases hfirst : t.call? c with
      | none => exact ⟨[], c, calls, t, rfl, rfl, call?_eq_none_iff.1 hfirst⟩
      | some between =>
        rw [after?_cons, hfirst, Option.bind_some] at h
        obtain ⟨before, c', rest, t', rfl, hbefore, hforever⟩ := ih h
        refine ⟨c :: before, c', rest, t', rfl, ?_, hforever⟩
        rw [after?_cons, hfirst, Option.bind_some, hbefore]
  · rintro ⟨before, c, rest, between, rfl, hbefore, hforever⟩
    rw [after?_append, hbefore, Option.bind_some, after?_cons, call?_eq_none_iff.2 hforever]
    rfl

/-- The symbol to which a name belongs has that name. -/
def OwnersNamed (t : NameTable) : Prop :=
  ∀ id name, t.ownerOf? name = some (.symbol id) → t.nameOf? id = some name

theorem OwnersNamed.call {t t' : NameTable} {c : Call} (h : t.OwnersNamed)
    (hcall : t.call? c = some t') : t'.OwnersNamed := by
  cases c with
  | reserve name =>
    obtain rfl := Option.some.inj hcall
    intro id other hother
    have hadded : (t.names.add name .reserved).get? other = some (.symbol id) := hother
    rw [Table.get?_add] at hadded
    split at hadded
    · next heq =>
      subst heq
      cases howner : t.names.get? name with
      | none => simp [howner] at hadded
      | some owner =>
        rw [howner, Option.getD_some] at hadded
        exact h id name (howner.trans hadded)
    · exact h id other hadded
  | assign id preferred =>
    obtain ⟨answer, hanswer, rfl⟩ := Option.map_eq_some_iff.1 hcall
    rcases assign?_cases hanswer with ⟨-, heq⟩ | ⟨hid, -, heq⟩
    · rw [heq]
      exact h
    · rw [heq]
      intro other n hn
      rw [ownerOf?_give] at hn
      rw [nameOf?_give]
      split at hn
      · next hname =>
        obtain rfl : id = other := by simpa using hn
        rw [if_pos rfl, hname]
      · have hother : t.nameOf? other = some n := h other n hn
        -- another symbol has a name already, and this one had none
        have hne : id ≠ other := by
          rintro rfl
          rw [hid] at hother
          cases hother
        rw [if_neg hne]
        exact hother

theorem Consistent.call {t t' : NameTable} {c : Call} (h : t.Consistent)
    (hcall : t.call? c = some t') : t'.Consistent := by
  cases c with
  | reserve name =>
    obtain rfl := Option.some.inj hcall
    exact h.reserve name
  | assign id preferred =>
    obtain ⟨answer, hanswer, rfl⟩ := Option.map_eq_some_iff.1 hcall
    rcases assign?_cases hanswer with ⟨-, heq⟩ | ⟨-, hfree, heq⟩
    · rw [heq]
      exact h
    · rw [heq]
      exact h.give id hfree

/-- Names and symbols correspond after any calls. -/
theorem corresponds_after {t : NameTable} {calls : List Call}
    (h : ({} : NameTable).after? calls = some t) : t.Consistent ∧ t.OwnersNamed := by
  refine after?_induction (P := fun t => t.Consistent ∧ t.OwnersNamed) ?_ ?_ h
  · intro t c t' ht hcall
    exact ⟨ht.1.call hcall, ht.2.call hcall⟩
  · exact ⟨consistent_empty, fun id name h => by cases h⟩

/-- A table of names keeps names and symbols together, now and after all further calls. -/
structure Lawful (t : NameTable) : Prop where
  /-- A symbol has a name exactly when the name belongs to the symbol. -/
  corresponds : ∀ id name, t.nameOf? id = some name ↔ t.ownerOf? name = some (.symbol id)
  /-- No two symbols have one name. -/
  unique : ∀ id id' name, t.nameOf? id = some name → t.nameOf? id' = some name → id = id'
  /-- A name that was reserved while it was free is never given to a symbol. -/
  reserved : ∀ name, t.ownerOf? name = none →
    ∀ later t', (t.reserve name).after? later = some t' →
      t'.ownerOf? name = some .reserved ∧ (∀ id, t'.nameOf? id ≠ some name) ∧
      ∀ id preferred answer, t'.assign? id preferred = some answer → answer.2 ≠ name
  /-- Entries are added at the end of the table, and all others stay as they are. -/
  grows : ∀ later t', t.after? later = some t' →
    t.names.entries <+: t'.names.entries ∧
    ∀ name owner, t.ownerOf? name = some owner → t'.ownerOf? name = some owner
  /-- A symbol that has a name gets it again, and the table stays as it was. -/
  again : ∀ id name, t.nameOf? id = some name →
    ∀ preferred, t.assign? id preferred = some (t, name)
  /-- A symbol without a name gets one that nothing had: the first free candidate, and so the
  preferred name when that is free. It gets none when all candidates are taken. -/
  fresh : ∀ id, t.nameOf? id = none → ∀ preferred,
    (∀ answer, t.assign? id preferred = some answer →
      t.ownerOf? answer.2 = none ∧ answer.1.nameOf? id = some answer.2 ∧
      t.IsFirstFree preferred answer.2) ∧
    (t.ownerOf? preferred = none → t.assign? id preferred = some (t.give id preferred, preferred)) ∧
    (t.assign? id preferred = none ↔ ∀ k, t.ownerOf? (candidate preferred k) ≠ none)
  /-- With fewer than 2^32 names in the table there is always an answer. -/
  answers : t.names.size < UInt32.size →
    ∀ id preferred, ∃ answer, t.assign? id preferred = some answer

/-- A free name that is preferred is given. -/
theorem assign?_of_free {t : NameTable} {id : SymbolId} (h : t.nameOf? id = none)
    {preferred : String} (hfree : t.ownerOf? preferred = none) :
    t.assign? id preferred = some (t.give id preferred, preferred) :=
  (assign?_eq_some_iff h).2 ⟨⟨0, rfl, hfree, fun j hj => absurd hj (Nat.not_lt_zero j)⟩, rfl⟩

/-- What is given away belongs to nothing else. -/
theorem assign?_ne_of_reserved {t : NameTable} (ht : t.Consistent) {name : String}
    (hname : t.ownerOf? name = some .reserved) {id : SymbolId} {preferred : String}
    {answer : NameTable × String} (h : t.assign? id preferred = some answer) : answer.2 ≠ name := by
  rintro rfl
  rcases assign?_cases h with ⟨hid, -⟩ | ⟨-, hfree, -⟩
  · rw [ht id answer.2 hid] at hname
    cases hname
  · rw [hfree] at hname
    cases hname

/-- A free name is reserved, and stays so. -/
theorem ownerOf?_after_reserve {t t' : NameTable} {name : String} (h : t.ownerOf? name = none)
    {later : List Call} (hlater : (t.reserve name).after? later = some t') :
    t'.ownerOf? name = some .reserved := by
  refine (grows_after hlater).ownerOf?_eq ?_
  have hnone : t.names.get? name = none := h
  rw [ownerOf?, reserve, Table.get?_add, if_pos rfl, hnone, Option.getD_none]

theorem lawful_of_after? {calls : List Call} {t : NameTable}
    (h : ({} : NameTable).after? calls = some t) : t.Lawful := by
  obtain ⟨hconsistent, howners⟩ := corresponds_after h
  constructor
  case corresponds => exact fun id name => ⟨hconsistent id name, howners id name⟩
  case unique => exact fun id id' name h h' => hconsistent.injective h h'
  case reserved =>
    intro name hname later t' hlater
    have hreserved := ownerOf?_after_reserve hname hlater
    have hconsistent' : t'.Consistent := by
      have hboth : ({} : NameTable).after? (calls ++ .reserve name :: later) = some t' := by
        rw [after?_append, h, Option.bind_some, after?_cons, call?, Option.bind_some, hlater]
      exact (corresponds_after hboth).1
    refine ⟨hreserved, fun id hid => ?_, fun id preferred answer hanswer => ?_⟩
    · rw [hconsistent' id name hid] at hreserved
      cases hreserved
    · exact assign?_ne_of_reserved hconsistent' hreserved hanswer
  case grows =>
    intro later t' hlater
    exact ⟨(grows_after hlater).entries, fun name owner => (grows_after hlater).ownerOf?_eq⟩
  case again => exact fun id name h preferred => assign?_of_some h preferred
  case fresh =>
    intro id hid preferred
    refine ⟨fun answer hanswer => ?_, assign?_of_free hid, assign?_eq_none_iff hid⟩
    obtain ⟨hfirst, hgive⟩ := (assign?_eq_some_iff hid).1 hanswer
    have ⟨_, _, hfree, _⟩ := hfirst
    exact ⟨hfree, by rw [hgive, nameOf?_give, if_pos rfl], hfirst⟩
  case answers => exact exists_assign?_of_lt

theorem after?_reserve (t : NameTable) (names : List String) :
    t.after? (names.map .reserve) = some (names.foldl reserve t) := by
  induction names generalizing t with
  | nil => rfl
  | cons name names ih => exact ih (t.reserve name)

/-- While the calls have answers, `assign` gives them. -/
theorem foldl_assign_of_after? {symbols : List (SymbolId × String)} {t t' : NameTable}
    (h : t.after? (symbols.map fun (id, preferred) => .assign id preferred) = some t') :
    symbols.foldl (fun t (id, preferred) => (t.assign id preferred).1) t = t' := by
  induction symbols generalizing t with
  | nil => exact Option.some.inj h
  | cons entry symbols ih =>
    obtain ⟨id, preferred⟩ := entry
    rw [List.map_cons, after?_cons, Option.bind_eq_some_iff] at h
    obtain ⟨between, hfirst, hrest⟩ := h
    obtain ⟨answer, hanswer, rfl⟩ := Option.map_eq_some_iff.1 hfirst
    have hassign : t.assign id preferred = answer := by
      rw [assign, hanswer, Option.getD_some]
    rw [List.foldl_cons]
    dsimp only
    rw [hassign]
    exact ih hrest

end NameTable

namespace Naming

open NameTable (Call)

variable (p : Project) (collection : Collection) (plan : Plan)

/-- The calls that name a bundle. -/
def calls : List Call :=
  (reservedNames collection plan).map .reserve ++
    (namedSymbols p collection plan).map fun (id, preferred) => .assign id preferred

/-- The names of a bundle are those that its calls give. -/
theorem table_ofPlan {t : NameTable}
    (h : ({} : NameTable).after? (calls p collection plan) = some t) :
    (ofPlan p collection plan).table = t := by
  rw [calls, NameTable.after?_append, NameTable.after?_reserve, Option.bind_some] at h
  exact NameTable.foldl_assign_of_after? h

/-- In a bundle with fewer than 2^32 names every search for a free name ends. -/
theorem after?_calls (h : (calls p collection plan).length < UInt32.size) :
    ({} : NameTable).after? (calls p collection plan) = some (ofPlan p collection plan).table := by
  have hempty : ({} : NameTable).names.size = 0 := rfl
  obtain ⟨t, ht⟩ := NameTable.exists_after?
    (show ({} : NameTable).names.size + (calls p collection plan).length ≤ UInt32.size by omega)
  rw [ht, table_ofPlan p collection plan ht]

end Naming

end DeclBundle
