import DeclBundle.Proofs.Searching
import DeclBundle.Text.LineMap

/-!
# Positions are exact

A line ends behind a line feed, and behind a carriage return that no line feed follows
(`Text.endsLine`). The line map holds the places at which lines end, in order
(`Text.LineMap.starts_ofText`), and the search in it finds the last of them that does not lie behind
an offset (`Text.LineMap.lineAt_eq`). So the position of an offset counts the line ends up to there,
and the characters behind the last of them (`Text.LineMap.isExact_ofText`).

Offsets have 32 bits, and all those of a text with fewer than 2 ^ 32 bytes are such numbers.
-/

set_option autoImplicit false

namespace DeclBundle.Text

/-- A line of a text ends behind its first part: the part ends in a line feed, or in a carriage
return that is not followed by one. -/
def endsLine (us vs : List Char) : Bool :=
  us.getLast? == some '\n' || us.getLast? == some '\r' && vs.head? != some '\n'

/-- The places among the first `k` characters of a text behind which a line ends, as numbers of
characters. -/
def lineEnds (cs : List Char) (k : Nat) : List Nat :=
  (List.range' 1 k).filter fun j => endsLine (cs.take j) (cs.drop j)

/-- Where the line starts that the first `k` characters of a text lead to. -/
def lineStart (cs : List Char) (k : Nat) : Nat := (lineEnds cs k).getLast?.getD 0

/-- Where a place lies that is given by the characters in front of it: the lines that have ended,
and the characters behind the last end. -/
def linePosition (cs : List Char) (k : Nat) : Position :=
  ⟨(lineEnds cs k).length, k - lineStart cs k⟩

/-- In front of another position: in an earlier line, or in the same one with fewer characters. -/
def Position.Before (p q : Position) : Prop :=
  p.line < q.line ∨ p.line = q.line ∧ p.character < q.character

/-! ## Line ends -/

theorem endsLine_append (us : List Char) (x : Char) (cs : List Char) :
    endsLine (us ++ [x]) cs = (x == '\n' || x == '\r' && cs.head? != some '\n') := by
  simp [endsLine]

theorem lineEnds_append {cs : List Char} {j k : Nat} (h : j ≤ k) :
    lineEnds cs k = lineEnds cs j ++ (List.range' (j + 1) (k - j)).filter fun i =>
      endsLine (cs.take i) (cs.drop i) := by
  have hrange : List.range' 1 k = List.range' 1 j ++ List.range' (j + 1) (k - j) := by
    rw [Nat.add_comm j 1, List.range'_append_1]
    congr 1
    omega
  rw [lineEnds, hrange, List.filter_append, lineEnds]

theorem mem_lineEnds_iff {cs : List Char} {k j : Nat} :
    j ∈ lineEnds cs k ↔ (0 < j ∧ j ≤ k) ∧ endsLine (cs.take j) (cs.drop j) = true := by
  rw [lineEnds, List.mem_filter, List.mem_range'_1]
  exact and_congr_left' (by omega)

theorem le_of_mem_lineEnds {cs : List Char} {k j : Nat} (h : j ∈ lineEnds cs k) : j ≤ k :=
  (mem_lineEnds_iff.1 h).1.2

theorem lineStart_le (cs : List Char) (k : Nat) : lineStart cs k ≤ k := by
  unfold lineStart
  cases hlast : (lineEnds cs k).getLast? with
  | none => exact Nat.zero_le k
  | some j => exact le_of_mem_lineEnds (List.mem_of_getLast? hlast)

/-- No line ends behind the start of the line. -/
theorem le_lineStart {cs : List Char} {k j : Nat} (h : j ∈ lineEnds cs k) : j ≤ lineStart cs k := by
  have hsorted : (lineEnds cs k).Pairwise (· < ·) := (List.pairwise_lt_range' 1).filter _
  obtain ⟨init, last, hlist⟩ :=
    List.eq_nil_or_concat'  (lineEnds cs k) |>.resolve_left (List.ne_nil_of_mem h)
  rw [hlist] at h hsorted
  rw [lineStart, hlist, List.getLast?_concat, Option.getD_some]
  rcases List.mem_append.1 h with h | h
  · exact Nat.le_of_lt
      ((List.pairwise_append.1 hsorted).2.2 j h last (List.mem_singleton_self last))
  · exact Nat.le_of_eq (List.mem_singleton.1 h)

/-- The start of a line is that of the text, or a line ends there. -/
theorem lineStart_cases (cs : List Char) (k : Nat) :
    lineStart cs k = 0 ∨ lineStart cs k ∈ lineEnds cs k := by
  unfold lineStart
  cases hlast : (lineEnds cs k).getLast? with
  | none => exact .inl rfl
  | some j => exact .inr (List.mem_of_getLast? hlast)

/-- Going on in a text, either the same number of characters more follows the last line end, or a
line ends. -/
theorem linePosition_before {cs : List Char} {j k : Nat} (h : j < k) :
    (linePosition cs j).Before (linePosition cs k) := by
  have hends : lineEnds cs k = _ := lineEnds_append (Nat.le_of_lt h)
  cases hmore : (List.range' (j + 1) (k - j)).filter fun i => endsLine (cs.take i) (cs.drop i) with
  | nil =>
    rw [hmore, List.append_nil] at hends
    have hle := lineStart_le cs j
    have hstart : lineStart cs k = lineStart cs j := by rw [lineStart, hends, lineStart]
    refine .inr ⟨congrArg List.length hends.symm, ?_⟩
    show j - lineStart cs j < k - lineStart cs k
    omega
  | cons i more =>
    refine .inl ?_
    show (lineEnds cs j).length < (lineEnds cs k).length
    rw [hends, hmore, List.length_append, List.length_cons]
    omega

/-! ## The line map -/

/-- More characters take more bytes. -/
theorem byteLength_take_le_iff {cs : List Char} {j k : Nat} (hj : j ≤ cs.length) :
    byteLength (cs.take j) ≤ byteLength (cs.take k) ↔ j ≤ k := by
  have hsplit {i l : Nat} (h : i ≤ l) : byteLength (cs.take l) =
      byteLength (cs.take i) + byteLength ((cs.drop i).take (l - i)) := by
    rw [← byteLength_append, ← List.take_add]
    congr 2
    omega
  constructor
  · intro h
    by_contra hlt
    have hbytes := hsplit (Nat.le_of_lt (Nat.not_le.1 hlt))
    have hlength := length_le_byteLength ((cs.drop k).take (j - k))
    rw [List.length_take, List.length_drop] at hlength
    omega
  · intro h
    have := hsplit h
    omega

namespace LineMap

/-- The offsets behind the line ends in the second part of a text. -/
def endOffsets (us cs : List Char) : List Nat :=
  ((List.range' (us.length + 1) cs.length).filter fun j =>
    endsLine ((us ++ cs).take j) ((us ++ cs).drop j)).map
    fun j => byteLength ((us ++ cs).take j)

theorem endOffsets_cons (us : List Char) (x : Char) (cs : List Char) :
    endOffsets us (x :: cs) =
      (if endsLine (us ++ [x]) cs then [byteLength (us ++ [x])] else []) ++
        endOffsets (us ++ [x]) cs := by
  have htext : us ++ x :: cs = us ++ [x] ++ cs := List.append_cons us x cs
  have hlength : (us ++ [x]).length = us.length + 1 := by simp
  have htake : (us ++ [x] ++ cs).take (us.length + 1) = us ++ [x] := by
    rw [← hlength, List.take_left]
  have hdrop : (us ++ [x] ++ cs).drop (us.length + 1) = cs := by rw [← hlength, List.drop_left]
  unfold endOffsets
  rw [htext, hlength, List.length_cons, List.range'_succ, List.filter_cons, htake, hdrop]
  split
  · rw [List.map_cons, htake]
    rfl
  · rfl

/-- Lines are found in what follows the part of a text that was read. A carriage return and the line
feed behind it are read together, and no line ends between them. -/
theorem startsAfter_eq (us cs : List Char) (found : List Nat) :
    startsAfter cs (byteLength us) found = found.reverse ++ endOffsets us cs := by
  generalize ho : byteLength us = o
  fun_induction startsAfter cs o found generalizing us with
  | case1 o found => simp [endOffsets]
  | case2 r o found ih =>
    have hbytes : byteLength (us ++ ['\r'] ++ ['\n']) = o + 2 := by
      rw [byteLength_append, byteLength_append, ho]
      rfl
    rw [ih _ hbytes, endOffsets_cons, endOffsets_cons, endsLine_append, endsLine_append, hbytes]
    simp
  | case3 x r o found hpair o' ih =>
    have hbytes : byteLength (us ++ [x]) = o' := by simp [o', ho]
    rw [ih _ hbytes, endOffsets_cons, endsLine_append, hbytes]
    by_cases hx : x = '\r'
    · have hhead : r.head? ≠ some '\n' := by
        intro hhead
        obtain ⟨r', rfl⟩ := List.head?_eq_some_iff.1 hhead
        exact hpair r' hx rfl
      simp [hx, hhead]
    · by_cases hfeed : x = '\n' <;> simp [hx, hfeed]

/-- The first line starts with the text, and each other one behind a line end. -/
theorem starts_ofText (cs : List Char) :
    (ofText cs).starts = 0 :: (lineEnds cs cs.length).map fun j => byteLength (cs.take j) :=
  congrArg (0 :: ·) (startsAfter_eq [] cs [])

/-- The line of an offset is the last one that does not start behind it. -/
theorem lineAt_go (offset : Nat) (starts : List Nat) (i : Nat) (best : Nat × Nat) :
    lineAt.go offset starts i best =
      ((starts.takeWhile (· ≤ offset)).getLast?).elim best
        fun start => (i + (starts.takeWhile (· ≤ offset)).length - 1, start) := by
  induction starts generalizing i best with
  | nil => rfl
  | cons start starts ih =>
    rw [lineAt.go]
    by_cases hle : start ≤ offset
    · rw [if_pos hle, ih, List.takeWhile_cons_of_pos (by simpa using hle), List.getLast?_cons]
      cases hlast : (starts.takeWhile (· ≤ offset)).getLast? with
      | none =>
        have hnil := List.getLast?_eq_none_iff.1 hlast
        simp [hnil]
      | some last =>
        simp only [Option.elim_some, Option.getD_some, List.length_cons, Prod.mk.injEq, and_true]
        omega
    · rw [if_neg hle, List.takeWhile_cons_of_neg (by simpa using hle)]
      rfl

section Place

variable {cs : List Char} {k offset : Nat}

/-- At an offset up to which there are `k` characters, the line map gives the number of the lines
that have ended and the start of the line. -/
theorem lineAt_eq (hk : k ≤ cs.length)
    (hplace : ∀ j ≤ cs.length, byteLength (cs.take j) ≤ offset ↔ j ≤ k) :
    (ofText cs).lineAt offset =
      ((lineEnds cs k).length, byteLength (cs.take (lineStart cs k))) := by
  let more := (List.range' (k + 1) (cs.length - k)).filter fun i => endsLine (cs.take i) (cs.drop i)
  have hfirst : ∀ j ∈ lineEnds cs k, decide (byteLength (cs.take j) ≤ offset) = true := fun j hj =>
    decide_eq_true ((hplace j ((le_of_mem_lineEnds hj).trans hk)).2 (le_of_mem_lineEnds hj))
  -- the line ends that follow lie behind the offset
  have hmore : more.takeWhile (fun j => decide (byteLength (cs.take j) ≤ offset)) = [] := by
    refine List.takeWhile_eq_nil_iff.2 fun hpos => ?_
    generalize hj : more.get ⟨0, hpos⟩ = j
    have hmem := List.mem_range'_1.1 (List.mem_of_mem_filter (hj ▸ more.get_mem ⟨0, hpos⟩))
    rw [decide_eq_true_eq, hplace _ (by omega)]
    omega
  have htake : ((ofText cs).starts).takeWhile (· ≤ offset) = 0 :: (lineEnds cs k).map fun j =>
    byteLength (cs.take j) := by
    rw [starts_ofText, List.takeWhile_cons_of_pos (by simp), List.takeWhile_map, lineEnds_append hk]
    rw [show (fun x => decide (x ≤ offset)) ∘ (fun j => byteLength (cs.take j)) =
        fun j => decide (byteLength (cs.take j) ≤ offset) from rfl,
      List.takeWhile_append_of_pos hfirst, hmore, List.append_nil]
  rw [lineAt, lineAt_go, htake, List.getLast?_cons, List.length_cons, List.length_map, lineStart,
    List.getLast?_map]
  cases hlast : (lineEnds cs k).getLast? <;> simp

/-- The position of an offset up to which there are `k` characters. -/
theorem position_of_place (hk : k ≤ cs.length)
    (hplace : ∀ j ≤ cs.length, byteLength (cs.take j) ≤ offset ↔ j ≤ k)
    (hstop : min offset (byteLength cs) = byteLength (cs.take k)) :
    (ofText cs).position cs offset = linePosition cs k := by
  have hle := lineStart_le cs k
  obtain ⟨us, hus⟩ : ∃ us, us = cs.take (lineStart cs k) := ⟨_, rfl⟩
  obtain ⟨ms, hms⟩ : ∃ ms, ms = (cs.drop (lineStart cs k)).take (k - lineStart cs k) := ⟨_, rfl⟩
  have hfront : cs.take k = us ++ ms := by
    rw [hus, hms, ← List.take_add]
    congr 1
    omega
  have htext : cs = us ++ (ms ++ cs.drop k) := by
    rw [← List.append_assoc, ← hfront, List.take_append_drop]
  have hslice : (Cursor.seek (.atStart cs) (byteLength us)).slice? (byteLength (cs.take k)) =
      some ms := by
    have hseek := Cursor.seek_append us (ms ++ cs.drop k) 0
    rw [Nat.zero_add, ← htext] at hseek
    rw [hfront, byteLength_append, Cursor.atStart, hseek]
    exact Cursor.slice?_append ms (cs.drop k) (byteLength us)
  have hlength : ms.length = k - lineStart cs k := by
    rw [hms, List.length_take, List.length_drop]
    omega
  rw [position, lineAt_eq hk hplace]
  dsimp only
  rw [hstop, ← hus, hslice, linePosition, ← hlength]

/-- The position of a byte offset that lies between characters. -/
theorem position_take (hk : k ≤ cs.length) :
    (ofText cs).position cs (byteLength (cs.take k)) = linePosition cs k := by
  refine position_of_place hk (fun j hj => byteLength_take_le_iff hj) (Nat.min_eq_left ?_)
  have hend : byteLength (cs.take k) ≤ byteLength (cs.take cs.length) :=
    (byteLength_take_le_iff hk).2 hk
  rwa [List.take_length] at hend

/-- The position of an offset that does not lie in front of the end. -/
theorem position_of_le (h : byteLength cs ≤ offset) :
    (ofText cs).position cs offset = linePosition cs cs.length := by
  refine position_of_place (Nat.le_refl _) (fun j hj => iff_of_true (Nat.le_trans ?_ h) hj) ?_
  · have hend : byteLength (cs.take j) ≤ byteLength (cs.take cs.length) :=
      (byteLength_take_le_iff hj).2 hj
    rwa [List.take_length] at hend
  · rw [List.take_length, Nat.min_eq_right h]

end Place

/-- The line map of a text gives every position as it is, in the order of the offsets. -/
structure IsExact (cs : List Char) : Prop where
  position_eq : ∀ k ≤ cs.length, (ofText cs).position cs (byteLength (cs.take k)) =
    linePosition cs k
  before : ∀ j k, j < k → k ≤ cs.length →
    ((ofText cs).position cs (byteLength (cs.take j))).Before
      ((ofText cs).position cs (byteLength (cs.take k)))
  beyond : ∀ offset, byteLength cs ≤ offset →
    (ofText cs).position cs offset = (ofText cs).position cs (byteLength cs)

theorem isExact_ofText (cs : List Char) : IsExact cs where
  position_eq _ hk := position_take hk
  before j k hlt hk := by
    rw [position_take hk, position_take ((Nat.le_of_lt hlt).trans hk)]
    exact linePosition_before hlt
  beyond _ h := (position_of_le h).trans (position_of_le (Nat.le_refl _)).symm

end LineMap

end DeclBundle.Text
