import DeclBundle.Proofs.Searching
import DeclBundle.Text.Edit

/-!
# Edits are applied exactly

Edits are applied in order (`Text.Edit.IsInOrder`), each one unless it starts before the end of an
earlier one that is applied (`Text.Edit.IsSelection`). What is applied replaces its own range, and
the text between two ranges stays (`Text.Edit.Replaces`). No two of the edits that are applied
overlap, each of the others overlaps one of them, and so all are applied when no two overlap at all
(`Text.Edit.exists_isApplication`).
-/

set_option autoImplicit false

namespace DeclBundle.Text.Edit

/-- The edit replaces some characters of a text, or stands between two of them. -/
def IsRange (e : Edit) (c : Cursor) : Prop :=
  ∃ us vs ws, c.rest = us ++ (vs ++ ws) ∧ e.start = c.offset + byteLength us ∧
    e.stop = e.start + byteLength vs

/-- Each of two edits starts before the other one ends. An insertion overlaps the edits that it
stands inside of, and two insertions at the same place do not overlap. -/
def Overlap (a b : Edit) : Prop := a.start < b.stop ∧ b.start < a.stop

theorem Overlap.symm {a b : Edit} (h : Overlap a b) : Overlap b a := ⟨h.2, h.1⟩

/-- Edits in the order in which they are applied: by their starts, then by their ends, and those of
one range as they are listed. -/
structure IsInOrder (edits ordered : List Edit) : Prop where
  sorted : ordered.Pairwise fun a b => a.start < b.start ∨ a.start = b.start ∧ a.stop ≤ b.stop
  listed (start stop : Nat) : ordered.filter (fun e => e.start = start ∧ e.stop = stop) =
    edits.filter fun e => e.start = start ∧ e.stop = stop

/-- An edit, and whether it is applied. -/
structure Choice where
  edit : Edit
  isApplied : Bool

/-- The edits that are applied. -/
def applied (choices : List Choice) : List Edit := (choices.filter (·.isApplied)).map (·.edit)

/-- An edit is left out exactly when it starts before the end of an earlier one that is applied. -/
def IsSelection (choices : List Choice) : Prop :=
  ∀ front e isApplied back, choices = front ++ ⟨e, isApplied⟩ :: back →
    (isApplied = false ↔ ∃ a ∈ applied front, e.start < a.stop)

/-- From an offset on, edits turn one text into another: what comes before an edit stays, its range
is replaced, and the others are applied to what follows. -/
inductive Replaces : (offset : Nat) → List Edit → (source result : List Char) → Prop where
  | done (offset : Nat) (rest : List Char) : Replaces offset [] rest rest
  | edit {offset : Nat} {e : Edit} {edits : List Edit} {kept removed rest result : List Char}
      (hstart : e.start = offset + byteLength kept) (hstop : e.stop = e.start + byteLength removed)
      (h : Replaces e.stop edits rest result) :
      Replaces offset (e :: edits) (kept ++ (removed ++ rest)) (kept ++ (e.text.toList ++ result))

/-- A choice of edits that is made from left to right, and the text in which these edits are
applied. -/
structure IsApplication (source : List Char) (edits : List Edit) (result : List Char)
    (choices : List Choice) : Prop where
  inOrder : IsInOrder edits (choices.map (·.edit))
  selected : IsSelection choices
  replaces : Replaces 0 (applied choices) source result
  /-- No two edits that are applied overlap. -/
  disjoint : (applied choices).Pairwise fun a b => ¬Overlap a b
  /-- No other edit could be applied as well. -/
  maximal : ∀ e, ⟨e, false⟩ ∈ choices → ∃ a ∈ applied choices, Overlap a e
  /-- All edits are applied when no two overlap. -/
  complete : (edits.Pairwise fun a b => ¬Overlap a b) → ∀ c ∈ choices, c.isApplied = true

/-! ## The order -/

theorem before_iff {a b : Edit} : before a b = true ↔ a.start < b.start ∨ a.start = b.start ∧
    a.stop ≤ b.stop := by
  simp [before]

theorem before_trans (a b c : Edit) (hab : before a b = true) (hbc : before b c = true) :
    before a c = true := by
  rw [before_iff] at *
  omega

theorem before_total (a b : Edit) : (before a b || before b a) = true := by
  rw [Bool.or_eq_true, before_iff, before_iff]
  omega

/-- Sorting puts edits in order: it keeps the ones of a range in a row, since they come in order. -/
theorem isInOrder_mergeSort (edits : List Edit) : IsInOrder edits (edits.mergeSort before) where
  sorted := (List.pairwise_mergeSort before_trans before_total edits).imp before_iff.1
  listed start stop := by
    have hsame : (edits.filter fun e => e.start = start ∧ e.stop = stop).Pairwise fun a b =>
      before a b = true := by
      refine List.pairwise_of_forall_mem_list fun a ha b hb => before_iff.2 ?_
      have ha := of_decide_eq_true (List.mem_filter.1 ha).2
      have hb := of_decide_eq_true (List.mem_filter.1 hb).2
      omega
    have hsub := List.sublist_mergeSort before_trans before_total hsame List.filter_sublist
    have hsub' := hsub.filter fun e => e.start = start ∧ e.stop = stop
    rw [List.filter_filter, List.filter_congr fun _ _ => Bool.and_self _] at hsub'
    exact (hsub'.eq_of_length ((List.mergeSort_perm edits before).filter _).length_eq.symm).symm

/-! ## The choice -/

/-- The choice that is made when edits are read from left to right and the text is written up to
`offset`. -/
def choose : (offset : Nat) → List Edit → List Choice
  | _, [] => []
  | offset, e :: edits =>
    if e.start < offset then ⟨e, false⟩ :: choose offset edits else ⟨e, true⟩ :: choose e.stop edits

theorem map_edit_choose (offset : Nat) (edits : List Edit) :
    (choose offset edits).map (·.edit) = edits := by
  induction edits generalizing offset with
  | nil => rfl
  | cons e edits ih =>
    rw [choose]
    split <;> rw [List.map_cons, ih]

theorem applied_append (front back : List Choice) :
    applied (front ++ back) = applied front ++ applied back := by
  simp [applied]

@[simp] theorem applied_cons_true (e : Edit) (choices : List Choice) :
    applied (⟨e, true⟩ :: choices) = e :: applied choices := rfl

@[simp] theorem applied_cons_false (e : Edit) (choices : List Choice) :
    applied (⟨e, false⟩ :: choices) = applied choices := rfl

/-- The offset lies behind a place exactly when the place lies before the end of an edit that is
applied. Reading one more edit keeps this, because an edit ends no earlier than the ones before
it. -/
theorem choose_eq_append {edits : List Edit} (hedits : ∀ e ∈ edits, e.start ≤ e.stop)
    {earlier : List Edit} {offset : Nat} (hoffset : ∀ place, place < offset ↔ ∃ a ∈ earlier,
      place < a.stop) {front back : List Choice} {e : Edit}
    {isApplied : Bool} (h : choose offset edits = front ++ ⟨e, isApplied⟩ :: back) :
    isApplied = false ↔ ∃ a ∈ earlier ++ applied front, e.start < a.stop := by
  induction edits generalizing earlier offset front with
  | nil => simp [choose] at h
  | cons first edits ih =>
    have hlater : ∀ e ∈ edits, e.start ≤ e.stop :=
      fun e he => hedits e (List.mem_cons_of_mem first he)
    have hfirst := hedits first List.mem_cons_self
    rw [choose] at h
    split at h
    · next hlt =>
      cases front with
      | nil =>
        cases h
        simpa [applied] using (hoffset _).1 hlt
      | cons choice front =>
        obtain ⟨rfl, htail⟩ := List.cons.inj h
        rw [applied_cons_false]
        exact ih hlater hoffset htail
    · next hle =>
      cases front with
      | nil =>
        cases h
        simpa [applied] using fun a ha => Nat.not_lt.1 fun hlt => hle ((hoffset _).2 ⟨a, ha, hlt⟩)
      | cons choice front =>
        obtain ⟨rfl, htail⟩ := List.cons.inj h
        rw [applied_cons_true, List.append_cons]
        -- the new end is that of the first edit, as it is no earlier than the one before
        refine ih hlater (fun place => ?_) htail
        rw [← or_iff_right_of_imp (fun hlt => by omega : place < offset → place < first.stop),
          hoffset]
        simp [or_and_right, exists_or]

theorem isSelection_choose {edits : List Edit} (hedits : ∀ e ∈ edits, e.start ≤ e.stop) :
    IsSelection (choose 0 edits) := by
  intro front e isApplied back h
  have hstart (place : Nat) : place < 0 ↔ ∃ a ∈ ([] : List Edit), place < a.stop := by simp
  have hchoice := choose_eq_append hedits hstart h
  rwa [List.nil_append] at hchoice

/-- No edit that is applied starts before the end of an earlier one. -/
theorem IsSelection.pairwise {choices : List Choice} (h : IsSelection choices) :
    (applied choices).Pairwise fun a b => a.stop ≤ b.start := by
  induction choices using List.reverseRecOn with
  | nil => exact .nil
  | append_singleton choices c ih =>
    have hfront : IsSelection choices := by
      intro front e isApplied back heq
      refine h front e isApplied (back ++ [c]) ?_
      rw [heq, List.append_assoc, List.cons_append]
    obtain ⟨e, isApplied⟩ := c
    have hchoice := h choices e isApplied [] rfl
    rw [applied_append]
    refine List.pairwise_append.2 ⟨ih hfront, ?_, fun a ha b hb => ?_⟩
    · cases isApplied <;> simp [applied]
    · cases isApplied with
      | false => cases hb
      | true =>
        obtain rfl := List.mem_singleton.1 hb
        exact Nat.not_lt.1 fun hlt => Bool.noConfusion (hchoice.2 ⟨a, ha, hlt⟩)

/-- An edit that is left out overlaps an earlier one. -/
theorem IsSelection.exists_overlap {front back : List Choice} {e : Edit}
    (h : IsSelection (front ++ ⟨e, false⟩ :: back))
    (hsorted : ((front ++ ⟨e, false⟩ :: back).map (·.edit)).Pairwise fun a b =>
      a.start < b.start ∨ a.start = b.start ∧ a.stop ≤ b.stop) (he : e.start ≤ e.stop) :
        ∃ a ∈ applied front, Overlap a e := by
  obtain ⟨a, ha, hlt⟩ := (h front e false back rfl).1 rfl
  refine ⟨a, ha, ?_, hlt⟩
  rw [List.map_append, List.pairwise_append] at hsorted
  have hmem : a ∈ front.map (·.edit) := (List.filter_sublist.map _).subset ha
  have := hsorted.2.2 a hmem e List.mem_cons_self
  omega

/-! ## The text -/

/-- A text up to the first edit, what the edit writes, and the rest. -/
theorem splice_replace (us vs r : List Char) (o : Nat) (text : String) (edits : List Edit) :
    splice ⟨us ++ (vs ++ r), o⟩
      (⟨o + byteLength us, o + byteLength us + byteLength vs, text⟩ :: edits) =
      us ++ (text.toList ++ splice ⟨r, o + byteLength us + byteLength vs⟩ edits) := by
  have hseek : Cursor.seek ⟨us ++ (vs ++ r), o⟩ (o + byteLength us + byteLength vs) =
      ⟨r, o + byteLength us + byteLength vs⟩ := by
    have := Cursor.seek_append (us ++ vs) r o
    simpa [Nat.add_assoc] using this
  rw [splice, if_neg (by simp), Cursor.slice?_append, hseek]
  simp

/-- An edit that does not start before a later place of the text is an edit of the text from there
on. -/
theorem IsRange.of_le {e : Edit} {us rest : List Char} {o : Nat} (h : e.IsRange ⟨us ++ rest, o⟩)
    (hle : o + byteLength us ≤ e.start) : e.IsRange ⟨rest, o + byteLength us⟩ := by
  obtain ⟨us', vs, ws, hrest, hstart, hstop⟩ := h
  dsimp only at hrest hstart
  rcases List.append_eq_append_iff.1 hrest with ⟨between, rfl, hbetween⟩ | ⟨beyond, rfl, hbeyond⟩
  · exact ⟨between, vs, ws, hbetween, by rw [hstart, byteLength_append, Nat.add_assoc], hstop⟩
  · -- nothing is left of the text in front of the place
    have hnil : beyond = [] := by
      have := length_le_byteLength beyond
      rw [byteLength_append] at hle
      exact List.length_eq_zero_iff.1 (by omega)
    subst hnil
    exact ⟨[], vs, ws, hbeyond.symm, by simpa using hstart, hstop⟩

/-- Edits are applied as they are chosen. By induction on the edits: those that start before the
place up to which the text is written are left out, and the others are edits of the rest. -/
theorem replaces_splice (edits : List Edit) (c : Cursor)
    (h : ∀ e ∈ edits, c.offset ≤ e.start → e.IsRange c) :
    Replaces c.offset (applied (choose c.offset edits)) c.rest (splice c edits) := by
  induction edits generalizing c with
  | nil => exact .done c.offset c.rest
  | cons e edits ih =>
    have hlater : ∀ e ∈ edits, c.offset ≤ e.start → e.IsRange c :=
      fun e he => h e (List.mem_cons_of_mem _ he)
    rw [choose, splice]
    split
    · exact ih c hlater
    · next hle =>
      obtain ⟨rest, o⟩ := c
      obtain ⟨start, stop, text⟩ := e
      obtain ⟨kept, removed, rest, hrest, hstart, hstop⟩ :=
        h _ List.mem_cons_self (Nat.not_lt.1 hle)
      dsimp only at hrest hstart hstop
      subst hrest hstart hstop
      have hsplice := splice_replace kept removed rest o text edits
      rw [splice, if_neg hle] at hsplice
      rw [hsplice, applied_cons_true]
      refine .edit rfl rfl (ih ⟨rest, _⟩ fun e he hstart => ?_)
      have hrange : e.IsRange ⟨kept ++ removed ++ rest, o⟩ := by
        rw [List.append_assoc]
        exact hlater e he (by dsimp only at hstart ⊢; omega)
      rw [Nat.add_assoc, ← byteLength_append] at hstart ⊢
      exact hrange.of_le hstart

/-- Edits of ranges of a text are applied exactly. -/
theorem exists_isApplication (source : List Char) (edits : List Edit)
    (hedits : ∀ e ∈ edits, e.IsRange (.atStart source)) :
    ∃ choices, IsApplication source edits (applyAll source edits) choices := by
  have hperm := List.mergeSort_perm edits before
  have hrange : ∀ e ∈ edits.mergeSort before, e.IsRange (.atStart source) :=
    fun e he => hedits e (hperm.mem_iff.1 he)
  have hle : ∀ e ∈ edits.mergeSort before, e.start ≤ e.stop := fun e he => by
    obtain ⟨-, vs, -, -, -, hstop⟩ := hrange e he
    omega
  have horder := isInOrder_mergeSort edits
  have hselected := isSelection_choose hle
  have hmap := map_edit_choose 0 (edits.mergeSort before)
  -- an edit is left out only for one that was applied before and overlaps it
  have hleft : ∀ front e back, choose 0 (edits.mergeSort before) = front ++ ⟨e, false⟩ :: back →
      ∃ a ∈ applied front, Overlap a e := by
    intro front e back heq
    rw [heq] at hselected hmap
    refine hselected.exists_overlap (hmap ▸ horder.sorted) (hle e ?_)
    rw [← hmap, List.map_append]
    exact List.mem_append_right _ List.mem_cons_self
  refine ⟨choose 0 (edits.mergeSort before), hmap.symm ▸ horder, hselected, ?_, ?_, fun e he => ?_,
    fun hnone c hc => ?_⟩
  · exact replaces_splice _ (.atStart source) fun e he _ => hrange e he
  · exact hselected.pairwise.imp fun hab (hoverlap : Overlap _ _) => Nat.not_lt.2 hab hoverlap.2
  · obtain ⟨front, back, heq⟩ := List.append_of_mem he
    obtain ⟨a, ha, hoverlap⟩ := hleft front e back heq
    rw [heq, applied_append]
    exact ⟨a, List.mem_append_left _ ha, hoverlap⟩
  · obtain ⟨e, isApplied⟩ := c
    obtain ⟨front, back, heq⟩ := List.append_of_mem hc
    by_contra hfalse
    rw [Bool.not_eq_true] at hfalse
    subst hfalse
    obtain ⟨a, ha, hoverlap⟩ := hleft front e back heq
    have hordered : (edits.mergeSort before).Pairwise fun a b => ¬Overlap a b :=
      (hperm.pairwise_iff fun h h' => h h'.symm).2 hnone
    rw [← hmap, heq, List.map_append, List.pairwise_append] at hordered
    exact hordered.2.2 a ((List.filter_sublist.map _).subset ha) e List.mem_cons_self hoverlap

/-- Two insertions at one place are applied as they are listed, and an edit that starts inside of an
earlier one is left out. -/
theorem exists_isApplication_nested :
    (∀ e ∈ [insert 3 "1", ⟨1, 5, "z"⟩, ⟨0, 3, "x"⟩, insert 3 "2"],
      e.IsRange (.atStart "aébc".toList)) ∧
      (∃ choices, IsApplication "aébc".toList [insert 3 "1", ⟨1, 5, "z"⟩, ⟨0, 3, "x"⟩, insert 3 "2"]
        (applyAll "aébc".toList [insert 3 "1", ⟨1, 5, "z"⟩, ⟨0, 3, "x"⟩, insert 3 "2"]) choices) ∧
      applyAll "aébc".toList [insert 3 "1", ⟨1, 5, "z"⟩, ⟨0, 3, "x"⟩, insert 3 "2"] =
        "x12bc".toList := by
  have hedits : ∀ e ∈ [insert 3 "1", ⟨1, 5, "z"⟩, ⟨0, 3, "x"⟩, insert 3 "2"],
      e.IsRange (.atStart "aébc".toList) := by
    simp only [List.forall_mem_cons, List.not_mem_nil, false_implies, implies_true, and_true]
    exact ⟨⟨['a', 'é'], [], ['b', 'c'], by decide⟩, ⟨['a'], ['é', 'b', 'c'], [], by decide⟩,
      ⟨[], ['a', 'é'], ['b', 'c'], by decide⟩, ⟨['a', 'é'], [], ['b', 'c'], by decide⟩⟩
  exact ⟨hedits, exists_isApplication _ _ hedits, by cbv⟩

end DeclBundle.Text.Edit
