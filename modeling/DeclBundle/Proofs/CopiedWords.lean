import DeclBundle.Proofs.Tracing

/-!
# Names are read from their copies

A copy of a dotted name has copies of its parts, so the texts of the parts are read from the copy as
well as from the file (`BundleTree.map_nameText?_entityParts`). It is enough that the nodes of the
copy still have the names that they were copied with.
-/

set_option autoImplicit false

namespace DeclBundle

namespace Arena

/-- The name, or the part of one, in a slot. -/
def word? (a : Arena) (slot : Slot) : Option (Form Slot) := (a.form? slot).filter Form.isWord

variable {a : Arena} {slot : Slot} {form : Form Slot}

theorem form?_of_word? (h : a.word? slot = some form) : a.form? slot = some form :=
  (Option.filter_eq_some_iff.1 h).1

theorem word?_of_form? (h : a.form? slot = some form) :
    a.word? slot = if form.isWord then some form else none := by
  rw [word?, h, Option.filter_some]

theorem word?_of_not_isWord (h : a.form? slot = some form) (hword : form.isWord = false) :
    a.word? slot = none := by
  rw [word?_of_form? h, hword]
  rfl

theorem word?_of_none (h : a.form? slot = none) : a.word? slot = none := by rw [word?, h]; rfl

theorem not_isWord_of_word? (h : a.word? slot = none) (hform : a.form? slot = some form) :
    form.isWord = false := by
  rw [word?_of_form? hform] at h
  split at h
  · cases h
  · next hword => simpa using hword

/-- What is no word has no text. -/
theorem nameText?_of_word? (h : a.word? slot = none) : a.nameText? slot = none := by
  unfold nameText?
  split <;> first
    | rfl
    | next hform => exact absurd (not_isWord_of_word? h hform) (by simp [Form.isWord])

end Arena

/-- What is no word has no parts. -/
theorem Project.reversedPartsTo_of_word? {a : Arena} {slot : Slot} (h : a.word? slot = none)
    (depth : Nat) :
    reversedPartsTo a depth slot = [] := by
  cases depth with
  | zero => rfl
  | succ depth =>
    unfold reversedPartsTo
    split <;> first
      | rfl
      | next hform => exact absurd (Arena.not_isWord_of_word? h hform) (by simp [Form.isWord])

namespace BundleTree

variable {p : Project} {copied : BundleTree} {file : FileId} {a : Arena}

/-- A word is copied to the same word with copies of its parts, and nothing else is copied to a
word. -/
theorem IsTraced.word_cases (h : copied.IsTraced p) (harena : p.arena? file = some a)
    {origin slot : Slot} (hcopy : copied.IsCopy file a origin slot) :
    (a.word? origin = none ∧ copied.arena.word? slot = none) ∨
      ∃ (n : NodeId) (pairs : Form (Slot × Slot)),
        slot = some n ∧ a.word? origin = some (pairs.map Prod.fst) ∧
        copied.arena.word? slot = some (pairs.map Prod.snd) ∧
        ∀ pair ∈ pairs.children, copied.IsCopy file a pair.1 pair.2 ∧ ∀ c : NodeId,
          pair.2 = some c → c.index < n.index := by
  cases slot with
  | none => exact .inl ⟨Arena.word?_of_none hcopy, rfl⟩
  | some n =>
    obtain ⟨a', found, form, harena', hfound, hform, hmade⟩ := h.exists_form n _ hcopy
    obtain rfl := Option.some.inj (harena.symm.trans harena')
    by_cases hword : found.isWord = true
    · obtain ⟨pairs, rfl, rfl, hpairs⟩ := hmade.isCopied (Form.isRead_of_isWord hword)
      refine .inr ⟨n, pairs, rfl, ?_, ?_, hpairs⟩
      · rw [Arena.word?_of_form? hfound, if_pos hword]
      · rw [Arena.word?_of_form? hform, if_pos]
        rwa [Form.isWord_map, ← Form.isWord_map Prod.fst]
    · refine .inl ⟨by rw [Arena.word?_of_form? hfound, if_neg hword],
        Arena.word?_of_not_isWord hform ?_⟩
      rcases hmade with ⟨-, pairs, rfl, rfl, -⟩ | ⟨-, hread, -⟩
      · rw [Form.isWord_map, ← Form.isWord_map Prod.fst]
        simpa using hword
      · exact Form.isWord_of_isRead hread

/-! ## Reading the parts -/

variable (h : copied.IsTraced p) (harena : p.arena? file = some a) {b : Arena} {root : Slot}
  (hwords : ∀ n origin, a.InName root origin → copied.originOf? n = some ⟨file, origin⟩ →
    b.word? (some n) = copied.arena.word? (some n))

include h harena hwords

omit h harena in
theorem word?_of_isCopy {origin slot : Slot} (hin : a.InName root origin)
    (hcopy : copied.IsCopy file a origin slot) :
    b.word? slot = copied.arena.word? slot := by
  cases slot with
  | none => rfl
  | some n => exact hwords n origin hin hcopy

theorem nameText?_of_isCopy {origin slot : Slot} (hin : a.InName root origin)
    (hcopy : copied.IsCopy file a origin slot) :
    b.nameText? slot = a.nameText? origin := by
  have hsame := word?_of_isCopy hwords hin hcopy
  obtain ⟨hnone, hnone'⟩ | ⟨n, pairs, -, hold, hnew, -⟩ := h.word_cases harena hcopy
  · rw [Arena.nameText?_of_word? hnone, Arena.nameText?_of_word? (hsame.trans hnone')]
  · have hform := Arena.form?_of_word? hold
    have hform' := Arena.form?_of_word? (hsame.trans hnew)
    unfold Arena.nameText?
    rw [hform, hform']
    cases pairs <;> rfl

/-- Going down to the left, the copy is as long as the name. -/
theorem map_nameText?_reversedPartsTo (hordered : a.IsOrdered) {origin slot : Slot}
    (hin : a.InName root origin) (hcopy : copied.IsCopy file a origin slot) {depth depth' : Nat}
    (hdepth : ∀ n form, origin = some n → a.form? (some n) = some form → n.index < depth)
    (hdepth' : ∀ n : NodeId, slot = some n → n.index < depth') :
    (Project.reversedPartsTo b depth' slot).map b.nameText? =
      (Project.reversedPartsTo a depth origin).map a.nameText? := by
  induction depth generalizing depth' origin slot with
  | zero =>
    have hsame := word?_of_isCopy hwords hin hcopy
    obtain ⟨hnone, hnone'⟩ | ⟨_, _, _, hold, _, _⟩ := h.word_cases harena hcopy
    · rw [Project.reversedPartsTo_of_word? hnone,
        Project.reversedPartsTo_of_word? (hsame.trans hnone')]
      rfl
    · have hform := Arena.form?_of_word? hold
      cases origin with
      | none => cases hform
      | some m => exact absurd (hdepth m _ rfl hform) (Nat.not_lt_zero _)
  | succ depth ih =>
    have hsame := word?_of_isCopy hwords hin hcopy
    obtain ⟨hnone, hnone'⟩ | ⟨n, pairs, rfl, hold, hnew, hpairs⟩ := h.word_cases harena hcopy
    · rw [Project.reversedPartsTo_of_word? hnone,
        Project.reversedPartsTo_of_word? (hsame.trans hnone')]
      rfl
    · have hform := Arena.form?_of_word? hold
      have hform' := Arena.form?_of_word? (hsame.trans hnew)
      -- the two dotted forms go down in the same way
      have hdotted : ∀ left right : Slot × Slot, (pairs.map Prod.fst).isDotted = true →
        left ∈ pairs.children →
          right ∈ pairs.children →
          (right.2 :: Project.reversedPartsTo b (depth' - 1) left.2).map b.nameText? =
            (right.1 :: Project.reversedPartsTo a depth left.1).map a.nameText? := by
        intro left right hdotted hleft hright
        have hchild : ∀ pair ∈ pairs.children, pair.1 ∈ (pairs.map Prod.fst).children :=
          fun pair hpair => by
          rw [Form.children_map]
          exact List.mem_map_of_mem hpair
        rw [List.map_cons, List.map_cons,
          nameText?_of_isCopy h harena hwords (hin.part hform hdotted (hchild right hright))
            (hpairs right hright).1]
        congr 1
        refine ih (hin.part hform hdotted (hchild left hleft)) (hpairs left hleft).1
          (fun m _ hm _ => ?_) fun m hm => ?_
        · cases origin with
          | none => cases hform
          | some k =>
            have hlt := hordered k _ m hform (hm ▸ hchild left hleft)
            have hk := hdepth k _ rfl hform
            omega
        · have hlt := (hpairs left hleft).2 m hm
          have hn := hdepth' n rfl
          omega
      obtain ⟨depth', rfl⟩ : ∃ d, depth' = d + 1 := ⟨depth' - 1, by have := hdepth' n rfl; omega⟩
      unfold Project.reversedPartsTo
      rw [hform, hform']
      cases pairs with
      | qualifiedName left right =>
        exact hdotted left right rfl List.mem_cons_self (List.mem_cons_of_mem _ List.mem_cons_self)
      | propertyAccess left right =>
        exact hdotted left right rfl List.mem_cons_self (List.mem_cons_of_mem _ List.mem_cons_self)
      | identifier text =>
        show [b.nameText? (some n)] = [a.nameText? origin]
        rw [nameText?_of_isCopy h harena hwords hin hcopy]
      | _ => rfl

/-- The parts of a dotted name have their texts in a copy as well. -/
theorem map_nameText?_entityParts (hordered : a.IsOrdered) {slot : Slot}
    (hcopy : copied.IsCopy file a root slot) (hsize : copied.arena.size ≤ b.size) :
    (Project.entityParts b slot).map b.nameText? =
      (Project.entityParts a root).map a.nameText? := by
  unfold Project.entityParts
  rw [List.map_reverse, List.map_reverse]
  congr 1
  refine map_nameText?_reversedPartsTo h harena hwords hordered .root hcopy
    (fun n form _ hform => ?_) fun n hn => ?_
  · exact Nat.lt_succ_of_lt (Arena.lt_size_of_form? hform)
  · subst hn
    exact Nat.lt_succ_of_lt (Nat.lt_of_lt_of_le (h.lt_size n _ hcopy) hsize)

end BundleTree

end DeclBundle
