import DeclBundle.Proofs.ScriptShifts
import DeclBundle.Proofs.ScriptWords

/-!
# Heads of class members

The head of a member is read word by word, each perhaps behind an asterisk: a word that ends as a
name is the name, every other one is a modifier (`memberFrom?_cases`, `memberFrom?_word`). What is
read does not depend on the position (`SameAhead`), so a word for access in front of a member is one
modifier more (`memberHead?_withAccess`), and so is `readonly` in front of its name
(`exists_markedAt`).
-/

set_option autoImplicit false

namespace DeclBundle.Script

open Text

/-! ## The same text at another position -/

/-- Two positions in front of the same word or mark. -/
def SameAhead (c d : Cursor) : Prop := (token c).rest = (token d).rest

theorem shift_zero (c : Cursor) : c = Cursor.shift ⟨c.rest, 0⟩ c.offset := by
  rw [Cursor.shift, Nat.zero_add]

theorem SameAhead.of_rest_eq {c d : Cursor} (h : c.rest = d.rest) : SameAhead c d := by
  rw [SameAhead, shift_zero c, shift_zero d, token_shift, token_shift, h]
  rfl

theorem endsName_congr {c d : Cursor} (h : c.rest = d.rest) : endsName c = endsName d := by
  rw [shift_zero c, shift_zero d, endsName_shift, endsName_shift, h]

theorem skip_rest_congr {c d : Cursor} (h : c.rest = d.rest) (n : Nat) :
    (c.skip n).rest = (d.skip n).rest := by
  rw [shift_zero c, shift_zero d, Cursor.skip_shift, Cursor.skip_shift, h]
  rfl

theorem SameAhead.peek? {c d : Cursor} (h : SameAhead c d) : peek? c = Script.peek? d := by
  rw [Script.peek?, Script.peek?, Cursor.head?, Cursor.head?, h]

theorem SameAhead.word? {c d e : Cursor} {w : List Char} (h : SameAhead c d)
    (hw : Script.word? c = some (w, e)) :
    ∃ f, Script.word? d = some (w, f) ∧ f.rest = e.rest := by
  simp only [Script.word?] at hw ⊢
  rw [← show (token c).rest = (token d).rest from h]
  split at hw
  · cases hw
  · next first word _ =>
    split at hw
    · cases hw
    · next hdigit =>
      cases hw
      exact ⟨_, if_neg hdigit, (skip_rest_congr h _).symm⟩

theorem SameAhead.passMark {c d : Cursor} (h : SameAhead c d) (mark : String) :
    SameAhead (passMark mark c) (Script.passMark mark d) := by
  simp only [Script.passMark, mark?]
  rw [← show (token c).rest = (token d).rest from h]
  split
  · exact .of_rest_eq (skip_rest_congr h _)
  · exact h

/-! ## One word -/

/-- From a word on, perhaps behind an asterisk, a member is read by this word. -/
theorem memberFrom?_word {c d : Cursor} {w : List Char} (h : word? (passMark "*" c) = some (w, d))
    (start : Cursor) (fuel : Nat) (modifiers : List String) :
    memberFrom? start (fuel + 1) modifiers c =
      if statementWords.contains (String.ofList w) then none
      else if endsName d then
        if modifiers.all memberModifiers.contains then
          some {
            start, name := w, nameStart := token (passMark "*" c), nameEnd := d,
            hasAccess := modifiers.any ["public", "private", "protected"].contains,
            isMethod := peek? d == some '(',
            isSetter := modifiers.contains "set" }
        else none
      else memberFrom? start fuel (String.ofList w :: modifiers) d := by
  obtain ⟨x, hpeek, hx⟩ := peek?_of_word? h
  have hprivate : (peek? (passMark "*" c) != some '#') = true := by
    rw [hpeek, bne_iff_ne]
    rintro ⟨⟩
    cases (isWordPart_mark (by decide)).symm.trans hx
  simp only [memberFrom?, hprivate, guard, if_true, Option.pure_def, Option.bind_eq_bind,
    Option.bind_some, h]
  cases statementWords.contains (String.ofList w) with
  | true => rfl
  | false =>
    cases endsName d with
    | true => cases modifiers.all memberModifiers.contains <;> rfl
    | false => rfl

/-- In front of a word there is no asterisk. -/
theorem word?_behindStar {c d : Cursor} {w : List Char} (h : word? c = some (w, d)) :
    word? (passMark "*" c) = some (w, d) := by
  rw [passMark_of_word? (x := '*') rfl (isWordPart_mark (by decide)) h]
  exact h

/-- All that one word can be: the name of the member, or one more of its modifiers. -/
theorem memberFrom?_cases {start c : Cursor} {fuel : Nat} {modifiers : List String}
    {member : MemberHead} (h : memberFrom? start fuel modifiers c = some member) :
    ∃ n w d, fuel = n + 1 ∧ word? (passMark "*" c) = some (w, d) ∧
      statementWords.contains (String.ofList w) = false ∧
      ((endsName d = true ∧ modifiers.all memberModifiers.contains = true ∧
        member = {
          start, name := w, nameStart := token (passMark "*" c), nameEnd := d,
          hasAccess := modifiers.any ["public", "private", "protected"].contains,
          isMethod := peek? d == some '(',
          isSetter := modifiers.contains "set" }) ∨
        endsName d = false ∧ memberFrom? start n (String.ofList w :: modifiers) d =
          some member) := by
  cases fuel with
  | zero => cases h
  | succ n =>
    obtain ⟨w, d, hword⟩ : ∃ w d, word? (passMark "*" c) = some (w, d) := by
      simp only [memberFrom?, Option.bind_eq_bind, Option.bind_eq_some_iff] at h
      obtain ⟨_, -, ⟨w, d⟩, hword, -⟩ := h
      exact ⟨w, d, hword⟩
    rw [memberFrom?_word hword] at h
    refine ⟨n, w, d, rfl, hword, ?_⟩
    split_ifs at h with hstatement hends hall
    · exact ⟨Bool.eq_false_iff.2 hstatement, .inl ⟨hends, hall, (Option.some.inj h).symm⟩⟩
    · exact ⟨Bool.eq_false_iff.2 hstatement, .inr ⟨Bool.eq_false_iff.2 hends, h⟩⟩

/-- A word that starts statements is no member. -/
theorem memberFrom?_of_statement {c d : Cursor} {w : List Char}
    (h : word? (passMark "*" c) = some (w, d))
    (hstatement : statementWords.contains (String.ofList w) = true) (start : Cursor) (fuel : Nat)
    (modifiers : List String) :
    memberFrom? start fuel modifiers c = none := by
  cases fuel with
  | zero => rfl
  | succ fuel => rw [memberFrom?_word h, if_pos hstatement]

theorem start_of_memberFrom? {start c : Cursor} {fuel : Nat} {modifiers : List String}
    {member : MemberHead} (h : memberFrom? start fuel modifiers c = some member) :
    member.start = start := by
  induction fuel generalizing modifiers c with
  | zero => cases h
  | succ fuel ih =>
    obtain ⟨n, w, d, hn, -, -, ⟨-, -, rfl⟩ | ⟨-, hrest⟩⟩ := memberFrom?_cases h
    · rfl
    · obtain rfl := Nat.succ.inj hn
      exact ih hrest

/-- All modifiers are words that can stand before the name of a member. -/
theorem modifiers_of_memberFrom? {start c : Cursor} {fuel : Nat} {modifiers : List String}
    {member : MemberHead} (h : memberFrom? start fuel modifiers c = some member) :
    modifiers.all memberModifiers.contains = true := by
  induction fuel generalizing modifiers c with
  | zero => cases h
  | succ fuel ih =>
    obtain ⟨n, w, d, hn, -, -, ⟨-, hall, -⟩ | ⟨-, hrest⟩⟩ := memberFrom?_cases h
    · exact hall
    · obtain rfl := Nat.succ.inj hn
      have hall := ih hrest
      rw [List.all_cons, Bool.and_eq_true] at hall
      exact hall.2

/-! ## The start of a member -/

/-- The text starts with an asterisk or with a word. -/
def StartsMember (cs : List Char) : Prop := ∃ x r, cs = x :: r ∧ (x = '*' ∨ isWordPart x = true)

theorem startsMember_word {w : List Char} (hw : IsWord w) (u : List Char) :
    StartsMember (w ++ u) := by
  cases w with
  | nil => exact absurd rfl hw.ne_nil
  | cons x w => exact ⟨x, w ++ u, rfl, .inr (hw.part x List.mem_cons_self)⟩

theorem startsMember_star (r : List Char) : StartsMember ('*' :: r) := ⟨'*', r, rfl, .inl rfl⟩

theorem StartsMember.isSolid {cs : List Char} (h : StartsMember cs) : IsSolid cs := by
  obtain ⟨x, r, rfl, rfl | hx⟩ := h
  · exact isSolid_cons (by decide) (by decide)
  · refine isSolid_cons (isBlank_of_isWordPart hx) ?_
    rintro rfl
    cases (isWordPart_mark (by decide)).symm.trans hx

theorem ne_marks_of_isWordPart {x : Char} (hx : isWordPart x = true) :
    x ≠ '=' ∧ x ≠ '(' ∧ x ≠ ';' := by
  refine ⟨?_, ?_, ?_⟩ <;> rintro rfl <;> cases (isWordPart_mark (by decide)).symm.trans hx

theorem takeWhile_isBlank_append {x : Char} (hx : isBlank x = false) (g r : List Char) :
    (g ++ x :: r).takeWhile isBlank = g.takeWhile isBlank := by
  induction g with
  | nil => rw [List.nil_append, List.takeWhile_cons_of_neg (by rw [hx]; exact Bool.false_ne_true),
    List.takeWhile_nil]
  | cons y g ih =>
    rw [List.cons_append, List.takeWhile_cons, List.takeWhile_cons, ih]

/-- A word in front of more of a member ends as a name at the end of a line alone. -/
theorem endsName_gap {g cs : List Char} (hg : IsGap g) (h : StartsMember cs) (o : Nat) :
    endsName ⟨g ++ cs, o⟩ = (g.takeWhile isBlank).contains '\n' := by
  have htoken : token ⟨g ++ cs, o⟩ = ⟨cs, o + byteLength g⟩ := token_gap hg h.isSolid o
  have hblank := h.isSolid.head
  obtain ⟨x, r, rfl, hx⟩ := h
  have hmarks : x ≠ '=' ∧ x ≠ '(' ∧ x ≠ ';' := by
    rcases hx with rfl | hx
    · decide
    · exact ne_marks_of_isWordPart hx
  simp only [endsName, htoken]
  split
  · next heq => exact absurd (List.cons.inj heq).1 hmarks.1
  · next heq => exact absurd (List.cons.inj heq).1 hmarks.2.1
  · next heq => exact absurd (List.cons.inj heq).1 hmarks.2.2
  · next heq => cases heq
  · rw [takeWhile_isBlank_append (hblank x rfl)]

theorem endsName_space {cs : List Char} (h : StartsMember cs) (o : Nat) :
    endsName ⟨' ' :: cs, o⟩ = false :=
  endsName_gap isGap_space h o

theorem startsMember_start {p w u : List Char} (hp : p = [] ∨ ∃ r, p = '*' :: r) (hw : IsWord w) :
    StartsMember (p ++ (w ++ u)) := by
  rcases hp with rfl | ⟨r, rfl⟩
  · exact startsMember_word hw _
  · exact startsMember_star _

theorem eq_of_mark?_star {c e : Cursor} (h : mark? "*" c = some e) :
    ∃ r, (token c).rest = '*' :: r ∧ e = ⟨r, (token c).offset + 1⟩ := by
  simp only [mark?] at h
  split at h
  · next hstart =>
    obtain ⟨r, hr⟩ := startsWith_iff.1 hstart
    refine ⟨r, hr, ?_⟩
    rw [← Option.some.inj h]
    generalize token c = d at hr
    obtain ⟨cs, o⟩ := d
    subst hr
    rfl
  · cases h

theorem passMark_star {g : List Char} (hg : IsGap g) (r : List Char) (o : Nat) :
    passMark "*" ⟨g ++ '*' :: r, o⟩ = ⟨r, o + byteLength g + 1⟩ := by
  have hstart : startsWith "*".toList ('*' :: r) = true := startsWith_iff.2 ⟨r, rfl⟩
  rw [passMark, mark?, token_gap hg (startsMember_star r).isSolid]
  dsimp only
  rw [if_pos hstart]
  rfl

/-- In front of the first word of a member there is a gap, perhaps with an asterisk in it, and any
other word is read there in the same way. -/
theorem exists_start_of_word? {c d : Cursor} {w : List Char}
    (h : word? (passMark "*" c) = some (w, d)) :
    ∃ g p, IsGap g ∧ (p = [] ∨ ∃ r, p = '*' :: r) ∧ IsWord w ∧ EndsWord d.rest ∧
      c.rest = g ++ (p ++ (w ++ d.rest)) ∧
      (token (passMark "*" c)).offset = c.offset + byteLength g + byteLength p ∧
      d.offset = c.offset + byteLength g + byteLength p + byteLength w ∧
      ∀ w' u o, IsWord w' → EndsWord u → word? (passMark "*" ⟨g ++ (p ++ (w' ++ u)), o⟩) =
        some (w', ⟨u, o + byteLength g + byteLength p + byteLength w'⟩) := by
  cases hmark : mark? "*" c with
  | none =>
    rw [passMark, hmark, Option.getD_none] at h ⊢
    obtain ⟨g, hg, hw, hend, hrest, hoffset⟩ := exists_gap_of_word? h
    refine ⟨g, [], hg, .inl rfl, hw, hend, hrest, ?_, hoffset, fun w' u o hw' hu => ?_⟩
    · have := (token_of_word? h).2
      simp only [byteLength_nil]
      omega
    · have hread := word?_gap hg hw' hu o
      rw [List.nil_append, passMark_of_word? (x := '*') rfl (isWordPart_mark (by decide)) hread]
      exact hread
  | some e =>
    rw [passMark, hmark, Option.getD_some] at h ⊢
    obtain ⟨r, hstar, he⟩ := eq_of_mark?_star hmark
    obtain ⟨g, hg, -, hrest, hoffset⟩ :=
      exists_gap_of_token (c := c) (by rw [hstar]; exact List.cons_ne_nil _ _)
    obtain ⟨g', hg', hw, hend, hrest', hoffset'⟩ := exists_gap_of_word? h
    have hstop := (token_of_word? h).2
    subst he
    dsimp only at hrest' hoffset'
    have hsize : byteLength ('*' :: g') = 1 + byteLength g' := byteLength_cons '*' g'
    refine ⟨g, '*' :: g', hg, .inr ⟨g', rfl⟩, hw, hend, ?_, ?_, ?_, fun w' u o hw' hu => ?_⟩
    · rw [hrest, hstar, hrest']
      rfl
    · omega
    · omega
    · -- the asterisk is passed wherever it stands, so any word behind it is read
      have hpass := passMark_star hg (g' ++ (w' ++ u)) o
      rw [List.cons_append, hpass, word?_gap hg' hw' hu, hsize]
      simp only [Nat.add_assoc]

/-! ## A word for access -/

/-- The words for access that comments state. -/
def accessWords : List String := ["private", "protected"]

theorem contains_of_mem_accessWords {access : String} (h : access ∈ accessWords) :
    memberModifiers.contains access = true ∧
      ["public", "private", "protected"].contains access = true ∧
      statementWords.contains access = false ∧ IsWord access.toList := by
  simp only [accessWords, List.mem_cons, List.not_mem_nil, or_false] at h
  rcases h with rfl | rfl <;> exact ⟨rfl, rfl, rfl, isWord_of_isAlpha (by decide) (by decide)⟩

/-- A member is read in the same way with a word for its access among its modifiers. By induction on
the modifiers that follow. -/
theorem memberFrom?_withAccess {access : String} (haccess : access ∈ accessWords) (start' : Cursor)
    {c d start : Cursor} {fuel fuel' : Nat} {modifiers : List String} {member : MemberHead}
    (hfuel : fuel ≤ fuel') (hahead : SameAhead c d)
    (h : memberFrom? start fuel modifiers c = some member) :
    ∃ member', memberFrom? start' fuel' (modifiers ++ [access]) d = some member' ∧
      member'.hasAccess = true ∧
      member'.isMethod = member.isMethod := by
  induction fuel generalizing fuel' modifiers c d with
  | zero => cases h
  | succ fuel ih =>
    obtain ⟨fuel', rfl⟩ : ∃ n, fuel' = n + 1 := ⟨fuel' - 1, by omega⟩
    obtain ⟨n, w, e, hn, hword, hstatement, hcase⟩ := memberFrom?_cases h
    obtain rfl := Nat.succ.inj hn
    obtain ⟨e', hword', hrest⟩ := (hahead.passMark "*").word? hword
    rw [memberFrom?_word hword', if_neg (by rw [hstatement]; exact Bool.false_ne_true),
      endsName_congr hrest]
    rcases hcase with ⟨hends, hall, rfl⟩ | ⟨hends, hmore⟩
    · obtain ⟨hmodifier, hhas, -, -⟩ := contains_of_mem_accessWords haccess
      have hall' : (modifiers ++ [access]).all memberModifiers.contains = true := by
        rw [List.all_append, hall, List.all_cons, hmodifier, List.all_nil]
        rfl
      rw [if_pos hends, if_pos hall']
      refine ⟨_, rfl, ?_, ?_⟩
      · rw [List.any_append, List.any_cons, hhas, Bool.true_or, Bool.or_true]
      · dsimp only
        rw [(SameAhead.of_rest_eq hrest).peek?]
    · rw [if_neg (by rw [hends]; exact Bool.false_ne_true)]
      exact ih (Nat.le_of_succ_le_succ hfuel) (.of_rest_eq hrest.symm) hmore

theorem token_ne_nil_of_memberHead? {c : Cursor} {member : MemberHead}
    (h : memberHead? c = some member) :
    (token c).rest ≠ [] := by
  intro hnil
  obtain ⟨_, w, d, -, hword, -, -⟩ := memberFrom?_cases h
  have hmark : passMark "*" c = c := by
    rw [passMark, mark?_eq_none, Option.getD_none]
    rw [hnil]
    exact fun hstar => by cases List.prefix_nil.1 hstar
  rw [hmark, word?, hnil] at hword
  cases hword

/-- A member starts with an asterisk or with a word. -/
theorem startsMember_of_memberHead? {c : Cursor} {member : MemberHead}
    (h : memberHead? c = some member) :
    StartsMember (token c).rest := by
  obtain ⟨_, w, d, -, hword, -, -⟩ := memberFrom?_cases h
  obtain ⟨g, p, hg, hp, hw, -, hrest, -⟩ := exists_start_of_word? hword
  have hstarts : StartsMember (p ++ (w ++ d.rest)) := startsMember_start hp hw
  have htoken := token_gap hg hstarts.isSolid c.offset
  rw [← hrest] at htoken
  exact (congrArg Cursor.rest htoken).symm ▸ hstarts

/-- Behind a word for the access that a comment states, the member is read as it was before. -/
theorem memberHead?_withAccess {access : String} (haccess : access ∈ accessWords) {c : Cursor}
    {member : MemberHead} (h : memberHead? c = some member) {g m : List Char} (hg : IsGap g)
    (hm : IsSolid m) (hrest : c.rest = g ++ m) (o : Nat) :
    ∃ member', memberHead? ⟨g ++ (access.toList ++ ' ' :: m), o⟩ = some member' ∧
      member'.hasAccess = true ∧
      member'.isMethod = member.isMethod := by
  have hc : (token c).rest = m := by
    have := token_gap hg hm c.offset
    rw [← hrest] at this
    exact congrArg Cursor.rest this
  obtain ⟨-, -, hstatement, hword⟩ := contains_of_mem_accessWords haccess
  have hread := word?_gap hg hword (endsWord_cons (isWordPart_mark (by decide))) (u := ' ' :: m) o
  have hends := endsName_space (hc ▸ startsMember_of_memberHead? h)
    (o + byteLength g + byteLength access.toList)
  have hahead : SameAhead c ⟨' ' :: m, o + byteLength g + byteLength access.toList⟩ := by
    have hspace := token_gap isGap_space hm (o + byteLength g + byteLength access.toList)
    exact hc.trans (congrArg Cursor.rest hspace).symm
  have hlength : c.rest.length + 1 ≤ (g ++ (access.toList ++ ' ' :: m)).length := by
    rw [hrest]
    simp only [List.length_append, List.length_cons]
    omega
  obtain ⟨member', hmember', haccess', hmethod⟩ := memberFrom?_withAccess haccess
    (token ⟨g ++ (access.toList ++ ' ' :: m), o⟩) hlength hahead h
  refine ⟨member', ?_, haccess', hmethod⟩
  rw [memberHead?, memberFrom?_word (word?_behindStar hread),
    if_neg (by rw [String.ofList_toList, hstatement]; exact Bool.false_ne_true),
    if_neg (by rw [hends]; exact Bool.false_ne_true), String.ofList_toList]
  exact hmember'

/-! ## `readonly` in front of a name -/

theorem isWord_readonly : IsWord "readonly".toList := isWord_of_isAlpha (by decide) (by decide)

theorem word?_space {w u : List Char} (hw : IsWord w) (hu : EndsWord u) (o : Nat) :
    word? ⟨' ' :: (w ++ u), o⟩ = some (w, ⟨u, o + byteLength [' '] + byteLength w⟩) :=
  word?_gap isGap_space hw hu o

/-- The first word at the start of a member, if an asterisk does not come first. -/
theorem eq_of_word?_start {g p w u w' : List Char} {d : Cursor} {o : Nat} (hg : IsGap g)
    (hp : p = [] ∨ ∃ r, p = '*' :: r) (hw : IsWord w) (hu : EndsWord u)
    (h : word? ⟨g ++ (p ++ (w ++ u)), o⟩ = some (w', d)) : w' = w := by
  rcases hp with rfl | ⟨r, rfl⟩
  · have hread := word?_gap hg hw hu o
    rw [List.nil_append, hread] at h
    exact (congrArg Prod.fst (Option.some.inj h)).symm
  · have hstar : isWordPart '*' = false := isWordPart_mark (by decide)
    rw [List.cons_append, word?, token_gap hg (startsMember_star _).isSolid] at h
    simp only [List.takeWhile_cons, hstar, Bool.false_eq_true, if_false, reduceCtorEq] at h

/-- Behind a word, something separates it from the word that follows. -/
theorem ne_nil_of_endsWord {q w u : List Char} (h : EndsWord (q ++ (w ++ u))) (hw : IsWord w) :
    q ≠ [] := by
  rintro rfl
  cases w with
  | nil => exact hw.ne_nil rfl
  | cons x w =>
    have hx := h x rfl
    rw [hw.part x List.mem_cons_self] at hx
    cases hx

/-- The text of a member is a gap `g`, what stands in front of its name, and the name `w` with what
follows. With `readonly` in front of the name, the first word is still a modifier, and the member is
read as it was. -/
structure MarkedAt (c : Cursor) (fuel : Nat) (modifiers : List String) (member : MemberHead)
    (g p w u : List Char) : Prop where
  gap : IsGap g
  starts : ∀ w u, IsWord w → StartsMember (p ++ (w ++ u))
  isWord : IsWord w
  rest_eq : c.rest = g ++ (p ++ (w ++ u))
  offset_eq : member.nameStart.offset = c.offset + byteLength g + byteLength p
  first : ∀ o w' d, word? ⟨g ++ (p ++ ("readonly".toList ++ ' ' :: (w ++ u))), o⟩ = some (w', d) →
    memberModifiers.contains (String.ofList w') = true
  marked : ∀ start' fuel' o, fuel < fuel' → ∃ member',
    memberFrom? start' fuel' modifiers ⟨g ++ (p ++ ("readonly".toList ++ ' ' :: (w ++ u))), o⟩ =
      some member' ∧
      member'.isMethod = member.isMethod

variable {start c d : Cursor} {fuel : Nat} {modifiers : List String} {member : MemberHead}
  {w : List Char}

/-- The word that is the name of the member. -/
theorem exists_markedAt_name (hword : word? (passMark "*" c) = some (w, d))
    (hstatement : statementWords.contains (String.ofList w) = false) (hends : endsName d = true)
    (hall : modifiers.all memberModifiers.contains = true)
    (hname : member.nameStart = token (passMark "*" c))
    (hmethod : member.isMethod = (peek? d == some '(')) :
    ∃ g p w u, MarkedAt c (fuel + 1) modifiers member g p w u := by
  obtain ⟨g, p, hg, hp, hw, hend, hrest, hoffset, -, hagain⟩ := exists_start_of_word? hword
  have hspace : EndsWord (' ' :: (w ++ d.rest)) := endsWord_cons (isWordPart_mark (by decide))
  have hall' : ("readonly" :: modifiers).all memberModifiers.contains = true := by
    rw [List.all_cons, hall]
    rfl
  have hends' (o : Nat) : endsName ⟨d.rest, o⟩ = true := by
    rw [← hends]
    exact endsName_congr rfl
  have hpeek (o : Nat) : peek? ⟨d.rest, o⟩ = peek? d := SameAhead.peek? (.of_rest_eq rfl)
  exact ⟨g, p, w, d.rest, {
    gap := hg
    starts := fun _ _ => startsMember_start hp
    isWord := hw
    rest_eq := hrest
    offset_eq := hname ▸ hoffset
    first := fun o w' d' hfirst => by
      rw [eq_of_word?_start hg hp isWord_readonly hspace hfirst]
      rfl
    marked := fun start' fuel' o hfuel => by
      obtain ⟨fuel', rfl⟩ : ∃ n, fuel' = n + 2 := ⟨fuel' - 2, by omega⟩
      rw [memberFrom?_word (hagain _ _ o isWord_readonly hspace), if_neg (by decide),
        endsName_space (startsMember_word hw _), if_neg Bool.false_ne_true,
        memberFrom?_word (word?_behindStar (word?_space hw hend _)),
        if_neg (by rw [hstatement]; exact Bool.false_ne_true), if_pos (hends' _),
          String.ofList_toList, if_pos hall']
      exact ⟨_, rfl, (congrArg (· == some '(') (hpeek _)).trans hmethod.symm⟩ }⟩

/-- A word that is a modifier leaves more of the member behind it, whatever the word is in which
that ends. -/
theorem exists_markedAt_modifier (hword : word? (passMark "*" c) = some (w, d))
    (hstatement : statementWords.contains (String.ofList w) = false) (hends : endsName d = false)
    (hmore : memberFrom? start fuel (String.ofList w :: modifiers) d = some member)
    {g' p' name u : List Char}
    (h : MarkedAt d fuel (String.ofList w :: modifiers) member g' p' name u) :
    ∃ g p w u, MarkedAt c (fuel + 1) modifiers member g p w u := by
  obtain ⟨g, p, hg, hp, hw, hend, hrest, -, hstop, hagain⟩ := exists_start_of_word? hword
  have hsplit (r : List Char) : p ++ (w ++ (g' ++ p')) ++ r = p ++ (w ++ (g' ++ (p' ++ r))) := by
    simp only [List.append_assoc]
  have hend' : EndsWord (g' ++ (p' ++ ("readonly".toList ++ ' ' :: (name ++ u)))) := by
    rw [h.rest_eq, ← List.append_assoc] at hend
    have hne := ne_nil_of_endsWord hend h.isWord
    rw [← List.append_assoc]
    refine EndsWord.append (fun x hx => hend x ?_) hne _
    rw [List.head?_append, hx]
    rfl
  -- whether the modifier ends its line is seen from the gap behind it alone
  have hends' : endsName d = (g'.takeWhile isBlank).contains '\n' :=
    (endsName_congr (d := ⟨g' ++ (p' ++ (name ++ u)), 0⟩) h.rest_eq).trans
      (endsName_gap h.gap (h.starts _ _ h.isWord) 0)
  refine ⟨g, p ++ (w ++ (g' ++ p')), name, u, hg, fun w' u' hw' => ?_, h.isWord, ?_, ?_,
    fun o w' d' hfirst => ?_,
    fun start' fuel' o hfuel => ?_⟩
  · rw [hsplit]
    exact startsMember_start hp hw
  · rw [hsplit, hrest, h.rest_eq]
  · have hoffset := h.offset_eq
    simp only [byteLength_append]
    omega
  · rw [hsplit] at hfirst
    have hmodifiers := modifiers_of_memberFrom? hmore
    rw [List.all_cons, Bool.and_eq_true] at hmodifiers
    rw [eq_of_word?_start hg hp hw hend' hfirst]
    exact hmodifiers.1
  · obtain ⟨fuel', rfl⟩ : ∃ n, fuel' = n + 1 := ⟨fuel' - 1, by omega⟩
    rw [hsplit, memberFrom?_word (hagain _ _ o hw hend'),
      if_neg (by rw [hstatement]; exact Bool.false_ne_true),
      endsName_gap h.gap (h.starts _ _ isWord_readonly), ← hends',
        if_neg (by rw [hends]; exact Bool.false_ne_true)]
    exact h.marked start' fuel' _ (Nat.lt_of_succ_lt_succ hfuel)

/-- With `readonly` in front of its name, a member is read as it was before. By induction on the
modifiers. -/
theorem exists_markedAt (h : memberFrom? start fuel modifiers c = some member) :
    ∃ g p w u, MarkedAt c fuel modifiers member g p w u := by
  induction fuel generalizing modifiers c with
  | zero => cases h
  | succ fuel ih =>
    obtain ⟨n, w, d, hn, hword, hstatement, ⟨hends, hall, rfl⟩ | ⟨hends, hmore⟩⟩ :=
      memberFrom?_cases h
    · exact exists_markedAt_name hword hstatement hends hall rfl rfl
    · obtain rfl := Nat.succ.inj hn
      obtain ⟨g, p, name, u, hmarked⟩ := ih hmore
      exact exists_markedAt_modifier hword hstatement hends hmore hmarked

end DeclBundle.Script
