import DeclBundle.Proofs.Positions
import DeclBundle.Script.Pass

/-!
# The same text at another place

A reader of scripts looks at what remains of a text, and counts the bytes from where it stands. So
at another place of a text it reads the same, and all positions that it gives are moved by the same
number of bytes. In this way the edits of a pass go along with the text that asks for them
(`Script.accessEdits_shift` and the like).
-/

set_option autoImplicit false

namespace DeclBundle

namespace Text

namespace Cursor

/-- The same remaining text, further behind. -/
def shift (c : Cursor) (k : Nat) : Cursor := ⟨c.rest, c.offset + k⟩

variable (c : Cursor) (k : Nat)

@[simp] theorem rest_shift : (c.shift k).rest = c.rest := rfl

@[simp] theorem offset_shift : (c.shift k).offset = c.offset + k := rfl

@[simp] theorem head?_shift : (c.shift k).head? = c.head? := rfl

@[simp] theorem next_shift : (c.shift k).next = c.next.shift k := by
  obtain ⟨_ | ⟨x, r⟩, o⟩ := c
  · rfl
  · simp [next, shift, Nat.add_right_comm]

@[simp] theorem skip_shift (n : Nat) : (c.shift k).skip n = (c.skip n).shift k := by
  induction n generalizing c with
  | zero => rfl
  | succ n ih => rw [skip, next_shift, ih, skip]

@[simp] theorem atEnd_shift : (c.shift k).atEnd = c.atEnd.shift k := by
  simp [atEnd, shift, Nat.add_right_comm]

@[simp] theorem skipWhile_shift (p : Char → Bool) :
    (c.shift k).skipWhile p = (c.skipWhile p).shift k := by
  obtain ⟨cs, o⟩ := c
  simp only [skipWhile, shift]
  induction cs generalizing o with
  | nil => rfl
  | cons x r ih =>
    simp only [skipWhile.go, Nat.add_right_comm o k, ih]
    split <;> rfl

@[simp] theorem slice?_shift (stop : Nat) : (c.shift k).slice? (stop + k) = c.slice? stop := by
  obtain ⟨cs, o⟩ := c
  have hgo (cs : List Char) (o : Nat) (acc : List Char) : slice?.go (stop + k) cs (o + k) acc =
      slice?.go stop cs o acc := by
    induction cs generalizing o acc with
    | nil => simp [slice?.go]
    | cons x r ih => simp [slice?.go, Nat.add_right_comm o k, ih]
  exact hgo cs o []

end Cursor

/-- The same piece of text, further behind. -/
def Excerpt.shift (e : Excerpt) (k : Nat) : Excerpt := ⟨e.start.shift k, e.stop + k⟩

/-- The same edit, further behind. -/
def Edit.shift (e : Edit) (k : Nat) : Edit := ⟨e.start + k, e.stop + k, e.text⟩

@[simp] theorem Edit.shift_insert (position : Nat) (text : String) (k : Nat) :
    (Edit.insert position text).shift k = .insert (position + k) text := rfl

end Text

namespace Script

open Text

variable (c : Cursor) (k : Nat)

/-! ## Words and marks -/

@[simp] theorem find?_shift (mark : List Char) :
    find? mark (c.shift k) = (find? mark c).map (·.shift k) := by
  obtain ⟨cs, o⟩ := c
  simp only [find?, Cursor.shift]
  induction cs generalizing o with
  | nil => simp only [find?.go]; split <;> rfl
  | cons x r ih =>
    simp only [find?.go, Nat.add_right_comm o k, ih]
    split <;> rfl

@[simp] theorem skipGaps_shift (limit : Nat) :
    skipGaps limit (c.shift k) = (skipGaps limit c).shift k := by
  induction limit generalizing c with
  | zero => rfl
  | succ limit ih =>
    simp only [skipGaps, Cursor.skipWhile_shift, Cursor.rest_shift]
    split
    · rw [ih]
    · rw [Cursor.skip_shift, find?_shift]
      cases find? "*/".toList ((c.skipWhile isBlank).skip 2) with
      | none => simp
      | some last => simp [ih]
    · rfl

@[simp] theorem token_shift : token (c.shift k) = (token c).shift k := skipGaps_shift c k _

@[simp] theorem peek?_shift : peek? (c.shift k) = peek? c := by simp [peek?]

@[simp] theorem mark?_shift (mark : String) :
    mark? mark (c.shift k) = (mark? mark c).map (·.shift k) := by
  simp only [mark?, token_shift, Cursor.rest_shift, Cursor.skip_shift]
  split <;> rfl

@[simp] theorem passMark_shift (mark : String) :
    passMark mark (c.shift k) = (passMark mark c).shift k := by
  rw [passMark, passMark, mark?_shift]
  cases mark? mark c <;> rfl

@[simp] theorem word?_shift : word? (c.shift k) = (word? c).map (Prod.map id (·.shift k)) := by
  simp only [word?, token_shift, Cursor.rest_shift, Cursor.skip_shift]
  split
  · rfl
  · split <;> rfl

@[simp] theorem passWord_shift : passWord (c.shift k) = (passWord c).shift k := by
  rw [passWord, passWord, word?_shift]
  cases word? c <;> rfl

@[simp] theorem keyword?_shift (keyword : String) :
    keyword? keyword (c.shift k) = (keyword? keyword c).map (·.shift k) := by
  rw [keyword?, keyword?, word?_shift]
  rcases word? c with _ | ⟨word, after⟩
  · rfl
  · simp only [Option.map_some, Option.bind_some, Prod.map, id]
    split <;> rfl

@[simp] theorem passKeyword_shift (keyword : String) :
    passKeyword keyword (c.shift k) = (passKeyword keyword c).shift k := by
  rw [passKeyword, passKeyword, keyword?_shift]
  cases keyword? keyword c <;> rfl

@[simp] theorem variableKeyword?_shift :
    variableKeyword? (c.shift k) = (variableKeyword? c).map (Prod.map id (·.shift k)) := by
  simp only [variableKeyword?, List.findSome?_cons, List.findSome?_nil, keyword?_shift]
  cases keyword? "const" c <;> cases keyword? "let" c <;> cases keyword? "var" c <;> rfl

/-! ## Brackets and items -/

@[simp] theorem closing?_shift : closing? (c.shift k) = (closing? c).map (·.shift k) := by
  obtain ⟨cs, o⟩ := c
  have hgo (cs : List Char) (o : Nat) (state : ScanState) (depth : Nat) :
      closing?.go cs (o + k) state depth = (closing?.go cs o state depth).map (·.shift k) := by
    induction cs generalizing o state depth with
    | nil => rfl
    | cons x r ih =>
      simp only [closing?.go, Nat.add_right_comm o k, ih]
      split <;> rfl
  exact hgo cs o .code 0

@[simp] theorem afterQuoted_shift : afterQuoted (c.shift k) = (afterQuoted c).shift k := by
  obtain ⟨cs, o⟩ := c
  have hgo (cs : List Char) (o : Nat) (state : ScanState) :
      afterQuoted.go cs (o + k) state = (afterQuoted.go cs o state).shift k := by
    induction cs generalizing o state with
    | nil => rfl
    | cons x r ih =>
      simp only [afterQuoted.go, Nat.add_right_comm o k, ih]
      split <;> rfl
  cases cs with
  | nil => rfl
  | cons quote r =>
    simp only [afterQuoted, Cursor.shift, Nat.add_right_comm o k]
    exact hgo r (o + quote.utf8Size) (.quoted quote)

theorem trimmed?_shift (e : Excerpt) : trimmed? (e.shift k) = (trimmed? e).map (·.shift k) := by
  simp only [trimmed?, Excerpt.shift, Cursor.slice?_shift, Cursor.skipWhile_shift,
    Cursor.offset_shift]
  split
  · rfl
  · simp [Nat.add_right_comm]

theorem lastItem_shift (stop : Nat) (start : Cursor) :
    lastItem (stop + k) (start.shift k) (c.shift k) = (lastItem stop start c).map (·.shift k) := by
  have hmin : min (stop + k) (c.atEnd.offset + k) = min stop c.atEnd.offset + k := by omega
  have h := trimmed?_shift k ⟨start, min stop c.atEnd.offset⟩
  simp only [Excerpt.shift] at h
  simp only [lastItem, Cursor.atEnd_shift, Cursor.offset_shift, hmin, h]
  cases trimmed? ⟨start, min stop c.atEnd.offset⟩ <;> rfl

theorem itemsFrom_shift (stop fuel : Nat) (start : Cursor) :
    itemsFrom (stop + k) fuel (start.shift k)
      (c.shift k) = (itemsFrom stop fuel start c).map (·.shift k) := by
  induction fuel generalizing start c with
  | zero => rfl
  | succ fuel ih =>
    simp only [itemsFrom, Cursor.rest_shift, Cursor.offset_shift, closing?_shift, afterQuoted_shift,
      Cursor.next_shift, lastItem_shift, Nat.add_le_add_iff_right]
    split
    · rfl
    · split_ifs
      · rfl
      · cases closing? c with
        | none => rfl
        | some close => simp [ih]
      · rw [ih]
      · have h := trimmed?_shift k ⟨start, c.offset⟩
        simp only [Excerpt.shift] at h
        rw [h, ih, List.map_append]
        cases trimmed? ⟨start, c.offset⟩ <;> rfl
      · rw [ih]

theorem items_shift (e : Excerpt) : items (e.shift k) = (items e).map (·.shift k) := by
  simp only [items, Excerpt.shift, Cursor.rest_shift]
  exact itemsFrom_shift e.start k e.stop _ e.start

theorem charsOf_shift (e : Excerpt) : charsOf (e.shift k) = charsOf e := by
  simp only [charsOf, Excerpt.shift, Cursor.slice?_shift]

/-- Reading excerpts depends on their characters alone. -/
theorem mapM_charsOf_shift {α : Type} (f : List Char → Option α) (es : List Excerpt) :
    (es.map (·.shift k)).mapM (fun e => f (charsOf e)) = es.mapM fun e => f (charsOf e) := by
  rw [List.mapM_map]
  simp only [Function.comp_def, charsOf_shift]

theorem parenthesized?_shift :
    parenthesized? (c.shift k) = (parenthesized? c).map (Prod.map (·.shift k) (·.shift k)) := by
  simp only [parenthesized?, token_shift, Cursor.head?_shift, closing?_shift, Cursor.next_shift]
  split
  · cases closing? (token c) with
    | none => rfl
    | some close => simp [Excerpt.shift]
  · rfl

/-! ## Shapes of declarations -/

/-- The same variable, further behind. -/
def ObjectVariable.shift (v : ObjectVariable) (k : Nat) : ObjectVariable :=
  ⟨⟨v.span.start + k, v.span.stop + k⟩, v.name, v.properties.map (·.shift k)⟩

theorem objectVariable?_shift :
    objectVariable? (c.shift k) = (objectVariable? c).map (·.shift k) := by
  simp only [objectVariable?, passKeyword_shift, token_shift, variableKeyword?_shift,
    Cursor.offset_shift]
  rcases variableKeyword? (passKeyword "export" c) with _ | ⟨keyword, d⟩
  · rfl
  simp only [Option.map_some, Prod.map, Option.bind_eq_bind, Option.bind_some, word?_shift, id]
  rcases word? d with _ | ⟨name, e⟩
  · rfl
  simp only [Option.map_some, Prod.map, Option.bind_some, mark?_shift, id]
  cases mark? "=" e with
  | none => rfl
  | some f =>
    simp only [Option.map_some, Option.bind_some, token_shift, Cursor.head?_shift, closing?_shift]
    by_cases hopen : (token f).head? == some '\x7b'
    · simp only [hopen, guard, if_true, Option.pure_def, Option.bind_some]
      cases closing? (token f) with
      | none => rfl
      | some close =>
        simp only [Option.map_some, Option.bind_some, Cursor.next_shift, peek?_shift, mark?_shift]
        by_cases hcomma : peek? close.next != some ','
        · have hitems := items_shift k ⟨(token f).next, close.offset⟩
          simp only [Excerpt.shift] at hitems
          simp only [hcomma, if_true, Option.bind_some, Option.map_some, Cursor.offset_shift,
            hitems, ObjectVariable.shift]
          cases mark? ";" close.next <;> rfl
        · simp [hcomma]
    · simp [hopen, guard]

/-- The same head of a class member, further behind. -/
def MemberHead.shift (m : MemberHead) (k : Nat) : MemberHead :=
  { m with
    start := m.start.shift k
    nameStart := m.nameStart.shift k
    nameEnd := m.nameEnd.shift k }

@[simp] theorem endsName_shift : endsName (c.shift k) = endsName c := by
  simp [endsName]

theorem memberFrom?_shift (start : Cursor) (fuel : Nat) (modifiers : List String) :
    memberFrom? (start.shift k) fuel modifiers (c.shift k) =
      (memberFrom? start fuel modifiers c).map (·.shift k) := by
  induction fuel generalizing modifiers c with
  | zero => rfl
  | succ fuel ih =>
    simp only [memberFrom?, passMark_shift, peek?_shift, token_shift, word?_shift]
    by_cases hprivate : peek? (passMark "*" c) != some '#'
    · simp only [hprivate, guard, if_true, Option.pure_def, Option.bind_eq_bind, Option.bind_some]
      rcases word? (passMark "*" c) with _ | ⟨word, after⟩
      · rfl
      simp only [Option.map_some, Prod.map, Option.bind_some, id, endsName_shift, peek?_shift, ih]
      split_ifs <;> rfl
    · simp [hprivate, guard]

theorem memberHead?_shift : memberHead? (c.shift k) = (memberHead? c).map (·.shift k) := by
  simp only [memberHead?, token_shift, Cursor.rest_shift]
  exact memberFrom?_shift c k _ _ _

/-! ## Edits -/

theorem functionValue?_shift : functionValue? (c.shift k) = (functionValue? c).map (·.shift k) := by
  simp only [functionValue?, passKeyword_shift, keyword?_shift, peek?_shift, token_shift,
    word?_shift, Cursor.offset_shift]
  cases keyword? "function" (passKeyword "async" c) with
  | some d =>
    simp only [Option.map_some, passMark_shift, peek?_shift, passWord_shift]
    split <;> simp [parenthesized?_shift, Function.comp_def]
  | none =>
    simp only [Option.map_none]
    split
    · rw [parenthesized?_shift]
      rcases parenthesized? (passKeyword "async" c) with _ | ⟨inside, after⟩
      · rfl
      · simp only [Option.map_some, Prod.map, Option.bind_eq_bind, Option.bind_some, mark?_shift,
          guard, Option.isSome_map]
        split <;> rfl
    · rcases word? (passKeyword "async" c) with _ | ⟨name, after⟩
      · rfl
      · simp only [Option.map_some, Prod.map, Option.bind_eq_bind, Option.bind_some, mark?_shift,
          guard, Option.isSome_map]
        split
        · simp [Excerpt.shift, Nat.add_right_comm]
        · rfl

section Documented

variable (doc : DocComment)

theorem functionVariableEdit?_shift :
    functionVariableEdit? doc (c.shift k) = (functionVariableEdit? doc c).map (·.shift k) := by
  simp only [functionVariableEdit?, word?_shift]
  rcases word? c with _ | ⟨name, nameEnd⟩
  · rfl
  simp only [Option.map_some, Prod.map, Option.bind_eq_bind, Option.bind_some, mark?_shift]
  cases mark? "=" nameEnd with
  | none => rfl
  | some d =>
    simp only [Option.map_some, Option.bind_some, peek?_shift, functionValue?_shift]
    by_cases hequals : peek? d != some '='
    · simp only [hequals, guard, if_true, Option.pure_def, Option.bind_some]
      cases functionValue? d with
      | none => rfl
      | some inside =>
        have hmap := mapM_charsOf_shift k PlainParameter.ofText? (items inside)
        simp only [Option.map_some, Option.bind_some, items_shift, hmap, Cursor.offset_shift]
        cases (items inside).mapM fun e => PlainParameter.ofText? (charsOf e) <;> rfl
    · simp [hequals, guard]

theorem functionHead?_shift : functionHead? (c.shift k) =
    (functionHead? c).map (Prod.map (·.shift k) id) := by
  unfold functionHead?
  simp only [passKeyword_shift, keyword?_shift, memberHead?_shift]
  generalize passKeyword "default" (passKeyword "export" c) = d
  have hor : ((keyword? "async" d).map (·.shift k)).or ((keyword? "function" d).map (·.shift k)) =
      ((keyword? "async" d).or (keyword? "function" d)).map (·.shift k) := by
    cases keyword? "async" d <;> rfl
  rw [hor]
  cases (keyword? "async" d).or (keyword? "function" d) with
  | some e =>
    simp only [Option.map_some, passKeyword_shift, passMark_shift, peek?_shift, passWord_shift,
      Prod.map, id]
    split <;> rfl
  | none =>
    simp only [Option.map_none]
    cases memberHead? c with
    | none => rfl
    | some member =>
      simp only [Option.map_some, Option.bind_eq_bind, Option.bind_some, MemberHead.shift, guard]
      split <;> rfl

theorem headEdits_shift : headEdits doc (c.shift k) = (headEdits doc c).map (·.shift k) := by
  unfold headEdits
  rw [functionHead?_shift]
  rcases functionHead? c with _ | ⟨d, hasResult⟩
  · rfl
  simp only [Option.map_some, Prod.map, id, parenthesized?_shift]
  rcases parenthesized? d with _ | ⟨inside, close⟩
  · rfl
  simp only [Option.map_some, Prod.map, items_shift, peek?_shift, Cursor.offset_shift,
    List.map_append]
  refine congrArg₂ (· ++ ·) ?_ ?_
  · rw [List.filterMap_map, List.map_filterMap]
    refine List.filterMap_congr fun e _ => ?_
    simp only [Function.comp_def, charsOf_shift, Option.bind_eq_bind]
    cases PlainParameter.ofText? (charsOf e) with
    | none => rfl
    | some parameter =>
      simp only [Option.bind_some]
      cases parameter.inDeclaration? doc <;> rfl
  · split
    · cases resultType? doc <;> rfl
    · rfl

theorem signatureEdits_shift :
    signatureEdits doc (c.shift k) = (signatureEdits doc c).map (·.shift k) := by
  unfold signatureEdits
  simp only [passKeyword_shift, variableKeyword?_shift, headEdits_shift]
  rcases variableKeyword? (passKeyword "default" (passKeyword "export" c)) with _ | ⟨keyword, d⟩
  · rfl
  · simp only [Option.map_some, Prod.map, functionVariableEdit?_shift]
    cases functionVariableEdit? doc d <;> rfl

theorem functionEdits_shift : functionEdits doc (c.shift k) =
    (functionEdits doc c).map (·.shift k) := by
  simp only [functionEdits, signatureEdits_shift]
  split <;> rfl

theorem enumEdit?_shift : enumEdit? doc (c.shift k) = (enumEdit? doc c).map (·.shift k) := by
  simp only [enumEdit?, objectVariable?_shift, guard, Option.bind_eq_bind]
  split
  · simp only [Option.pure_def, Option.bind_some]
    cases objectVariable? c with
    | none => rfl
    | some v =>
      have hmap := mapM_charsOf_shift k enumMember? v.properties
      simp only [Option.map_some, Option.bind_some, ObjectVariable.shift, hmap]
      cases v.properties.mapM fun e => enumMember? (charsOf e) <;> rfl
  · rfl

theorem namespaceEdit?_shift :
    namespaceEdit? doc (c.shift k) = (namespaceEdit? doc c).map (·.shift k) := by
  simp only [namespaceEdit?, objectVariable?_shift, guard, Option.bind_eq_bind]
  split
  · simp only [Option.pure_def, Option.bind_some]
    cases objectVariable? c with
    | none => rfl
    | some v =>
      have hmap := mapM_charsOf_shift k namespaceMember? v.properties
      simp only [Option.map_some, Option.bind_some, ObjectVariable.shift, hmap]
      cases v.properties.mapM fun e => namespaceMember? (charsOf e) <;> rfl
  · rfl

theorem variableEdits_shift :
    variableEdits doc (c.shift k) = (variableEdits doc c).map (·.shift k) := by
  simp only [variableEdits, passKeyword_shift, token_shift, variableKeyword?_shift]
  split
  · rfl
  · rcases variableKeyword? (token (passKeyword "export" c)) with _ | ⟨keyword, d⟩
    · rfl
    · simp only [Option.map_some, Prod.map, id, word?_shift, Cursor.offset_shift, List.map_append]
      refine congrArg₂ (· ++ ·) ?_ ?_
      · split
        · simp [Edit.shift, Nat.add_right_comm]
        · rfl
      · cases doc.tags.findSome? fun tag => if tag.name == "type" then tag.type else none with
        | none => rfl
        | some type =>
          rcases word? d with _ | ⟨name, nameEnd⟩
          · rfl
          · simp only [Option.map_some, Prod.map, peek?_shift, Cursor.offset_shift]
            split <;> rfl

theorem memberEdits_shift : memberEdits doc (c.shift k) = (memberEdits doc c).map (·.shift k) := by
  simp only [memberEdits, memberHead?_shift]
  split
  · rfl
  · cases memberHead? c with
    | none => rfl
    | some member =>
      simp only [Option.map_some, MemberHead.shift, Cursor.offset_shift, List.map_append]
      refine congrArg₂ (· ++ ·) ?_ ?_
      · cases (if member.hasAccess then none else access? doc) <;> rfl
      · split <;> rfl

theorem accessEdits_shift : accessEdits doc (c.shift k) = (accessEdits doc c).map (·.shift k) := by
  simp only [accessEdits, passKeyword_shift, token_shift, keyword?_shift, memberEdits_shift,
    Option.isSome_map, Cursor.offset_shift]
  split
  · split <;> rfl
  · rfl

end Documented

end Script

end DeclBundle
