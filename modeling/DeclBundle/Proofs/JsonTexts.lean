import DeclBundle.Json

/-!
# The texts of a JSON value

A JSON value is written in many ways, which differ in the gaps between its tokens
(`WrittenJson.IsText`). What may stand in a gap, and whether a comma may follow the last item of an
array or object, are parameters: plain JSON has blanks and no such comma (`WrittenJson.IsPlain`).
The reader takes every plain text of a value for this value (`WrittenJson.ofText?_of_isPlain`).
-/

set_option autoImplicit false

namespace DeclBundle

open Text

/-- A JSON value as it is written: a number by its characters, a string by those between its
quotes. -/
inductive WrittenJson where
  | null
  | bool (b : Bool)
  | number (chars : List Char)
  | string (body : List Char)
  | array (items : List WrittenJson)
  | object (members : List (List Char × WrittenJson))

namespace WrittenJson

/-! ## Strings and numbers -/

/-- What stands between the quotes of a string: characters, short escapes, and escapes with four
digits. -/
inductive IsBody : List Char → Prop where
  | nil : IsBody []
  | char {c : Char} {body : List Char} (hquote : c ≠ '\x22') (hbackslash : c ≠ '\\')
    (hcontrol : 0x20 ≤ c.toNat)
      (h : IsBody body) : IsBody (c :: body)
  | escape {c : Char} {body : List Char} (hc : (JsonValue.simpleEscape? c).isSome)
    (h : IsBody body) :
      IsBody ('\\' :: c :: body)
  | unicode {a b c d : Char} {body : List Char} (hdigits : ∀ x ∈ [a, b, c, d], isHexDigit x = true)
    (h : IsBody body) :
      IsBody ('\\' :: 'u' :: a :: b :: c :: d :: body)

/-- A string with its quotes. -/
def quoted (body : List Char) : List Char := '\x22' :: (body ++ ['\x22'])

/-- One digit or more. -/
def IsDigits (cs : List Char) : Prop := cs ≠ [] ∧ ∀ c ∈ cs, c.isDigit = true

/-- The whole part of a number, which has no needless zero in front. -/
def IsWhole (cs : List Char) : Prop := cs = ['0'] ∨ IsDigits cs ∧ cs.head? ≠ some '0'

/-- The fraction of a number, which can be missing. -/
def IsFraction (cs : List Char) : Prop := cs = [] ∨ ∃ ds, IsDigits ds ∧ cs = '.' :: ds

/-- The exponent of a number, which can be missing. -/
def IsExponent (cs : List Char) : Prop :=
  cs = [] ∨ ∃ e ∈ ['e', 'E'], ∃ sign ∈ [[], ['+'], ['-']], ∃ ds,
    IsDigits ds ∧ cs = e :: (sign ++ ds)

/-- A number. -/
def IsNumber (cs : List Char) : Prop :=
  ∃ sign ∈ [[], ['-']], ∃ whole fraction exponent, IsWhole whole ∧ IsFraction fraction ∧
    IsExponent exponent ∧
    cs = sign ++ (whole ++ (fraction ++ exponent))

/-! ## Texts -/

/-- A part of a text. -/
inductive Part where
  | value (v : WrittenJson)
  | member (key : List Char) (v : WrittenJson)
  /-- The items of an array, with the commas between them. -/
  | items (vs : List WrittenJson)
  /-- The members of an object, with the commas between them. -/
  | members (ms : List (List Char × WrittenJson))

section Texts

variable (IsGap : List Char → Prop) (canTrail : Prop)

/-- What stands behind the last item or member: a gap, in which there is a comma only when
`canTrail` holds. -/
def IsTail (cs : List Char) : Prop :=
  IsGap cs ∨ canTrail ∧ ∃ before after, IsGap before ∧ IsGap after ∧ cs = before ++ ',' :: after

/-- The texts of a part, with gaps around the tokens inside of it. -/
inductive IsText : Part → List Char → Prop where
  | null : IsText (.value .null) "null".toList
  | bool (b : Bool) : IsText (.value (.bool b)) (if b then "true" else "false").toList
  | number {chars : List Char} (h : IsNumber chars) : IsText (.value (.number chars)) chars
  | string {body : List Char} (h : IsBody body) : IsText (.value (.string body)) (quoted body)
  | emptyArray {gap : List Char} (hgap : IsGap gap) :
      IsText (.value (.array [])) ('[' :: (gap ++ [']']))
  | array {vs : List WrittenJson} {text : List Char} (h : IsText (.items vs) text) :
      IsText (.value (.array vs)) ('[' :: (text ++ [']']))
  | emptyObject {gap : List Char} (hgap : IsGap gap) :
      IsText (.value (.object [])) ('\x7b' :: (gap ++ ['\x7d']))
  | object {ms : List (List Char × WrittenJson)} {text : List Char}
    (h : IsText (.members ms) text) :
      IsText (.value (.object ms)) ('\x7b' :: (text ++ ['\x7d']))
  | member {key before after text : List Char} {v : WrittenJson} (hkey : IsBody key)
    (hbefore : IsGap before)
      (hafter : IsGap after) (h : IsText (.value v) text) :
      IsText (.member key v) (quoted key ++ (before ++ ':' :: (after ++ text)))
  | lastItem {v : WrittenJson} {before text tail : List Char} (hbefore : IsGap before)
    (h : IsText (.value v) text)
      (htail : IsTail IsGap canTrail tail) : IsText (.items [v]) (before ++ (text ++ tail))
  | nextItem {v : WrittenJson} {vs : List WrittenJson} {before text after rest : List Char}
    (hbefore : IsGap before)
      (h : IsText (.value v) text) (hafter : IsGap after) (hrest : IsText (.items vs) rest) :
      IsText (.items (v :: vs)) (before ++ (text ++ (after ++ ',' :: rest)))
  | lastMember {key : List Char} {v : WrittenJson} {before text tail : List Char}
    (hbefore : IsGap before)
      (h : IsText (.member key v) text) (htail : IsTail IsGap canTrail tail) :
      IsText (.members [(key, v)]) (before ++ (text ++ tail))
  | nextMember {key : List Char} {v : WrittenJson} {ms : List (List Char × WrittenJson)}
      {before text after rest : List Char} (hbefore : IsGap before)
      (h : IsText (.member key v) text) (hafter : IsGap after) (hrest : IsText (.members ms) rest) :
      IsText (.members ((key, v) :: ms)) (before ++ (text ++ (after ++ ',' :: rest)))

/-- The text holds one value, between two gaps. -/
def IsDocument (v : WrittenJson) (cs : List Char) : Prop :=
  ∃ before text after, IsGap before ∧ IsText IsGap canTrail (.value v) text ∧ IsGap after ∧
    cs = before ++ (text ++ after)

end Texts

/-- A gap in plain JSON. -/
def IsBlankGap (gap : List Char) : Prop := ∀ c ∈ gap, JsonValue.isSpace c = true

/-- The plain JSON texts of a value. -/
def IsPlain : WrittenJson → List Char → Prop := IsDocument IsBlankGap False

/-! ## Values -/

/-- The text of a string, which is missing when the string holds half of a surrogate pair. -/
def textOf (body : List Char) : Option String :=
  (JsonValue.readString (body.length + 1) (body ++ ['\x22']) (some [])).bind Prod.fst

mutual

/-- The value that is written. -/
def value : WrittenJson → JsonValue
  | null => .null
  | bool b => .bool b
  | number _ => .number
  | string body => .string (textOf body)
  | array items => .array (values items)
  | object members => .object (memberValues members)

/-- The values of the items of an array. -/
def values : List WrittenJson → List JsonValue
  | [] => []
  | v :: items => v.value :: values items

/-- The members of an object with their values. -/
def memberValues : List (List Char × WrittenJson) → List (Option String × JsonValue)
  | [] => []
  | (key, v) :: members => (textOf key, v.value) :: memberValues members

end

/-! ## First characters -/

/-- A value or a member can start with the character. -/
def IsStart (c : Char) : Prop :=
  c = '\x22' ∨ c = '[' ∨ c = '\x7b' ∨ c = '-' ∨ c.isDigit = true ∨ c ∈ ['n', 't', 'f']

instance (c : Char) : Decidable (IsStart c) := inferInstanceAs (Decidable (_ ∨ _ ∨ _ ∨ _ ∨ _ ∨ _))

theorem IsDigits.exists_cons {cs : List Char} (h : IsDigits cs) :
    ∃ d ds, cs = d :: ds ∧ d.isDigit = true := by
  obtain ⟨d, ds, rfl⟩ := List.exists_cons_of_ne_nil h.1
  exact ⟨d, ds, rfl, h.2 d List.mem_cons_self⟩

theorem IsWhole.exists_cons {cs : List Char} (h : IsWhole cs) :
    ∃ d ds, cs = d :: ds ∧ d.isDigit = true := by
  rcases h with rfl | ⟨hdigits, -⟩
  · exact ⟨'0', [], rfl, by decide⟩
  · exact hdigits.exists_cons

theorem IsNumber.exists_cons {cs : List Char} (h : IsNumber cs) :
    ∃ c rest, cs = c :: rest ∧ (c = '-' ∨ c.isDigit = true) := by
  obtain ⟨sign, hsign, whole, fraction, exponent, hwhole, -, -, rfl⟩ := h
  simp only [List.mem_cons, List.not_mem_nil, or_false] at hsign
  rcases hsign with rfl | rfl
  · obtain ⟨d, ds, rfl, hd⟩ := hwhole.exists_cons
    exact ⟨d, _, rfl, .inr hd⟩
  · exact ⟨'-', _, rfl, .inl rfl⟩

section Starts

variable {IsGap : List Char → Prop} {canTrail : Prop} {text : List Char}

theorem IsText.exists_start_value {v : WrittenJson} (h : IsText IsGap canTrail (.value v) text) :
    ∃ c rest, text = c :: rest ∧ IsStart c := by
  cases h with
  | null => exact ⟨'n', _, rfl, by simp [IsStart]⟩
  | bool b =>
    cases b with
    | true => exact ⟨'t', _, rfl, by simp [IsStart]⟩
    | false => exact ⟨'f', _, rfl, by simp [IsStart]⟩
  | number hnumber =>
    obtain ⟨c, rest, rfl, hc⟩ := hnumber.exists_cons
    exact ⟨c, rest, rfl, by rcases hc with hc | hc <;> simp [IsStart, hc]⟩
  | string => exact ⟨'\x22', _, rfl, by simp [IsStart]⟩
  | emptyArray => exact ⟨'[', _, rfl, by simp [IsStart]⟩
  | array => exact ⟨'[', _, rfl, by simp [IsStart]⟩
  | emptyObject => exact ⟨'\x7b', _, rfl, by simp [IsStart]⟩
  | object => exact ⟨'\x7b', _, rfl, by simp [IsStart]⟩

theorem IsText.exists_start_member {key : List Char} {v : WrittenJson}
    (h : IsText IsGap canTrail (.member key v) text) :
    ∃ c rest, text = c :: rest ∧ IsStart c := by
  cases h with
  | member => exact ⟨'\x22', _, rfl, by simp [IsStart]⟩

theorem IsText.exists_start_items {vs : List WrittenJson}
    (h : IsText IsGap canTrail (.items vs) text) :
    ∃ gap c rest, text = gap ++ c :: rest ∧ IsGap gap ∧ IsStart c := by
  cases h with
  | lastItem hbefore h =>
    obtain ⟨c, rest, rfl, hc⟩ := h.exists_start_value
    exact ⟨_, c, _, rfl, hbefore, hc⟩
  | nextItem hbefore h =>
    obtain ⟨c, rest, rfl, hc⟩ := h.exists_start_value
    exact ⟨_, c, _, rfl, hbefore, hc⟩

theorem IsText.exists_start_members {ms : List (List Char × WrittenJson)}
    (h : IsText IsGap canTrail (.members ms) text) :
    ∃ gap c rest, text = gap ++ c :: rest ∧ IsGap gap ∧ IsStart c := by
  cases h with
  | lastMember hbefore h =>
    obtain ⟨c, rest, rfl, hc⟩ := h.exists_start_member
    exact ⟨_, c, _, rfl, hbefore, hc⟩
  | nextMember hbefore h =>
    obtain ⟨c, rest, rfl, hc⟩ := h.exists_start_member
    exact ⟨_, c, _, rfl, hbefore, hc⟩

end Starts

/-! ## Reading numbers -/

/-- What follows the sign of a number. -/
def afterSign (cs : List Char) : List Char :=
  match cs with
  | '-' :: r => r
  | _ => cs

/-- What follows the whole part of a number. -/
def afterWhole? (cs : List Char) : Option (List Char) :=
  match cs with
  | '0' :: r => if r.head?.any Char.isDigit then none else some r
  | _ => JsonValue.digits? cs

/-- What follows a fraction, if there is one. -/
def afterFraction? (cs : List Char) : Option (List Char) :=
  match cs with
  | '.' :: r => JsonValue.digits? r
  | _ => some cs

/-- What follows an exponent, if there is one. -/
def afterExponent? (cs : List Char) : Option (List Char) :=
  match cs with
  | 'e' :: r | 'E' :: r =>
    match r with
    | '+' :: r | '-' :: r => JsonValue.digits? r
    | _ => JsonValue.digits? r
  | _ => some cs

theorem readNumber_eq (cs : List Char) :
    JsonValue.readNumber cs =
      ((afterWhole? (afterSign cs)).bind afterFraction?).bind afterExponent? := by
  have hfraction (whole : List Char) : (match whole with
      | '.' :: r => (JsonValue.digits? r).bind afterExponent?
      | _ => (some whole).bind afterExponent?) = (afterFraction? whole).bind afterExponent? := by
    unfold afterFraction?
    split <;> rfl
  rw [Option.bind_assoc]
  simp only [← hfraction]
  unfold JsonValue.readNumber afterWhole?
  change (match afterSign cs with
    | '0' :: r => _
    | _ => _) = _
  split
  · split <;> rfl
  · rfl

/-- What follows does not go on with a number: the text ends, or a character comes that is in no
number. -/
def EndsNumber (r : List Char) : Prop :=
  ∀ c ∈ r.head?, c.isDigit = false ∧ c ≠ '.' ∧ c ≠ 'e' ∧ c ≠ 'E'

theorem digits?_append {ds r : List Char} (hds : IsDigits ds)
    (hr : ∀ c ∈ r.head?, c.isDigit = false) :
    JsonValue.digits? (ds ++ r) = some r := by
  obtain ⟨hne, hall⟩ := hds
  cases ds with
  | nil => exact absurd rfl hne
  | cons d ds =>
    have hrest : ∀ c ∈ ds, c.isDigit = true := fun c hc => hall c (List.mem_cons_of_mem d hc)
    rw [List.cons_append, JsonValue.digits?, if_pos (hall d List.mem_cons_self),
      List.dropWhile_append_of_pos hrest]
    cases r with
    | nil => rfl
    | cons c r => rw [List.dropWhile_cons_of_neg (by simp [hr c rfl])]

theorem afterSign_of_head {cs : List Char} (h : cs.head? ≠ some '-') : afterSign cs = cs := by
  unfold afterSign
  split
  · exact absurd rfl h
  · rfl

theorem afterWhole?_of_head {cs : List Char} (h : cs.head? ≠ some '0') :
    afterWhole? cs = JsonValue.digits? cs := by
  unfold afterWhole?
  split
  · exact absurd rfl h
  · rfl

theorem afterFraction?_of_head {cs : List Char} (h : cs.head? ≠ some '.') :
    afterFraction? cs = some cs := by
  unfold afterFraction?
  split
  · exact absurd rfl h
  · rfl

theorem afterExponent?_of_head {cs : List Char} (he : cs.head? ≠ some 'e')
    (hE : cs.head? ≠ some 'E') :
    afterExponent? cs = some cs := by
  unfold afterExponent?
  split
  · exact absurd rfl he
  · exact absurd rfl hE
  · rfl

section Parts

variable {cs r : List Char}

theorem afterSign_append {sign : List Char} (hsign : sign ∈ [[], ['-']]) (h : IsWhole cs)
    (r : List Char) :
    afterSign (sign ++ (cs ++ r)) = cs ++ r := by
  simp only [List.mem_cons, List.not_mem_nil, or_false] at hsign
  rcases hsign with rfl | rfl
  · obtain ⟨d, ds, rfl, hd⟩ := h.exists_cons
    refine afterSign_of_head fun heq => ?_
    obtain rfl := Option.some.inj heq
    exact absurd hd (by decide)
  · rfl

theorem IsWhole.afterWhole?_append (h : IsWhole cs) (hr : ∀ c ∈ r.head?, c.isDigit = false) :
    afterWhole? (cs ++ r) = some r := by
  rcases h with rfl | ⟨hdigits, hzero⟩
  · refine if_neg ?_
    cases r with
    | nil => simp
    | cons c r => simp [hr c rfl]
  · obtain ⟨d, ds, rfl, -⟩ := hdigits.exists_cons
    have hhead : (d :: ds ++ r).head? ≠ some '0' := hzero
    rw [afterWhole?_of_head hhead, digits?_append hdigits hr]

theorem IsFraction.afterFraction?_append (h : IsFraction cs)
    (hr : ∀ c ∈ r.head?, c.isDigit = false ∧ c ≠ '.') :
    afterFraction? (cs ++ r) = some r := by
  rcases h with rfl | ⟨ds, hdigits, rfl⟩
  · exact afterFraction?_of_head fun heq => (hr '.' heq).2 rfl
  · exact digits?_append hdigits fun c hc => (hr c hc).1

theorem IsExponent.afterExponent?_append (h : IsExponent cs) (hr : EndsNumber r) :
    afterExponent? (cs ++ r) = some r := by
  rcases h with rfl | ⟨e, he, sign, hsign, ds, hdigits, rfl⟩
  · exact afterExponent?_of_head (fun heq => (hr 'e' heq).2.2.1 rfl) fun heq =>
      (hr 'E' heq).2.2.2 rfl
  · have hread := digits?_append hdigits fun c hc => (hr c hc).1
    have hsigned : (match sign ++ (ds ++ r) with
        | '+' :: r | '-' :: r => JsonValue.digits? r
        | _ => JsonValue.digits? (sign ++ (ds ++ r))) = some r := by
      simp only [List.mem_cons, List.not_mem_nil, or_false] at hsign
      rcases hsign with rfl | rfl | rfl
      · obtain ⟨d, ds, rfl, hd⟩ := hdigits.exists_cons
        split
        · next heq => cases heq; exact absurd hd (by decide)
        · next heq => cases heq; exact absurd hd (by decide)
        · exact hread
      · exact hread
      · exact hread
    simp only [List.mem_cons, List.not_mem_nil, or_false] at he
    rcases he with rfl | rfl <;>
      simpa only [afterExponent?, List.cons_append, List.append_assoc] using hsigned

end Parts

theorem readNumber_append {cs r : List Char} (h : IsNumber cs) (hr : EndsNumber r) :
    JsonValue.readNumber (cs ++ r) = some r := by
  obtain ⟨sign, hsign, whole, fraction, exponent, hwhole, hfraction, hexponent, rfl⟩ := h
  have hafterFraction : ∀ c ∈ (exponent ++ r).head?, c.isDigit = false ∧ c ≠ '.' := by
    rcases hexponent with rfl | ⟨e, he, sign', -, ds, -, rfl⟩
    · exact fun c hc => ⟨(hr c hc).1, (hr c hc).2.1⟩
    · intro c hc
      obtain rfl := Option.some.inj hc
      simp only [List.mem_cons, List.not_mem_nil, or_false] at he
      rcases he with rfl | rfl <;> decide
  have hafterWhole : ∀ c ∈ (fraction ++ (exponent ++ r)).head?, c.isDigit = false := by
    rcases hfraction with rfl | ⟨ds, -, rfl⟩
    · exact fun c hc => (hafterFraction c hc).1
    · intro c hc
      obtain rfl := Option.some.inj hc
      decide
  rw [readNumber_eq]
  simp only [List.append_assoc]
  rw [afterSign_append hsign hwhole, hwhole.afterWhole?_append hafterWhole, Option.bind_some,
    hfraction.afterFraction?_append hafterFraction, Option.bind_some,
    hexponent.afterExponent?_append hr]

/-! ## Reading strings -/

theorem exists_fourDigits? {a b c d : Char} (h : ∀ x ∈ [a, b, c, d], isHexDigit x = true) :
    ∃ n, ∀ r, JsonValue.fourDigits? (a :: b :: c :: d :: r) = some (n, r) := by
  simp only [List.forall_mem_cons, isHexDigit, Option.isSome_iff_exists] at h
  obtain ⟨⟨a', ha⟩, ⟨b', hb⟩, ⟨c', hc⟩, ⟨d', hd⟩, -⟩ := h
  exact ⟨((a' * 16 + b') * 16 + c') * 16 + d',
    fun r => by simp [JsonValue.fourDigits?, ha, hb, hc, hd]⟩

/-- How a string goes on behind the first half of a surrogate pair. -/
def readPair (fuel n : Nat) (cs : List Char) (text : Option (List Char)) :
    Option (Option String × List Char) :=
  match cs with
  | '\\' :: 'u' :: r =>
    match JsonValue.fourDigits? r with
    | none => none
    | some (m, r') =>
      if JsonValue.isLowSurrogate m then JsonValue.readString fuel r'
        (text.map (JsonValue.pairedChar n m :: ·))
      else JsonValue.readString fuel cs none
  | _ => JsonValue.readString fuel cs none

section Steps

-- the equations of the reader are made here, once for the lemmas below
attribute [local simp] JsonValue.readString

variable (fuel : Nat) (cs : List Char) (text : Option (List Char))

theorem readString_char {c : Char} (hquote : c ≠ '\x22') (hbackslash : c ≠ '\\')
    (hcontrol : 0x20 ≤ c.toNat) :
    JsonValue.readString (fuel + 1)
      (c :: cs) text = JsonValue.readString fuel cs (text.map (c :: ·)) := by
  have hplain : ¬(c.toNat < 0x20 || c == '\\') = true := by simpa [hbackslash] using hcontrol
  rw [JsonValue.readString]
  · exact if_neg hplain
  · exact hquote
  · exact fun _ heq => absurd heq hbackslash
  · exact fun _ _ heq => absurd heq hbackslash

theorem readString_escape {c x : Char} (h : JsonValue.simpleEscape? c = some x) :
    JsonValue.readString (fuel + 1)
      ('\\' :: c :: cs) text = JsonValue.readString fuel cs (text.map (x :: ·)) := by
  rw [JsonValue.readString, h]
  rintro rfl
  cases h

theorem readString_unicode {n : Nat} {r : List Char} (h : JsonValue.fourDigits? cs = some (n, r)) :
    JsonValue.readString (fuel + 1) ('\\' :: 'u' :: cs) text =
      if JsonValue.isHighSurrogate n then readPair fuel n r text
      else if JsonValue.isLowSurrogate n then JsonValue.readString fuel r none
      else JsonValue.readString fuel r (text.map (Char.ofNat n :: ·)) := by
  rw [JsonValue.readString, h]
  rfl

end Steps

/-- A pair of surrogates is read when the second half follows; else the string has no text. -/
theorem exists_readPair {body : List Char} (h : IsBody body)
    (hread : ∀ rest, IsBody rest → rest.length ≤ body.length → ∀ text, ∃ read, ∀ fuel r,
      rest.length < fuel →
      JsonValue.readString fuel (rest ++ '\x22' :: r) text = some (read, r)) (n : Nat)
        (text : Option (List Char)) :
    ∃ read, ∀ fuel r, body.length < fuel →
      readPair fuel n (body ++ '\x22' :: r) text = some (read, r) := by
  -- without an escape behind it the half stands alone: the text is given up, and reading goes on
  have halone (hother : ∀ r rest, body ++ '\x22' :: r ≠ '\\' :: 'u' :: rest) :
      ∃ read, ∀ fuel r, body.length < fuel →
        readPair fuel n (body ++ '\x22' :: r) text = some (read, r) := by
    obtain ⟨read, hread⟩ := hread body h (Nat.le_refl _) none
    refine ⟨read, fun fuel r hfuel => ?_⟩
    unfold readPair
    split
    · next heq => exact absurd heq (hother r _)
    · exact hread fuel r hfuel
  cases h with
  | nil => exact halone fun r rest heq => by cases heq
  | char _ hbackslash => exact halone fun r rest heq => absurd (List.cons.inj heq).1 hbackslash
  | escape hc =>
    refine halone fun r rest heq => ?_
    obtain rfl := (List.cons.inj (List.cons.inj heq).2).1
    cases hc
  | @unicode a b c d rest hdigits hrest =>
    obtain ⟨m, hm⟩ := exists_fourDigits? hdigits
    cases hlow : JsonValue.isLowSurrogate m with
    | true =>
      obtain ⟨read, hread⟩ := hread rest hrest (by simp only [List.length_cons]; omega)
        (text.map (JsonValue.pairedChar n m :: ·))
      refine ⟨read, fun fuel r hfuel => ?_⟩
      simp only [readPair, List.cons_append, hm, hlow, if_true]
      exact hread fuel r (by simp only [List.length_cons] at hfuel; omega)
    | false =>
      obtain ⟨read, hread⟩ := hread _ (.unicode hdigits hrest) (Nat.le_refl _) none
      refine ⟨read, fun fuel r hfuel => ?_⟩
      simp only [readPair, List.cons_append, hm, hlow, Bool.false_eq_true, if_false]
      exact hread fuel r hfuel

/-- What stands between quotes is read up to the second one. By induction on its length, since
behind the first half of a surrogate pair the next escape is looked at before it is read. -/
theorem exists_readString {body : List Char} (h : IsBody body) (text : Option (List Char)) :
    ∃ read, ∀ fuel r, body.length < fuel → JsonValue.readString fuel (body ++ '\x22' :: r) text =
      some (read, r) := by
  induction hlength : body.length using Nat.strongRecOn generalizing body text with
  | _ n ih =>
    subst hlength
    -- reading goes on behind one character or escape
    have hstep {rest : List Char} (hlt : rest.length < body.length) {next : Option (List Char)}
      (hrest : IsBody rest)
        (heq : ∀ fuel r, JsonValue.readString (fuel + 1) (body ++ '\x22' :: r) text =
          JsonValue.readString fuel (rest ++ '\x22' :: r) next) :
        ∃ read, ∀ fuel r, body.length < fuel →
          JsonValue.readString fuel (body ++ '\x22' :: r) text = some (read, r) := by
      obtain ⟨read, hread⟩ := ih rest.length hlt hrest next rfl
      refine ⟨read, fun fuel r hfuel => ?_⟩
      obtain ⟨fuel, rfl⟩ :=
        Nat.exists_eq_add_one_of_ne_zero (Nat.ne_of_gt (Nat.zero_lt_of_lt hfuel))
      exact (heq fuel r).trans (hread fuel r (by omega))
    cases h with
    | nil =>
      refine ⟨text.map fun t => String.ofList t.reverse, fun fuel r hfuel => ?_⟩
      obtain ⟨fuel, rfl⟩ := Nat.exists_eq_add_one_of_ne_zero (Nat.ne_of_gt hfuel)
      rfl
    | char hquote hbackslash hcontrol h =>
      exact hstep (Nat.lt_succ_self _) h fun fuel r =>
        readString_char fuel _ text hquote hbackslash hcontrol
    | escape hc h =>
      obtain ⟨x, hx⟩ := Option.isSome_iff_exists.1 hc
      exact hstep (by simp only [List.length_cons]; omega) h fun fuel r =>
        readString_escape fuel _ text hx
    | @unicode a b c d rest hdigits h =>
      obtain ⟨n, hn⟩ := exists_fourDigits? hdigits
      have hlt : rest.length < ('\\' :: 'u' :: a :: b :: c :: d :: rest).length := by
        simp only [List.length_cons]; omega
      have hunicode (fuel : Nat) (r : List Char) :=
        readString_unicode fuel _ text (hn (rest ++ '\x22' :: r))
      -- a high half asks for the next escape, a low half alone is an error that reading outlives
      cases hhigh : JsonValue.isHighSurrogate n with
      | true =>
        simp only [hhigh, if_true] at hunicode
        obtain ⟨read, hread⟩ :=
          exists_readPair h (fun rest' h' hle next => ih rest'.length (by omega) h' next rfl) n text
        refine ⟨read, fun fuel r hfuel => ?_⟩
        obtain ⟨fuel, rfl⟩ :=
          Nat.exists_eq_add_one_of_ne_zero (Nat.ne_of_gt (Nat.zero_lt_of_lt hfuel))
        exact (hunicode fuel r).trans (hread fuel r (by omega))
      | false =>
        cases hlow : JsonValue.isLowSurrogate n with
        | true =>
          simp only [hhigh, hlow, Bool.false_eq_true, if_false, if_true] at hunicode
          exact hstep hlt h hunicode
        | false =>
          simp only [hhigh, hlow, Bool.false_eq_true, if_false] at hunicode
          exact hstep hlt h hunicode

/-- A string is read for its text. -/
theorem readString_append {body : List Char} (h : IsBody body) {fuel : Nat}
    (hfuel : body.length < fuel) (r : List Char) :
    JsonValue.readString fuel (body ++ '\x22' :: r) (some []) = some (textOf body, r) := by
  obtain ⟨read, hread⟩ := exists_readString h (some [])
  have hself := hread (body.length + 1) [] (Nat.lt_succ_self _)
  rw [textOf, hself]
  exact hread fuel r hfuel

/-! ## Reading values -/

-- the equations of the readers are made here, once for the lemmas below
attribute [local simp] JsonValue.readValue JsonValue.readElements JsonValue.readMembers

theorem skipSpace_append {gap : List Char} (hgap : IsBlankGap gap) {c : Char}
    (hc : JsonValue.isSpace c = false) (r : List Char) :
    JsonValue.skipSpace (gap ++ c :: r) = c :: r := by
  rw [JsonValue.skipSpace, List.dropWhile_append_of_pos hgap,
    List.dropWhile_cons_of_neg (by simp [hc])]

theorem IsStart.isSpace_eq {c : Char} (h : IsStart c) : JsonValue.isSpace c = false := by
  rcases h with rfl | rfl | rfl | rfl | hdigit | hword
  · decide
  · decide
  · decide
  · decide
  · refine Bool.eq_false_iff.2 fun hspace => ?_
    simp only [JsonValue.isSpace, Bool.or_eq_true, beq_iff_eq] at hspace
    rcases hspace with ((rfl | rfl) | rfl) | rfl <;> exact absurd hdigit (by decide)
  · simp only [List.mem_cons, List.not_mem_nil, or_false] at hword
    rcases hword with rfl | rfl | rfl <;> decide

theorem endsNumber_cons_space {c : Char} (hc : JsonValue.isSpace c = true) (r : List Char) :
    EndsNumber (c :: r) := by
  intro x hx
  obtain rfl := Option.some.inj hx
  simp only [JsonValue.isSpace, Bool.or_eq_true, beq_iff_eq] at hc
  rcases hc with ((rfl | rfl) | rfl) | rfl <;> decide

theorem IsBlankGap.endsNumber {gap : List Char} (hgap : IsBlankGap gap) : EndsNumber gap := by
  cases gap with
  | nil => exact fun c hc => by cases hc
  | cons x gap => exact endsNumber_cons_space (hgap x List.mem_cons_self) gap

/-- Behind a gap, a mark ends a number. -/
theorem endsNumber_append {gap : List Char} (hgap : IsBlankGap gap) {c : Char}
    (hc : c ∈ [',', ']', '\x7d']) (r : List Char) :
    EndsNumber (gap ++ c :: r) := by
  cases gap with
  | nil =>
    intro x hx
    obtain rfl := Option.some.inj hx
    simp only [List.mem_cons, List.not_mem_nil, or_false] at hc
    rcases hc with rfl | rfl | rfl <;> decide
  | cons y gap => exact endsNumber_cons_space (hgap y List.mem_cons_self) _

theorem afterWord?_append (word : String) (r : List Char) :
    JsonValue.afterWord? word (word.toList ++ r) = some r := by
  have hprefix : word.toList.isPrefixOf (word.toList ++ r) = true :=
    List.isPrefixOf_iff_prefix.2 (List.prefix_append _ r)
  simp [JsonValue.afterWord?, hprefix]

/-- The reader takes the text for a value, behind a gap and in front of anything that does not go on
with a number. -/
def ReadsValue (v : WrittenJson) (text : List Char) : Prop :=
  ∀ fuel gap r, IsBlankGap gap → text.length ≤ fuel → EndsNumber r →
    JsonValue.readValue fuel (gap ++ (text ++ r)) = some (v.value, r)

/-- What reading gives for a text of a part. -/
def Reads : Part → List Char → Prop
  | .value v, text => ReadsValue v text
  | .member key v, text =>
    ∃ before after rest, text = quoted key ++ (before ++ ':' :: (after ++ rest)) ∧ IsBody key ∧
      IsBlankGap before ∧ IsBlankGap after ∧ ReadsValue v rest
  | .items vs, text => ∀ fuel r done, text.length < fuel →
      JsonValue.readElements fuel (text ++ ']' :: r) done = some (done.reverse ++ values vs, r)
  | .members ms, text => ∀ fuel r done, text.length < fuel →
      JsonValue.readMembers fuel (text ++ '\x7d' :: r) done =
        some (done.reverse ++ memberValues ms, r)

theorem skipSpace_cons {c : Char} (hc : JsonValue.isSpace c = false) (r : List Char) :
    JsonValue.skipSpace (c :: r) = c :: r :=
  List.dropWhile_cons_of_neg (by simp [hc])

/-- A value is read when it is read from its first character on, with one step left at least. -/
theorem readsValue_of_cons {v : WrittenJson} {c : Char} {cs : List Char} (hc : IsStart c)
    (h : ∀ fuel r, cs.length ≤ fuel → EndsNumber r →
      JsonValue.readValue (fuel + 1) (c :: (cs ++ r)) = some (v.value, r)) :
    ReadsValue v (c :: cs) := by
  intro fuel gap r hgap hfuel hr
  obtain ⟨fuel, rfl⟩ :=
    Nat.exists_eq_add_one_of_ne_zero (Nat.ne_of_gt (Nat.lt_of_lt_of_le (Nat.succ_pos _) hfuel))
  have hread := h fuel r (Nat.le_of_succ_le_succ hfuel) hr
  rw [JsonValue.readValue, skipSpace_cons hc.isSpace_eq] at hread
  rw [JsonValue.readValue, List.cons_append, skipSpace_append hgap hc.isSpace_eq]
  exact hread

/-- A word is read when its first character tells it apart from all else. -/
theorem readsValue_word {v : WrittenJson} {c : Char} (rest : String) (hc : IsStart c)
    (h : ∀ fuel cs, JsonValue.readValue (fuel + 1) (c :: cs) =
      (JsonValue.afterWord? rest cs).map fun r => (v.value, r)) :
    ReadsValue v (c :: rest.toList) :=
  readsValue_of_cons hc fun fuel r _ _ => by rw [h, afterWord?_append]; rfl

theorem readValue_number {fuel : Nat} {c : Char} {cs : List Char}
    (hc : c = '-' ∨ c.isDigit = true) :
    JsonValue.readValue (fuel + 1) (c :: cs) = (JsonValue.readNumber (c :: cs)).map fun r =>
      (.number, r) := by
  have hstart : IsStart c := by rcases hc with hc | hc <;> simp [IsStart, hc]
  have hother : ∀ d ∈ ['\x22', '[', '\x7b', 'n', 't', 'f'], c ≠ d := by
    rintro d hd rfl
    simp only [List.mem_cons, List.not_mem_nil, or_false] at hd
    rcases hd with rfl | rfl | rfl | rfl | rfl | rfl <;> exact absurd hc (by decide)
  simp only [List.forall_mem_cons, List.not_mem_nil, false_implies, implies_true,
    and_true] at hother
  obtain ⟨hquote, hbracket, hbrace, hn, ht, hf⟩ := hother
  rw [JsonValue.readValue, skipSpace_cons hstart.isSpace_eq]
  split
  · next heq => cases heq
  · next heq => exact absurd (List.cons.inj heq).1 hquote
  · next heq => exact absurd (List.cons.inj heq).1 hbracket
  · next heq => exact absurd (List.cons.inj heq).1 hbrace
  · next heq => exact absurd (List.cons.inj heq).1 hn
  · next heq => exact absurd (List.cons.inj heq).1 ht
  · next heq => exact absurd (List.cons.inj heq).1 hf
  · next heq => rw [heq]

theorem readValue_string {fuel : Nat} {body : List Char} (h : IsBody body) (r : List Char) :
    JsonValue.readValue (fuel + 1) (quoted body ++ r) = some (.string (textOf body), r) := by
  have hlong : body.length < (body ++ ['\x22'] ++ r).length + 1 := by
    simp only [List.length_append]; omega
  have hread := readString_append h hlong r
  rw [quoted, List.cons_append, JsonValue.readValue, skipSpace_cons (by decide)]
  show (JsonValue.readString _ _ _).map _ = _
  rw [List.append_assoc, List.singleton_append] at hread ⊢
  rw [hread]
  rfl

section Lists

variable {fuel : Nat} {cs gap rest : List Char} {c : Char}

theorem readValue_bracket :
    JsonValue.readValue (fuel + 1) ('[' :: cs) = match JsonValue.skipSpace cs with
    | ']' :: r => some (.array [], r)
    | _ => (JsonValue.readElements fuel cs []).map fun (xs, r) => (.array xs, r) := by
  rw [JsonValue.readValue, skipSpace_cons (by decide)]
  rfl

theorem readValue_brace :
    JsonValue.readValue (fuel + 1) ('\x7b' :: cs) = match JsonValue.skipSpace cs with
    | '\x7d' :: r => some (.object [], r)
    | _ => (JsonValue.readMembers fuel cs []).map fun (xs, r) => (.object xs, r) := by
  rw [JsonValue.readValue, skipSpace_cons (by decide)]
  rfl

/-- An array is read item by item when its first item follows. -/
theorem readValue_array (hcs : cs = gap ++ c :: rest) (hgap : IsBlankGap gap) (hc : IsStart c) :
    JsonValue.readValue (fuel + 1)
      ('[' :: cs) = (JsonValue.readElements fuel cs []).map fun (xs, r) => (.array xs, r) := by
  have hclose : c ≠ ']' := by rintro rfl; exact absurd hc (by decide)
  have hskip : JsonValue.skipSpace cs = c :: rest := hcs ▸ skipSpace_append hgap hc.isSpace_eq rest
  rw [readValue_bracket, hskip]
  split
  · next heq => exact absurd (List.cons.inj heq).1 hclose
  · rfl

/-- An object is read member by member when its first member follows. -/
theorem readValue_object (hcs : cs = gap ++ c :: rest) (hgap : IsBlankGap gap) (hc : IsStart c) :
    JsonValue.readValue (fuel + 1)
      ('\x7b' :: cs) = (JsonValue.readMembers fuel cs []).map fun (xs, r) => (.object xs, r) := by
  have hclose : c ≠ '\x7d' := by rintro rfl; exact absurd hc (by decide)
  have hskip : JsonValue.skipSpace cs = c :: rest := hcs ▸ skipSpace_append hgap hc.isSpace_eq rest
  rw [readValue_brace, hskip]
  split
  · next heq => exact absurd (List.cons.inj heq).1 hclose
  · rfl

/-- How reading items goes on behind an item. -/
def moreElements (fuel : Nat) (done : List JsonValue) :
    List Char → Option (List JsonValue × List Char)
  | ',' :: r => JsonValue.readElements fuel r done
  | ']' :: r => some (done.reverse, r)
  | _ => none

/-- How reading members goes on behind a member. -/
def moreMembers (fuel : Nat) (done : List (Option String × JsonValue)) :
    List Char → Option (List (Option String × JsonValue) × List Char)
  | ',' :: r => JsonValue.readMembers fuel r done
  | '\x7d' :: r => some (done.reverse, r)
  | _ => none

variable {v : WrittenJson} {before text after : List Char} {done : List JsonValue}

/-- An item is read, and what follows decides whether there is another one. -/
theorem readElements_step (h : ReadsValue v text) (hbefore : IsBlankGap before)
    (hafter : IsBlankGap after) (hfuel : text.length ≤ fuel) (hc : c ∈ [',', ']', '\x7d']) :
    JsonValue.readElements (fuel + 1) (before ++ (text ++ (after ++ c :: rest))) done =
      moreElements fuel (v.value :: done) (c :: rest) := by
  have hspace : JsonValue.isSpace c = false := by
    simp only [List.mem_cons, List.not_mem_nil, or_false] at hc
    rcases hc with rfl | rfl | rfl <;> decide
  rw [JsonValue.readElements, h fuel before _ hbefore hfuel (endsNumber_append hafter hc rest)]
  dsimp only
  rw [skipSpace_append hafter hspace]
  rfl

variable {key : List Char} {members : List (Option String × JsonValue)}

/-- A member is read, and what follows decides whether there is another one. -/
theorem readMembers_step (h : Reads (.member key v) text) (hbefore : IsBlankGap before)
    (hafter : IsBlankGap after) (hfuel : text.length ≤ fuel) (hc : c ∈ [',', ']', '\x7d']) :
    JsonValue.readMembers (fuel + 1) (before ++ (text ++ (after ++ c :: rest))) members =
      moreMembers fuel ((textOf key, v.value) :: members) (c :: rest) := by
  have hspace : JsonValue.isSpace c = false := by
    simp only [List.mem_cons, List.not_mem_nil, or_false] at hc
    rcases hc with rfl | rfl | rfl <;> decide
  obtain ⟨front, back, inner, rfl, hkey, hfront, hback, hvalue⟩ := h
  have hlong :
      key.length <
      (key ++ '\x22' :: (front ++ ':' :: (back ++ (inner ++ (after ++ c :: rest))))).length +
          1 := by
    simp only [List.length_append]
    omega
  have hinner : inner.length ≤ fuel := by
    simp only [quoted, List.length_append, List.length_cons] at hfuel
    omega
  have htext :
    before ++ ((quoted key ++ (front ++ ':' :: (back ++ inner))) ++ (after ++ c :: rest)) =
      before ++ '\x22' ::
        (key ++ '\x22' :: (front ++ ':' :: (back ++ (inner ++ (after ++ c :: rest))))) := by
    simp [quoted]
  rw [htext, JsonValue.readMembers, skipSpace_append hbefore (by decide)]
  simp only [readString_append hkey hlong,
    skipSpace_append hfront (show JsonValue.isSpace ':' = false by decide),
    hvalue fuel back _ hback hinner (endsNumber_append hafter hc rest),
      skipSpace_append hafter hspace]
  rfl

end Lists

/-- Without trailing commas a gap stands behind the last item or member. -/
theorem IsTail.isGap {IsGap : List Char → Prop} {tail : List Char} (h : IsTail IsGap False tail) :
    IsGap tail :=
  h.elim id fun h => h.1.elim

/-- Every plain text of a part is read. By induction on how the text is made. -/
theorem IsText.reads {p : Part} {text : List Char} (h : IsText IsBlankGap False p text) :
    Reads p text := by
  induction h with
  | null => exact readsValue_word "ull" (by decide) fun _ _ => rfl
  | bool b =>
    cases b with
    | true => exact readsValue_word "rue" (by decide) fun _ _ => rfl
    | false => exact readsValue_word "alse" (by decide) fun _ _ => rfl
  | number hnumber =>
    obtain ⟨c, cs, rfl, hc⟩ := hnumber.exists_cons
    refine readsValue_of_cons (by rcases hc with hc | hc <;> simp [IsStart, hc]) fun fuel r _ hr =>
      ?_
    rw [readValue_number hc, ← List.cons_append, readNumber_append hnumber hr]
    rfl
  | string hbody => exact readsValue_of_cons (by decide) fun fuel r _ _ => readValue_string hbody r
  | @emptyArray gap hgap =>
    refine readsValue_of_cons (by decide) fun fuel r _ _ => ?_
    rw [readValue_bracket, List.append_assoc, List.singleton_append,
      skipSpace_append hgap (by decide)]
    rfl
  | array htext ih =>
    obtain ⟨gap, c, rest, htext, hgap, hc⟩ := htext.exists_start_items
    refine readsValue_of_cons (by decide) fun fuel r hfuel _ => ?_
    rw [List.length_append, List.length_singleton] at hfuel
    rw [List.append_assoc, List.singleton_append,
      readValue_array (by rw [htext, List.append_assoc]; rfl) hgap hc,
      ih fuel r [] hfuel]
    rfl
  | @emptyObject gap hgap =>
    refine readsValue_of_cons (by decide) fun fuel r _ _ => ?_
    rw [readValue_brace, List.append_assoc, List.singleton_append,
      skipSpace_append hgap (by decide)]
    rfl
  | object htext ih =>
    obtain ⟨gap, c, rest, htext, hgap, hc⟩ := htext.exists_start_members
    refine readsValue_of_cons (by decide) fun fuel r hfuel _ => ?_
    rw [List.length_append, List.length_singleton] at hfuel
    rw [List.append_assoc, List.singleton_append,
      readValue_object (by rw [htext, List.append_assoc]; rfl) hgap hc,
      ih fuel r [] hfuel]
    rfl
  | member hkey hbefore hafter _ ih => exact ⟨_, _, _, rfl, hkey, hbefore, hafter, ih⟩
  | lastItem hbefore _ htail ih =>
    intro fuel r done hfuel
    -- one unit of the budget pays for the item, and what is left pays for the shorter rest
    obtain ⟨fuel, rfl⟩ := Nat.exists_eq_add_one_of_ne_zero (Nat.ne_of_gt (Nat.zero_lt_of_lt hfuel))
    simp only [List.length_append] at hfuel
    simp only [List.append_assoc]
    rw [readElements_step ih hbefore htail.isGap (by omega) (by simp)]
    simp [moreElements, values]
  | nextItem hbefore _ hafter _ ih ihrest =>
    intro fuel r done hfuel
    obtain ⟨fuel, rfl⟩ := Nat.exists_eq_add_one_of_ne_zero (Nat.ne_of_gt (Nat.zero_lt_of_lt hfuel))
    simp only [List.length_append, List.length_cons] at hfuel
    simp only [List.append_assoc, List.cons_append]
    rw [readElements_step ih hbefore hafter (by omega) (by simp)]
    refine (ihrest fuel r _ (by omega)).trans ?_
    simp [values]
  | lastMember hbefore _ htail ih =>
    intro fuel r done hfuel
    obtain ⟨fuel, rfl⟩ := Nat.exists_eq_add_one_of_ne_zero (Nat.ne_of_gt (Nat.zero_lt_of_lt hfuel))
    simp only [List.length_append] at hfuel
    simp only [List.append_assoc]
    rw [readMembers_step ih hbefore htail.isGap (by omega) (by simp)]
    simp [moreMembers, memberValues]
  | nextMember hbefore _ hafter _ ih ihrest =>
    intro fuel r done hfuel
    obtain ⟨fuel, rfl⟩ := Nat.exists_eq_add_one_of_ne_zero (Nat.ne_of_gt (Nat.zero_lt_of_lt hfuel))
    simp only [List.length_append, List.length_cons] at hfuel
    simp only [List.append_assoc, List.cons_append]
    rw [readMembers_step ih hbefore hafter (by omega) (by simp)]
    refine (ihrest fuel r _ (by omega)).trans ?_
    simp [memberValues]

/-- A plain text of a value is read as this value. -/
theorem ofText?_of_isPlain {v : WrittenJson} {cs : List Char} (h : IsPlain v cs) :
    JsonValue.ofText? (String.ofList cs) = some v.value := by
  obtain ⟨before, text, after, hbefore, htext, hafter, rfl⟩ := h
  have hlength : text.length ≤ (before ++ (text ++ after)).length + 1 := by
    simp only [List.length_append]
    omega
  have hread : ReadsValue v text := htext.reads
  have hrest : (JsonValue.skipSpace after).isEmpty = true := by
    rw [← List.append_nil after, JsonValue.skipSpace, List.dropWhile_append_of_pos hafter]
    rfl
  rw [JsonValue.ofText?, String.toList_ofList]
  simp only [hread _ before after hbefore hlength hafter.endsNumber, hrest, if_true]

end WrittenJson

end DeclBundle
