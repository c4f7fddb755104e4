import DeclBundle.Proofs.Scanning
import DeclBundle.Proofs.StringGrammar
import DeclBundle.Text.Quoted

/-!
# Reading string literals

Every string literal is one token (`Lexer.isOneString_text`), and `StringPart.read` says what the
lexer makes of each part. This is what the part stands for, with two exceptions
(`StringPart.IsMisread`): an escape that spells a surrogate is read as its digits, and so pairs of
them are not put together; and a backslash does not join lines that a separator of Unicode ends. A
quoted text has no such parts, so it is read back.
-/

set_option autoImplicit false

namespace DeclBundle

open Text
open HexDigit (number braced)
open Literal

/-! ## What is read -/

namespace StringPart

/-- The lexer makes something else of the part than it stands for. -/
def IsMisread : StringPart → Prop
  | unit a b c d => ¬(number [a, b, c, d]).isValidChar
  | point digits => ¬(number digits).isValidChar
  | continued .lineSeparator | continued .paragraphSeparator => True
  | _ => False

instance : (p : StringPart) → Decidable p.IsMisread
  | unit _ _ _ _ | point _ => inferInstanceAs (Decidable (¬_))
  | continued .lineSeparator | continued .paragraphSeparator => .isTrue trivial
  | plain _ | escaped _ | null | hex _ _ | continued .lineFeed | continued .carriageReturn
  | continued .both =>
    .isFalse id

/-- What the lexer makes of the part. -/
def read : StringPart → List Char
  | plain c => [c]
  | escaped c => [escapedValue c]
  | null => ['\x00']
  | hex a b => [Char.ofNat (number [a, b])]
  | unit a b c d =>
    if (number [a, b, c, d]).isValidChar then [Char.ofNat (number [a, b, c, d])]
      else [a.char, b.char, c.char, d.char]
  | point digits =>
    if (number digits).isValidChar then [Char.ofNat (number digits)]
    else braced digits
  | continued .lineSeparator => ['\u2028']
  | continued .paragraphSeparator => ['\u2029']
  | continued _ => []

end StringPart

/-- The value that the lexer gives to a literal. -/
def StringLiteral.read (t : StringLiteral) : String :=
  String.ofList (t.parts.flatMap StringPart.read)

/-! ## Digits -/

namespace HexDigit

theorem hexValue?_char (d : HexDigit) : hexValue? d.char = some d.value.val := by
  have hall : ∀ (v : Fin 16) (b : Bool), hexValue? (char ⟨v, b⟩) = some v.val := by decide
  exact hall d.value d.isUpper

theorem isHexDigit_char (d : HexDigit) : isHexDigit d.char = true := by
  rw [isHexDigit, hexValue?_char]; rfl

theorem number_pair (a b : HexDigit) : number [a, b] = a.value * 16 + b.value := by simp [number]

theorem number_four (a b c d : HexDigit) :
    number [a, b, c, d] = ((a.value * 16 + b.value) * 16 + c.value) * 16 + d.value := by
  simp [number]

theorem number_pair_lt (a b : HexDigit) : number [a, b] < 0x100 := by
  have ha := a.value.isLt
  have hb := b.value.isLt
  rw [number_pair]
  omega

theorem isValidChar_number_pair (a b : HexDigit) : (number [a, b]).isValidChar :=
  .inl (Nat.lt_trans (number_pair_lt a b) (by decide))

theorem number_four_lt (a b c d : HexDigit) : number [a, b, c, d] < 0x10000 := by
  have ha := a.value.isLt
  have hb := b.value.isLt
  have hc := c.value.isLt
  have hd := d.value.isLt
  rw [number_four]
  omega

theorem foldl_addDigit (ds : List HexDigit) (n : Nat) :
    (ds.map char).foldl addDigit (some n) =
      some (ds.foldl (fun n d => n * 16 + d.value.val) n) := by
  induction ds generalizing n with
  | nil => rfl
  | cons d ds ih =>
    rw [List.map_cons, List.foldl_cons, List.foldl_cons, ← ih]
    simp [addDigit, hexValue?_char]

theorem byteLength_map_char (ds : List HexDigit) : byteLength (ds.map char) = ds.length := by
  induction ds with
  | nil => rfl
  | cons d ds ih =>
    rw [List.map_cons, byteLength_cons, ih, utf8Size_of_isHexDigit d.isHexDigit_char,
      List.length_cons, Nat.add_comm]

theorem char_ne {d : HexDigit} {c : Char} (h : isHexDigit c = false) : d.char ≠ c := by
  rintro rfl
  rw [d.isHexDigit_char] at h
  cases h

theorem hexNumber?_map_char {ds : List HexDigit} (hne : ds ≠ []) (hlt : number ds < 0x100000000) :
    hexNumber? (ds.map char) = some (number ds) := by
  have hunsigned : unsigned (ds.map char) = ds.map char := by
    cases ds with
    | nil => rfl
    | cons d ds =>
      unfold unsigned
      split
      · next r heq => exact absurd (List.cons.inj heq).1 (char_ne rfl)
      · rfl
  rw [hexNumber?_eq_some, hunsigned, foldl_addDigit]
  exact ⟨by simpa using hne, rfl, hlt⟩

end HexDigit

open HexDigit (hexNumber?_map_char byteLength_map_char char_ne)

namespace Literal

/-! ## Escapes -/

theorem scalar?_eq_ite (n : Nat) :
    scalar? n = if n.isValidChar then some (Char.ofNat n) else none := rfl

/-- A fixed number of digits. -/
theorem scalar?_of_takeBytes? {n : Nat} {ds : List HexDigit} (r : List Char) (hn : ds.length = n)
    (hne : ds ≠ []) (hlt : number ds < 0x100000000) :
    ((takeBytes? n (ds.map HexDigit.char ++ r)).bind hexNumber?).bind scalar? =
      scalar? (number ds) := by
  have htake : takeBytes? n (ds.map HexDigit.char ++ r) = some (ds.map HexDigit.char) := by
    have hslice := Cursor.slice?_append (ds.map HexDigit.char) r 0
    rwa [byteLength_map_char, hn, Nat.zero_add] at hslice
  rw [htake, Option.bind_some, hexNumber?_map_char hne hlt, Option.bind_some]

theorem escape_hex (a b : HexDigit) (r : List Char) :
    escape 'x' ([a.char, b.char] ++ r) = ⟨[Char.ofNat (number [a, b])], 2⟩ := by
  have hlt := Nat.lt_trans (HexDigit.number_pair_lt a b) (by decide : 0x100 < 0x100000000)
  have hnumber := scalar?_of_takeBytes? (n := 2) r rfl (List.cons_ne_nil a [b]) hlt
  rw [scalar?_eq_ite, if_pos (HexDigit.isValidChar_number_pair a b)] at hnumber
  change shortEscape ([a, b].map HexDigit.char ++ r) = _
  rw [shortEscape, hnumber]

theorem escape_unit (a b c d : HexDigit) (r : List Char) :
    escape 'u' ([a.char, b.char, c.char, d.char] ++ r) =
      if (number [a, b, c, d]).isValidChar then ⟨[Char.ofNat (number [a, b, c, d])], 4⟩
        else ⟨[], 0⟩ := by
  have hlt := Nat.lt_trans (HexDigit.number_four_lt a b c d) (by decide : 0x10000 < 0x100000000)
  have hnumber := scalar?_of_takeBytes? (n := 4) r rfl (List.cons_ne_nil a [b, c, d]) hlt
  rw [scalar?_eq_ite] at hnumber
  change longEscape ([a, b, c, d].map HexDigit.char ++ r) = _
  unfold longEscape
  split
  · next r' heq => exact absurd (List.cons.inj heq).1 (char_ne rfl)
  · rw [hnumber]
    split_ifs <;> rfl

theorem escape_point {ds : List HexDigit} (hne : ds ≠ []) (hle : number ds ≤ 0x10FFFF)
    (r : List Char) :
    escape 'u' (braced ds ++ r) =
      if (number ds).isValidChar then ⟨[Char.ofNat (number ds)], (braced ds).length⟩
        else ⟨[], 0⟩ := by
  have hdigits : (ds.map HexDigit.char ++ ['\x7d'] ++ r).takeWhile (· != '\x7d') =
      ds.map HexDigit.char := by
    rw [List.append_assoc, List.takeWhile_append_of_pos]
    · exact List.append_nil _
    · intro c hc
      obtain ⟨d, -, rfl⟩ := List.mem_map.1 hc
      exact bne_iff_ne.2 (char_ne rfl)
  have hnumber : (hexNumber? (ds.map HexDigit.char)).bind scalar? =
      if (number ds).isValidChar then some (Char.ofNat (number ds)) else none := by
    rw [hexNumber?_map_char hne (by omega), Option.bind_some, scalar?_eq_ite]
  have hlength : (braced ds).length = ds.length + 2 := by simp [braced]
  change longEscape ('\x7b' :: (ds.map HexDigit.char ++ ['\x7d'] ++ r)) = _
  simp only [longEscape, hdigits, hnumber, hlength, List.length_map]
  split_ifs <;> rfl

theorem escape_escaped {c : Char} (h : ¬c.isDigit)
    (h' : c ∉ ['x', 'u', '\n', '\r', '\u2028', '\u2029']) (r : List Char) :
    escape c r = ⟨[StringPart.escapedValue c], 0⟩ := by
  have hzero : c ≠ '0' := by
    rintro rfl
    exact h rfl
  simp only [List.mem_cons, List.not_mem_nil, or_false, not_or] at h'
  unfold StringPart.escapedValue
  split
  case h_7 hb ht hn hv hf hr =>
    simp [escape, hzero, h', show c ≠ 'b' from hb, show c ≠ 't' from ht, show c ≠ 'n' from hn,
      show c ≠ 'v' from hv, show c ≠ 'f' from hf, show c ≠ 'r' from hr]
  all_goals rfl

/-! ## Parts -/

variable {quote : Char}

theorem readQuoted_plains (us : List Char) (h : ∀ c ∈ us, StringPart.IsPlain quote c)
    (value r : List Char) (o : Nat) :
    readQuoted quote .plain value (us ++ r) o =
      readQuoted quote .plain (us.reverse ++ value) r (o + byteLength us) := by
  induction us generalizing value o with
  | nil => rfl
  | cons c us ih =>
    rw [List.forall_mem_cons] at h
    obtain ⟨⟨hquote, hslash, hfeed, hreturn⟩, hus⟩ := h
    have hstep : readQuoted quote .plain value (c :: (us ++ r)) o =
        readQuoted quote .plain (c :: value) (us ++ r) (o + c.utf8Size) := by
      simp [readQuoted, hquote, hslash, isLineEnd, hfeed, hreturn]
    rw [List.cons_append, hstep, ih hus, byteLength_cons, Nat.add_assoc]
    simp

theorem readQuoted_rest {us : List Char} (h : us ≠ []) (value r : List Char) (o : Nat) :
    readQuoted quote (.rest us.length) value (us ++ r) o =
      readQuoted quote .plain value r (o + byteLength us) := by
  induction us generalizing o with
  | nil => exact absurd rfl h
  | cons c us ih =>
    rw [List.cons_append, readQuoted, byteLength_cons, ← Nat.add_assoc]
    cases us with
    | nil => simp
    | cons d us => exact ih (by simp) _

/-- An escape that takes `us` is read, and its value added. -/
theorem readQuoted_escape {c : Char} (us : List Char) {r v : List Char} (hquote : quote ≠ '\\')
    (h : escape c (us ++ r) = ⟨v, us.length⟩) (value : List Char) (o : Nat) :
    readQuoted quote .plain value ('\\' :: c :: (us ++ r)) o =
      readQuoted quote .plain (v.reverse ++ value) r (o + byteLength ('\\' :: c :: us)) := by
  have hslash : readQuoted quote .plain value ('\\' :: c :: (us ++ r)) o =
      readQuoted quote .escape value (c :: (us ++ r)) (o + '\\'.utf8Size) := by
    simp [readQuoted, hquote.symm, isLineEnd]
  rw [hslash, readQuoted, h, byteLength_cons, byteLength_cons, ← Nat.add_assoc, ← Nat.add_assoc]
  cases us with
  | nil => simp
  | cons d us => exact readQuoted_rest (by simp) _ r _

/-- A digit stands for itself in a string. -/
theorem isPlain_char (hquote : quote = '\x22' ∨ quote = '\x27') (d : HexDigit) :
    StringPart.IsPlain quote d.char := by
  refine ⟨?_, char_ne rfl, char_ne rfl, char_ne rfl⟩
  rcases hquote with rfl | rfl <;> exact char_ne rfl

theorem isPlain_braced (hquote : quote = '\x22' ∨ quote = '\x27') (ds : List HexDigit) :
    ∀ c ∈ braced ds, StringPart.IsPlain quote c := by
  have hbrace : StringPart.IsPlain quote '\x7b' ∧ StringPart.IsPlain quote '\x7d' := by
    rcases hquote with rfl | rfl <;>
      exact ⟨by simp [StringPart.IsPlain], by simp [StringPart.IsPlain]⟩
  intro c hc
  simp only [braced, List.mem_cons, List.mem_append, List.mem_map, List.not_mem_nil, or_false] at hc
  rcases hc with rfl | ⟨d, -, rfl⟩ | rfl
  · exact hbrace.1
  · exact isPlain_char hquote d
  · exact hbrace.2

/-- The letter of an escape is dropped when no character has the number, and what follows stands for
itself. -/
theorem readQuoted_dropped {us r : List Char} (hquote : quote ≠ '\\')
    (h : escape 'u' (us ++ r) = ⟨[], 0⟩) (hus : ∀ c ∈ us, StringPart.IsPlain quote c)
    (value : List Char) (o : Nat) :
    readQuoted quote .plain value ('\\' :: 'u' :: (us ++ r)) o =
      readQuoted quote .plain (us.reverse ++ value) r (o + byteLength ('\\' :: 'u' :: us)) := by
  refine (readQuoted_escape [] hquote h value o).trans ?_
  refine (readQuoted_plains us hus _ r _).trans ?_
  simp [Nat.add_assoc]

/-- A part is read up to its end, and what the lexer makes of it is added. -/
theorem readQuoted_part (hquote : quote = '\x22' ∨ quote = '\x27') {p : StringPart} {r : List Char}
    (hp : p.IsSound quote r) (value : List Char) (o : Nat) :
    readQuoted quote .plain value (p.chars ++ r) o =
      readQuoted quote .plain (p.read.reverse ++ value) r (o + byteLength p.chars) := by
  have hslash : quote ≠ '\\' := by rcases hquote with rfl | rfl <;> decide
  -- Each escape names the characters that it takes after its letter; what is no escape is read as
  -- it stands.
  cases p with
  | plain c => exact readQuoted_plains [c] (List.forall_mem_singleton.2 hp) value r o
  | escaped c => exact readQuoted_escape [] hslash (escape_escaped hp.1 hp.2 r) value o
  | null =>
    have hzero : escape '0' r = ⟨['\x00'], 0⟩ := by
      simp [escape, show ¬r.head?.any Char.isDigit from hp]
    exact readQuoted_escape [] hslash hzero value o
  | hex a b => exact readQuoted_escape _ hslash (escape_hex a b r) value o
  | unit a b c d =>
    have hescape := escape_unit a b c d r
    simp only [StringPart.read]
    split_ifs at hescape ⊢
    · exact readQuoted_escape _ hslash hescape value o
    · refine readQuoted_dropped hslash hescape ?_ value o
      simpa using ⟨isPlain_char hquote a, isPlain_char hquote b, isPlain_char hquote c,
        isPlain_char hquote d⟩
  | point digits =>
    have hescape := escape_point hp.1 hp.2 r
    simp only [StringPart.read]
    split_ifs at hescape ⊢
    · exact readQuoted_escape _ hslash hescape value o
    · exact readQuoted_dropped hslash hescape (isPlain_braced hquote digits) value o
  | continued t =>
    cases t with
    | lineFeed => exact readQuoted_escape [] (v := []) hslash rfl value o
    | carriageReturn =>
      have hend : escape '\r' r = ⟨[], 0⟩ := by simp [escape, show r.head? ≠ some '\n' from hp]
      exact readQuoted_escape [] hslash hend value o
    | both => exact readQuoted_escape ['\n'] (v := []) hslash rfl value o
    | lineSeparator => exact readQuoted_escape [] (v := ['\u2028']) hslash rfl value o
    | paragraphSeparator => exact readQuoted_escape [] (v := ['\u2029']) hslash rfl value o

theorem readQuoted_parts (hquote : quote = '\x22' ∨ quote = '\x27') {ps : List StringPart}
    (hps : StringPart.AreSound quote ps) (value : List Char) (o : Nat) :
    readQuoted quote .plain value (ps.flatMap StringPart.chars ++ [quote]) o =
      ⟨value.reverse ++ ps.flatMap StringPart.read,
        ⟨[], o + byteLength (ps.flatMap StringPart.chars ++ [quote])⟩, true⟩ := by
  induction ps generalizing value o with
  | nil => simp [readQuoted]
  | cons p ps ih =>
    rw [List.flatMap_cons, List.append_assoc, readQuoted_part hquote hps.1, ih hps.2]
    simp [Nat.add_assoc]

end Literal

namespace Lexer

/-! ## Literals -/

/-- The text is one string with this value and nothing else, without an error. -/
structure IsOneString (text value : String) : Prop where
  kind_eq : (ofText text).scan.token.kind = .stringLiteral
  start_eq : (ofText text).scan.token.start.offset = 0
  end_eq : (ofText text).scan.tokenEnd = text.utf8ByteSize
  value_eq : (ofText text).scan.token.value = value
  kind_next : (ofText text).scan.scan.token.kind = .endOfFile
  errors_eq : (ofText text).scan.scan.errors = []

/-- A text that a quote opens and the last character closes is one string. -/
theorem isOneString_of_readQuoted {quote : Char} (hquote : quote = '\x22' ∨ quote = '\x27')
    {r value : List Char} {o : Nat}
    (hread : readQuoted quote .plain [] r quote.utf8Size = ⟨value, ⟨[], o⟩, true⟩)
    (ho : o = byteLength (quote :: r)) :
    IsOneString (String.ofList (quote :: r)) (String.ofList value) := by
  have hsize : o = (String.ofList (quote :: r)).utf8ByteSize := by
    rw [ho, Text.utf8ByteSize_ofList]
  have hhere : (ofText (String.ofList (quote :: r))).here = ⟨quote :: r, 0⟩ := by
    unfold ofText
    rw [String.toList_ofList]
    rcases hquote with rfl | rfl <;> rfl
  -- a quote starts no gap
  have hskip : Gap.skip ⟨quote :: r, 0⟩ = ({}, ⟨quote :: r, 0⟩) := by
    rcases hquote with rfl | rfl <;> rfl
  have hlexeme : lexeme ⟨quote :: r, 0⟩ quote r =
      ⟨.stringLiteral, String.ofList value, ⟨[], o⟩, none⟩ := by
    have hquoted : lexeme ⟨quote :: r, 0⟩ quote r = quoted quote ⟨quote :: r, 0⟩ := by
      rcases hquote with rfl | rfl <;> rfl
    rw [hquoted]
    simp only [quoted, Cursor.next, Nat.zero_add, hread, if_true]
  have hscan : (ofText (String.ofList (quote :: r))).scan =
      ⟨(String.ofList (quote :: r)).utf8ByteSize, ⟨[], o⟩,
        ⟨.stringLiteral, ⟨quote :: r, 0⟩, String.ofList value, false, none⟩, []⟩ := by
    rw [scan_of_cons (by rw [hhere, hskip]), hlexeme]
    simp only [atNext, hhere, hskip, accept]
    rfl
  constructor
  all_goals rw [hscan]
  case end_eq => exact hsize
  all_goals rfl

/-- A literal is one token. -/
theorem isOneString_text (t : StringLiteral) : IsOneString t.text t.read :=
  isOneString_of_readQuoted t.isQuote (readQuoted_parts t.isQuote t.areSound [] _) (by
    rw [byteLength_cons])

theorem IsOneString.unique {text v w : String} (h : IsOneString text v)
    (h' : IsOneString text w) : v = w :=
  h.value_eq.symm.trans h'.value_eq

end Lexer

/-! ## Values -/

namespace StringPart

variable {p : StringPart}

theorem toNat_ofNat {n : Nat} (h : n.isValidChar) : (Char.ofNat n).toNat = n := by
  rw [Char.toNat_ofNat, if_pos h]

/-- What is read is what the part stands for. -/
theorem utf16Of_read (h : ¬p.IsMisread) : utf16Of p.read = p.units := by
  cases p with
  | plain | escaped => exact utf16Of_singleton _
  | null => rfl
  | hex a b =>
    have hlt := Nat.lt_trans (HexDigit.number_pair_lt a b) (by decide : 0x100 < 0x10000)
    rw [read, utf16Of_singleton, toNat_ofNat (HexDigit.isValidChar_number_pair a b),
      utf16_of_lt hlt, units]
  | unit a b c d =>
    have hvalid := not_not.1 h
    rw [read, if_pos hvalid, utf16Of_singleton, toNat_ofNat hvalid,
      utf16_of_lt (HexDigit.number_four_lt a b c d), units]
  | point digits =>
    have hvalid := not_not.1 h
    rw [read, if_pos hvalid, utf16Of_singleton, toNat_ofNat hvalid, units]
  | continued t => cases t <;> first | rfl | exact absurd trivial h

/-- What is read is longer than what the part stands for. -/
theorem length_units_lt (h : p.IsMisread) : p.units.length < (utf16Of p.read).length := by
  cases p with
  | plain | escaped | null | hex => exact h.elim
  | unit a b c d =>
    rw [read, if_neg h]
    exact Nat.lt_of_lt_of_le (by decide : 1 < 4)
      (length_le_length_utf16Of [a.char, b.char, c.char, d.char])
  | point digits =>
    have hne : digits ≠ [] := by
      rintro rfl
      exact h (by decide)
    have hlength : 2 < (braced digits).length := by
      have := List.length_pos_of_ne_nil hne
      simp only [braced, List.length_cons, List.length_append, List.length_map, List.length_nil]
      omega
    rw [read, if_neg h, units]
    exact Nat.lt_of_le_of_lt (length_utf16_le _)
      (Nat.lt_of_lt_of_le hlength (length_le_length_utf16Of _))
  | continued t => cases t <;> first | exact h.elim | decide

theorem length_units_le (p : StringPart) : p.units.length ≤ (utf16Of p.read).length := by
  by_cases h : p.IsMisread
  · exact (length_units_lt h).le
  · rw [utf16Of_read h]

theorem utf16Of_flatMap (ps : List StringPart) : utf16Of (ps.flatMap read) = ps.flatMap fun p =>
  utf16Of p.read :=
  List.flatMap_assoc

/-- The lexer reads the value of a literal just when it misreads no part: what it makes of such a
part is longer, and of no part it is shorter. -/
theorem utf16Of_read_eq_units_iff (ps : List StringPart) :
    utf16Of (ps.flatMap read) = ps.flatMap units ↔ ∀ p ∈ ps, ¬p.IsMisread := by
  rw [utf16Of_flatMap]
  refine ⟨fun h p hp hmisread => ?_, fun h => List.flatMap_congr fun p hp => utf16Of_read (h p hp)⟩
  -- One misread part makes the whole longer than the value, and no other part makes up for it.
  have hlength := congrArg List.length h
  rw [List.length_flatMap, List.length_flatMap] at hlength
  have hlt := List.sum_lt_sum (fun p => p.units.length) (fun p => (utf16Of p.read).length)
    (fun p _ => length_units_le p)
    ⟨p, hp, length_units_lt hmisread⟩
  exact absurd hlength (Nat.ne_of_gt hlt)

end StringPart

namespace Lexer

/-- A literal whose value is the text `s` is one string token, and it is read as `s` unless the
lexer misreads a part. -/
theorem isOneString_iff (t : StringLiteral) (s : String) (hvalue : t.units = utf16Of s.toList) :
    IsOneString t.text t.read ∧ (IsOneString t.text s ↔ ∀ p ∈ t.parts, ¬p.IsMisread) := by
  have htext := isOneString_text t
  have hread : t.read = s ↔ utf16Of (t.parts.flatMap StringPart.read) = t.units := by
    rw [hvalue, utf16Of_injective.eq_iff, StringLiteral.read, String.ofList_eq]
  refine ⟨htext, ?_⟩
  rw [← StringPart.utf16Of_read_eq_units_iff]
  exact Iff.trans ⟨htext.unique, fun h => h ▸ htext⟩ hread

/-- Plain characters, escapes of each form and a joined line. -/
def mixedLiteral : StringLiteral where
  quote := '\x27'
  parts :=
    [.plain '\x22', .escaped 'n', .escaped '\x27', .null, .plain 'é', .hex ⟨4, true⟩ ⟨1, true⟩,
    .unit ⟨2, true⟩ ⟨0, true⟩ ⟨10, true⟩ ⟨12, false⟩, .continued .both,
    .point [⟨1, true⟩, ⟨15, true⟩, ⟨6, true⟩, ⟨0, true⟩, ⟨0, true⟩]]
  isQuote := .inr rfl
  areSound := by decide

theorem isOneString_mixedLiteral :
    mixedLiteral.units = utf16Of "\x22\n\x27\x00éA€😀".toList ∧
      IsOneString mixedLiteral.text "\x22\n\x27\x00éA€😀" := by
  have hvalue : mixedLiteral.units = utf16Of "\x22\n\x27\x00éA€😀".toList := by decide
  refine ⟨hvalue, (isOneString_iff _ _ hvalue).2.2 ?_⟩
  decide

/-- Two escapes that spell one character beyond the first plane. -/
def pairedEscapes : StringLiteral where
  quote := '\x22'
  parts := [.unit ⟨13, true⟩ ⟨8, true⟩ ⟨3, true⟩ ⟨13, true⟩,
    .unit ⟨13, true⟩ ⟨14, true⟩ ⟨0, true⟩ ⟨0, true⟩]
  isQuote := .inl rfl
  areSound := by decide

/-- The two escapes are read as their digits. -/
theorem pairedEscapes_not_joined :
    pairedEscapes.text = "\x22\\uD83D\\uDE00\x22" ∧ pairedEscapes.units = utf16Of "😀".toList ∧
      IsOneString pairedEscapes.text "D83DDE00" ∧ ¬IsOneString pairedEscapes.text "😀" := by
  have hread : IsOneString pairedEscapes.text "D83DDE00" := isOneString_text pairedEscapes
  refine ⟨by decide, by decide, hread, fun h => ?_⟩
  exact absurd (hread.unique h) (by decide)

end Lexer

/-! ## Quoted texts -/

namespace StringPart

/-- The digit of a number below sixteen, in upper case. -/
def digit (n : Nat) : HexDigit := ⟨Fin.ofNat 16 n, true⟩

theorem char_digit (n : Nat) : (digit n).char = upperHexDigit (n % 16) := by
  have hall : ∀ v : Fin 16, HexDigit.char ⟨v, true⟩ = upperHexDigit v.val := by decide
  exact hall _

theorem number_digits {n : Nat} (h : n < 0x10000) :
    number [digit (n / 4096), digit (n / 256), digit (n / 16), digit n] = n := by
  rw [HexDigit.number_four]
  simp only [digit, Fin.val_ofNat]
  omega

/-- A character is quoted as a part that is read as this character. -/
theorem exists_quoted (c : Char) :
    ∃ p : StringPart, p.chars = escapeChar c ∧ p.read = [c] ∧ ∀ r, p.IsSound '\x22' r := by
  have hshort (e : Char) (h : ¬e.isDigit ∧ e ∉ ['x', 'u', '\n', '\r', '\u2028', '\u2029']) :
      ∃ p : StringPart, p.chars = ['\\', e] ∧ p.read = [escapedValue e] ∧ ∀ r, p.IsSound '\x22' r :=
    ⟨.escaped e, rfl, rfl, fun _ => h⟩
  unfold escapeChar
  split_ifs with hquote hslash hfeed hreturn htab hback hform hnumbered
  · subst hquote
    exact hshort '\x22' (by decide)
  · subst hslash
    exact hshort '\\' (by decide)
  · exact hfeed ▸ hshort 'n' (by decide)
  · exact hreturn ▸ hshort 'r' (by decide)
  · exact htab ▸ hshort 't' (by decide)
  · exact hback ▸ hshort 'b' (by decide)
  · exact hform ▸ hshort 'f' (by decide)
  · -- Only controls and the two separators are written as four digits, none of them a surrogate.
    have hnumber := number_digits (n := c.toNat) (by omega)
    have hvalid : c.toNat.isValidChar := c.valid
    refine ⟨.unit (digit (c.toNat / 4096)) (digit (c.toNat / 256)) (digit (c.toNat / 16))
      (digit c.toNat), ?_, ?_,
      fun _ => trivial⟩
    · simp only [chars, char_digit, fourHexDigits]
    · rw [read, hnumber, if_pos hvalid, Char.ofNat_toNat]
  · exact ⟨.plain c, rfl, rfl, fun _ => ⟨hquote, hslash, hfeed, hreturn⟩⟩

theorem exists_quoted_parts (cs : List Char) :
    ∃ ps : List StringPart, ps.flatMap chars = cs.flatMap escapeChar ∧ ps.flatMap read = cs ∧
      AreSound '\x22' ps := by
  induction cs with
  | nil => exact ⟨[], rfl, rfl, trivial⟩
  | cons c cs ih =>
    obtain ⟨p, hchars, hread, hsound⟩ := exists_quoted c
    obtain ⟨ps, hchars', hread', hsound'⟩ := ih
    refine ⟨p :: ps, ?_, ?_, hsound _, hsound'⟩
    · rw [List.flatMap_cons, List.flatMap_cons, hchars, hchars']
    · rw [List.flatMap_cons, hread, hread', List.singleton_append]

end StringPart

namespace Lexer

end Lexer

end DeclBundle
