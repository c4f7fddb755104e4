import DeclBundle.Proofs.ApplyingEdits
import DeclBundle.Proofs.MemberHeads

/-!
# Annotating a declaration again

A pass that writes syntax in front of a declaration, or in place of it, reads the declaration again
when the text that it has made is read. It then finds what it wrote and asks for nothing: an object
that has become an enum or a namespace is no variable any more (`enumEdit?_again`,
`namespaceEdit?_again`), and a variable has its keyword and a colon behind its name
(`variableEdits_again`, `functionEdits_again`).

Words for access are written once under a condition, which is exact (`accessEdits_again_iff`):
`readonly` is written without a look at the modifiers that are there, so a property gets it once
more each time (`exists_written_twice`), and a `default` that ends its line in front of a class is
read as a member once `abstract` is written behind it.
-/

set_option autoImplicit false

namespace DeclBundle

namespace Text.Edit

theorem splice_insert (us r : List Char) (o : Nat) (text : String) (edits : List Edit) :
    splice ⟨us ++ r, o⟩ (.insert (o + byteLength us) text :: edits) =
      us ++ (text.toList ++ splice ⟨r, o + byteLength us⟩ edits) := by
  have h := splice_replace us [] r o text edits
  simp only [byteLength_nil, Nat.add_zero, List.nil_append] at h
  exact h

theorem seek_append_of_le (us r : List Char) (o stop : Nat) (hstop : o + byteLength us ≤ stop) :
    Cursor.seek ⟨us ++ r, o⟩ stop = Cursor.seek ⟨r, o + byteLength us⟩ stop := by
  have hgo (us : List Char) (o : Nat) (hstop : o + byteLength us ≤ stop) :
      Cursor.seek.go stop (us ++ r) o = Cursor.seek.go stop r (o + byteLength us) := by
    induction us generalizing o with
    | nil => rfl
    | cons x us ih =>
      have hpos := x.utf8Size_pos
      rw [byteLength_cons] at hstop
      rw [List.cons_append, Cursor.seek.go, if_pos (by omega), ih _ (by omega), byteLength_cons,
        Nat.add_assoc]
  exact hgo us o hstop

/-- The edit starts at a character of the text, or at its end. -/
def IsIn (e : Edit) (c : Cursor) : Prop := (∃ us, c.slice? e.start = some us) ∧ e.start ≤ e.stop

/-- What stands in front of all edits stays. -/
theorem splice_append (us r : List Char) (o : Nat) (edits : List Edit)
    (h : ∀ e ∈ edits, e.IsIn ⟨r, o + byteLength us⟩) :
    splice ⟨us ++ r, o⟩ edits = us ++ splice ⟨r, o + byteLength us⟩ edits := by
  cases edits with
  | nil => rfl
  | cons e edits =>
    obtain ⟨⟨vs, hvs⟩, hle⟩ := h e List.mem_cons_self
    obtain ⟨r', rfl, hstart⟩ := Cursor.slice?_eq_some hvs
    dsimp only at hstart
    have hslice : Cursor.slice? ⟨us ++ (vs ++ r'), o⟩ e.start = some (us ++ vs) := by
      have := Cursor.slice?_append (us ++ vs) r' o
      rwa [byteLength_append, ← Nat.add_assoc, ← hstart, List.append_assoc] at this
    rw [splice, splice, if_neg (by dsimp only; omega), if_neg (by dsimp only; omega), hslice, hvs,
      seek_append_of_le us _ o e.stop (by omega)]
    simp

theorem exists_splice_singleton (us r : List Char) (o stop : Nat) (text : String) :
    ∃ u, splice ⟨us ++ r, o⟩ [⟨o + byteLength us, stop, text⟩] = us ++ (text.toList ++ u) := by
  refine ⟨(Cursor.seek ⟨us ++ r, o⟩ stop).rest, ?_⟩
  rw [splice, if_neg (by simp), Cursor.slice?_append]
  simp [splice]

end Text.Edit

namespace Script

open Text

/-! ## Enums and namespaces -/

theorem objectVariable?_cases {c : Cursor} {v : ObjectVariable} (h : objectVariable? c = some v) :
    ∃ w d, word? (passKeywords ["export"] c) = some (w, d) ∧ v.span.start + byteLength w =
      d.offset := by
  simp only [objectVariable?, Option.bind_eq_bind, Option.bind_eq_some_iff] at h
  obtain ⟨⟨keyword, d⟩, hkeyword, ⟨name, e⟩, -, f, -, -, -, close, -, -, -, h⟩ := h
  cases h
  obtain ⟨hword, -⟩ := variableKeyword?_eq_some hkeyword
  exact ⟨_, d, hword, (token_of_word? hword).2.symm⟩

/-- A text with another word in the place of the keyword is no variable. -/
theorem objectVariable?_eq_none {c d : Cursor} {w : List Char}
    (h : word? (passKeywords ["export"] c) = some (w, d))
    (hw : ∀ keyword ∈ ["const", "let", "var"], w ≠ keyword.toList) : objectVariable? c = none := by
  have hkeyword : variableKeyword? (passKeyword "export" c) = none := variableKeyword?_eq_none h hw
  simp [objectVariable?, hkeyword]

/-- When a variable is replaced by something that starts with another word, no variable is there any
more. -/
theorem objectVariable?_replaced {c : Cursor} {v : ObjectVariable} (h : objectVariable? c = some v)
    {w : String} (hw : IsWord w.toList) (hother : ∀ keyword ∈ ["export", "const", "let", "var"],
      w.toList ≠ keyword.toList) (text : String) :
    objectVariable? ⟨Edit.splice c [⟨v.span.start, v.span.stop, w ++ (" " ++ text)⟩], c.offset⟩ =
      none := by
  obtain ⟨first, d, hfirst, hstart⟩ := objectVariable?_cases h
  obtain ⟨p, -, -, -, hrest, hoffset, hagain⟩ := exists_lead_of_word? hfirst
  have hposition : v.span.start = c.offset + byteLength p := by omega
  obtain ⟨u, hu⟩ :=
    Edit.exists_splice_singleton p (first ++ d.rest) c.offset v.span.stop (w ++ (" " ++ text))
  have hc : c = ⟨p ++ (first ++ d.rest), c.offset⟩ := congrArg (Cursor.mk · c.offset) hrest
  have htext : (w ++ (" " ++ text)).toList ++ u = w.toList ++ (' ' :: (text.toList ++ u)) := by simp
  rw [hposition]
  generalize c.offset = o at *
  rw [hc, hu, htext]
  refine objectVariable?_eq_none
    (hagain w.toList _ o hw (endsWord_cons (isWordPart_mark (by decide))) ?_) ?_
  · intro keyword hkeyword
    exact hother keyword (List.mem_cons.2 (.inl (List.mem_singleton.1 hkeyword)))
  · intro keyword hkeyword
    exact hother keyword (List.mem_cons_of_mem _ hkeyword)

/-- An enum is written once: in its text `enum` stands where the keyword of the variable was. -/
theorem enumEdit?_again {doc : DocComment} {c : Cursor} {e : Edit} (h : enumEdit? doc c = some e) :
    enumEdit? doc ⟨Edit.splice c [e], c.offset⟩ = none := by
  simp only [enumEdit?, Option.bind_eq_bind, Option.bind_eq_some_iff] at h
  obtain ⟨-, -, v, hv, members, -, h⟩ := h
  cases h
  have htext (name body : String) : "enum " ++ name ++ " " ++ body =
      "enum" ++ (" " ++ (name ++ (" " ++ body))) :=
    String.toList_inj.1 (by simp)
  have hword : IsWord "enum".toList := isWord_of_isAlpha (by decide) (by decide)
  have hnone := objectVariable?_replaced hv hword (by decide)
    (String.ofList v.name ++ (" " ++ if members.isEmpty then "\x7b\x7d"
    else "\x7b " ++ String.ofList (joinWith ", ".toList members) ++ " \x7d"))
  rw [← htext] at hnone
  simp only [enumEdit?, hnone, Option.bind_eq_bind, Option.bind_none, Option.bind_fun_none]

/-- A namespace is written once: in its text `declare` stands where the keyword of the variable
was. -/
theorem namespaceEdit?_again {doc : DocComment} {c : Cursor} {e : Edit}
    (h : namespaceEdit? doc c = some e) :
    namespaceEdit? doc ⟨Edit.splice c [e], c.offset⟩ = none := by
  simp only [namespaceEdit?, Option.bind_eq_bind, Option.bind_eq_some_iff] at h
  obtain ⟨-, -, v, hv, members, -, h⟩ := h
  cases h
  have htext (name body : String) : "declare namespace " ++ name ++ " \x7b\n" ++ body ++ "\x7d" =
      "declare" ++ (" " ++ ("namespace " ++ (name ++ (" \x7b\n" ++ (body ++ "\x7d"))))) :=
    String.toList_inj.1 (by simp)
  have hword : IsWord "declare".toList := isWord_of_isAlpha (by decide) (by decide)
  have hnone := objectVariable?_replaced hv hword (by decide)
    ("namespace " ++ (String.ofList v.name ++ (" \x7b\n" ++
    (String.join (members.map fun member => "    " ++ member ++ "\n") ++ "\x7d"))))
  rw [← htext] at hnone
  simp only [namespaceEdit?, hnone, Option.bind_eq_bind, Option.bind_none, Option.bind_fun_none]

/-! ## Variables -/

/-- The type that a comment states for a variable. -/
def statedType? (doc : DocComment) : Option String :=
  doc.tags.findSome? fun tag => if tag.name == "type" then tag.type else none

/-- The edit for the type of a variable whose name is next. -/
def typeEdits (doc : DocComment) (c : Cursor) : List Edit :=
  match statedType? doc, word? c with
  | some type, some (_, nameEnd) =>
    if peek? nameEnd == some ':' then [] else [.insert nameEnd.offset (": " ++ typeText type)]
  | _, _ => []

/-- The edit for the keyword of a variable. -/
def keywordEdits (doc : DocComment) (keyword : String) (o : Nat) : List Edit :=
  if doc.tags.any isConstantTag &&
    keyword != "const" then [⟨o, o + byteLength keyword.toList, "const"⟩] else []

theorem variableEdits_eq {doc : DocComment} {c d : Cursor} {keyword : String}
    (h : variableKeyword? (passKeyword "export" c) = some (keyword, d)) :
    variableEdits doc c = keywordEdits doc keyword (token (passKeyword "export" c)).offset ++
      typeEdits doc d := by
  have hstart : variableKeyword? (token (passKeyword "export" c)) = some (keyword, d) := by
    obtain ⟨hword, hmem⟩ := variableKeyword?_eq_some h
    exact variableKeyword?_of_mem ((word?_token _).trans hword) hmem
  simp only [variableEdits, hstart]
  split
  · next hnone =>
    simp only [Bool.and_eq_true, Option.isNone_iff_eq_none, Bool.not_eq_true'] at hnone
    have htype : statedType? doc = none := hnone.1
    simp [keywordEdits, typeEdits, hnone.2, htype]
  · rfl

/-- Where a reader asks for nothing, it asks for nothing at any other place of a text. -/
theorem eq_nil_of_shift {f : Cursor → List Edit} (hf : ∀ c k, f (c.shift k) = (f c).map (·.shift k))
    {r : List Char} {o : Nat} (h : f ⟨r, o⟩ = []) (o' : Nat) : f ⟨r, o'⟩ = [] := by
  have hzero (o : Nat) : f ⟨r, o⟩ = (f ⟨r, 0⟩).map (·.shift o) := by
    rw [← hf, Cursor.shift, Nat.zero_add]
  rw [hzero, List.map_eq_nil_iff] at h ⊢
  exact h

theorem typeEdits_shift (doc : DocComment) (c : Cursor) (k : Nat) :
    typeEdits doc (c.shift k) = (typeEdits doc c).map (·.shift k) := by
  simp only [typeEdits, word?_shift]
  cases statedType? doc with
  | none => rfl
  | some type =>
    rcases word? c with _ | ⟨name, nameEnd⟩
    · rfl
    · simp only [Option.map_some, Prod.map, peek?_shift, Cursor.offset_shift]
      split <;> rfl

/-- With a type behind its name, a variable is read as before, and a colon follows the name. -/
theorem word?_annotated {d nameEnd : Cursor} {name : List Char} (h : word? d = some (name, nameEnd))
    (hend : EndsWord d.rest) (type : String) :
    (Edit.insert nameEnd.offset (": " ++ type)).IsIn d ∧
      EndsWord (Edit.splice d [.insert nameEnd.offset (": " ++ type)]) ∧
      ∀ o, ∃ e, word? ⟨Edit.splice d [.insert nameEnd.offset (": " ++ type)], o⟩ = some (name, e) ∧
        peek? e = some ':' := by
  obtain ⟨g, hg, hw, hend', hrest, hoffset⟩ := exists_gap_of_word? h
  obtain ⟨cs, o⟩ := d
  dsimp only at hend hrest hoffset
  subst hrest
  have hposition : nameEnd.offset = o + byteLength (g ++ name) := by
    rw [byteLength_append, hoffset, Nat.add_assoc]
  have hcolon : EndsWord (':' :: (' ' :: type.toList ++ nameEnd.rest)) :=
    endsWord_cons (isWordPart_mark (by decide))
  -- the text behind the word is cut in two by what is written there
  have hsplice :
    Edit.splice ⟨g ++ (name ++ nameEnd.rest), o⟩ [.insert nameEnd.offset (": " ++ type)] =
      g ++ (name ++ (':' :: (' ' :: type.toList ++ nameEnd.rest))) := by
    rw [hposition, ← List.append_assoc, Edit.splice_insert]
    simp [Edit.splice]
  rw [hsplice]
  refine ⟨⟨⟨g ++ name, ?_⟩, Nat.le_refl _⟩, ?_, fun o' => ⟨_, word?_gap hg hw hcolon o', ?_⟩⟩
  · have := Cursor.slice?_append (g ++ name) nameEnd.rest o
    rwa [List.append_assoc, ← hposition] at this
  · intro x hx
    refine hend x ?_
    cases g <;> cases name <;> first
      | exact hx
      | exact absurd rfl hw.ne_nil
  · have hsolid : IsSolid (':' :: (' ' :: type.toList ++ nameEnd.rest)) :=
      isSolid_cons (by decide) (by decide)
    exact peek?_gap .nil hsolid _

/-- The type of a variable is written once: with the type, the name is followed by a colon. -/
theorem typeEdits_again (doc : DocComment) {d : Cursor} (hend : EndsWord d.rest) :
    (∀ e ∈ typeEdits doc d, e.IsIn d) ∧ EndsWord (Edit.splice d (typeEdits doc d)) ∧
      ∀ o, typeEdits doc ⟨Edit.splice d (typeEdits doc d), o⟩ = [] := by
  cases hedits : typeEdits doc d with
  | nil => exact ⟨nofun, hend, eq_nil_of_shift (typeEdits_shift doc) hedits⟩
  | cons e edits =>
    simp only [typeEdits] at hedits
    split at hedits
    · next type name nameEnd htype hname =>
      split at hedits
      · cases hedits
      · cases hedits
        obtain ⟨hin, hend', hread⟩ := word?_annotated hname hend (typeText type)
        refine ⟨List.forall_mem_singleton.2 hin, hend', fun o => ?_⟩
        obtain ⟨e, he, hcolon⟩ := hread o
        simp only [typeEdits, htype, he, hcolon, beq_self_eq_true, if_true]
    · cases hedits

theorem variableKeyword_ne : ∀ keyword ∈ ["const", "let", "var"], ∀ k ∈ ["export", "default"],
    keyword.toList ≠ k.toList := by
  decide

theorem variableEdits_eq_nil {doc : DocComment} {c : Cursor}
    (h : variableKeyword? (passKeyword "export" c) = none) :
    variableEdits doc c = [] := by
  have hstart : variableKeyword? (token (passKeyword "export" c)) = none := by
    simp only [variableKeyword?, keyword?, word?_token] at h ⊢
    exact h
  simp only [variableEdits, hstart]
  split <;> rfl

/-- A variable that has been rewritten is left as it is: it is constant when it is to be, and it has
its type. -/
theorem variableEdits_again (doc : DocComment) (c : Cursor) :
    variableEdits doc ⟨Edit.splice c (variableEdits doc c), c.offset⟩ = [] := by
  cases hkeyword : variableKeyword? (passKeyword "export" c) with
  | none =>
    rw [variableEdits_eq_nil hkeyword]
    exact variableEdits_eq_nil hkeyword
  | some found =>
    obtain ⟨keyword, d⟩ := found
    obtain ⟨hword, hmem⟩ := variableKeyword?_eq_some hkeyword
    obtain ⟨p, -, hw, hend, hrest, hoffset, hagain⟩ :=
      exists_lead_of_word? (show word? (passKeywords ["export"] c) = _ from hword)
    have hstart : (token (passKeyword "export" c)).offset = c.offset + byteLength p := by
      have := (token_of_word? hword).2
      omega
    obtain ⟨hin, hend', htyped⟩ := typeEdits_again doc hend
    rw [variableEdits_eq hkeyword, hstart]
    obtain ⟨cs, o⟩ := c
    obtain ⟨r, _⟩ := d
    dsimp only at hrest hoffset
    subst hrest hoffset
    -- what is written in the place of the keyword
    obtain ⟨keyword', hmem', hsettled, hsplice⟩ : ∃ keyword' ∈ ["const", "let", "var"],
        (∀ o, keywordEdits doc keyword' o = []) ∧
          Edit.splice ⟨p ++ (keyword.toList ++ r), o⟩
            (keywordEdits doc keyword (o + byteLength p) ++
            typeEdits doc ⟨r, o + byteLength p + byteLength keyword.toList⟩) =
              p ++ (keyword'.toList ++
              Edit.splice ⟨r, o + byteLength p + byteLength keyword.toList⟩
                (typeEdits doc ⟨r, o + byteLength p + byteLength keyword.toList⟩)) := by
      by_cases hconstant : (doc.tags.any isConstantTag && keyword != "const") = true
      · refine ⟨"const", by simp, fun o => by simp [keywordEdits], ?_⟩
        rw [keywordEdits, if_pos hconstant, List.singleton_append, Edit.splice_replace]
      · refine ⟨keyword, hmem, fun o => if_neg hconstant, ?_⟩
        have happend := Edit.splice_append (p ++ keyword.toList) r o (typeEdits doc ⟨r, _⟩) (by
          rw [byteLength_append, ← Nat.add_assoc]
          exact hin)
        rw [keywordEdits, if_neg hconstant, List.nil_append]
        simpa [Nat.add_assoc] using happend
    rw [hsplice]
    have hword' : IsWord keyword'.toList := by
      simp only [List.mem_cons, List.not_mem_nil, or_false] at hmem'
      rcases hmem' with rfl | rfl | rfl <;> exact isWord_of_isAlpha (by decide) (by decide)
    have hother : ∀ k ∈ ["export"], keyword'.toList ≠ k.toList := fun k hk =>
      variableKeyword_ne keyword' hmem' k (List.mem_cons.2 (.inl (List.mem_singleton.1 hk)))
    have hread := variableKeyword?_of_mem (hagain keyword'.toList _ o hword' hend' hother) hmem'
    rw [variableEdits_eq hread, hsettled, htyped, List.nil_append]

/-! ## Functions in variables -/

/-- A variable that holds a function gets its type once. -/
theorem functionVariableEdit?_again {doc : DocComment} {d : Cursor} {e : Edit}
    (h : functionVariableEdit? doc d = some e) (hend : EndsWord d.rest) :
    e.IsIn d ∧ EndsWord (Edit.splice d [e]) ∧ ∀ o,
      functionVariableEdit? doc ⟨Edit.splice d [e], o⟩ = none := by
  simp only [functionVariableEdit?, Option.bind_eq_bind, Option.bind_eq_some_iff] at h
  obtain ⟨⟨name, nameEnd⟩, hname, _, -, _, -, _, -, parameters, -, h⟩ := h
  cases h
  have htext (list type : String) : ": (" ++ list ++ ") => " ++ type =
      ": " ++ ("(" ++ list ++ ") => " ++ type) :=
    String.toList_inj.1 (by simp)
  rw [htext]
  obtain ⟨hin, hend', hread⟩ := word?_annotated hname hend
    ("(" ++ ", ".intercalate (parameters.map (·.inFunctionType doc)) ++ ") => " ++
      (resultType? doc).getD "any")
  refine ⟨hin, hend', fun o => ?_⟩
  obtain ⟨e, he, hcolon⟩ := hread o
  have hmark : mark? "=" e = none := by
    refine mark?_eq_none ?_
    rintro ⟨r, hr⟩
    rw [peek?, Cursor.head?, ← hr] at hcolon
    cases hcolon
  simp only [functionVariableEdit?, he, hmark, Option.bind_eq_bind, Option.bind_some,
    Option.bind_none]

/-- A variable that is next, perhaps behind `export` and `default`. -/
def declaresVariable (c : Cursor) : Bool :=
  (variableKeyword? (passKeyword "default" (passKeyword "export" c))).isSome

theorem signatureEdits_again {doc : DocComment} {c : Cursor} (h : declaresVariable c = true) :
    signatureEdits doc ⟨Edit.splice c (signatureEdits doc c), c.offset⟩ = [] := by
  obtain ⟨⟨keyword, d⟩, hkeyword⟩ := Option.isSome_iff_exists.1 h
  have hedits : signatureEdits doc c = (functionVariableEdit? doc d).toList := by
    simp only [signatureEdits, hkeyword]
  cases hedit : functionVariableEdit? doc d with
  | none =>
    have hnil : signatureEdits doc c = [] := by rw [hedits, hedit, Option.toList_none]
    rw [hnil]
    exact hnil
  | some e =>
    obtain ⟨hword, hmem⟩ := variableKeyword?_eq_some hkeyword
    obtain ⟨p, -, hw, hend, hrest, hoffset, hagain⟩ :=
      exists_lead_of_word? (show word? (passKeywords ["export", "default"] c) = _ from hword)
    obtain ⟨hin, hend', hnone⟩ := functionVariableEdit?_again hedit hend
    rw [hedits, hedit, Option.toList_some]
    obtain ⟨cs, o⟩ := c
    obtain ⟨r, o'⟩ := d
    dsimp only at hrest hoffset
    subst hrest
    -- the edit lies behind the keyword, so what leads up to it is read as before
    have hsplice : Edit.splice ⟨p ++ (keyword.toList ++ r), o⟩ [e] =
        p ++ (keyword.toList ++ Edit.splice ⟨r, o'⟩ [e]) := by
      have hposition : o' = o + byteLength (p ++ keyword.toList) := by
        rw [byteLength_append, hoffset, Nat.add_assoc]
      subst hposition
      have := Edit.splice_append (p ++ keyword.toList) r o [e] (List.forall_mem_singleton.2 hin)
      rwa [List.append_assoc, List.append_assoc] at this
    have hread := variableKeyword?_of_mem
      (hagain keyword.toList _ o hw hend' (variableKeyword_ne keyword hmem)) hmem
    rw [hsplice]
    simp only [signatureEdits, show passKeyword "default" (passKeyword "export" ⟨_, o⟩) =
      passKeywords ["export", "default"] ⟨_, o⟩ from rfl, hread, hnone, Option.toList_none]

/-- A function that a variable holds is annotated once. -/
theorem functionEdits_again {doc : DocComment} {c : Cursor} (h : declaresVariable c = true) :
    functionEdits doc ⟨Edit.splice c (functionEdits doc c), c.offset⟩ = [] := by
  simp only [functionEdits]
  split
  · exact signatureEdits_again h
  · rfl

/-! ## Members of classes -/

theorem access?_cases {doc : DocComment} {access : String} (h : access? doc = some access) :
    access ∈ accessWords := by
  simp only [access?] at h
  split_ifs at h with hprivate hprotected
  · cases h
    exact List.mem_cons_self
  · cases h
    exact List.mem_cons_of_mem _ List.mem_cons_self
  · obtain ⟨tag, -, htag⟩ := List.exists_of_findSome?_eq_some h
    split at htag
    · exact List.contains_iff_mem.1 (Option.filter_eq_some_iff.1 htag).2
    · cases htag

theorem memberEdits_of_none {doc : DocComment} {c : Cursor} (h : memberHead? c = none) :
    memberEdits doc c = [] := by
  simp only [memberEdits, h]
  split <;> rfl

/-- What is written in front of a member: its access, and `readonly` when it is a property. -/
theorem memberEdits_of_some (doc : DocComment) {c : Cursor} {member : MemberHead}
    (h : memberHead? c = some member) :
    memberEdits doc c =
      ((if member.hasAccess then none else access? doc).map fun word =>
        Edit.insert member.start.offset (word ++ " ")).toList ++
        (if hasTag doc "readonly" &&
          !member.isMethod then [.insert member.nameStart.offset "readonly "] else []) := by
  simp only [memberEdits, h]
  split
  · next hnone =>
    rw [Bool.and_eq_true, Option.isNone_iff_eq_none, Bool.not_eq_true'] at hnone
    rw [hnone.1, hnone.2, ite_self]
    rfl
  · rfl

/-- In front of a member that says who has access nothing is written, but for `readonly` in front of
a property. -/
theorem memberEdits_eq_nil_iff {doc : DocComment} {c : Cursor} {member : MemberHead}
    (h : memberHead? c = some member) :
    memberEdits doc c = [] ↔ (member.hasAccess = true ∨ access? doc = none) ∧
      (hasTag doc "readonly" = true → member.isMethod = true) := by
  rw [memberEdits_of_some doc h, List.append_eq_nil_iff]
  cases member.hasAccess <;> cases hasTag doc "readonly" <;> cases member.isMethod <;> simp

/-! ## Classes -/

/-- What a comment asks for in front of a class or of a member is written once: `default` in front
of a class is not read as the name of a member once `abstract` follows it, and there is no property
to be marked as `readonly`. -/
def settlesAccess (doc : DocComment) (c : Cursor) : Bool :=
  if (keyword? "class" (token (passKeyword "default" (passKeyword "export" c)))).isSome then
    !(hasTag doc "abstract" || hasTag doc "virtual") || !(keyword? "default" c).any endsName ||
      (access? doc).isNone && !hasTag doc "readonly"
  else !hasTag doc "readonly" || (memberHead? c).all MemberHead.isMethod

theorem accessEdits_of_class {doc : DocComment} {c d : Cursor}
    (h : word? (passKeywords ["export", "default"] c) = some ("class".toList, d)) :
    accessEdits doc c =
      if hasTag doc "abstract" || hasTag doc "virtual" then
        [.insert (token (passKeywords ["export", "default"] c)).offset "abstract "] else [] := by
  have hclass : keyword? "class" (token (passKeywords ["export", "default"] c)) = some d :=
    keyword?_eq_some_iff.2 ((word?_token _).trans h)
  exact if_pos (by
    rw [show token (passKeyword _ _) = token (passKeywords ["export", "default"] c) from rfl,
    hclass]; rfl)

theorem accessEdits_of_other {doc : DocComment} {c : Cursor}
    (h : keyword? "class" (token (passKeywords ["export", "default"] c)) = none) :
    accessEdits doc c = memberEdits doc c :=
  if_neg (by
    rw [show token (passKeyword _ _) = token (passKeywords ["export", "default"] c) from rfl,
    h]; exact Bool.false_ne_true)

/-- No class is next when the first word is none of those in front of one. -/
theorem class?_eq_none {c : Cursor}
    (h : ∀ w d, word? c = some (w, d) → ∀ keyword ∈ ["export", "default", "class"],
      w ≠ keyword.toList) :
    keyword? "class" (token (passKeywords ["export", "default"] c)) = none := by
  have hnone {keyword : String} (hkeyword : keyword ∈ ["export", "default", "class"]) :
      keyword? keyword c = none := by
    rw [Option.eq_none_iff_forall_ne_some]
    intro d hd
    exact h _ d (keyword?_eq_some_iff.1 hd) keyword hkeyword rfl
  have hsame : passKeywords ["export", "default"] c = c := by
    simp [passKeywords, passKeyword, hnone]
  rw [hsame, keyword?, word?_token]
  exact hnone (by simp)

/-- A word for the access of a member is not read as one in front of a class. -/
theorem class?_eq_none_of_modifier {c : Cursor}
    (h : ∀ w d, word? c = some (w, d) → memberModifiers.contains (String.ofList w) = true) :
    keyword? "class" (token (passKeywords ["export", "default"] c)) = none := by
  refine class?_eq_none fun w d hword keyword hkeyword hw => ?_
  have hother : ∀ keyword ∈ ["export", "default", "class"],
    memberModifiers.contains keyword = false := by decide
  have hmodifier := h w d hword
  rw [hw, String.ofList_toList, hother keyword hkeyword] at hmodifier
  cases hmodifier

/-- An insertion in front of a part of the text. -/
theorem splice_insert_eq {c : Cursor} {us r : List Char} (hrest : c.rest = us ++ r) (text : String)
    (edits : List Edit) :
    Edit.splice c (.insert (c.offset + byteLength us) text :: edits) =
      us ++ (text.toList ++ Edit.splice ⟨r, c.offset + byteLength us⟩ edits) := by
  obtain ⟨cs, o⟩ := c
  dsimp only at hrest
  subst hrest
  exact Edit.splice_insert us r o text edits

theorem isWord_abstract : IsWord "abstract".toList := isWord_of_isAlpha (by decide) (by decide)

theorem isWord_class : IsWord "class".toList := isWord_of_isAlpha (by decide) (by decide)

theorem endsWord_space (r : List Char) : EndsWord (' ' :: r) :=
  endsWord_cons (isWordPart_mark (by decide))

/-- An abstract class is no member, whatever the modifiers are. -/
theorem memberFrom?_abstractClass {g r : List Char} (hg : IsGap g) (hend : EndsWord r)
    (start : Cursor) (fuel : Nat) (modifiers : List String) (o : Nat) :
    memberFrom? start fuel modifiers ⟨g ++ ("abstract".toList ++ ' ' :: ("class".toList ++ r)), o⟩ =
      none := by
  cases fuel with
  | zero => rfl
  | succ fuel =>
    have hread := word?_gap hg isWord_abstract (endsWord_space ("class".toList ++ r)) o
    rw [memberFrom?_word (word?_behindStar hread), if_neg (by decide),
      endsName_space (startsMember_word isWord_class r),
      if_neg Bool.false_ne_true]
    exact memberFrom?_of_statement (word?_behindStar (word?_space isWord_class hend _)) (by
      decide) _ _ _

/-- An abstract class behind `default` is read as a member when `default` ends its line, and then
`default` is the name. -/
theorem memberEdits_default {doc : DocComment} {g q r : List Char} (hg : IsGap g) (hq : IsGap q)
    (hend : EndsWord r)
    (hsplit : EndsWord (q ++ ("abstract".toList ++ ' ' :: ("class".toList ++ r)))) (o : Nat) :
    memberEdits doc ⟨g ++
      ("default".toList ++ (q ++ ("abstract".toList ++ ' ' :: ("class".toList ++ r)))), o⟩ = [] ↔
      (!(q.takeWhile isBlank).contains '\n' || (access? doc).isNone && !hasTag doc "readonly") =
        true := by
  have hdefault : IsWord "default".toList := isWord_of_isAlpha (by decide) (by decide)
  have habstract := startsMember_word isWord_abstract (' ' :: ("class".toList ++ r))
  generalize hrest : (' ' :: ("class".toList ++ r) : List Char) = rest at *
  have hread := word?_gap hg hdefault hsplit o
  have hhead (start : Cursor) (fuel : Nat) :=
    memberFrom?_word (word?_behindStar hread) start fuel []
  -- whether `default` ends its line decides whether it is the name
  cases hends : (q.takeWhile isBlank).contains '\n' with
  | false =>
    have hnone : memberHead? ⟨g ++ ("default".toList ++ (q ++ ("abstract".toList ++ rest))), o⟩ =
        none := by
      rw [memberHead?, hhead, if_neg (by decide), endsName_gap hq habstract, hends,
        if_neg Bool.false_ne_true, ← hrest]
      exact memberFrom?_abstractClass hq hend _ _ _ _
    rw [memberEdits_of_none hnone]
    exact iff_of_true rfl rfl
  | true =>
    have hpeek (o : Nat) : peek? ⟨q ++ ("abstract".toList ++ rest), o⟩ = some 'a' :=
      peek?_gap hq habstract.isSolid o
    have hsome := hhead (token ⟨g ++ ("default".toList ++ (q ++ ("abstract".toList ++ rest))), o⟩)
      (g ++ ("default".toList ++ (q ++ ("abstract".toList ++ rest)))).length
    rw [if_neg (by decide), endsName_gap hq habstract, hends, if_pos rfl,
      if_pos (List.all_nil)] at hsome
    rw [memberEdits_eq_nil_iff hsome, hpeek]
    simp

/-- The class behind `export` and `default` is still read as one word behind `abstract`, which is
then the first word that is neither of those two. Only a `default` at the end of a line, with no
`export` in front of it, is read as the name of a member. -/
theorem accessEdits_abstract (doc : DocComment) {c d : Cursor}
    (h : word? (passKeywords ["export", "default"] c) = some ("class".toList, d)) :
    ∃ p, c.rest = p ++ ("class".toList ++ d.rest) ∧
      (token (passKeywords ["export", "default"] c)).offset = c.offset + byteLength p ∧
      ∀ o, accessEdits doc ⟨p ++ ("abstract".toList ++ ' ' :: ("class".toList ++ d.rest)), o⟩ = [] ↔
        (!(keyword? "default" c).any endsName || (access? doc).isNone && !hasTag doc "readonly") =
          true := by
  obtain ⟨p, hlead, hw, hend, hrest, hoffset, hagain⟩ := exists_lead_of_word? h
  have hposition := (token_of_word? h).2
  refine ⟨p, hrest, by omega, fun o => ?_⟩
  have hread := hagain "abstract".toList (' ' :: ("class".toList ++ d.rest)) o isWord_abstract
    (endsWord_space _) (by decide)
  rw [accessEdits_of_other (keyword?_eq_none ((word?_token _).trans hread) _ (by decide))]
  obtain ⟨cs, o'⟩ := c
  dsimp only at hrest
  subst hrest
  rcases hlead with hp | ⟨keyword, hmem, g, q, rfl, hg, hkeyword, hq, hsplit⟩
  · have hnone := keyword?_eq_none (word?_gap hp isWord_class hend o') "default" (by decide)
    rw [hnone, memberEdits_of_none (memberFrom?_abstractClass hp hend _ _ _ _)]
    exact iff_of_true rfl rfl
  simp only [List.mem_cons, List.not_mem_nil, or_false] at hmem
  simp only [List.append_assoc] at h hread ⊢
  rcases hmem with rfl | rfl
  · have hfirst (u : List Char) (o : Nat) := word?_gap hg hkeyword (hsplit.append hq u) o
    have hnone :=
      keyword?_eq_none (hfirst ("class".toList ++ d.rest) o') "default" (by decide)
    rw [hnone, memberEdits_of_none
      (memberFrom?_of_statement (word?_behindStar (hfirst _ _)) (by decide) _ _ _)]
    exact iff_of_true rfl rfl
  · have hfirst := word?_gap hg hkeyword (hsplit.append hq ("class".toList ++ d.rest)) o'
    have hdefault := keyword?_eq_some_iff.2 hfirst
    have hpass : passKeywords ["export", "default"]
      ⟨g ++ ("default".toList ++ (q ++ ("class".toList ++ d.rest))), o'⟩ =
        ⟨q ++ ("class".toList ++ d.rest), o' + byteLength g + byteLength "default".toList⟩ := by
      have hexport := keyword?_eq_none hfirst "export" (by decide)
      simp only [passKeywords, List.foldl_cons, List.foldl_nil, passKeyword, hexport, hdefault,
        Option.getD_none, Option.getD_some]
    rw [hpass] at h
    -- nothing but a gap separates `default` from the class
    obtain ⟨q', hq', -, -, hrest, -⟩ := exists_gap_of_word? h
    obtain rfl := List.append_cancel_right hrest
    rw [hdefault, Option.any_some, endsName_gap hq' (startsMember_word isWord_class _)]
    exact memberEdits_default hg hq' hend (hsplit.append hq _) o

/-! ## Members -/

/-- Behind a word for access, only `readonly` in front of a property is asked for. -/
theorem accessEdits_withAccess (doc : DocComment) {access : String} (haccess : access ∈ accessWords)
    {g m : List Char} (hg : IsGap g) (hm : IsSolid m) {o : Nat} {member : MemberHead}
    (h : memberHead? ⟨g ++ m, o⟩ = some member) :
    accessEdits doc ⟨g ++ (access.toList ++ ' ' :: m), o⟩ = [] ↔
      (hasTag doc "readonly" = true → member.isMethod = true) := by
  obtain ⟨hmodifier, -, -, hword⟩ := contains_of_mem_accessWords haccess
  obtain ⟨member', hmember', haccess', hmethod⟩ := memberHead?_withAccess haccess h hg hm rfl o
  have hread := word?_gap hg hword (endsWord_space m) o
  rw [accessEdits_of_other (class?_eq_none_of_modifier fun w d hw => ?_),
    memberEdits_eq_nil_iff hmember', hmethod]
  · exact and_iff_right (.inl haccess')
  · rw [hread] at hw
    obtain rfl : access.toList = w := congrArg Prod.fst (Option.some.inj hw)
    rw [String.ofList_toList]
    exact hmodifier

/-- A property that has been marked is marked again. -/
theorem accessEdits_marked {doc : DocComment} {c : Cursor} {member : MemberHead}
    (h : memberHead? c = some member) (hreadonly : hasTag doc "readonly" = true)
    (hproperty : member.isMethod = false) :
    accessEdits doc ⟨Edit.splice c (memberEdits doc c), c.offset⟩ ≠ [] := by
  obtain ⟨g, p, w, u, hg, hstarts, hw, hrest, hname, hwords, hmarked⟩ := exists_markedAt h
  obtain ⟨marked, hread, hmethod⟩ :=
    hmarked (token ⟨g ++ (p ++ ("readonly".toList ++ ' ' :: (w ++ u))), c.offset⟩)
    ((g ++ (p ++ ("readonly".toList ++ ' ' :: (w ++ u)))).length + 1) c.offset (by
      rw [hrest]
      simp only [List.length_append, List.length_cons]
      omega)
  have hmethod : marked.isMethod = false := hmethod.trans hproperty
  have hfirst : member.start.offset = c.offset + byteLength g := by
    have htoken := token_gap hg (hstarts w u hw).isSolid c.offset
    rw [← hrest] at htoken
    rw [start_of_memberFrom? h]
    exact congrArg Cursor.offset htoken
  have hmark (o : Nat) : Edit.splice ⟨p ++ (w ++ u), o⟩ [.insert (o + byteLength p) "readonly "] =
      p ++ ("readonly".toList ++ ' ' :: (w ++ u)) := by
    rw [Edit.splice_insert]
    rfl
  have hedits := memberEdits_of_some doc h
  rw [hreadonly, hproperty, Bool.not_false, Bool.and_self, if_pos rfl, hfirst, hname] at hedits
  rw [hedits]
  cases hwritten : (if member.hasAccess then none else access? doc) with
  | none =>
    have hsplice : Edit.splice c [.insert (c.offset + byteLength g + byteLength p) "readonly "] =
        g ++ (p ++ ("readonly".toList ++ ' ' :: (w ++ u))) := by
      have hrest' : c.rest = (g ++ p) ++ (w ++ u) := by rw [hrest, List.append_assoc]
      have := splice_insert_eq hrest' "readonly " []
      rw [byteLength_append, ← Nat.add_assoc] at this
      rw [this, List.append_assoc]
      rfl
    rw [Option.map_none, Option.toList_none, List.nil_append, hsplice,
      accessEdits_of_other (class?_eq_none_of_modifier (hwords c.offset)), Ne,
      memberEdits_eq_nil_iff hread, hmethod]
    exact fun hnil => Bool.false_ne_true (hnil.2 hreadonly)
  | some access =>
    have haccess : access ∈ accessWords := by
      split_ifs at hwritten
      exact access?_cases hwritten
    have hsolid := (hstarts "readonly".toList (' ' :: (w ++ u)) isWord_readonly).isSolid
    have hsplice : Edit.splice c [.insert (c.offset + byteLength g) (access ++ " "),
        .insert (c.offset + byteLength g + byteLength p) "readonly "] =
          g ++ (access.toList ++ ' ' :: (p ++ ("readonly".toList ++ ' ' :: (w ++ u)))) := by
      rw [splice_insert_eq hrest, hmark, String.toList_append, List.append_assoc]
      rfl
    rw [Option.map_some, Option.toList_some, List.singleton_append, hsplice, Ne,
      accessEdits_withAccess doc haccess hg hsolid hread, hmethod]
    exact fun hnil => Bool.false_ne_true (hnil hreadonly)

/-- What is written in front of a member is written once, but for `readonly` in front of a
property. -/
theorem accessEdits_member {doc : DocComment} {c : Cursor} {member : MemberHead}
    (h : memberHead? c = some member)
    (hother : keyword? "class" (token (passKeywords ["export", "default"] c)) = none) :
    accessEdits doc ⟨Edit.splice c (memberEdits doc c), c.offset⟩ = [] ↔
      (hasTag doc "readonly" = true → member.isMethod = true) := by
  by_cases hmarked : hasTag doc "readonly" = true ∧ member.isMethod = false
  · refine iff_of_false (accessEdits_marked h hmarked.1 hmarked.2) fun hmethod => ?_
    cases hmarked.2.symm.trans (hmethod hmarked.1)
  · have hsettles : hasTag doc "readonly" = true → member.isMethod = true := fun hreadonly =>
      Bool.not_eq_false _ ▸ fun hproperty => hmarked ⟨hreadonly, hproperty⟩
    refine iff_of_true ?_ hsettles
    cases hwritten : (if member.hasAccess then none else access? doc) with
    | none =>
      have hnil : memberEdits doc c = [] := by
        refine (memberEdits_eq_nil_iff h).2 ⟨?_, hsettles⟩
        split_ifs at hwritten with hhas
        · exact .inl hhas
        · exact .inr hwritten
      rw [hnil]
      exact (accessEdits_of_other hother).trans hnil
    | some access =>
      have haccess : access ∈ accessWords := by
        split_ifs at hwritten
        exact access?_cases hwritten
      obtain ⟨g, hg, hsolid, hrest, hoffset⟩ := exists_gap_of_token (token_ne_nil_of_memberHead? h)
      have hedits := memberEdits_of_some doc h
      have hno : (hasTag doc "readonly" && !member.isMethod) = false := by
        rw [Bool.and_eq_false_imp, Bool.not_eq_false']
        exact hsettles
      rw [hwritten, hno, if_neg Bool.false_ne_true, List.append_nil, Option.map_some,
        Option.toList_some, start_of_memberFrom? h, hoffset] at hedits
      have hc : (⟨g ++ (token c).rest, c.offset⟩ : Cursor) = c :=
        congrArg (Cursor.mk · c.offset) hrest.symm
      have hagain :=
        (accessEdits_withAccess doc haccess hg hsolid (o := c.offset) (hc.symm ▸ h)).2
          hsettles
      rw [hedits, splice_insert_eq hrest, String.toList_append, List.append_assoc]
      exact hagain

/-- What a comment asks for in front of a class or of a member is asked for once just when it is
settled. -/
theorem accessEdits_again_iff (doc : DocComment) (c : Cursor) :
    accessEdits doc ⟨Edit.splice c (accessEdits doc c), c.offset⟩ = [] ↔
      settlesAccess doc c = true := by
  rw [settlesAccess,
    show token (passKeyword _ _) = token (passKeywords ["export", "default"] c) from rfl]
  cases hclass : keyword? "class" (token (passKeywords ["export", "default"] c)) with
  | some d =>
    have hword : word? (passKeywords ["export", "default"] c) = some ("class".toList, d) :=
      (word?_token _).symm.trans (keyword?_eq_some_iff.1 hclass)
    rw [Option.isSome_some, if_pos rfl]
    cases habstract : (hasTag doc "abstract" || hasTag doc "virtual") with
    | false =>
      have hnil : accessEdits doc c = [] := by
        rw [accessEdits_of_class hword, habstract, if_neg Bool.false_ne_true]
      rw [hnil]
      exact iff_of_true hnil rfl
    | true =>
      obtain ⟨p, hrest, hstart, hagain⟩ := accessEdits_abstract doc hword
      rw [accessEdits_of_class hword, habstract, if_pos rfl, hstart, splice_insert_eq hrest]
      exact hagain c.offset
  | none =>
    rw [Option.isSome_none, if_neg Bool.false_ne_true, accessEdits_of_other hclass]
    cases hmember : memberHead? c with
    | none =>
      rw [memberEdits_of_none hmember]
      refine iff_of_true ?_ (Bool.or_true _)
      exact (accessEdits_of_other hclass).trans (memberEdits_of_none hmember)
    | some member =>
      rw [accessEdits_member hmember hclass, Option.all_some]
      cases hasTag doc "readonly" <;> simp

/-! ## All passes -/

/-- What a pass asks for behind one comment. -/
def Pass.editsBehind : Pass → DocComment → Cursor → List Edit
  | enums => fun doc after => (enumEdit? doc after).toList
  | namespaces => fun doc after => (namespaceEdit? doc after).toList
  | functions => functionEdits
  | variableTypes => variableEdits
  | access => accessEdits
  | typedefs | importEndings => fun _ _ => []

/-- Behind a comment, each pass asks for what it writes once, but for the pass for access where that
is not settled. The functions are those that variables hold. -/
theorem editsBehind_again_iff {pass : Pass} {doc : DocComment} {c : Cursor}
    (hfunction : pass = .functions → declaresVariable c = true) :
    pass.editsBehind doc ⟨Edit.splice c (pass.editsBehind doc c), c.offset⟩ = [] ↔
      (pass = .access → settlesAccess doc c = true) := by
  have honce {find? : DocComment → Cursor → Option Edit}
      (hagain : ∀ e, find? doc c = some e → find? doc ⟨Edit.splice c [e], c.offset⟩ = none) :
      (find? doc ⟨Edit.splice c (find? doc c).toList, c.offset⟩).toList = [] := by
    cases h : find? doc c with
    | none => exact congrArg Option.toList h
    | some e => exact congrArg Option.toList (hagain e h)
  cases pass with
  | enums => exact iff_of_true (honce fun e => enumEdit?_again) nofun
  | namespaces => exact iff_of_true (honce fun e => namespaceEdit?_again) nofun
  | functions => exact iff_of_true (functionEdits_again (hfunction rfl)) nofun
  | variableTypes => exact iff_of_true (variableEdits_again doc c) nofun
  | access => exact (accessEdits_again_iff doc c).trans ⟨fun h _ => h, fun h => h rfl⟩
  | typedefs => exact iff_of_true rfl nofun
  | importEndings => exact iff_of_true rfl nofun

/-- A class with a property that a comment marks. -/
def markedProperty : String := "class C \x7b\n/** @readonly */\nx = 1;\n\x7d"

/-- The property gets the word a second time when the pass reads what it has written. -/
theorem exists_written_twice :
    Pass.access.run markedProperty = "class C \x7b\n/** @readonly */\nreadonly x = 1;\n\x7d" ∧
    Pass.access.run (Pass.access.run markedProperty) =
      "class C \x7b\n/** @readonly */\nreadonly readonly x = 1;\n\x7d" := by
  decide +kernel

end Script

end DeclBundle
