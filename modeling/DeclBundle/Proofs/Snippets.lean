import DeclBundle.CommandLine.Report
import DeclBundle.Proofs.LinePositions
import DeclBundle.Proofs.NormalPaths

/-!
# What a report underlines

A pretty report shows the line in which a diagnostic starts, with marks under it. The number of the
line is that of the line map, for which a carriage return ends a line as well; the text is one of
those that are divided by line feeds; and the bytes of the span are counted as characters. So the
line and the marks are those of the span exactly when the two divisions give the same text to this
number, and each character of the span takes one byte or none stands behind it in the line
(`Report.snippet?_eq_iff`). Where every carriage return is followed by a line feed, both divisions
are the same (`Report.lines_getElem?_of_paired`).
-/

set_option autoImplicit false

namespace DeclBundle

namespace Text

/-- The character ends no line. -/
def isInLine (c : Char) : Bool := c != '\n' && c != '\r'

/-- The text of the line in which a place lies, without its end. -/
def lineText (cs : List Char) (k : Nat) : List Char := (cs.drop (lineStart cs k)).takeWhile isInLine

/-- Every carriage return among the first `k` characters is followed by a line feed. -/
def IsPaired (cs : List Char) (k : Nat) : Prop :=
  ∀ us vs, cs = us ++ '\r' :: vs → us.length < k → vs.head? = some '\n'

/-! ## Lines between line feeds -/

theorem lines_of_not_mem {cs : List Char} (h : '\n' ∉ cs) (hne : cs ≠ []) : lines cs = [cs] := by
  rw [lines, splitAt_eq_splitOn, List.splitOn_eq_singleton h]
  cases cs with
  | nil => exact absurd rfl hne
  | cons x cs => rfl

/-- The first line stands in front of the first line feed, without a carriage return at its end. -/
theorem lines_append {line : List Char} (h : '\n' ∉ line) (cs : List Char) :
    lines (line ++ '\n' :: cs) = (before? ['\r'] line).getD line :: lines cs := by
  obtain ⟨init, last, hpieces⟩ :=
    (List.eq_nil_or_concat' (cs.splitOn '\n')).resolve_left (List.splitOn_ne_nil '\n' cs)
  have hdrop : (line :: (init ++ [last])).dropLast = line :: init := by
    rw [← List.cons_append, List.dropLast_concat]
  have hlast : (line :: (init ++ [last])).getLast? = some last := by
    rw [← List.cons_append, List.getLast?_concat]
  rw [lines, lines, splitAt_eq_splitOn, splitAt_eq_splitOn,
    List.splitOn_append_cons_self_of_not_mem h, hpieces]
  rw [hdrop, hlast, List.dropLast_concat, List.getLast?_concat, List.map_cons]
  cases last <;> rfl

/-- No line has a line feed. -/
theorem not_mem_of_mem_lines {cs line : List Char} (h : line ∈ lines cs) : '\n' ∉ line := by
  have hended {line : List Char}
    (h : line ∈ ((splitAt '\n' cs).dropLast.map fun line => (before? ['\r'] line).getD line)) :
      '\n' ∉ line := by
    obtain ⟨piece, hpiece, rfl⟩ := List.mem_map.1 h
    have hfeed := (of_mem_splitAt (List.mem_of_mem_dropLast hpiece)).1
    cases hbefore : before? ['\r'] piece with
    | none => exact hfeed
    | some front =>
      rw [before?_eq_some_iff.1 hbefore] at hfeed
      exact fun hmem => hfeed (List.mem_append_left _ hmem)
  rw [lines] at h
  split at h
  · exact hended h
  · exact hended h
  · rename_i last _ hlast
    rcases List.mem_append.1 h with h | h
    · exact hended h
    · rw [List.mem_singleton.1 h]
      exact (of_mem_splitAt (List.mem_of_getLast? hlast)).1

/-- Behind a line feed, the lines of the rest follow. By induction on what stands in front. -/
theorem lines_getElem? {above : List Char} (habove : above = [] ∨ above.getLast? = some '\n')
    (cs : List Char) :
    (lines (above ++ cs))[above.count '\n']? = (lines cs).head? := by
  induction hlength : above.length using Nat.strong_induction_on generalizing above with
  | _ n ih =>
    rcases habove with rfl | hlast
    · exact List.head?_eq_getElem?.symm
    · obtain ⟨line, more, rfl, hline⟩ := List.eq_append_cons_of_mem (List.mem_of_getLast? hlast)
      have hmore : more = [] ∨ more.getLast? = some '\n' := by
        cases more with
        | nil => exact .inl rfl
        | cons x more =>
          exact .inr (by rwa [List.getLast?_append_cons, List.getLast?_cons_cons] at hlast)
      have hcount : (line ++ '\n' :: more).count '\n' = more.count '\n' + 1 := by
        rw [List.count_append, List.count_eq_zero.2 hline, List.count_cons_self, Nat.zero_add]
      rw [List.append_assoc, List.cons_append, lines_append hline, hcount, List.getElem?_cons_succ]
      exact ih more.length (by
        rw [← hlength, List.length_append, List.length_cons]; omega) hmore rfl

/-! ## Lines of the line map -/

section Line

variable {cs : List Char} {k : Nat}

theorem mem_lineEnds_of_append {us vs : List Char} (hcs : cs = us ++ vs)
    (hends : endsLine us vs = true) (hk : us.length ≤ k) :
    us.length ∈ lineEnds cs k := by
  have hpos : us ≠ [] := by
    rintro rfl
    cases hends
  refine mem_lineEnds_iff.2 ⟨⟨List.length_pos_iff.2 hpos, hk⟩, ?_⟩
  rw [hcs, List.take_left, List.drop_left]
  exact hends

/-- What stands between the start of a line and a place that is not in front of a line feed ends no
line. -/
theorem isInLine_of_mem_front {us vs : List Char} (hcs : cs = us ++ vs)
    (hvs : vs.head? ≠ some '\n') {c : Char} (hc : c ∈ us.drop (lineStart cs us.length)) :
    isInLine c = true := by
  obtain ⟨xs, ys, hsplit⟩ := List.append_of_mem hc
  obtain ⟨front, hfront⟩ : ∃ front, front = us.take (lineStart cs us.length) ++ xs := ⟨_, rfl⟩
  have hus : us = front ++ [c] ++ ys := by
    rw [hfront, List.append_assoc, List.append_assoc, List.singleton_append, ← hsplit,
      List.take_append_drop]
  have hstart : lineStart cs us.length ≤ front.length := by
    rw [hfront, List.length_append, List.length_take_of_le (lineStart_le cs us.length)]
    exact Nat.le_add_right _ _
  -- a line end between the start of the line and the place would be the start of a later line
  have hno {p q : List Char} (hsplit : cs = p ++ q) (hle : p.length ≤ us.length)
    (hlt : front.length < p.length) :
      endsLine p q = false := by
    by_contra hends
    have := le_lineStart (mem_lineEnds_of_append hsplit (Bool.eq_true_of_not_eq_false hends) hle)
    omega
  have hbehind : endsLine (front ++ [c]) (ys ++ vs) = false :=
    hno (by rw [hcs, hus, List.append_assoc]) (by rw [hus]; simp) (by simp)
  rw [endsLine_append, Bool.or_eq_false_iff, Bool.and_eq_false_iff, beq_eq_false_iff_ne,
    beq_eq_false_iff_ne] at hbehind
  obtain ⟨hfeed, hreturn | hnext⟩ := hbehind
  · simp [isInLine, hfeed, hreturn]
  · -- a carriage return in front of a line feed, which belongs to the same part
    have hhead : (ys ++ vs).head? = some '\n' := by simpa using hnext
    cases ys with
    | nil => exact absurd hhead hvs
    | cons y ys =>
      obtain rfl := Option.some.inj hhead
      have hafter : endsLine (front ++ [c] ++ ['\n']) (ys ++ vs) = false :=
        hno (by rw [hcs, hus]; simp) (by rw [hus]; simp) (by simp)
      rw [endsLine_append] at hafter
      simp at hafter

theorem head?_ne_of_isInLine {ms : List Char} (vs : List Char) (hms : ∀ c ∈ ms, isInLine c = true)
    (hne : ms ≠ []) :
    (ms ++ vs).head? ≠ some '\n' := by
  obtain ⟨x, ms, rfl⟩ := List.exists_cons_of_ne_nil hne
  rintro ⟨⟩
  exact absurd (hms _ List.mem_cons_self) (by decide)

/-- The line in which a span lies has what stands in front of the span, the span, and what follows
up to the line end. -/
theorem lineText_eq {us ms vs : List Char} (hcs : cs = us ++ (ms ++ vs))
    (hms : ∀ c ∈ ms, isInLine c = true) (hne : ms ≠ []) :
    lineText cs us.length = us.drop (lineStart cs us.length) ++ (ms ++ vs.takeWhile isInLine) := by
  have hvs := head?_ne_of_isInLine vs hms hne
  have hdrop : cs.drop (lineStart cs us.length) =
      us.drop (lineStart cs us.length) ++ (ms ++ vs) := by
    rw [← List.drop_append_of_le_length (lineStart_le cs us.length), ← hcs]
  rw [lineText, hdrop, List.takeWhile_append_of_pos fun c => isInLine_of_mem_front hcs hvs,
    List.takeWhile_append_of_pos hms]

section Paired

variable (h : IsPaired cs k)

include h

/-- Where carriage returns are followed by line feeds, lines end behind line feeds. -/
theorem endsLine_of_paired {us vs : List Char} (hcs : cs = us ++ vs) (hk : us.length ≤ k) :
    endsLine us vs = (us.getLast? == some '\n') := by
  rcases List.eq_nil_or_concat' us with rfl | ⟨init, x, rfl⟩
  · rfl
  · rw [endsLine_append, List.getLast?_concat]
    by_cases hx : x = '\r'
    · subst hx
      have hnext :=
        h init vs (by rw [hcs, List.append_assoc, List.singleton_append]) (by simpa using hk)
      simp [hnext]
    · simp [hx]

/-- The lines that have ended are counted by line feeds. -/
theorem length_lineEnds_of_paired (hk : k ≤ cs.length) :
    (lineEnds cs k).length = (cs.take k).count '\n' := by
  have hends : lineEnds cs k = (List.range' 1 k).filter fun j =>
    (cs.take j).getLast? == some '\n' := by
    refine List.filter_congr fun j hj => endsLine_of_paired h (List.take_append_drop j cs).symm ?_
    have := List.mem_range'_1.1 hj
    rw [List.length_take]
    omega
  have hcount (n : Nat) (hn : n ≤ cs.length) :
      ((List.range' 1 n).filter fun j => (cs.take j).getLast? == some '\n').length =
        (cs.take n).count '\n' := by
    induction n with
    | zero => rfl
    | succ n ih =>
      have htake := List.take_succ_eq_append_getElem hn
      have hlast : (cs.take (n + 1)).getLast? = some cs[n] := by rw [htake, List.getLast?_concat]
      rw [List.range'_1_concat, List.filter_append, List.length_append, ih (by omega),
        Nat.add_comm 1 n, List.filter_singleton,
        hlast, htake, List.count_append, List.count_singleton]
      by_cases hfeed : cs[n] = '\n' <;> simp [hfeed, beq_eq_false_iff_ne.2]
  rw [hends]
  exact hcount k hk

end Paired

theorem IsPaired.mono {n : Nat} (h : IsPaired cs n) (hle : k ≤ n) : IsPaired cs k :=
  fun us vs hcs hlt => h us vs hcs (Nat.lt_of_lt_of_le hlt hle)

/-- The first line of a text whose first line end is a line feed, with a carriage return in front of
it or without. -/
theorem lines_head?_of_paired (h : IsPaired cs ((cs.takeWhile isInLine).length + 1))
    (hne : cs.takeWhile isInLine ≠ []) :
    (lines cs).head? = some (cs.takeWhile isInLine) := by
  obtain ⟨line, hline⟩ : ∃ line, line = cs.takeWhile isInLine := ⟨_, rfl⟩
  have hcs : cs = line ++ cs.dropWhile isInLine := by rw [hline, List.takeWhile_append_dropWhile]
  have hin {c : Char} (hc : c ∈ line) : isInLine c = true := List.mem_takeWhile_imp (hline ▸ hc)
  have hfeed : '\n' ∉ line := fun hmem => absurd (hin hmem) (by decide)
  rw [← hline] at h hne ⊢
  cases hrest : cs.dropWhile isInLine with
  | nil =>
    rw [hcs, hrest, List.append_nil, lines_of_not_mem hfeed hne]
    rfl
  | cons x r =>
    have hx : isInLine x = false := by
      have := List.head?_dropWhile_not isInLine cs
      rw [hrest] at this
      simpa using this
    rw [hrest] at hcs
    simp only [isInLine, Bool.and_eq_false_iff, bne_eq_false_iff_eq] at hx
    -- what ends the line is a line feed, or a carriage return with a line feed behind it
    rcases hx with rfl | rfl
    · have hno : before? ['\r'] line = none := by
        cases hbefore : before? ['\r'] line with
        | none => rfl
        | some front =>
          have hmem : '\r' ∈ line := by
            rw [before?_eq_some_iff.1 hbefore]
            simp
          exact absurd (hin hmem) (by decide)
      rw [hcs, lines_append hfeed, hno]
      rfl
    · obtain ⟨r', rfl⟩ := List.head?_eq_some_iff.1 (h line r hcs (Nat.lt_succ_self _))
      have hreturn : '\n' ∉ line ++ ['\r'] := by simpa using hfeed
      rw [hcs, List.append_cons, lines_append hreturn, before?_eq_some_iff.2 rfl]
      rfl

/-- When every carriage return up to the end of a line is followed by a line feed, the line has the
same number and the same text when only line feeds divide lines. -/
theorem lines_getElem?_of_paired {us ms vs : List Char} (hcs : cs = us ++ (ms ++ vs))
    (hms : ∀ c ∈ ms, isInLine c = true) (hne : ms ≠ [])
    (h : IsPaired cs (lineStart cs us.length + (lineText cs us.length).length + 1)) :
    (lines cs)[(lineEnds cs us.length).length]? = some (lineText cs us.length) := by
  have hvs := head?_ne_of_isInLine vs hms hne
  have hline := lineText_eq hcs hms hne
  have hfront {c : Char} (hc : c ∈ us.drop (lineStart cs us.length)) : isInLine c = true :=
    isInLine_of_mem_front hcs hvs hc
  have hstart := lineStart_cases cs us.length
  have hle := lineStart_le cs us.length
  rw [lineText] at h hline ⊢
  generalize lineStart cs us.length = start at *
  have hrest : cs.drop start = us.drop start ++ (ms ++ vs) := by
    rw [← List.drop_append_of_le_length hle, ← hcs]
  have hsplit : cs = us.take start ++ cs.drop start := by
    rw [hrest, ← List.append_assoc, List.take_append_drop, hcs]
  have habove : (us.take start).length = start := List.length_take_of_le hle
  have hpaired : IsPaired cs us.length := by
    refine h.mono ?_
    rw [hline, List.length_append, List.length_drop]
    omega
  -- in front of the line stands a line feed, if anything
  have hlast : us.take start = [] ∨ (us.take start).getLast? = some '\n' := by
    refine hstart.imp (fun hzero => by rw [hzero, List.take_zero]) fun hmem => ?_
    have hends := (mem_lineEnds_iff.1 hmem).2
    rw [endsLine_of_paired hpaired (List.take_append_drop start cs).symm (by
      rw [List.length_take]; omega), beq_iff_eq] at hends
    rwa [hsplit, List.take_left' habove] at hends
  have hcount : (lineEnds cs us.length).length = (us.take start).count '\n' := by
    have hzero : (us.drop start).count '\n' = 0 := List.count_eq_zero.2 fun hmem =>
      absurd (hfront hmem) (by decide)
    rw [length_lineEnds_of_paired hpaired (by rw [hcs, List.length_append]; omega), hcs,
      List.take_left]
    conv_lhs => rw [← List.take_append_drop start us]
    rw [List.count_append, hzero, Nat.add_zero]
  have hbelow : IsPaired (cs.drop start) (((cs.drop start).takeWhile isInLine).length + 1) := by
    intro xs ys hxs hlt
    refine h (us.take start ++ xs) ys (by rw [List.append_assoc, ← hxs, ← hsplit]) ?_
    rw [List.length_append, habove]
    omega
  have hfirst : (lines cs)[(us.take start).count '\n']? = (lines (cs.drop start)).head? := by
    conv_lhs => rw [hsplit]
    exact lines_getElem? hlast _
  rw [hcount, hfirst]
  refine lines_head?_of_paired hbelow ?_
  rw [hline]
  simp [hne]

end Line

end Text

namespace Report

open Text

/-! ## Marks -/

/-- Marks under some characters, as wide as these are. -/
def marksUnder (mark : Char) (cs : List Char) : List Char :=
  cs.flatMap fun c => List.replicate (width c) mark

theorem width_pos (c : Char) : 0 < width c := by
  unfold width
  split <;> decide

theorem marksUnder_cons (mark x : Char) (cs : List Char) :
    marksUnder mark (x :: cs) = List.replicate (width x) mark ++ marksUnder mark cs :=
  List.flatMap_cons

theorem marksUnder_append (mark : Char) (cs cs' : List Char) :
    marksUnder mark (cs ++ cs') = marksUnder mark cs ++ marksUnder mark cs' := List.flatMap_append

theorem mem_marksUnder {mark c : Char} {cs : List Char} (h : c ∈ marksUnder mark cs) :
    c = mark := by
  obtain ⟨_, -, hc⟩ := List.mem_flatMap.1 h
  exact List.eq_of_mem_replicate hc

theorem marksUnder_eq_nil {mark : Char} {cs : List Char} (h : marksUnder mark cs = []) :
    cs = [] := by
  refine List.eq_nil_iff_forall_not_mem.2 fun c hc => ?_
  have hempty := List.flatMap_eq_nil_iff.1 h c hc
  rw [List.replicate_eq_nil_iff] at hempty
  exact absurd hempty (Nat.ne_of_gt (width_pos c))

theorem mark_mem_marksUnder {mark : Char} {cs : List Char} (h : cs ≠ []) :
    mark ∈ marksUnder mark cs := by
  obtain ⟨x, cs, rfl⟩ := List.exists_cons_of_ne_nil h
  exact List.mem_flatMap.2
    ⟨x, List.mem_cons_self, List.mem_replicate.2 ⟨Nat.ne_of_gt (width_pos x), rfl⟩⟩

theorem marks_zero (n : Nat) (cs : List Char) : marks 0 n cs = marksUnder '~' (cs.take n) := by
  induction cs generalizing n with
  | nil => cases n <;> rfl
  | cons x cs ih =>
    cases n with
    | zero => rfl
    | succ n => rw [marks, ih, List.take_succ_cons, marksUnder_cons]

theorem marks_append (front cs : List Char) (n : Nat) :
    marks front.length n (front ++ cs) = marksUnder ' ' front ++ marksUnder '~' (cs.take n) := by
  induction front with
  | nil => exact marks_zero n cs
  | cons x front ih =>
    rw [List.length_cons, List.cons_append, marks, ih, marksUnder_cons, List.append_assoc]

/-- Behind some characters, as many as asked for are marked, when there is one. -/
theorem underline_append (front : List Char) {cs : List Char} {n : Nat} (h : cs.take n ≠ []) :
    underline front.length n (front ++ cs) =
      marksUnder ' ' front ++ marksUnder '~' (cs.take n) := by
  rw [underline, marks_append]
  have hmark : (marksUnder ' ' front ++ marksUnder '~' (cs.take n)).contains '~' = true := by
    rw [List.contains_iff_mem]
    exact List.mem_append_right _ (mark_mem_marksUnder h)
  exact if_pos hmark

/-! ## The text of a snippet -/

/-- A line with its number, and with marks below. -/
def shown (style : ReportStyle) (number : Nat) (line marks : List Char) : String :=
  "\n\n" ++ paint style .lineNumber (lineNumber number) ++ " " ++ String.ofList line ++ "\n"
    ++ paint style .margin "   " ++ " " ++ paint style .underline (String.ofList marks) ++ "\n"

theorem snippet?_eq {style : ReportStyle} {source : List Char} {d : Diagnostic}
    (hfile : d.file ≠ "") (hlength : d.length ≠ 0) :
    snippet? style source d =
      ((lines source)[((LineMap.ofText source).position source d.start).line]?).map fun line =>
      shown style (((LineMap.ofText source).position source d.start).line + 1) line
        (underline ((LineMap.ofText source).position source d.start).character
          (markedCount ((LineMap.ofText source).position source d.start).character d.length)
            line) := by
  have hguard : (!d.file.isEmpty && d.length != 0) = true := by simp [hfile, hlength]
  simp only [snippet?, hguard, guard, if_true, Option.pure_def, Option.bind_eq_bind,
    Option.bind_some]
  cases (lines source)[((LineMap.ofText source).position source d.start).line]? <;> rfl

/-- Nothing is replaced in a text without the first character of what is looked for. -/
theorem replaceAll_of_not_mem {x : Char} {cs : List Char} (h : x ∉ cs) (mark by_ : List Char) :
    replaceAll (x :: mark) by_ cs = cs := by
  have hgo (cs out : List Char) (h : x ∉ cs) : replaceAll.go (x :: mark) by_ cs 0 out =
      out.reverse ++ cs := by
    induction cs generalizing out with
    | nil => simp [replaceAll.go]
    | cons y cs ih =>
      rw [List.mem_cons, not_or] at h
      obtain ⟨hne, hcs⟩ := h
      rw [replaceAll.go, if_neg (by simp), after?, if_neg hne]
      simp [ih _ hcs]
  exact hgo cs [] h

/-- Colors keep texts apart that switch no color off. -/
theorem paint_inj {style : ReportStyle} {ink : Ink} {cs cs' : List Char} (h : '\x1b' ∉ cs)
    (h' : '\x1b' ∉ cs')
    (heq : paint style ink (String.ofList cs) = paint style ink (String.ofList cs')) :
    cs = cs' := by
  have hreset : Ink.reset.toList = '\x1b' :: "[0m".toList := by decide
  unfold paint at heq
  split at heq
  · rw [String.toList_ofList, String.toList_ofList, hreset, replaceAll_of_not_mem h,
      replaceAll_of_not_mem h'] at heq
    have hlists := congrArg String.toList heq
    simpa using hlists
  · exact String.ofList_injective heq

/-- What stands in front of the first line feed is determined, and so is what stands behind it. -/
theorem append_feed_inj {line line' r r' : List Char} (hline : '\n' ∉ line) (hline' : '\n' ∉ line')
    (h : line ++ '\n' :: r = line' ++ '\n' :: r') : line = line' ∧ r = r' := by
  have htake {cs : List Char} (hcs : '\n' ∉ cs) (r : List Char) :
      (cs ++ '\n' :: r).takeWhile (· != '\n') = cs := by
    rw [List.takeWhile_append_of_pos fun c hc => by simpa using ne_of_mem_of_not_mem hc hcs]
    simp
  have heq : line = line' := by rw [← htake hline r, h, htake hline' r']
  subst heq
  exact ⟨rfl, (List.cons.inj (List.append_cancel_left h)).2⟩

theorem shown_inj {style : ReportStyle} {number : Nat} {line line' marks marks' : List Char}
    (hline : '\n' ∉ line) (hline' : '\n' ∉ line') (hmarks : '\x1b' ∉ marks)
    (hmarks' : '\x1b' ∉ marks')
    (h : shown style number line marks = shown style number line' marks') :
    line = line' ∧ marks = marks' := by
  have hlists := congrArg String.toList h
  simp only [shown, String.toList_append, String.toList_ofList, List.append_assoc,
    List.append_cancel_left_eq] at hlists
  obtain ⟨rfl, hrest⟩ := append_feed_inj hline hline' hlists
  have hpaint : paint style .underline (String.ofList marks) =
      paint style .underline (String.ofList marks') :=
    String.toList_injective
      (List.append_cancel_right (List.append_cancel_left (List.append_cancel_left hrest)))
  exact ⟨rfl, paint_inj hmarks hmarks' hpaint⟩

/-- Only blanks and tildes stand under a line. -/
theorem mem_marks {before marked : Nat} {line : List Char} {c : Char}
    (h : c ∈ marks before marked line) : c = ' ' ∨ c = '~' := by
  induction line generalizing before marked with
  | nil => cases before <;> cases marked <;> cases h
  | cons x line ih =>
    cases before with
    | succ before =>
      exact (List.mem_append.1 h).elim (fun h => .inl (List.eq_of_mem_replicate h)) ih
    | zero =>
      cases marked with
      | zero => cases h
      | succ marked =>
        exact (List.mem_append.1 h).elim (fun h => .inr (List.eq_of_mem_replicate h)) ih

theorem mem_underline {before marked : Nat} {line : List Char} {c : Char}
    (h : c ∈ underline before marked line) :
    c = ' ' ∨ c = '~' := by
  rw [underline] at h
  split at h
  · exact mem_marks h
  · exact (List.mem_append.1 h).elim mem_marks fun h => .inr (List.mem_singleton.1 h)

/-! ## Spans -/

/-- A diagnostic is about some characters of a line, which stand in a text between two other
parts. -/
structure IsAbout (d : Diagnostic) (source us ms vs : List Char) : Prop where
  source_eq : source = us ++ (ms ++ vs)
  file_ne : d.file ≠ ""
  start_eq : d.start = byteLength us
  length_eq : d.length = byteLength ms
  ne_nil : ms ≠ []
  isInLine : ∀ c ∈ ms, Text.isInLine c = true

/-- The snippet for a span behind some characters of a text: the line in which it lies, under the
number that is reported, with marks under the characters of the span. -/
def spanSnippet (style : ReportStyle) (source us ms : List Char) : String :=
  shown style ((linePosition source us.length).line + 1) (lineText source us.length)
    (marksUnder ' ' (us.drop (lineStart source us.length)) ++ marksUnder '~' ms)

theorem byteLength_eq_length_iff {cs : List Char} : byteLength cs = cs.length ↔
    ∀ c ∈ cs, c.utf8Size = 1 := by
  induction cs with
  | nil => simp
  | cons x cs ih =>
    have := x.utf8Size_pos
    have := length_le_byteLength cs
    rw [byteLength_cons, List.length_cons, List.forall_mem_cons, ← ih]
    omega

/-- As many characters as the span has bytes are marked, which are those of the span when each of
them has one byte, or when no others follow. -/
theorem underline_eq_iff (front rest : List Char) {ms : List Char} (hne : ms ≠ []) :
    underline front.length (byteLength ms)
      (front ++ (ms ++ rest)) = marksUnder ' ' front ++ marksUnder '~' ms ↔
      (∀ c ∈ ms, c.utf8Size = 1) ∨ rest = [] := by
  have hle := length_le_byteLength ms
  have htake : (ms ++ rest).take (byteLength ms) = ms ++ rest.take (byteLength ms - ms.length) := by
    rw [List.take_append, List.take_of_length_le hle]
  have hmarked : (ms ++ rest).take (byteLength ms) ≠ [] := by simp [htake, hne]
  rw [underline_append front hmarked, htake, marksUnder_append, List.append_cancel_left_eq,
    List.append_right_eq_self]
  have hnone : marksUnder '~' (rest.take (byteLength ms - ms.length)) = [] ↔
      rest.take (byteLength ms - ms.length) = [] :=
    ⟨marksUnder_eq_nil, fun h => by rw [h]; rfl⟩
  rw [hnone, List.take_eq_nil_iff, ← byteLength_eq_length_iff]
  refine or_congr_left ?_
  omega

section Span

variable {style : ReportStyle} {d : Diagnostic} {source us ms vs : List Char}
  (h : IsAbout d source us ms vs) (hsize : byteLength source < UInt32.size)

include h hsize

/-- The snippet of a span has the line that stands at the number of the reported one between line
feeds. -/
theorem snippet?_of_isAbout : snippet? style source d =
    ((lines source)[(linePosition source us.length).line]?).map fun line =>
      shown style ((linePosition source us.length).line + 1) line
        (underline (us.drop (lineStart source us.length)).length (byteLength ms) line) := by
  have hlength : d.length ≠ 0 := by
    have := length_le_byteLength ms
    have := List.length_pos_iff.2 h.ne_nil
    rw [h.length_eq]
    omega
  have hposition : (LineMap.ofText source).position source d.start =
      linePosition source us.length := by
    have htake := @LineMap.position_take source us.length (by simp [h.source_eq])
    have hfront : source.take us.length = us := by rw [h.source_eq, List.take_left]
    rwa [hfront, ← h.start_eq] at htake
  have hcharacter : (linePosition source us.length).character =
      (us.drop (lineStart source us.length)).length := (List.length_drop).symm
  have hcount : markedCount (us.drop (lineStart source us.length)).length d.length =
      byteLength ms := by
    have hdrop : (us.drop (lineStart source us.length)).length ≤ byteLength us := by
      rw [List.length_drop]
      exact (Nat.sub_le _ _).trans (length_le_byteLength us)
    rw [h.source_eq, byteLength_append, byteLength_append] at hsize
    rw [markedCount, h.length_eq, Nat.mod_eq_of_lt (by omega), Nat.add_sub_cancel_left]
  rw [snippet?_eq h.file_ne hlength, hposition, hcharacter, hcount]

/-- The snippet shows the line in which the span lies, with marks under the span, exactly when this
line is the one that stands at its number between line feeds, and each character of the span has one
byte or none follows in the line. The first holds when every carriage return up to the end of the
line is followed by a line feed. -/
theorem snippet?_eq_iff :
    (snippet? style source d = some (spanSnippet style source us ms) ↔
      (lines source)[(linePosition source us.length).line]? = some (lineText source us.length) ∧
      ((∀ c ∈ ms, c.utf8Size = 1) ∨ vs.takeWhile Text.isInLine = [])) ∧
    (IsPaired source (lineStart source us.length + (lineText source us.length).length + 1) →
      (lines source)[(linePosition source us.length).line]? =
        some (lineText source us.length)) := by
  have hline := lineText_eq h.source_eq h.isInLine h.ne_nil
  refine ⟨?_, lines_getElem?_of_paired h.source_eq h.isInLine h.ne_nil⟩
  rw [snippet?_of_isAbout h hsize, spanSnippet]
  constructor
  · intro hsnippet
    obtain ⟨line, hfound, hshown⟩ := Option.map_eq_some_iff.1 hsnippet
    have hfeed : '\n' ∉ lineText source us.length := fun hmem =>
      absurd (List.mem_takeWhile_imp hmem) (by decide)
    have hmarks {marks : List Char} (hmarks : ∀ c ∈ marks, c = ' ' ∨ c = '~') : '\x1b' ∉ marks :=
      fun hmem =>
      absurd (hmarks _ hmem) (by decide)
    have hspan : ∀ c ∈ marksUnder ' ' (us.drop (lineStart source us.length)) ++ marksUnder '~' ms,
        c = ' ' ∨ c = '~' :=
      fun c hc => (List.mem_append.1 hc).imp mem_marksUnder mem_marksUnder
    obtain ⟨rfl, hunder⟩ := shown_inj (not_mem_of_mem_lines (List.mem_of_getElem? hfound)) hfeed
      (hmarks fun c => mem_underline) (hmarks hspan) hshown
    rw [hline, underline_eq_iff _ _ h.ne_nil] at hunder
    exact ⟨hfound, hunder⟩
  · rintro ⟨hfound, hspan⟩
    rw [hfound, Option.map_some, hline, (underline_eq_iff _ _ h.ne_nil).2 hspan]

end Span

/-- A span in the second line, behind a tab and in front of more characters. -/
theorem snippet?_behindTab :
    snippet? ⟨true, false⟩ "let é\n\tx = y;".toList ⟨"/a.ts", 8, 1, "", .error, 1⟩ =
    some (spanSnippet ⟨true, false⟩ "let é\n\tx = y;".toList "let é\n\t".toList ['x']) := by
  have habout : IsAbout ⟨"/a.ts", 8, 1, "", .error, 1⟩ "let é\n\tx = y;".toList "let é\n\t".toList
      ['x'] " = y;".toList :=
    ⟨by decide, by decide, by decide, by decide, List.cons_ne_nil _ _,
      List.forall_mem_singleton.2 rfl⟩
  have hlength : byteLength "let é\n\tx = y;".toList = 14 := rfl
  obtain ⟨hiff, hline⟩ := @snippet?_eq_iff ⟨true, false⟩ _ _ _ _ _ habout (hlength ▸ by decide)
  refine hiff.2 ⟨hline fun us vs hsource _ => ?_, .inl (List.forall_mem_singleton.2 rfl)⟩
  have hnone : '\r' ∉ "let é\n\tx = y;".toList := by decide
  exact absurd (hsource ▸ List.mem_append_right us List.mem_cons_self) hnone

/-- Two characters are marked for a letter of two bytes, and nothing is shown behind a carriage
return that stands alone. -/
theorem exists_wrong_snippet :
    (IsAbout ⟨"/a.ts", 0, 2, "", .error, 1⟩ ['é', ' ', 'b'] [] ['é'] [' ', 'b'] ∧
      snippet? ⟨true, false⟩ ['é', ' ', 'b'] ⟨"/a.ts", 0, 2, "", .error, 1⟩ ≠
        some (spanSnippet ⟨true, false⟩ ['é', ' ', 'b'] [] ['é'])) ∧
    IsAbout ⟨"/a.ts", 2, 1, "", .error, 1⟩ ['a', '\r', 'b'] ['a', '\r'] ['b'] [] ∧
      snippet? ⟨true, false⟩ ['a', '\r', 'b'] ⟨"/a.ts", 2, 1, "", .error, 1⟩ = none := by
  refine ⟨⟨⟨rfl, by decide, rfl, rfl, List.cons_ne_nil _ _, List.forall_mem_singleton.2 rfl⟩, ?_⟩,
    ⟨rfl, by decide, rfl, rfl, List.cons_ne_nil _ _, List.forall_mem_singleton.2 rfl⟩, rfl⟩
  decide

end Report

end DeclBundle
