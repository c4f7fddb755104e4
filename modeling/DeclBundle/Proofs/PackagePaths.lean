import DeclBundle.Package.Specifier
import DeclBundle.Proofs.NormalPaths
import DeclBundle.Proofs.Searching

/-!
# Modules of packages by their paths

A module of a package is named by a specifier, and it is found again from the path of an installed
file. A specifier is read into a package and a path inside it, and written again as it was
(`PackageEntry.specifier_ofSpecifier`).

An installed file lies in a directory of packages, under the name of its package or under that of
the package with its types. `Installed` relates the first segments behind the last such directory to
the package, one case for each kind of name. That the last directory is the right one is a matter of
segments: between `node_modules` and the name of the file no segment is `node_modules` again
(`Text.mem_segments_of_infix`). For the names that `PackageName.IsPlainlyRead` allows, every file of
a module leads back to the package and the path inside it (`PackageEntry.round_trips`).
-/

set_option autoImplicit false

namespace DeclBundle

namespace Text

/-! ## Cutting at marks -/

theorem cutAt?_go_of_first {mark us : List Char} (hmark : mark ≠ [])
    (h : ¬mark <:+: us ++ mark.dropLast) (r seen : List Char) :
    cutAt?.go mark (us ++ (mark ++ r)) seen = some (seen.reverse ++ us, r) := by
  -- on the text before the mark: nothing of it is the start of a mark, not even with the mark
  -- behind it
  induction us generalizing seen with
  | nil =>
    have hafter : after? mark (mark ++ r) = some r := after?_eq_some_iff.2 rfl
    obtain ⟨c, rest, rfl⟩ := List.exists_cons_of_ne_nil hmark
    rw [List.cons_append] at hafter
    simp [cutAt?.go, hafter]
  | cons c us ih =>
    have hnone : after? mark (c :: (us ++ (mark ++ r))) = none := by
      cases hafter : after? mark (c :: (us ++ (mark ++ r))) with
      | none => rfl
      | some rest =>
        -- the mark would stand before its first occurrence
        have heq : (c :: us) ++ (mark ++ r) = mark ++ rest := after?_eq_some_iff.1 hafter
        have hprefix : c :: us <+: [] := prefix_of_first h (heq.trans (List.nil_append _).symm)
        exact absurd (List.prefix_nil.1 hprefix) (List.cons_ne_nil c us)
    have hfirst : ¬mark <:+: us ++ mark.dropLast := fun hpart =>
      h (hpart.trans (List.suffix_cons c _).isInfix)
    rw [List.cons_append, cutAt?.go, hnone]
    simp [ih hfirst]

/-- A text is cut at the first occurrence of a mark. -/
theorem cutAt?_of_first {mark us : List Char} (hmark : mark ≠ [])
    (h : ¬mark <:+: us ++ mark.dropLast) (r : List Char) :
    cutAt? mark (us ++ (mark ++ r)) = some (us, r) :=
  cutAt?_go_of_first hmark h r []

/-- A text is cut at the last occurrence of a mark. -/
theorem cutAtLast?_of_last {mark r : List Char} (hmark : mark ≠ []) (h : ¬mark <:+: mark.tail ++ r)
    (us : List Char) :
    cutAtLast? mark (us ++ (mark ++ r)) = some (us, r) := by
  have hreverse : (us ++ (mark ++ r)).reverse = r.reverse ++ (mark.reverse ++ us.reverse) := by simp
  have hfirst : ¬mark.reverse <:+: r.reverse ++ mark.reverse.dropLast := by
    rw [List.dropLast_reverse, ← List.reverse_append, List.reverse_infix]
    exact h
  rw [cutAtLast?, hreverse, cutAt?_of_first (by simpa using hmark) hfirst]
  simp

theorem cutAt?_go_of_not_infix {mark cs : List Char} (hmark : mark ≠ []) (h : ¬mark <:+: cs)
    (seen : List Char) :
    cutAt?.go mark cs seen = none := by
  induction cs generalizing seen with
  | nil => simp [cutAt?.go, hmark]
  | cons c cs ih =>
    have hnone : after? mark (c :: cs) = none := by
      cases hafter : after? mark (c :: cs) with
      | none => rfl
      | some rest =>
        exact absurd (after?_eq_some_iff.1 hafter ▸ (List.prefix_append mark rest).isInfix) h
    have hrest : ¬mark <:+: cs := fun hpart => h (hpart.trans (List.suffix_cons c cs).isInfix)
    rw [cutAt?.go, hnone]
    exact ih hrest (c :: seen)

/-- A text without a mark is not cut. -/
theorem cutAt?_of_not_infix {mark cs : List Char} (hmark : mark ≠ []) (h : ¬mark <:+: cs) :
    cutAt? mark cs = none :=
  cutAt?_go_of_not_infix hmark h []

/-- What a cut leaves on both sides is the text again, with the mark between them. -/
theorem eq_of_cutAt? {mark cs us r : List Char} (hmark : mark ≠ [])
    (h : cutAt? mark cs = some (us, r)) :
    cs = us ++ (mark ++ r) := by
  have hgo : ∀ (cs seen : List Char), cutAt?.go mark cs seen = some (us, r) →
      seen.reverse ++ cs = us ++ (mark ++ r) := by
    intro cs
    induction cs with
    | nil => simp [cutAt?.go, hmark]
    | cons c cs ih =>
      intro seen h
      rw [cutAt?.go] at h
      split at h
      · next rest hafter =>
        obtain ⟨rfl, rfl⟩ := Prod.mk.inj (Option.some.inj h)
        rw [after?_eq_some_iff.1 hafter]
      · simpa using ih _ h
  exact hgo cs [] h

/-! ## Segments -/

theorem splitAt_append_cons (mark : Char) (us r : List Char) :
    splitAt mark (us ++ mark :: r) = splitAt mark us ++ splitAt mark r := by
  simp only [splitAt_eq_splitOn]
  exact List.splitOn_append_cons_self us r

theorem splitAt_of_not_mem {mark : Char} {cs : List Char} (h : mark ∉ cs) :
    splitAt mark cs = [cs] := by
  rw [splitAt_eq_splitOn]
  exact List.splitOn_eq_singleton h

theorem last_segment_unique {mark : Char} {us us' last last' : List Char} (h : mark ∉ last)
    (h' : mark ∉ last') (heq : us ++ mark :: last = us' ++ mark :: last') : last = last' := by
  have hsplit := congrArg (fun cs => (splitAt mark cs).getLast?) heq
  simpa [splitAt_append_cons, splitAt_of_not_mem h, splitAt_of_not_mem h'] using hsplit

/-- A segment between two marks is neither the first nor the last one. -/
theorem mem_segments_of_infix {mark : Char} {segment cs : List Char} (hsegment : mark ∉ segment)
    (h : mark :: (segment ++ [mark]) <:+: cs) : segment ∈ (splitAt mark cs).tail.dropLast := by
  obtain ⟨us, r, rfl⟩ := h
  have hcut : us ++ mark :: (segment ++ [mark]) ++ r = us ++ mark :: (segment ++ mark :: r) := by
    simp
  rw [hcut, splitAt_append_cons, splitAt_append_cons, splitAt_of_not_mem hsegment]
  obtain ⟨first, front, hfront⟩ :=
    List.exists_cons_of_ne_nil (l := splitAt mark us) (by simp [splitAt_eq_splitOn])
  obtain ⟨next, back, hback⟩ :=
    List.exists_cons_of_ne_nil (l := splitAt mark r) (by simp [splitAt_eq_splitOn])
  rw [hfront, hback]
  simp

/-- What is added to the last segment leaves the other ones alone. -/
theorem dropLast_splitAt_append {mark : Char} {added : List Char} (h : mark ∉ added)
    (cs : List Char) :
    (splitAt mark (cs ++ added)).dropLast = (splitAt mark cs).dropLast := by
  have hhead : ∀ (f : List Char → List Char) (segments : List (List Char)),
      (segments.modifyHead f).dropLast = segments.dropLast.modifyHead f := by
    rintro f (_ | ⟨first, _ | ⟨next, rest⟩⟩) <;> rfl
  induction cs with
  | nil => rw [List.nil_append, splitAt_of_not_mem h, splitAt_of_not_mem List.not_mem_nil,
    List.dropLast_singleton, List.dropLast_singleton]
  | cons c cs ih =>
    simp only [splitAt_eq_splitOn] at ih ⊢
    rw [List.cons_append, List.splitOn_cons_eq_if_modifyHead, List.splitOn_cons_eq_if_modifyHead]
    split
    · obtain ⟨first, rest, hrest⟩ :=
        List.exists_cons_of_ne_nil (List.splitOn_ne_nil mark (cs ++ added))
      obtain ⟨first', rest', hrest'⟩ := List.exists_cons_of_ne_nil (List.splitOn_ne_nil mark cs)
      rw [hrest, hrest', List.dropLast_cons_cons, List.dropLast_cons_cons, ← hrest, ← hrest', ih]
    · rw [hhead, hhead, ih]

end Text

open Text

namespace PackageEntry

/-! ## Specifiers -/

/-- A specifier is cut at a slash, the first one or, for a package with a scope, the second one. -/
theorem eq_of_package_cut {cs package subpath : List Char}
    (h : (if startsWith ['@'] cs then
        (cutAt? ['/'] cs).bind fun (scope, rest) =>
          (cutAt? ['/'] rest).map fun (name, subpath) => (scope ++ '/' :: name, subpath)
      else cutAt? ['/'] cs) = some (package, subpath)) : cs = package ++ '/' :: subpath := by
  have hslash : ['/'] ≠ [] := List.cons_ne_nil _ _
  split at h
  · obtain ⟨⟨scope, rest⟩, hscope, h⟩ := Option.bind_eq_some_iff.1 h
    obtain ⟨⟨name, path⟩, hname, heq⟩ := Option.map_eq_some_iff.1 h
    obtain ⟨rfl, rfl⟩ := Prod.mk.inj heq
    rw [eq_of_cutAt? hslash hscope, eq_of_cutAt? hslash hname]
    simp
  · exact eq_of_cutAt? hslash h

/-- A specifier that does not end in a slash is read into a package and a path inside it, and
written again as it was. -/
theorem specifier_ofSpecifier {s : String} (h : endsWith ['/'] s.toList = false) :
    (ofSpecifier s).specifier = s := by
  unfold ofSpecifier
  dsimp only
  split
  · next package hcut =>
    rw [endsWith_iff.2 ⟨package, eq_of_package_cut hcut⟩] at h
    cases h
  · next package subpath hsubpath hcut =>
    have hne : subpath ≠ [] := hsubpath
    apply String.toList_inj.1
    rw [specifier, eq_of_package_cut hcut]
    simp [hne]
  · rfl

end PackageEntry

/-! ## Names of packages -/

/-- The name of a package, with or without a scope. -/
inductive PackageName where
  | plain (name : String)
  | withScope (scope name : String)
  deriving DecidableEq, Repr

namespace PackageName

/-- The name as imports write it. -/
def text : PackageName → String
  | plain name => name
  | withScope scope name => "@" ++ scope ++ "/" ++ name

/-- The name is read from paths as it is: no part of it is taken for something else. -/
def IsPlainlyRead : PackageName → Prop
  | plain name => '/' ∉ name.toList ∧ startsWith ['@'] name.toList = false ∧
    ¬ "__".toList <:+: name.toList
  | withScope scope name =>
    '/' ∉ scope.toList ∧ '/' ∉ name.toList ∧ scope ≠ "types" ∧ endsWith ['_'] scope.toList = false ∧
      ¬ "__".toList <:+: (withScope scope name).text.toList

theorem toList_text_withScope (scope name : String) :
    (withScope scope name).text.toList = '@' :: (scope.toList ++ '/' :: name.toList) := by
  simp [text]

theorem typesPackageName_plain {name : String} (h : (plain name).IsPlainlyRead) :
    typesPackageName name = name := by
  obtain ⟨-, hat, -⟩ := h
  unfold typesPackageName
  split
  · next rest hlist =>
    rw [startsWith_iff.2 ⟨rest, hlist⟩] at hat
    cases hat
  · rfl

theorem toList_typesPackageName_withScope {scope : String} (h : '/' ∉ scope.toList)
    (name : String) :
    (typesPackageName (withScope scope name).text).toList =
      scope.toList ++ ('_' :: '_' :: name.toList) := by
  have hfirst : ¬ ['/'] <:+: scope.toList ++ [] := by
    rw [List.append_nil, List.singleton_infix_iff]
    exact h
  have hcut : cutAt? ['/'] (scope.toList ++ '/' :: name.toList) =
      some (scope.toList, name.toList) :=
    cutAt?_of_first (List.cons_ne_nil _ _) hfirst _
  simp only [typesPackageName, toList_text_withScope, hcut, String.toList_ofList]

/-- The name of the package with the types is one segment. -/
theorem slash_not_mem_typesPackageName {p : PackageName} (h : p.IsPlainlyRead) :
    '/' ∉ (typesPackageName p.text).toList := by
  cases p with
  | plain name =>
    rw [text, typesPackageName_plain h]
    exact h.1
  | withScope scope name =>
    obtain ⟨hscope, hname, -⟩ := h
    rw [toList_typesPackageName_withScope hscope]
    simp [hscope, hname]

/-- The name of a package is found again from the name of the package with its types. -/
theorem packageOfTypes_typesPackageName {p : PackageName} (h : p.IsPlainlyRead) :
    packageOfTypes (typesPackageName p.text).toList = p.text.toList := by
  have hmark : ['_', '_'] ≠ [] := List.cons_ne_nil _ _
  cases p with
  | plain name =>
    rw [text, typesPackageName_plain h, packageOfTypes, cutAt?_of_not_infix hmark h.2.2]
  | withScope scope name =>
    obtain ⟨hscope, -, -, hends, hus⟩ := h
    rw [toList_text_withScope] at hus ⊢
    have hfirst : ¬ ['_', '_'] <:+: scope.toList ++ ['_'] := by
      intro hpart
      rcases List.infix_concat_iff.1 hpart with ⟨before, hbefore⟩ | hinside
      · -- the scope would end in an underscore
        have hlast : scope.toList = before ++ ['_'] := by
          refine List.append_cancel_right (hbefore.symm.trans ?_)
          simp
        rw [endsWith_iff.2 ⟨before, hlast⟩] at hends
        cases hends
      · apply hus
        exact hinside.trans ⟨['@'], '/' :: name.toList, by simp⟩
    have hcut : cutAt? ['_', '_'] (scope.toList ++ '_' :: '_' :: name.toList) =
        some (scope.toList, name.toList) :=
      cutAt?_of_first hmark hfirst _
    rw [packageOfTypes, toList_typesPackageName_withScope hscope, hcut]

end PackageName

/-! ## Paths of files -/

/-- A path inside a package that imports write as it is. -/
def IsImportPath (subpath : String) : Prop :=
  subpath ≠ "" ∧ "node_modules".toList ∉ splitAt '/' subpath.toList ∧
    endsWith ".d".toList subpath.toList = false ∧
    (splitAt '/' subpath.toList).getLast? ≠ some "index".toList

/-- Of two endings the earlier one is not a part of the later one, and when the later one is a part
of the earlier one, what stands before it is `.d`. -/
theorem pairwise_specifierEndings :
    specifierEndings.Pairwise fun earlier later => ¬ earlier.toList <:+ later.toList ∧
      (later.toList <:+ earlier.toList → earlier.toList = ".d".toList ++ later.toList) := by
  decide

/-- An ending is taken from a path that does not end in `.d` without it. -/
theorem findSome?_ending {inside : List Char} {ending : String}
    (hending : ending ∈ specifierEndings) (h : endsWith ".d".toList inside = false) :
    (specifierEndings.findSome? fun ending' => before? ending'.toList (inside ++ ending.toList)) =
      some inside := by
  obtain ⟨earlier, later, hsplit⟩ := List.append_of_mem hending
  refine List.findSome?_eq_some_iff.2 ⟨earlier, ending, later, hsplit, before?_eq_some_iff.2 rfl,
    fun other hother => ?_⟩
  have hpairwise := pairwise_specifierEndings
  rw [hsplit, List.pairwise_append] at hpairwise
  obtain ⟨hnot, hlonger⟩ := hpairwise.2.2 other hother ending List.mem_cons_self
  cases hbefore : before? other.toList (inside ++ ending.toList) with
  | none => rfl
  | some front =>
    have heq := before?_eq_some_iff.1 hbefore
    rcases List.append_eq_append_iff.1 heq with ⟨back, -, hback⟩ | ⟨back, hback, hback'⟩
    · exact absurd ⟨back, hback.symm⟩ hnot
    · have hback'' : back = ".d".toList :=
        List.append_cancel_right (hback'.symm.trans (hlonger ⟨back, hback'.symm⟩))
      rw [endsWith_iff.2 ⟨front, hback'' ▸ hback⟩] at h
      cases h

theorem importSubpath_append {inside : List Char} {ending : String}
    (hending : ending ∈ specifierEndings) (h : endsWith ".d".toList inside = false) :
    importSubpath (inside ++ ending.toList) =
      if inside == "index".toList then [] else (before? "/index".toList inside).getD inside := by
  rw [importSubpath, findSome?_ending hending h, Option.getD_some]

/-- A module is imported without the ending of its file. -/
theorem importSubpath_file {subpath ending : String} (h : IsImportPath subpath)
    (hending : ending ∈ specifierEndings) :
    importSubpath (subpath.toList ++ ending.toList) = subpath.toList := by
  obtain ⟨-, -, hends, hindex⟩ := h
  have hslash : '/' ∉ "index".toList := by decide
  have hne : subpath.toList ≠ "index".toList := by
    intro heq
    rw [heq, splitAt_of_not_mem hslash] at hindex
    exact hindex rfl
  have hnone : before? "/index".toList subpath.toList = none := by
    cases hbefore : before? "/index".toList subpath.toList with
    | none => rfl
    | some front =>
      have heq : subpath.toList = front ++ '/' :: "index".toList := before?_eq_some_iff.1 hbefore
      rw [heq, splitAt_append_cons, splitAt_of_not_mem hslash] at hindex
      exact absurd List.getLast?_concat hindex
  rw [importSubpath_append hending hends, if_neg (by simpa using hne), hnone, Option.getD_none]

/-- The file `index` in a directory is imported as the directory. -/
theorem importSubpath_index (subpath : String) {ending : String}
    (hending : ending ∈ specifierEndings) :
    importSubpath (subpath.toList ++ "/index".toList ++ ending.toList) = subpath.toList := by
  have hends : endsWith ".d".toList (subpath.toList ++ "/index".toList) = false := by
    rw [Bool.eq_false_iff]
    intro hd
    obtain ⟨front, hfront⟩ := endsWith_iff.1 hd
    have hlast := congrArg List.getLast? hfront
    simp at hlast
  have hne : subpath.toList ++ "/index".toList ≠ "index".toList := by
    intro heq
    have hlength := congrArg List.length heq
    rw [List.length_append] at hlength
    have : "/index".toList.length = 6 := rfl
    have : "index".toList.length = 5 := rfl
    omega
  have hsome : before? "/index".toList (subpath.toList ++ "/index".toList) = some subpath.toList :=
    before?_eq_some_iff.2 rfl
  rw [importSubpath_append hending hends, if_neg (by simpa using hne), hsome, Option.getD_some]

/-- The segments behind a directory of packages under which the files of a package lie. -/
inductive Installed : List (List Char) → List Char → Prop
  | plain {name : List Char} (hat : startsWith ['@'] name = false) : Installed [name] name
  | withScope {scope name : List Char} (htypes : scope ≠ "types".toList) :
      Installed ['@' :: scope, name] ('@' :: (scope ++ '/' :: name))
  | types {name : List Char} : Installed ["@types".toList, name] (packageOfTypes name)

/-- The package that the first segments name, and the segments behind them. -/
def packageOfSegments? : List (List Char) → Option (List Char × List (List Char))
  | [] => none
  | first :: tail =>
    if first == "@types".toList then
      match tail with
      | name :: tail => some (packageOfTypes name, tail)
      | [] => none
    else if startsWith ['@'] first then
      match tail with
      | name :: tail => some (first ++ '/' :: name, tail)
      | [] => none
    else some (first, tail)

theorem Installed.packageOfSegments?_append {segments : List (List Char)} {package : List Char}
    (h : Installed segments package) (inside : List (List Char)) :
    packageOfSegments? (segments ++ inside) = some (package, inside) := by
  cases h with
  | plain hat =>
    have hne : ¬ (package == "@types".toList) = true := by
      rw [beq_iff_eq]
      rintro rfl
      cases hat
    show (if package == "@types".toList then _ else if startsWith ['@'] package then _ else _) = _
    rw [if_neg hne, hat]
    rfl
  | @withScope scope name htypes =>
    have hat : startsWith ['@'] ('@' :: scope) = true := startsWith_iff.2 ⟨scope, rfl⟩
    have hne : ¬ ('@' :: scope == "@types".toList) = true := by
      rw [beq_iff_eq]
      intro heq
      exact htypes (List.cons.inj heq).2
    show (if '@' :: scope == "@types".toList then _
      else if startsWith ['@'] ('@' :: scope) then _ else _) = _
    rw [if_neg hne, if_pos hat]
    rfl
  | types => rfl

theorem exists_installed_of_packageOfSegments? {segments inside : List (List Char)}
    {package : List Char} (h : packageOfSegments? segments = some (package, inside)) :
    ∃ front, Installed front package ∧ segments = front ++ inside := by
  unfold packageOfSegments? at h
  -- the three ways to install a package: its types alone, with a scope, plainly
  split at h
  · cases h
  · next first tail =>
    split at h
    · next htypes =>
      obtain rfl := beq_iff_eq.1 htypes
      split at h
      · next name rest =>
        cases h
        exact ⟨["@types".toList, name], .types, rfl⟩
      · cases h
    · next htypes =>
      split at h
      · next hat =>
        obtain ⟨scope, rfl⟩ := startsWith_iff.1 hat
        split at h
        · next name rest =>
          cases h
          refine ⟨['@' :: scope, name], .withScope fun heq => htypes ?_, rfl⟩
          rw [heq]
          rfl
        · cases h
      · next hat =>
        cases h
        exact ⟨[_], .plain (by simpa using hat), rfl⟩

namespace PackageEntry

/-- A path is read by its segments behind the last directory of packages. -/
theorem ofPath?_eq (path : String) :
    ofPath? path =
      (cutAtLast? "/node_modules/".toList path.toList).bind fun (_, rest) =>
        (packageOfSegments? (splitAt '/' rest)).map fun (package, inside) =>
          ⟨String.ofList package, if (importSubpath (joinWith ['/'] inside)).isEmpty then none
            else some (String.ofList (importSubpath (joinWith ['/'] inside)))⟩ := by
  unfold ofPath? packageOfSegments?
  refine congrArg (Option.bind _) (funext fun (_, rest) => ?_)
  dsimp only
  cases splitAt '/' rest with
  | nil => rfl
  | cons first tail =>
    dsimp only
    split
    · cases tail <;> rfl
    · split
      · cases tail <;> rfl
      · rfl

/-- A directory of packages is the last one of a path when no segment behind it, but for the name of
the file, is one again. -/
theorem cutAtLast?_packages {rest : List Char}
    (h : "node_modules".toList ∉ (splitAt '/' rest).dropLast) (dir : List Char) :
    cutAtLast? "/node_modules/".toList (dir ++ ("/node_modules/".toList ++ rest)) =
      some (dir, rest) := by
  refine cutAtLast?_of_last (by decide) (fun hpart => h ?_) dir
  have hsegment : '/' :: ("node_modules".toList ++ ['/']) <:+: "node_modules".toList ++
    '/' :: rest := hpart
  have hmem := mem_segments_of_infix (by decide) hsegment
  rwa [splitAt_append_cons, splitAt_of_not_mem (by decide)] at hmem

/-- What is read from a path behind its last directory of packages. -/
theorem ofPath?_eq_some_iff {path : String} {dir rest : List Char}
    (hpath : path.toList = dir ++ ("/node_modules/".toList ++ rest))
    (hlast : "node_modules".toList ∉ (splitAt '/' rest).dropLast) {package subpath : String}
    (hne : subpath ≠ "") :
    ofPath? path = some ⟨package, some subpath⟩ ↔
      ∃ front inside, Installed front package.toList ∧ splitAt '/' rest = front ++ inside ∧
        importSubpath (joinWith ['/'] inside) = subpath.toList := by
  rw [ofPath?_eq, hpath, cutAtLast?_packages hlast, Option.bind_some]
  dsimp only
  rw [Option.map_eq_some_iff]
  constructor
  · rintro ⟨⟨name, inside⟩, hpackage, heq⟩
    obtain ⟨front, hfront, hsegments⟩ := exists_installed_of_packageOfSegments? hpackage
    obtain ⟨hname, hsubpath⟩ := PackageEntry.mk.inj heq
    split at hsubpath
    · cases hsubpath
    · rw [← hname, ← Option.some.inj hsubpath, String.toList_ofList, String.toList_ofList]
      exact ⟨front, inside, hfront, hsegments, rfl⟩
  · rintro ⟨front, inside, hfront, hsegments, hsubpath⟩
    refine ⟨(package.toList, inside), hsegments ▸ hfront.packageOfSegments?_append inside, ?_⟩
    dsimp only
    rw [hsubpath, if_neg (by simpa using hne), String.ofList_toList, String.ofList_toList]

end PackageEntry

/-! ## Modules by their paths -/

/-- The directories in which a package is installed: its own and that of the package with its
types. -/
def PackageName.directories (p : PackageName) : List String :=
  [p.text, "@types/" ++ typesPackageName p.text]

/-- The files that a module of a package can be. -/
def moduleFiles (subpath ending : String) : List String :=
  [subpath ++ ending, subpath ++ "/index" ++ ending]

theorem PackageName.segments_directory {p : PackageName} (h : p.IsPlainlyRead) {directory : String}
    (hdirectory : directory ∈ p.directories) :
    Installed (splitAt '/' directory.toList) p.text.toList := by
  have hcases : directory = p.text ∨ directory = "@types/" ++ typesPackageName p.text := by
    simpa [directories] using hdirectory
  rcases hcases with rfl | rfl
  · cases p with
    | plain name =>
      obtain ⟨hslash, hat, -⟩ := h
      rw [text, splitAt_of_not_mem hslash]
      exact .plain hat
    | withScope scope name =>
      obtain ⟨hscope, hname, htypes, -⟩ := h
      have hslash : '/' ∉ '@' :: scope.toList := by simp [hscope]
      rw [toList_text_withScope, ← List.cons_append, splitAt_append_cons, splitAt_of_not_mem hslash,
        splitAt_of_not_mem hname]
      exact .withScope fun heq => htypes (String.toList_inj.1 heq)
  · have hlist : ("@types/" ++ typesPackageName p.text).toList =
        "@types".toList ++ '/' :: (typesPackageName p.text).toList := by
      rw [String.toList_append]
      rfl
    rw [hlist, splitAt_append_cons, splitAt_of_not_mem (by decide),
      splitAt_of_not_mem (slash_not_mem_typesPackageName h),
      ← packageOfTypes_typesPackageName h]
    exact .types

theorem importSubpath_moduleFile {subpath ending file : String} (h : IsImportPath subpath)
    (hending : ending ∈ specifierEndings) (hfile : file ∈ moduleFiles subpath ending) :
    importSubpath file.toList = subpath.toList ∧
      "node_modules".toList ∉ (splitAt '/' file.toList).dropLast := by
  have hslash : ∀ ending ∈ specifierEndings,
    '/' ∉ ending.toList ∧ '/' ∉ "index".toList ++ ending.toList := by decide
  obtain ⟨hplain, hindex⟩ := hslash ending hending
  have hcases : file = subpath ++ ending ∨ file = subpath ++ "/index" ++ ending := by
    simpa [moduleFiles] using hfile
  rcases hcases with rfl | rfl
  · rw [String.toList_append, importSubpath_file h hending, dropLast_splitAt_append hplain]
    exact ⟨rfl, fun hmem => h.2.1 (List.mem_of_mem_dropLast hmem)⟩
  · have hlist : (subpath ++ "/index" ++ ending).toList =
        subpath.toList ++ '/' :: ("index".toList ++ ending.toList) := by
      rw [String.toList_append, String.toList_append, List.append_assoc]
      rfl
    have himport := importSubpath_index subpath hending
    rw [List.append_assoc] at himport
    rw [hlist, splitAt_append_cons, splitAt_of_not_mem hindex, List.dropLast_concat]
    exact ⟨himport, h.2.1⟩

theorem joinWith_splitAt (cs : List Char) : joinWith ['/'] (splitAt '/' cs) = cs := by
  rw [joinWith_eq_intercalate, splitAt_eq_splitOn]
  exact List.intercalate_splitOn '/'

theorem length_packageOfTypes (name : List Char) : (packageOfTypes name).length = name.length := by
  unfold packageOfTypes
  split
  · next scope package hcut =>
    rw [eq_of_cutAt? (List.cons_ne_nil _ _) hcut]
    simp
    omega
  · rfl

theorem length_importSubpath_le (path : List Char) : (importSubpath path).length ≤ path.length := by
  have hbefore : ∀ {tail cs front : List Char}, before? tail cs = some front →
      front.length ≤ cs.length := by
    intro tail cs front h
    rw [before?_eq_some_iff.1 h, List.length_append]
    exact Nat.le_add_right _ _
  have hbare :
      ((specifierEndings.findSome? fun ending => before? ending.toList path).getD path).length ≤
      path.length := by
    cases hfind : specifierEndings.findSome? fun ending => before? ending.toList path with
    | none => exact le_rfl
    | some front =>
      obtain ⟨ending, -, hending⟩ := List.exists_of_findSome?_eq_some hfind
      exact hbefore hending
  rw [importSubpath]
  split
  · exact Nat.zero_le _
  · refine le_trans ?_ hbare
    cases hindex : before? "/index".toList
        ((specifierEndings.findSome? fun ending => before? ending.toList path).getD path) with
    | none => exact le_rfl
    | some front => exact hbefore hindex

theorem length_moduleFile_le {subpath ending file : String} (hending : ending ∈ specifierEndings)
    (hfile : file ∈ moduleFiles subpath ending) :
    file.toList.length ≤ subpath.toList.length + 12 := by
  have hlength : ∀ ending ∈ specifierEndings, ending.toList.length ≤ 6 := by decide
  have hle := hlength ending hending
  have hindex : "/index".toList.length = 6 := rfl
  have hcases : file = subpath ++ ending ∨ file = subpath ++ "/index" ++ ending := by
    simpa [moduleFiles] using hfile
  rcases hcases with rfl | rfl
  · rw [String.toList_append, List.length_append]
    omega
  · rw [String.toList_append, String.toList_append, List.length_append, List.length_append]
    omega

namespace Installed

/-- A directory of packages in a directory of packages is the last segment of the name of a
package. -/
theorem exists_packages {segments : List (List Char)} {package : List Char}
    (h : Installed segments package) (hmem : "node_modules".toList ∈ segments) :
    (∃ us, '/' :: joinWith ['/'] segments = us ++ "/node_modules".toList) ∧
      (package = "node_modules".toList ∨ ∃ scope,
        package = '@' :: (scope ++ '/' :: "node_modules".toList)) := by
  cases h with
  | plain hat =>
    obtain rfl := List.mem_singleton.1 hmem
    exact ⟨⟨[], rfl⟩, .inl rfl⟩
  | @withScope scope name htypes =>
    rcases List.mem_cons.1 hmem with heq | hmem
    · exact absurd (List.cons.inj heq).1 (by decide)
    · obtain rfl := List.mem_singleton.1 hmem
      exact ⟨⟨'/' :: '@' :: scope, by simp [joinWith]⟩, .inr ⟨scope, rfl⟩⟩
  | @types name =>
    rcases List.mem_cons.1 hmem with heq | hmem
    · exact absurd heq (by decide)
    · obtain rfl := List.mem_singleton.1 hmem
      exact ⟨⟨"/@types".toList, rfl⟩, .inl (by decide)⟩

/-- A package whose name is a directory of packages, or ends with one, is not named by other
segments, unless by the name of a package with types. -/
theorem exists_types_of_packages {front : List (List Char)} {package : List Char}
    (h : Installed front package) (hpackage : package = "node_modules".toList ∨ ∃ scope,
      package = '@' :: (scope ++ '/' :: "node_modules".toList))
    (hnot : "node_modules".toList ∉ front) (hslash : ∀ segment ∈ front, '/' ∉ segment) :
    ∃ name, front = ["@types".toList, name] ∧ "@/node_modules".length ≤ name.length := by
  cases h with
  | plain hat =>
    rcases hpackage with rfl | ⟨scope, rfl⟩
    · exact absurd List.mem_cons_self hnot
    · cases hat
  | @withScope scope name htypes =>
    rcases hpackage with heq | ⟨scope', heq⟩
    · exact absurd (List.cons.inj heq).1 (by decide)
    · -- both names have the same last segment
      have hname := last_segment_unique (hslash name (by simp)) (by decide) (List.cons.inj heq).2
      exact absurd (hname ▸ List.mem_cons_of_mem _ List.mem_cons_self) hnot
  | @types name =>
    refine ⟨name, rfl, ?_⟩
    rcases hpackage with heq | ⟨scope, heq⟩
    · -- the name would be that of a directory of packages
      unfold packageOfTypes at heq
      split at heq
      · exact absurd (List.cons.inj heq).1 (by decide)
      · rw [heq] at hnot
        exact absurd (by simp) hnot
    · have hlength : "@/node_modules".length = 14 := rfl
      rw [← length_packageOfTypes, heq, hlength]
      simp

end Installed

/-- A specifier without a slash at its end is written as it was read. And a file of an installed
package is read as the module of that package that it is, in the directory of the package or in that
of its types, with any ending and also as an `index`, unless a segment of the directory is itself
`node_modules`. -/
theorem PackageEntry.round_trips :
    (∀ s : String, endsWith ['/'] s.toList = false → (ofSpecifier s).specifier = s) ∧
    ∀ (dir : String) (p : PackageName) (subpath ending : String), p.IsPlainlyRead →
      IsImportPath subpath →
      ending ∈ specifierEndings → ∀ directory ∈ p.directories, ∀ file ∈ moduleFiles subpath ending,
        (ofPath? (dir ++ "/node_modules/" ++ directory ++ "/" ++ file) =
          some ⟨p.text, some subpath⟩ ↔
          "node_modules".toList ∉ splitAt '/' directory.toList) := by
  refine ⟨fun s => specifier_ofSpecifier, ?_⟩
  intro dir p subpath ending hp hsubpath hending directory hdirectory file hfile
  have hinstalled := p.segments_directory hp hdirectory
  obtain ⟨himport, hnames⟩ := importSubpath_moduleFile hsubpath hending hfile
  constructor
  · intro h hmem
    obtain ⟨⟨us, hus⟩, hpackage⟩ := hinstalled.exists_packages hmem
    rw [joinWith_splitAt] at hus
    have hpath : (dir ++ "/node_modules/" ++ directory ++ "/" ++ file).toList =
        (dir.toList ++ "/node_modules".toList ++ us) ++
          ("/node_modules/".toList ++ file.toList) := by
      calc (dir ++ "/node_modules/" ++ directory ++ "/" ++ file).toList
          = dir.toList ++ "/node_modules".toList ++
              (('/' :: directory.toList) ++ '/' :: file.toList) := by
            simp
        _ = (dir.toList ++ "/node_modules".toList ++ us) ++
            ("/node_modules/".toList ++ file.toList) := by
            rw [hus]
            simp
    obtain ⟨front, inside, hfront, hsegments, hinside⟩ :=
      (ofPath?_eq_some_iff hpath hnames hsubpath.1).1 h
    -- there is something behind the name of the package, so its segments come before the last one
    have hne : inside ≠ [] := by
      rintro rfl
      have hempty : importSubpath (joinWith ['/'] []) = [] := by decide
      rw [hempty] at hinside
      exact hsubpath.1 (by simpa using hinside.symm)
    have hnot : "node_modules".toList ∉ front := by
      rw [hsegments, List.dropLast_append_of_ne_nil hne, List.mem_append] at hnames
      exact (not_or.1 hnames).1
    have hslash : ∀ segment ∈ front, '/' ∉ segment := fun segment hsegment =>
      (of_mem_splitAt (hsegments ▸ List.mem_append_left inside hsegment)).1
    obtain ⟨name, rfl, hlength⟩ := hfront.exists_types_of_packages hpackage hnot hslash
    -- the path that is read is too short to be the one that was asked for
    obtain ⟨first, rest, rfl⟩ := List.exists_cons_of_ne_nil hne
    have hjoin := joinWith_splitAt file.toList
    rw [hsegments] at hjoin
    have htotal := congrArg List.length hjoin
    have hfile' := length_moduleFile_le hending hfile
    have hshorter := length_importSubpath_le (joinWith ['/'] (first :: rest))
    rw [hinside] at hshorter
    have hfourteen : "@/node_modules".length = 14 := rfl
    simp [joinWith] at htotal hshorter
    omega
  · intro hsegments
    have hpath : (dir ++ "/node_modules/" ++ directory ++ "/" ++ file).toList =
        dir.toList ++ ("/node_modules/".toList ++ (directory.toList ++ '/' :: file.toList)) := by
      simp only [String.toList_append, List.append_assoc]
      rfl
    have hrest := splitAt_append_cons '/' directory.toList file.toList
    have hnonempty : splitAt '/' file.toList ≠ [] := by
      rw [splitAt_eq_splitOn]
      exact List.splitOn_ne_nil _ _
    have hlast : "node_modules".toList ∉
        (splitAt '/' (directory.toList ++ '/' :: file.toList)).dropLast := by
      rw [hrest, List.dropLast_append_of_ne_nil hnonempty, List.mem_append]
      exact not_or.2 ⟨hsegments, hnames⟩
    refine (ofPath?_eq_some_iff hpath hlast hsubpath.1).2 ⟨_, _, hinstalled, hrest, ?_⟩
    rw [joinWith_splitAt, himport]

/-- The types of `@scope/pkg` lie under `@types/scope__pkg`, and a file there is read as a module of
the package. -/
theorem PackageEntry.round_trips_of_types :
    (ofSpecifier "@scope/pkg/lib/sub").specifier = "@scope/pkg/lib/sub" ∧
      ofPath? ("/app" ++ "/node_modules/" ++ "@types/scope__pkg" ++ "/" ++ "lib/sub/index.d.ts") =
        some ⟨"@scope/pkg", some "lib/sub"⟩ := by
  refine ⟨round_trips.1 "@scope/pkg/lib/sub" (by decide), ?_⟩
  refine (round_trips.2 "/app" (.withScope "scope" "pkg") "lib/sub" ".d.ts" ?_ ?_ ?_
    "@types/scope__pkg" ?_
    "lib/sub/index.d.ts" ?_).2 ?_
  · unfold PackageName.IsPlainlyRead
    decide
  · unfold IsImportPath
    decide
  · decide
  · decide
  · decide
  · decide

/-- A package whose name ends with a segment `node_modules` is taken for a directory of packages:
its files are read as modules of other packages. -/
theorem PackageEntry.ofPath?_packages_in_scope :
    let p := PackageName.withScope "a" "node_modules"
    p.IsPlainlyRead ∧ IsImportPath "b" ∧ ".ts" ∈ specifierEndings ∧
      ofPath? ("" ++ "/node_modules/" ++ p.text ++ "/" ++ ("b" ++ ".ts")) = some ⟨"b.ts", none⟩ ∧
      ofPath? ("" ++ "/node_modules/" ++ p.text ++ "/" ++ ("b" ++ ".ts")) ≠
        some ⟨p.text, some "b"⟩ := by
  unfold PackageName.IsPlainlyRead IsImportPath
  decide

end DeclBundle
