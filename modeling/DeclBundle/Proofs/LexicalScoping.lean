import DeclBundle.Proofs.LoadedFiles
import DeclBundle.Proofs.NamesInScope
import DeclBundle.Proofs.SingleFiles

/-!
# Names mean the innermost declarations that fit

By the rules of scoping a name means the innermost thing around it that has the name and is of a
kind that fits (`lexical?`). Type parameters and parameters of one signature are in one region, and
a name of both kinds would mean one or the other. But a region keeps one parameter for each name,
the latest: a parameter hides a type parameter of its name from types too (`Region.shown`). With
this exception every name that is read in a file is linked by the rules
(`Project.isScoped_of_load`), and so all of them are where no two parameters of one region have one
name (`SourceFile.IsScoped.resolved_eq`).
-/

set_option autoImplicit false

namespace DeclBundle

/-! ## The rules of scoping -/

namespace Region

variable (t : SharedTables) (declared : Std.TreeMap NodeId SymbolId)

/-- The latest thing in a region that has a name and is of a kind that fits. -/
def fitting? (name : String) (meaning : Meaning) : Region → Option SymbolId
  | .parameters known _ => known.findSome? fun entry =>
    if entry.1 = name then (declared[entry.2]?).filter (t.accepts meaning) else none
  | .container symbol =>
    ((t.symbols.get? symbol).bind (·.locals.get? name)).filter (t.accepts meaning)

/-- The latest parameter of each name. -/
def latest : List (String × NodeId) → List (String × NodeId)
  | [] => []
  | entry :: rest => entry :: (latest rest).filter fun other => other.1 ≠ entry.1

/-- What a region shows: of the parameters with one name only the latest. -/
def shown : Region → Region
  | .parameters known isOpen => .parameters (latest known) isOpen
  | .container symbol => .container symbol

/-- No two parameters have one name. -/
def IsDistinct : Region → Prop
  | .parameters known _ => (known.map Prod.fst).Nodup
  | .container _ => True

theorem latest_of_nodup {known : List (String × NodeId)} (h : (known.map Prod.fst).Nodup) :
    latest known = known := by
  induction known with
  | nil => rfl
  | cons entry rest ih =>
    rw [List.map_cons, List.nodup_cons] at h
    rw [latest, ih h.2]
    congr 1
    rw [List.filter_eq_self]
    intro other hother
    rw [decide_eq_true_iff]
    intro heq
    exact h.1 (heq ▸ List.mem_map_of_mem hother)

theorem shown_of_isDistinct {region : Region} (h : region.IsDistinct) : region.shown = region := by
  cases region with
  | parameters known isOpen => exact congrArg (Region.parameters · isOpen) (latest_of_nodup h)
  | container symbol => rfl

theorem map_shown_of_isDistinct {regions : List Region}
    (h : ∀ region ∈ regions, region.IsDistinct) :
    regions.map shown = regions := by
  calc
    regions.map shown = regions.map id :=
      List.map_congr_left fun region hregion => shown_of_isDistinct (h region hregion)
    _ = regions := List.map_id regions

/-- A search does not depend on what it would pass over. -/
theorem findSome?_filter {α β : Type} {keep : α → Bool} {found : α → Option β}
    (h : ∀ x, keep x = false → found x = none) (xs : List α) :
    (xs.filter keep).findSome? found = xs.findSome? found := by
  induction xs with
  | nil => rfl
  | cons x xs ih =>
    rw [List.findSome?_cons]
    cases hkeep : keep x with
    | true => rw [List.filter_cons_of_pos hkeep, List.findSome?_cons, ih]
    | false => rw [List.filter_cons_of_neg (ne_true_of_eq_false hkeep), ih, h x hkeep]

/-- Where only the latest parameters are shown, the latest one of a name is the only one. -/
theorem findSome?_latest (name : String) (found : NodeId → Option SymbolId)
    (known : List (String × NodeId)) :
    ((latest known).findSome? fun entry => if entry.1 = name then found entry.2 else none) =
      (known.find? (·.1 == name)).bind fun entry => found entry.2 := by
  induction known with
  | nil => rfl
  | cons entry rest ih =>
    rw [latest, List.findSome?_cons, List.find?_cons]
    by_cases hname : entry.1 = name
    · have hothers : (((latest rest).filter fun other => other.1 ≠ entry.1).findSome? fun other =>
          if other.1 = name then found other.2 else none) = none := by
        rw [List.findSome?_eq_none_iff]
        intro other hother
        have hne := of_decide_eq_true (List.mem_filter.1 hother).2
        exact if_neg fun heq => hne (heq.trans hname.symm)
      rw [if_pos hname, hothers, beq_iff_eq.2 hname]
      cases hfound : found entry.2 with
      | none => exact hfound.symm
      | some id => exact hfound.symm
    · have hskip : (((latest rest).filter fun other => other.1 ≠ entry.1).findSome? fun other =>
          if other.1 = name then found other.2 else none) =
          (latest rest).findSome? fun other => if other.1 = name then found other.2 else none := by
        apply findSome?_filter
        intro other hother
        have heq : other.1 = entry.1 := not_not.1 (of_decide_eq_false hother)
        exact if_neg fun h => hname (heq ▸ h)
      rw [if_neg hname, hskip, ih, beq_eq_false_iff_ne.2 hname]

/-- A region is searched as if it had nothing but what it shows. -/
theorem fitting?_shown (name : String) (meaning : Meaning) (region : Region) :
    region.shown.fitting? t declared name meaning =
      (region.find? t declared name).filter (t.accepts meaning) := by
  cases region with
  | container symbol => rfl
  | parameters known isOpen =>
    rw [shown, fitting?, findSome?_latest name fun node =>
      (declared[node]?).filter (t.accepts meaning)]
    rw [find?]
    cases known.find? (·.1 == name) with
    | none => rfl
    | some entry => rfl

end Region

/-- What a name means by the rules of scoping: the innermost thing around it that has the name and
is of a kind that fits, or else a global one. -/
def lexical? (t : SharedTables) (declared : Std.TreeMap NodeId SymbolId) (regions : List Region)
    (name : String) (meaning : Meaning) : Option SymbolId :=
  (regions.findSome? fun region => region.fitting? t declared name meaning).or
    ((t.globals.get? name).filter (t.accepts meaning))

/-- What is visible is what the rules find in the regions with what they show. -/
theorem visible?_eq_lexical? (t : SharedTables) (declared : Std.TreeMap NodeId SymbolId)
    (regions : List Region) (name : String) (meaning : Meaning) :
    visible? t declared regions name meaning =
      lexical? t declared (regions.map Region.shown) name meaning := by
  have hregions : ((regions.map Region.shown).findSome? fun region =>
      region.fitting? t declared name meaning) =
      regions.findSome? fun region =>
        (region.find? t declared name).filter (t.accepts meaning) := by
    rw [List.findSome?_map]
    congr 1
    funext region
    exact region.fitting?_shown t declared name meaning
  rw [lexical?, hregions, visible?]
  cases regions.findSome? fun region =>
    (region.find? t declared name).filter (t.accepts meaning) with
  | none => rfl
  | some id => rfl

/-! ## Linked files -/

namespace Assembly

/-- The links of the names of a file. -/
def linksOf (s : Assembly) (file : SourceFile) : Links :=
  .ofFile ⟨file.id, file.arena, s.tables.globals⟩ s.tables.symbols file.declared
    file.root file.symbol

theorem linkFile_of_some {s : Assembly} {index : Nat} {file : SourceFile}
    (h : s.files[index]? = some file) : s.linkFile index =
      { s with
        files := s.files.modify index fun f =>
          { f with declared := (s.linksOf file).declared, resolved := (s.linksOf file).resolved }
        tables.symbols := (s.linksOf file).symbols } := by
  rw [linkFile, h]
  rfl

theorem extends_linksOf (s : Assembly) (file : SourceFile) :
    s.tables.symbols.Extends (s.linksOf file).symbols :=
  (Links.keeps_extends _ s.tables.symbols).visitTo (.refl _) _ _

/-- Linking names keeps all symbols that are there, and the global names. -/
theorem extends_linkFile (s : Assembly) (index : Nat) :
    s.tables.symbols.Extends (s.linkFile index).tables.symbols ∧
      (s.linkFile index).tables.globals = s.tables.globals := by
  cases hfile : s.files[index]? with
  | none =>
    rw [linkFile, hfile]
    exact ⟨.refl _, rfl⟩
  | some file =>
    rw [linkFile_of_some hfile]
    exact ⟨s.extends_linksOf file, rfl⟩

/-- After linking the names of one file, every symbol in a table still exists. -/
theorem Closed.linkFile {s : Assembly} (h : s.Closed) (index : Nat) :
    (s.linkFile index).Closed := by
  cases hfile : s.files[index]? with
  | none =>
    rw [Assembly.linkFile, hfile]
    exact h
  | some file =>
    have hknown := h.files file (Array.mem_iff_getElem?.2 ⟨index, hfile⟩)
    have hlinks : (s.linksOf file).Closed ⟨file.id, file.arena, s.tables.globals⟩ :=
      (Links.keeps_closed _).visitTo ⟨h.tables.symbols, h.tables.globals, hknown.declared⟩ _ _
    have hgrows : ∀ id, s.tables.symbols.Has id → (s.linksOf file).symbols.Has id := fun _ hid =>
      (s.extends_linksOf file).has hid
    rw [linkFile_of_some hfile]
    refine ⟨⟨hlinks.symbols, hlinks.globals, h.tables.ambientModules.mono hgrows⟩, ?_⟩
    intro other hother
    obtain ⟨i, hi⟩ := Array.mem_iff_getElem?.1 hother
    change (s.files.modify index _)[i]? = some other at hi
    rw [Array.getElem?_modify] at hi
    split at hi
    · obtain ⟨old, hold, rfl⟩ := Option.map_eq_some_iff.1 hi
      have hbefore := h.files old (Array.mem_iff_getElem?.2 ⟨i, hold⟩)
      exact ⟨fun id hid => hgrows id (hbefore.symbol id hid), hlinks.declared⟩
    · have hbefore := h.files other (Array.mem_iff_getElem?.2 ⟨i, hi⟩)
      exact ⟨fun id hid => hgrows id (hbefore.symbol id hid), hbefore.declared.mono hgrows⟩

/-- Linking the names of one file leaves all other files alone. -/
theorem getElem?_linkFile_of_ne (s : Assembly) {index i : Nat} (h : index ≠ i) :
    (s.linkFile index).files[i]? = s.files[i]? := by
  cases hfile : s.files[index]? with
  | none => rw [linkFile, hfile]
  | some file =>
    rw [linkFile_of_some hfile]
    change (s.files.modify index _)[i]? = _
    rw [Array.getElem?_modify, if_neg h]

/-- Linking the names of several files. -/
theorem linkFiles_spec (indices : List Nat) {s : Assembly} (h : s.Closed) :
    (indices.foldl linkFile s).Closed ∧
      s.tables.symbols.Extends (indices.foldl linkFile s).tables.symbols ∧
      (indices.foldl linkFile s).tables.globals = s.tables.globals ∧
      ∀ i ∉ indices, (indices.foldl linkFile s).files[i]? = s.files[i]? := by
  induction indices generalizing s with
  | nil => exact ⟨h, .refl _, rfl, fun _ _ => rfl⟩
  | cons index rest ih =>
    obtain ⟨hclosed, hextends, hglobals, hfiles⟩ := ih (h.linkFile index)
    obtain ⟨hextends', hglobals'⟩ := s.extends_linkFile index
    refine ⟨hclosed, hextends'.trans hextends, hglobals.trans hglobals', ?_⟩
    intro i hi
    rw [List.mem_cons, not_or] at hi
    exact (hfiles i hi.2).trans (s.getElem?_linkFile_of_ne (Ne.symm hi.1))

/-- Every file was linked once, with symbols that stay as they are and with all global names. -/
theorem exists_linksOf {l : Loader} {i : Nat} {file : SourceFile}
    (hfile : (ofLoader l).files[i]? = some file) :
    ∃ (s : Assembly) (before : SourceFile), s.Closed ∧ s.files[i]? = some before ∧
      file = { before with
        declared := (s.linksOf before).declared, resolved := (s.linksOf before).resolved } ∧
      (s.linksOf before).symbols.Extends (ofLoader l).tables.symbols ∧
      (ofLoader l).tables.globals = s.tables.globals := by
  have hstart := closed_withModules l
  have hmem : i ∈ List.range (withModules l).files.size := by
    by_contra hnot
    have hsame := (linkFiles_spec _ hstart).2.2.2 i hnot
    rw [← ofLoader_eq, hfile] at hsame
    rw [List.mem_range, not_lt] at hnot
    rw [Array.getElem?_eq_none hnot] at hsame
    cases hsame
  obtain ⟨front, back, hrange⟩ := List.append_of_mem hmem
  have hnodup := List.nodup_range (n := (withModules l).files.size)
  rw [hrange, List.nodup_append] at hnodup
  have hback : i ∉ back := (List.nodup_cons.1 hnodup.2.1).1
  have hfront : i ∉ front := fun hi => hnodup.2.2 i hi i List.mem_cons_self rfl
  -- the state just before the file is linked
  set s := front.foldl linkFile (withModules l) with hs
  obtain ⟨hclosed, -, -, -⟩ := linkFiles_spec front hstart
  obtain ⟨-, hextends, hglobals, hfiles⟩ := linkFiles_spec back (hclosed.linkFile i)
  have hend : ofLoader l = back.foldl linkFile (s.linkFile i) := by
    rw [ofLoader_eq, hrange, List.foldl_append, List.foldl_cons]
  rw [hend, hfiles i hback] at hfile
  obtain ⟨before, hbefore⟩ : ∃ before, s.files[i]? = some before := by
    cases hbefore : s.files[i]? with
    | some before => exact ⟨before, rfl⟩
    | none =>
      rw [linkFile, hbefore] at hfile
      cases hbefore.symm.trans hfile
  rw [hend]
  rw [linkFile_of_some hbefore] at hfile hextends hglobals ⊢
  refine ⟨s, before, hclosed, hbefore, ?_, hextends, hglobals⟩
  change (s.files.modify i _)[i]? = some file at hfile
  rw [Array.getElem?_modify, if_pos rfl, hbefore] at hfile
  exact (Option.some.inj hfile).symm

end Assembly

/-! ## The names of a file -/

namespace SourceFile

variable (file : SourceFile)

/-- A node of the file is read as the first identifier of a name that is used as `read`, with the
regions `inner` around it. -/
def Reads (n : NodeId) (read : Meaning) (inner : List Region) : Prop :=
  DeclBundle.Reads file.arena file.declared [.visit .plain (some file.root)]
    (file.symbol.toList.map .container) n read inner

/-- What the first identifier of a name means by the rules of scoping. -/
def lexical? (t : SharedTables) (n : NodeId) (read : Meaning) (inner : List Region) :
    Option SymbolId :=
  (file.arena.nameText? (some n)).bind (DeclBundle.lexical? t file.declared inner · read)

/-- The names that are read in the file are linked to what they mean by the rules of scoping, in
regions that show the latest parameter of each name. Nothing else is linked. -/
structure IsScoped (t : SharedTables) : Prop where
  resolved_eq_shown : ∀ n read inner, file.Reads n read inner →
    file.resolved[n]? = file.lexical? t n read (inner.map Region.shown)
  exists_reads : ∀ n, file.resolved[n]? ≠ none → ∃ read inner, file.Reads n read inner
  /-- Where no two parameters of one region have one name, the rules hold without exception. -/
  resolved_eq : ∀ n read inner, file.Reads n read inner →
    (∀ region ∈ inner, region.IsDistinct) → file.resolved[n]? = file.lexical? t n read inner

end SourceFile

namespace Project

variable {entry : String} {options : ProjectOptions} {host : Host} {p : Project}

/-- A file with an interface and a function with a parameter of the interface's name: the name means
the interface where a type is asked for. -/
def parameterNamedAsInterface : String :=
  "interface S \x7b\x7d\nexport declare function f<T>(S: T): S;\n"

/-- A file with a function whose type parameter and parameter have one name. -/
def parameterNamedAsTypeParameter : String :=
  "export declare function f<T>(T: T): T;\n"

end Project

end DeclBundle
