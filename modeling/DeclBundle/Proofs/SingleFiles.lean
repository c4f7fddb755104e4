import DeclBundle.Proofs.Forms
import DeclBundle.Proofs.ReachedFiles

/-!
# Projects of one file

A file without specifiers is a project on its own: it is read, what it declares is declared, and its
names are linked (`Project.ofFiles_alone`). Two equations take the long way out of reading it. The
text is a list of characters from the start (`parseFile_eq`), and instead of one after the other all
parents are set at once (`Arena.setParents_eq`). With them a project with deep nodes can be
computed.
-/

set_option autoImplicit false

namespace DeclBundle

/-! ## Parents -/

namespace Arena

/-- The nodes below a node, each with its parent, in the order in which the parents are set. -/
def adoptionsTo (depth : Nat) (a : Arena) (root : NodeId) : List (NodeId × NodeId) :=
  match depth with
  | 0 => []
  | depth + 1 =>
    let below := a.children (some root)
    below.map (·, root) ++ below.reverse.flatMap (adoptionsTo depth a)

/-- Gives nodes their parents, one after the other. -/
def adoptEach (a : Arena) (adoptions : List (NodeId × NodeId)) : Arena :=
  adoptions.foldl (fun a adoption => a.adopt adoption.2 [adoption.1]) a

/-- Gives all nodes their parents at once. Of two parents of a node the later one counts. -/
def adoptAll (a : Arena) (adoptions : List (NodeId × NodeId)) : Arena :=
  let later := adoptions.reverse
  { a with nodes := ⟨a.nodes.toList.zipIdx.map fun (node, i) =>
    { node with parent := (later.find? (·.1.index == i)).elim node.parent (some ·.2) }⟩ }

theorem form?_adoptEach (a : Arena) (adoptions : List (NodeId × NodeId)) (slot : Slot) :
    (a.adoptEach adoptions).form? slot = a.form? slot := by
  unfold adoptEach
  induction adoptions generalizing a with
  | nil => rfl
  | cons adoption rest ih => rw [List.foldl_cons, ih, form?_adopt]

theorem adoptEach_append (a : Arena) (first rest : List (NodeId × NodeId)) :
    a.adoptEach (first ++ rest) = (a.adoptEach first).adoptEach rest :=
  List.foldl_append

theorem adoptEach_map (a : Arena) (root : NodeId) (nodes : List NodeId) :
    a.adoptEach (nodes.map (·, root)) = a.adopt root nodes :=
  List.foldl_map

/-- The nodes and their parents are found by the forms. -/
theorem adoptionsTo_congr {a b : Arena} (h : ∀ slot, b.form? slot = a.form? slot) (depth : Nat)
    (root : NodeId) : b.adoptionsTo depth root = a.adoptionsTo depth root := by
  induction depth generalizing root with
  | zero => rfl
  | succ depth ih =>
    have hchildren : b.children (some root) = a.children (some root) := by
      rw [children, children, h]
    rw [adoptionsTo, adoptionsTo, hchildren, funext ih]

theorem setParentsTo_eq (depth : Nat) (a : Arena) (root : NodeId) :
    setParentsTo depth a root = a.adoptEach (a.adoptionsTo depth root) := by
  induction depth generalizing a root with
  | zero => rfl
  | succ depth ih =>
    have hfold : ∀ (nodes : List NodeId) (b : Arena), (∀ slot, b.form? slot = a.form? slot) →
        nodes.foldl (setParentsTo depth) b = b.adoptEach (nodes.flatMap (a.adoptionsTo depth)) := by
      intro nodes
      induction nodes with
      | nil => exact fun b _ => rfl
      | cons node rest ihnodes =>
        intro b hb
        rw [List.foldl_cons, ih, adoptionsTo_congr hb, List.flatMap_cons, adoptEach_append]
        exact ihnodes _ fun slot => (form?_adoptEach ..).trans (hb slot)
    unfold setParentsTo adoptionsTo
    dsimp only
    rw [adoptEach_append, adoptEach_map]
    exact hfold _ _ (form?_adopt a root _)

theorem getElem?_adoptAll (a : Arena) (adoptions : List (NodeId × NodeId)) (i : Nat) :
    (a.adoptAll adoptions).nodes[i]? = a.nodes[i]?.map fun node =>
      { node with parent :=
        (adoptions.reverse.find? (·.1.index == i)).elim node.parent (some ·.2) } := by
  simp [adoptAll, Option.map_map, Function.comp_def]

theorem adoptAll_cons (a : Arena) (adoption : NodeId × NodeId) (rest : List (NodeId × NodeId)) :
    (a.adopt adoption.2 [adoption.1]).adoptAll rest = a.adoptAll (adoption :: rest) := by
  refine congrArg (Arena.mk · a.docs) (Array.ext_getElem? fun i => ?_)
  refine (getElem?_adoptAll _ rest i).trans (.trans ?_ (getElem?_adoptAll a _ i).symm)
  have hnodes : (a.adopt adoption.2 [adoption.1]).nodes =
      a.nodes.modify adoption.1.index fun node => { node with parent := some adoption.2 } := rfl
  rw [hnodes, Array.getElem?_modify, List.reverse_cons, List.find?_append]
  by_cases hi : adoption.1.index = i
  · rw [if_pos hi, Option.map_map]
    refine congrArg (Option.map · a.nodes[i]?) (funext fun node => ?_)
    cases rest.reverse.find? (·.1.index == i) <;> simp [hi]
  · rw [if_neg hi]
    refine congrArg (Option.map · a.nodes[i]?) (funext fun node => ?_)
    cases rest.reverse.find? (·.1.index == i) <;> simp [hi]

theorem adoptEach_eq (a : Arena) (adoptions : List (NodeId × NodeId)) :
    a.adoptEach adoptions = a.adoptAll adoptions := by
  induction adoptions generalizing a with
  | nil =>
    refine congrArg (Arena.mk · a.docs) (Array.ext_getElem? fun i => ?_)
    exact (getElem?_adoptAll a [] i).symm ▸ (Option.map_id' ..).symm
  | cons adoption rest ih => exact (ih _).trans (adoptAll_cons a adoption rest)

/-- Setting parents one after the other sets all of them. -/
theorem setParents_eq (a : Arena) (root : NodeId) :
    a.setParents (some root) = a.adoptAll (a.adoptionsTo (a.size + 1) root) :=
  (setParentsTo_eq _ a root).trans (adoptEach_eq a _)

end Arena

/-! ## Characters -/

theorem Text.toList_ofList_append {cs ds : List Char} :
    (String.ofList cs ++ String.ofList ds).toList = cs ++ ds := by
  rw [String.toList_append, String.toList_ofList, String.toList_ofList]

/-- A lexer before the first token of a list of characters. -/
def Lexer.ofChars (cs : List Char) : Lexer :=
  let start : Text.Cursor := if cs.head? = some '\ufeff' then ⟨cs.tail, 3⟩ else ⟨cs, 0⟩
  ⟨Text.byteLength cs, start, ⟨.unknown, start, "", false, none⟩, []⟩

theorem Lexer.ofText_eq (text : String) : ofText text = ofChars text.toList := by
  unfold ofText ofChars
  rw [Text.byteLength_toList]
  split
  · next r hmark =>
    rw [hmark]
    rfl
  · next hmark =>
    have hhead : text.toList.head? ≠ some '\ufeff' := fun h => by
      obtain ⟨r, hr⟩ := List.head?_eq_some_iff.1 h
      exact hmark r hr
    rw [if_neg hhead]

/-- A parser that has read nothing yet of a list of characters. -/
def Grammar.State.ofChars (file : String) (cs : List Char) : Grammar.State :=
  { ofText file "" with lexer := .ofChars cs, limit := Text.byteLength cs + 3 }

theorem Grammar.State.ofText_eq (file text : String) :
    ofText file text = ofChars file text.toList := by
  unfold ofText ofChars
  rw [Lexer.ofText_eq, Text.byteLength_toList]
  rfl

/-- The statements of a file, and the state of the parser after them. -/
def readChars (file : String) (cs : List Char) : List Slot × Grammar.State :=
  let initial := Grammar.State.ofChars file cs
  (do
    Grammar.advance
    Grammar.statementsIn (Grammar.rules initial.limit) false initial.limit [] :
      Grammar.Parser _).run initial

/-- Reads a list of characters, and sets all parents at once. -/
def parseChars (file : String) (cs : List Char) : ParsedFile :=
  let read := readChars file cs
  let found := read.2.errors.reverse ++ lexicalDiagnostics file read.2.lexer
  let added := read.2.arena.add (.sourceFile read.1 read.2.isModule) ⟨0, Text.byteLength cs⟩
  ⟨added.1.adoptAll (added.1.adoptionsTo (added.1.size + 1) added.2), added.2,
    found.mergeSort fun d e => d.start ≤ e.start⟩

/-- Reading a text is reading its characters. -/
theorem parseFile_eq (file text : String) : parseFile file text = parseChars file text.toList := by
  have hread : readStatements file text = readChars file text.toList := by
    rw [readStatements, Grammar.State.ofText_eq]
    rfl
  rw [parseFile, parseChars, hread, Text.byteLength_toList]
  rw [Arena.setParents_eq]

/-! ## One file -/

namespace Loader

variable {host : Host} {l : Loader}

/-- A loader that has read nothing yet, with the options that a project has by default. -/
abbrev initial : Loader := { resolver := { rules := ⟨.node10, true⟩ } }

/-- A loader that has read one file and nothing else. -/
def alone (path text : String) (parsed : ParsedFile) : Loader :=
  { initial with
    asked := [path], files := #[initial.nextFile path text .own parsed]
    diagnostics := parsed.diagnostics }

theorem drain_of_queue_nil (h : l.queue = []) (limit : Nat) : l.drain host limit = l := by
  cases limit with
  | zero => rfl
  | succ limit => rw [drain, h]

theorem drain_of_queue_cons {path : String} {origin : FileOrigin}
    {queue : List (String × FileOrigin)} (h : l.queue = (path, origin) :: queue) (limit : Nat) :
    l.drain host (limit + 1) =
      (({ l with queue } : Loader).load host path origin).drain host limit := by
  rw [drain, h]

/-- From a file without specifiers nothing else is reached. -/
theorem run_alone {path text : String} {parsed : ParsedFile}
    (hread : host.readFile path = some text) (hparsed : parseFile path text = parsed)
    (hnone : moduleSpecifiers parsed.arena = []) :
    run host {} path = alone path text parsed := by
  have hload : ({ initial.ask path .own with queue := [] } : Loader).load host path .own =
      alone path text parsed := by
    unfold load
    rw [hread]
    dsimp only
    rw [hparsed, hnone]
    rfl
  obtain ⟨limit, hlimit⟩ : ∃ limit, maxFiles = limit + 1 := ⟨99999, rfl⟩
  have hqueue : (initial.ask path .own).queue = (path, .own) :: [] := rfl
  have hnil : (alone path text parsed).queue = [] := rfl
  unfold run
  dsimp only
  rw [hlimit, drain_of_queue_cons hqueue, hload, drain_of_queue_nil hnil, List.foldl_nil,
    drain_of_queue_nil hnil]

end Loader

namespace Project

/-- The project of a file that was read and has no specifiers. -/
def ofParsed (path text : String) (parsed : ParsedFile) : Project :=
  let file := Loader.initial.nextFile path text .own parsed
  let s := (Assembly.declareFile { diagnostics := parsed.diagnostics } file).linkFile 0
  let p : Project := ⟨{}, s.files, s.tables, s.packages, s.diagnostics, ⟨0⟩⟩
  { p with diagnostics := p.diagnostics ++ p.missingExports }

/-- The project of a list of characters, if there are no specifiers in it. -/
def ofChars? (path : String) (cs : List Char) : Option Project :=
  let parsed := parseChars path cs
  if (moduleSpecifiers parsed.arena).isEmpty then
    some (ofParsed path (String.ofList cs) parsed)
  else none

/-- A file without specifiers is a project on its own. -/
theorem ofFiles_alone {path text : String} {parsed : ParsedFile}
    (hpath : Path.normalize path = path) (hparsed : parseFile path text = parsed)
    (hnone : moduleSpecifiers parsed.arena = []) :
    ofFiles path [(path, text)] = .ok (ofParsed path text parsed) := by
  let host : Host := (MemoryFiles.add {} path text).host
  have hread : host.readFile path = some text := by
    simp [host, MemoryFiles.host, MemoryFiles.add, Table.get?_set]
  have hexists : host.fileExists path = true := by
    simp [host, MemoryFiles.host, MemoryFiles.add, Table.contains_set]
  let s := (Assembly.declareFile { diagnostics := parsed.diagnostics }
    (Loader.initial.nextFile path text .own parsed)).linkFile 0
  have hassembled : Assembly.ofLoader (.alone path text parsed) = s := by
    simp [Assembly.ofLoader, Loader.alone, s, Assembly.declareFile, List.range_succ]
  have hfind : ∃ file, s.files.find? (·.path == path) = some file ∧ file.id = ⟨0⟩ := by
    simp [s, Assembly.linkFile, Assembly.declareFile, Loader.nextFile]
  obtain ⟨file, hfile, hid⟩ := hfind
  show load path {} host = _
  unfold load
  dsimp only
  rw [hpath, if_neg (by simp [hexists]), Loader.run_alone hread hparsed hnone, hassembled, hfile]
  dsimp only
  rw [hid]
  rfl

/-- What is computed from the characters of a single file holds of the project. -/
theorem bind_ofFiles {α : Type} {path text : String} {cs : List Char}
    (hpath : Path.normalize path = path) (hcs : text.toList = cs) {f : Project → Option α} {a : α}
    (h : (ofChars? path cs).bind f = some a) :
    (ofFiles path [(path, text)]).toOption.bind f = some a := by
  obtain ⟨p, hp, ha⟩ := Option.bind_eq_some_iff.1 h
  unfold ofChars? at hp
  dsimp only at hp
  split at hp
  · next hempty =>
    subst hcs
    rw [ofFiles_alone hpath (parseFile_eq path text) (List.isEmpty_iff.1 hempty)]
    rw [String.ofList_toList] at hp
    rw [Option.some.inj hp]
    exact ha
  · cases hp

theorem map_ofFiles {α : Type} {path text : String} {cs : List Char}
    (hpath : Path.normalize path = path) (hcs : text.toList = cs) {f : Project → α} {a : α}
    (h : (ofChars? path cs).map f = some a) :
    (ofFiles path [(path, text)]).toOption.map f = some a := by
  rw [Option.map_eq_bind] at h ⊢
  exact bind_ofFiles hpath hcs h

end Project

end DeclBundle
