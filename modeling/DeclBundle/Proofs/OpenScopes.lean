import DeclBundle.Proofs.KnownSymbols
import DeclBundle.Proofs.Regions

/-!
# Open scopes stand for regions

While the names below a node are linked, each open scope stands for one of the regions around the
node, and the open conditional types are those whose regions are open (`Links.Around`). Declaring a
parameter adds it to a scope and to the region for it (`Links.Around.declareIn`), and what is found
in the scopes is what is visible in the regions (`Links.Around.lookup?_eq`), also in the end:
symbols are only added, and every symbol in a table is there already.
-/

set_option autoImplicit false

namespace DeclBundle

/-! ## Symbols that stay -/

namespace SymbolArena

/-- Every symbol stays as it is. -/
def Extends (a b : SymbolArena) : Prop := ∀ id s, a.get? id = some s → b.get? id = some s

theorem Extends.refl (a : SymbolArena) : a.Extends a := fun _ _ h => h

theorem Extends.trans {a b c : SymbolArena} (h : a.Extends b) (h' : b.Extends c) : a.Extends c :=
  fun id s hs => h' id s (h id s hs)

theorem Extends.has {a b : SymbolArena} (h : a.Extends b) {id : SymbolId} (hid : a.Has id) :
    b.Has id := by
  obtain ⟨s, hs⟩ := has_iff_exists.1 hid
  exact has_of_get? (h id s hs)

theorem Extends.get?_eq {a b : SymbolArena} (h : a.Extends b) {id : SymbolId} (hid : a.Has id) :
    b.get? id = a.get? id := by
  obtain ⟨s, hs⟩ := has_iff_exists.1 hid
  rw [hs, h id s hs]

/-- A new symbol may be changed. -/
theorem extends_new (a : SymbolArena) (flags : SymbolFlags) (name : String) (file : FileId)
    (change : Symbol → Symbol) :
    a.Extends ((a.alloc flags name file).1.modify (a.alloc flags name file).2 change) := by
  intro id s hs
  have hne : ¬ (a.alloc flags name file).2 = id := by
    rintro rfl
    exact absurd (has_of_get? hs) (Nat.lt_irrefl a.size)
  rw [get?_modify, if_neg hne, get?_alloc, if_neg fun h => hne h.symm]
  exact hs

end SymbolArena

namespace Links

variable (f : LinkingFile)

/-! ## Single steps -/

section Declaring

variable (l : Links) (level : Nat) (flag : SymbolFlag) {declaration : Slot}

/-- The number of the next symbol. -/
def nextId (l : Links) : SymbolId := ⟨l.symbols.size⟩

/-- Adds a parameter to a scope. -/
def addParameter (name : String) (id : SymbolId) : Scope → Scope
  | .names entries => .names ((name, id) :: entries)
  | scope => scope

/-- The symbols with the one of a new parameter. -/
def withParameter (l : Links) (flag : SymbolFlag) (name : String) (node : NodeId) : SymbolArena :=
  (l.symbols.alloc (.single flag) name f.id).1.modify l.nextId fun s =>
    { s with declarations := [⟨f.id, some node⟩] }

theorem declareIn_of_none (h : f.arena.named? declaration = none) :
    l.declareIn f level flag declaration = l := by
  unfold declareIn
  unfold Arena.named? at h
  grind

theorem declareIn_of_some {name : String} {node : NodeId}
    (h : f.arena.named? declaration = some (name, node)) :
    l.declareIn f level flag declaration =
      { l with
        symbols := l.withParameter f flag name node, declared := l.declared.insert node l.nextId,
        scopes := l.scopes.modify (l.scopes.length - 1 - level) (addParameter name l.nextId) } := by
  unfold Arena.named? at h
  split at h
  · next hname =>
    obtain ⟨rfl, rfl⟩ := Prod.mk.inj (Option.some.inj h)
    unfold declareIn
    rw [hname]
    rfl
  · cases h

theorem extends_withParameter (flag : SymbolFlag) (name : String) (node : NodeId) :
    l.symbols.Extends (l.withParameter f flag name node) := SymbolArena.extends_new _ _ _ _ _

theorem has_withParameter (flag : SymbolFlag) (name : String) (node : NodeId) :
    (l.withParameter f flag name node).Has l.nextId :=
  (SymbolArena.has_modify ..).2 (SymbolArena.has_alloc_self ..)

theorem resolved_declareIn : (l.declareIn f level flag declaration).resolved = l.resolved := by
  unfold declareIn
  split
  · rfl
  · rfl

/-- Only the parameter gets a symbol. -/
theorem declared_declareIn {n : NodeId} (h : declaration ≠ some n) :
    (l.declareIn f level flag declaration).declared[n]? = l.declared[n]? := by
  unfold declareIn
  split
  · next node _ _ =>
    have hne : node ≠ n := fun heq => h (congrArg some heq)
    rw [Std.TreeMap.getElem?_insert, if_neg fun heq => hne (Std.LawfulEqOrd.eq_of_compare heq)]
  · rfl

/-- Parameters to declare in one scope. -/
abbrev declareAll (l : Links) (level : Nat) (new : List (SymbolFlag × Slot)) : Links :=
  new.foldl (fun l d => l.declareIn f level d.1 d.2) l

theorem declared_declareAll {n : NodeId} {new : List (SymbolFlag × Slot)}
    (h : some n ∉ new.map Prod.snd) :
    (l.declareAll f level new).declared[n]? = l.declared[n]? := by
  refine List.foldlRecOn (motive := fun l' : Links => l'.declared[n]? = l.declared[n]?) _ _ rfl
    fun l' hl' d hd => ?_
  rw [declared_declareIn f l' level d.1 fun heq => h (heq ▸ List.mem_map_of_mem hd)]
  exact hl'

theorem resolved_declareAll (new : List (SymbolFlag × Slot)) :
    (l.declareAll f level new).resolved = l.resolved :=
  List.foldlRecOn (motive := fun l' : Links => l'.resolved = l.resolved) _ _ rfl fun l' hl' d _ =>
    (resolved_declareIn f l' level d.1).trans hl'

end Declaring

/-- Links one identifier, if something is found for it. -/
def linkNode (l : Links) (node : NodeId) (meaning : Meaning) : Links :=
  match (f.arena.nameText? (some node)).bind (l.lookup? f · meaning) with
  | some id => { l with resolved := l.resolved.insert node id }
  | none => l

/-- Linking a name links its first identifier. -/
theorem linkEntity_eq (l : Links) (entity : Slot) (meaning : Meaning) :
    l.linkEntity f entity meaning = (f.arena.entity? entity meaning).elim l fun read =>
      l.linkNode f read.1 read.2 := by
  unfold linkEntity Arena.entity?
  cases f.arena.form? entity with
  | none => rfl
  | some form =>
    cases form
    case identifier text => cases entity <;> rfl
    case qualifiedName left right => cases f.arena.leftmost entity <;> rfl
    case propertyAccess left right => cases f.arena.leftmost entity <;> rfl
    all_goals rfl

/-- The links may have one more entry. -/
theorem linkEntity_cases (l : Links) (entity : Slot) (meaning : Meaning) :
    l.linkEntity f entity meaning = l ∨ ∃ read id, f.arena.entity? entity meaning = some read ∧
      l.linkEntity f entity meaning = { l with resolved := l.resolved.insert read.1 id } := by
  rw [linkEntity_eq]
  cases f.arena.entity? entity meaning with
  | none => exact .inl rfl
  | some read =>
    show l.linkNode f read.1 read.2 = l ∨ ∃ read' id, some read = some read' ∧
      l.linkNode f read.1 read.2 = _
    unfold linkNode
    split
    · next id _ => exact .inr ⟨read, id, rfl, rfl⟩
    · exact .inl rfl

/-! ## What every step keeps -/

/-- Every symbol in a table exists, and every symbol that a node declares. -/
structure Closed (l : Links) : Prop where
  symbols : l.symbols.Closed
  globals : l.symbols.Knows f.globals
  declared : l.symbols.KnowsDeclared l.declared

theorem keeps_of_resolved {P : Links → Prop} (h : ∀ l resolved, P l → P { l with resolved })
    (l : Links) (entity : Slot) (meaning : Meaning) (hl : P l) :
    P (l.linkEntity f entity meaning) := by
  rcases l.linkEntity_cases f entity meaning with heq | ⟨read, id, -, heq⟩
  · rwa [heq]
  · rw [heq]
    exact h l _ hl

theorem keeps_closed : Keeps f (Closed f) where
  link := keeps_of_resolved f fun _ _ h => ⟨h.symbols, h.globals, h.declared⟩
  declare l level flag declaration _ h := by
    cases hname : f.arena.named? declaration with
    | none => rwa [declareIn_of_none f l level flag hname]
    | some parameter =>
      have hgrows := l.extends_withParameter f flag parameter.1 parameter.2
      rw [declareIn_of_some f l level flag hname]
      exact ⟨(h.symbols.alloc _ _ _).modify _ fun _ hs => hs, h.globals.mono fun _ => hgrows.has,
        (h.declared.mono fun _ => hgrows.has).insert
          (l.has_withParameter f flag parameter.1 parameter.2) _⟩
  regions _ _ _ h := ⟨h.symbols, h.globals, h.declared⟩

theorem keeps_extends (base : SymbolArena) : Keeps f fun l => base.Extends l.symbols where
  link := keeps_of_resolved f fun _ _ h => h
  declare l level flag declaration _ h := by
    cases hname : f.arena.named? declaration with
    | none => rwa [declareIn_of_none f l level flag hname]
    | some parameter =>
      rw [declareIn_of_some f l level flag hname]
      exact h.trans (l.extends_withParameter f flag parameter.1 parameter.2)
  regions _ _ _ h := h

end Links

/-! ## Open scopes and regions -/

variable (declared : Std.TreeMap NodeId SymbolId)

/-- What a scope knows is what the region has, and the symbols are those that the nodes declare. -/
def Scope.StandsFor (symbols : SymbolArena) : Scope → Region → Prop
  | .names entries, .parameters known _ =>
    List.Forall₂ (fun entry parameter => entry.1 = parameter.1 ∧
      declared[parameter.2]? = some entry.2 ∧ symbols.Has entry.2) entries known
  | .container symbol, .container other => symbol = other ∧ symbols.Has symbol
  | _, _ => False

theorem Scope.StandsFor.mono {symbols symbols' : SymbolArena} (h : symbols.Extends symbols')
    {scope : Scope} {region : Region} (hscope : scope.StandsFor declared symbols region) :
    scope.StandsFor declared symbols' region := by
  cases scope with
  | names entries =>
    cases region with
    | parameters known isOpen =>
      exact List.Forall₂.imp (fun _ _ hentry => ⟨hentry.1, hentry.2.1, h.has hentry.2.2⟩) hscope
    | container symbol => exact hscope
  | container symbol =>
    cases region with
    | parameters known isOpen => exact hscope
    | container other => exact ⟨hscope.1, h.has hscope.2⟩

namespace Links

/-- The open scopes stand for the regions, and the open conditional types for those that are
open. -/
structure Around (l : Links) (regions : List Region) : Prop where
  scopes : List.Forall₂ (Scope.StandsFor declared l.symbols) l.scopes regions
  levels : l.inferLevels = Region.openLevels regions

end Links

/-- A region that gets one more parameter is as open as before. -/
theorem Region.openLevels_congr (inner : List Region) (known known' : List (String × NodeId))
    (isOpen : Bool) (outer : List Region) :
    openLevels (inner ++ .parameters known isOpen :: outer) =
      openLevels (inner ++ .parameters known' isOpen :: outer) := by
  induction inner with
  | nil => cases isOpen <;> rfl
  | cons region inner ih =>
    cases region with
    | container symbol => exact ih
    | parameters known'' isOpen' =>
      cases isOpen' with
      | false => exact ih
      | true => simp [openLevels, ih]

/-- A change in the middle of related lists. -/
theorem forall₂_modify {α β : Type} {R R' : α → β → Prop} (hR : ∀ x y, R x y → R' x y)
    {g : α → α} {y y' : β} (hg : ∀ x, R x y → R' (g x) y') {xs : List α} {inner outer : List β}
    (h : List.Forall₂ R xs (inner ++ y :: outer)) :
    List.Forall₂ R' (xs.modify inner.length g) (inner ++ y' :: outer) := by
  induction inner generalizing xs with
  | nil =>
    cases h with
    | cons hx hrest => exact .cons (hg _ hx) (hrest.imp fun x y => hR x y)
  | cons z inner ih =>
    cases h with
    | cons hx hrest => exact .cons (hR _ _ hx) (ih hrest)

namespace Links.Around

variable {declared} {f : LinkingFile} {l : Links} {regions : List Region}

/-- Symbols may be added. -/
theorem grow {l' : Links} (h : l.Around declared regions) (hscopes : l'.scopes = l.scopes)
    (hlevels : l'.inferLevels = l.inferLevels) (hsymbols : l.symbols.Extends l'.symbols) :
    l'.Around declared regions :=
  ⟨hscopes ▸ h.scopes.imp fun _ _ => Scope.StandsFor.mono declared hsymbols, hlevels.trans h.levels⟩

/-- A parameter that is declared in a scope is in the region for it. -/
theorem declareIn (inner : List Region) {outer : List Region} {known : List (String × NodeId)}
    {isOpen : Bool} (h : l.Around declared (inner ++ .parameters known isOpen :: outer))
    (flag : SymbolFlag) {declaration : Slot} (hdeclared : ∀ n, declaration = some n →
      (l.declareIn f outer.length flag declaration).declared[n]? = declared[n]?) :
    (l.declareIn f outer.length flag declaration).Around declared
      (inner ++ .parameters ((f.arena.named? declaration).toList ++ known) isOpen :: outer) := by
  cases hname : f.arena.named? declaration with
  | none =>
    rw [declareIn_of_none f l _ flag hname]
    exact h
  | some parameter =>
    obtain ⟨name, node⟩ := parameter
    have hnode := hdeclared node (f.arena.eq_of_named? hname)
    rw [declareIn_of_some f l _ flag hname] at hnode ⊢
    dsimp only at hnode
    rw [Std.TreeMap.getElem?_insert_self] at hnode
    -- scopes are counted from the outside, regions from the inside
    have hindex : l.scopes.length - 1 - outer.length = inner.length := by
      have hlength := h.scopes.length_eq
      simp only [List.length_append, List.length_cons] at hlength
      omega
    have hgrows := l.extends_withParameter f flag name node
    refine ⟨?_, h.levels.trans (Region.openLevels_congr ..)⟩
    dsimp only
    rw [hindex]
    refine forall₂_modify (fun _ _ => Scope.StandsFor.mono declared hgrows)
      (fun scope hscope => ?_) h.scopes
    cases scope with
    | names entries =>
      exact .cons ⟨rfl, hnode.symm, l.has_withParameter f flag name node⟩
        (Scope.StandsFor.mono declared hgrows hscope)
    | container symbol => exact hscope.elim

/-- Parameters that are declared in the innermost scope are in the region for it, the latest
first. -/
theorem declareAll {new : List (SymbolFlag × Slot)} {known : List (String × NodeId)} {isOpen : Bool}
    (h : l.Around declared (.parameters known isOpen :: regions))
    (hnodup : ∀ n : NodeId, (new.map Prod.snd).count (some n) ≤ 1)
    (hdeclared : ∀ n, some n ∈ new.map Prod.snd →
      (l.declareAll f regions.length new).declared[n]? = declared[n]?) :
    (l.declareAll f regions.length new).Around declared
      (.parameters ((new.filterMap fun d => f.arena.named? d.2).reverse ++ known) isOpen ::
        regions) := by
  induction new generalizing l known with
  | nil => exact h
  | cons d new ih =>
    have hfirst : (l.declareIn f regions.length d.1 d.2).Around declared
        (.parameters ((f.arena.named? d.2).toList ++ known) isOpen :: regions) := by
      refine declareIn [] h d.1 fun n hn => ?_
      -- no parameter is declared twice, so what is declared later leaves this one alone
      have hnot : some n ∉ new.map Prod.snd := by
        intro hmem
        have hcount := hnodup n
        rw [List.map_cons, hn, List.count_cons_self] at hcount
        have hpos := List.count_pos_iff.2 hmem
        omega
      rw [← hdeclared n (hn ▸ List.mem_cons_self)]
      exact (declared_declareAll f _ _ hnot).symm
    have hrest := ih hfirst (fun n => ((List.sublist_cons_self _ _).count_le _).trans (hnodup n))
      fun n hn => hdeclared n (List.mem_cons_of_mem _ hn)
    have hknown : ((d :: new).filterMap fun d => f.arena.named? d.2).reverse ++ known =
        (new.filterMap fun d => f.arena.named? d.2).reverse ++
          ((f.arena.named? d.2).toList ++ known) := by
      cases hname : f.arena.named? d.2 <;> simp [hname]
    rw [hknown]
    exact hrest

/-- A scope with no parameters yet. -/
theorem enter (h : l.Around declared regions) :
    ({ l with scopes := .names [] :: l.scopes } : Links).Around declared
    (.parameters [] false :: regions) := ⟨.cons .nil h.scopes, h.levels⟩

/-- A scope to which `infer` adds. -/
theorem enterOpen (h : l.Around declared regions) :
    ({ l with scopes := .names [] :: l.scopes, inferLevels := l.scopes.length :: l.inferLevels } :
      Links).Around declared
      (.parameters [] true :: regions) := by
  refine ⟨.cons .nil h.scopes, ?_⟩
  show l.scopes.length :: l.inferLevels = regions.length :: Region.openLevels regions
  rw [h.scopes.length_eq, h.levels]

theorem enterContainer (h : l.Around declared regions) {symbol : SymbolId}
    (hsymbol : l.symbols.Has symbol) :
    ({ l with scopes := .container symbol :: l.scopes } : Links).Around declared
      (.container symbol :: regions) :=
  ⟨.cons ⟨rfl, hsymbol⟩ h.scopes, h.levels⟩

theorem close {known : List (String × NodeId)}
    (h : l.Around declared (.parameters known true :: regions)) :
    ({ l with inferLevels := l.inferLevels.drop 1 } : Links).Around declared
      (.parameters known false :: regions) := by
  obtain ⟨symbols, nodes, resolved, scopes, inferLevels⟩ := l
  obtain ⟨hscopes, rfl⟩ := h
  refine ⟨?_, rfl⟩
  cases hscopes with
  | @cons scope _ _ _ hscope hrest =>
    refine .cons ?_ hrest
    cases scope with
    | names entries => exact hscope
    | container symbol => exact hscope.elim

theorem leave {region : Region} (h : l.Around declared (region :: regions))
    (hclosed : Region.openLevels (region :: regions) = Region.openLevels regions) :
    ({ l with scopes := l.scopes.drop 1 } : Links).Around declared regions := by
  obtain ⟨symbols, nodes, resolved, scopes, inferLevels⟩ := l
  obtain ⟨hscopes, hlevels⟩ := h
  refine ⟨?_, hlevels.trans hclosed⟩
  cases hscopes with
  | cons _ hrest => exact hrest

/-! ## Looking up -/

variable {t : SharedTables} (hclosed : l.Closed f) (hsymbols : l.symbols.Extends t.symbols)

include hclosed hsymbols

theorem inScope?_eq {scope : Scope} {region : Region}
    (h : scope.StandsFor declared l.symbols region) (name : String) :
    l.inScope? name scope = region.find? t declared name ∧ ∀ id, l.inScope? name scope = some id →
      l.symbols.Has id := by
  cases scope with
  | names entries =>
    cases region with
    | container symbol => exact h.elim
    | parameters known isOpen =>
      change List.Forall₂ _ entries known at h
      show (entries.find? (·.1 == name)).map Prod.snd =
        (known.find? (·.1 == name)).bind (declared[·.2]?) ∧
        ∀ id, (entries.find? (·.1 == name)).map Prod.snd = some id → _
      induction h with
      | nil => exact ⟨rfl, fun _ hid => by cases hid⟩
      | @cons entry parameter entries known hentry hrest ih =>
        obtain ⟨hname, hsymbol, hhas⟩ := hentry
        rw [List.find?_cons, List.find?_cons, ← hname]
        by_cases heq : (entry.1 == name) = true
        · simp only [heq]
          exact ⟨hsymbol.symm, fun id hid => Option.some.inj hid ▸ hhas⟩
        · simp only [Bool.not_eq_true] at heq
          simp only [heq]
          exact ih
  | container symbol =>
    cases region with
    | parameters known isOpen => exact h.elim
    | container other =>
      obtain ⟨rfl, hhas⟩ := h
      refine ⟨?_, fun id hid => ?_⟩
      · show (l.symbols.get? symbol).bind _ = (t.symbols.get? symbol).bind _
        rw [hsymbols.get?_eq hhas]
      · obtain ⟨s, hs, hname⟩ := Option.bind_eq_some_iff.1 hid
        exact (hclosed.symbols symbol s hs).1 name id hname

omit hclosed in
/-- Symbols that exist are accepted as in the end. -/
theorem filter_accepts_eq {found : Option SymbolId} (h : ∀ id, found = some id → l.symbols.Has id)
    (meaning : Meaning) :
    found.filter (l.accepts meaning) = found.filter (t.accepts meaning) := by
  cases found with
  | none => rfl
  | some id =>
    have haccepts : l.accepts meaning id = t.accepts meaning id := by
      unfold accepts SharedTables.accepts
      rw [hsymbols.get?_eq (h id rfl)]
    rw [Option.filter_some, Option.filter_some, haccepts]

/-- What is found while linking is what is visible in the end. -/
theorem lookup?_eq (h : l.Around declared regions) (hglobals : f.globals = t.globals)
    (name : String) (meaning : Meaning) :
    l.lookup? f name meaning = visible? t declared regions name meaning := by
  have hscopes :
    (l.scopes.findSome? fun scope => (l.inScope? name scope).filter (l.accepts meaning)) =
      regions.findSome? fun region =>
        (region.find? t declared name).filter (t.accepts meaning) := by
    have hall := h.scopes
    generalize l.scopes = scopes at hall
    clear h
    induction hall with
    | nil => rfl
    | @cons scope region scopes regions hscope _ ih =>
      obtain ⟨hfind, hhas⟩ := inScope?_eq hclosed hsymbols hscope name
      rw [List.findSome?_cons, List.findSome?_cons,
        filter_accepts_eq hsymbols hhas meaning, hfind, ih]
  unfold lookup? visible?
  rw [hscopes, ← hglobals]
  cases regions.findSome? fun region =>
    (region.find? t declared name).filter (t.accepts meaning) with
  | some id => rfl
  | none => exact filter_accepts_eq hsymbols (fun id hid => hclosed.globals name id hid) meaning

end Links.Around

end DeclBundle
