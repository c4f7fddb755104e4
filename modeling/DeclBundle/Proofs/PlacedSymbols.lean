import DeclBundle.Proofs.StatementSymbols

/-!
# Symbols lie where their declarations lie

What is around a symbol is what is around its declarations (`Placed`): the namespace or enum in
which a node lies innermost is declared as the symbol around the one of the node, and where there is
none the symbol lies in a module or nowhere.

Declaring keeps this (`Settles`). A statement finds no symbols for the nodes below it, gives symbols
to some of these, and does not touch other nodes (`Declarations.settles_statement`, by induction on
the levels of modules). As the nodes form a tree, statements beside each other stay out of each
other's way.
-/

set_option autoImplicit false

namespace DeclBundle

section Around

variable (a : Arena) (declared : Std.TreeMap NodeId SymbolId) (symbols : SymbolArena)

/-- What is around a symbol fits what is around its node. A namespace or enum is no parameter, and
declared as the symbol around; where there is none, the symbol can only lie in a module. -/
def FitsAround : Option NodeId → Option SymbolId → Prop
  | none, parent => ∀ q, parent = some q → ∃ home, symbols.home? q = some home ∧
    home.isModule = true
  | some m, parent => ¬ a.IsParameter m ∧
    ∃ q, declared[m]? = some q ∧ parent = some q ∧ ∃ home, symbols.home? q = some home ∧
      home.isModule = false

/-- The symbols of nodes lie where the nodes lie. -/
def Placed : Prop :=
  ∀ n id, declared[n]? = some id → ∃ around home,
    a.Innermost around n ∧ symbols.home? id = some home ∧
    FitsAround a declared symbols around home.parent

variable {a declared symbols} {declared' : Std.TreeMap NodeId SymbolId} {symbols' : SymbolArena}

theorem FitsAround.mono (hkeeps : symbols.KeepsHomes symbols') {around : Option NodeId}
    {parent : Option SymbolId}
    (hdeclared : ∀ m q, ¬ a.IsParameter m → declared[m]? = some q → declared'[m]? = some q)
    (h : FitsAround a declared symbols around parent) :
    FitsAround a declared' symbols' around parent := by
  cases around with
  | none =>
    intro q hq
    obtain ⟨home, hhome, hmodule⟩ := h q hq
    exact ⟨home, hkeeps q home hhome, hmodule⟩
  | some m =>
    obtain ⟨hm, q, hq, hparent, home, hhome, hmodule⟩ := h
    exact ⟨hm, q, hdeclared m q hm hq, hparent, home, hkeeps q home hhome, hmodule⟩

/-- The symbol around is there. -/
theorem FitsAround.has {around : Option NodeId} {parent : Option SymbolId}
    (h : FitsAround a declared symbols around parent) {q : SymbolId} (hq : parent = some q) :
    symbols.Has q := by
  cases around with
  | none =>
    obtain ⟨home, hhome, -⟩ := h q hq
    exact SymbolArena.has_of_home? hhome
  | some m =>
    obtain ⟨-, q', -, hparent, home, hhome, -⟩ := h
    obtain rfl := Option.some.inj (hq.symm.trans hparent)
    exact SymbolArena.has_of_home? hhome

end Around

namespace Declarations

/-! ## Parts of declaring -/

/-- From `d` to `d'` symbols stay at home and nodes keep their symbols; only the given nodes can get
new ones, and all symbols lie where their nodes lie. -/
structure Settles (a : Arena) (nodes : NodeId → Prop) (d d' : Declarations) : Prop where
  homed : d'.tables.Homed
  placed : Placed a d'.declared d'.tables.symbols
  keeps : d.tables.symbols.KeepsHomes d'.tables.symbols
  grows : ∀ (n : NodeId) (id : SymbolId), d.declared[n]? = some id → d'.declared[n]? = some id
  only : ∀ n, ¬ nodes n → d'.declared[n]? = d.declared[n]?

variable {a : Arena} {nodes nodes' : NodeId → Prop} {d d' d'' : Declarations} {c : Container}
  {around : Option NodeId}

namespace Settles

theorem refl (h : d.tables.Homed) (hplaced : Placed a d.declared d.tables.symbols) :
    Settles a nodes d d :=
  ⟨h, hplaced, .refl _, fun _ _ h => h, fun _ _ => rfl⟩

theorem mono (h : Settles a nodes d d') (hnodes : ∀ n, nodes n → nodes' n) :
    Settles a nodes' d d' :=
  ⟨h.homed, h.placed, h.keeps, h.grows, fun n hn => h.only n fun hn' => hn (hnodes n hn')⟩

theorem trans (h : Settles a nodes d d') (h' : Settles a nodes d' d'') : Settles a nodes d d'' :=
  ⟨h'.homed, h'.placed, h.keeps.trans h'.keeps, fun n id hn => h'.grows n id (h.grows n id hn),
    fun n hn => (h'.only n hn).trans (h.only n hn)⟩

theorem fits (h : Settles a nodes d d') {parent : Option SymbolId}
    (hfits : FitsAround a d.declared d.tables.symbols around parent) :
    FitsAround a d'.declared d'.tables.symbols around parent :=
  hfits.mono h.keeps fun m q _ => h.grows m q

/-- Nodes without symbols get symbols that lie where the nodes lie. -/
theorem of_adds (hplaced : Placed a d.declared d.tables.symbols) {home : SymbolHome}
    (hadds : Adds home nodes d d') (hfresh : ∀ n, nodes n → d.declared[n]? = none)
    (hinnermost : ∀ n, nodes n → a.Innermost around n)
    (hfits : FitsAround a d.declared d.tables.symbols around home.parent) :
    Settles a nodes d d' := by
  have hgrows : ∀ (n : NodeId) (id : SymbolId), d.declared[n]? = some id →
      d'.declared[n]? = some id := by
    intro n id hid
    rcases hadds.declared n with heq | ⟨hn, -⟩
    · exact heq.trans hid
    · cases (hfresh n hn).symm.trans hid
  have hmono : ∀ {around : Option NodeId} {parent : Option SymbolId},
    FitsAround a d.declared d.tables.symbols around parent →
      FitsAround a d'.declared d'.tables.symbols around parent :=
        fun h => h.mono hadds.keeps fun m q _ => hgrows m q
  refine ⟨hadds.homed, fun n id hid => ?_, hadds.keeps, hgrows, fun n hn => ?_⟩
  · rcases hadds.declared n with heq | ⟨hn, new, hnew, hhome⟩
    · obtain ⟨around, home, hn, hhome, hfits⟩ := hplaced n id (heq.symm.trans hid)
      exact ⟨around, home, hn, hadds.keeps id home hhome, hmono hfits⟩
    · obtain rfl := Option.some.inj (hid.symm.trans hnew)
      exact ⟨around, home, hinnermost n hn, hhome, hmono hfits⟩
  · rcases hadds.declared n with heq | ⟨hn', -⟩
    · exact heq
    · exact absurd hn' hn

end Settles

/-! ## Statements beside each other -/

/-- Symbols lie where their nodes lie, and the symbol of the container fits what is around. -/
structure Ready (a : Arena) (d : Declarations) (c : Container) (around : Option NodeId) : Prop where
  homed : d.tables.Homed
  placed : Placed a d.declared d.tables.symbols
  fits : FitsAround a d.declared d.tables.symbols around c.symbol?

theorem Ready.after (h : Ready a d c around) (hsettles : Settles a nodes d d') :
    Ready a d' c around :=
  ⟨hsettles.homed, hsettles.placed, hsettles.fits h.fits⟩

theorem Ready.hasContainer (h : Ready a d c around) : d.HasContainer c := fun _ hq => h.fits.has hq

/-- A statement is to be declared: it lies where its symbols will lie, and nothing below it has a
symbol yet. -/
structure Awaits (a : Arena) (d : Declarations) (around : Option NodeId) (s : NodeId) : Prop where
  fresh : ∀ n, a.Within (some s) n → d.declared[n]? = none
  innermost : a.isModule (some s) = false → a.Innermost around s
  notParameter : ¬ a.IsParameter s

/-- The statement is to be declared still, when one is declared that has nothing in common with
it. -/
theorem Awaits.after {s : NodeId} (h : Awaits a d around s) (hsettles : Settles a nodes d d')
    (hapart : ∀ n, a.Within (some s) n → ¬ nodes n) : Awaits a d' around s :=
  ⟨fun n hn => (hsettles.only n (hapart n hn)).trans (h.fresh n hn), h.innermost, h.notParameter⟩

/-- Some children of a node, declared in order. -/
theorem settles_foldl (htree : a.IsTree) {m : NodeId} {form : Form Slot}
    (hform : a.form? (some m) = some form) {step : Declarations → Slot → Declarations}
    (hnone : ∀ d, step d none = d) {statements : List Slot}
    (hchildren : statements.Sublist form.children) (hready : Ready a d c around)
    (hawaits : ∀ s, some s ∈ statements → Awaits a d around s)
    (hstep : ∀ d' s, some s ∈ statements → Ready a d' c around → Awaits a d' around s →
      Settles a (a.Within (some s)) d' (step d' (some s))) :
    Settles a (a.Beneath (some m)) d (statements.foldl step d) := by
  -- on the statements: what is declared first leaves the container ready and the later ones without
  -- symbols
  induction statements generalizing d with
  | nil => exact .refl hready.homed hready.placed
  | cons first rest ih =>
    have hrest := (List.sublist_cons_self first rest).trans hchildren
    have hlater : ∀ s, some s ∈ rest → some s ∈ first :: rest :=
      fun s hs => List.mem_cons_of_mem _ hs
    rw [List.foldl_cons]
    cases first with
    | none =>
      rw [hnone]
      exact ih hrest hready (fun s hs => hawaits s (hlater s hs)) fun d' s hs =>
        hstep d' s (hlater s hs)
    | some s =>
      have hs : some s ∈ form.children := hchildren.subset List.mem_cons_self
      have hfirst := hstep d s List.mem_cons_self hready (hawaits s List.mem_cons_self)
      refine (hfirst.mono fun n hn => hn.beneath hform hs).trans
        (ih hrest (hready.after hfirst) (fun t ht => ?_) fun d' t ht => hstep d' t (hlater t ht))
      -- nothing stands below two children
      have hne : s ≠ t := by
        rintro rfl
        have hcount := hchildren.count_le (some s)
        have hone := htree.count_children_le_one hform (n := s)
        have hpos := List.count_pos_iff.2 ht
        rw [List.count_cons_self] at hcount
        omega
      refine (hawaits t (hlater t ht)).after hfirst fun n hn hn' => ?_
      exact htree.apart hform hs (hchildren.subset (hlater t ht)) hne hn' hn

/-! ## Statements -/

theorem declareStatement_none (f : DeclaringFile) (depth : Nat) (isAmbient : Bool) (c : Container)
    (d : Declarations) :
    declareStatement f depth isAmbient c d none = d := by
  cases depth with
  | zero => rfl
  | succ depth => rfl

variable {f : DeclaringFile} {s : NodeId}

/-- One node gets a symbol. -/
theorem settles_node (hready : Ready f.arena d c around) (hawaits : Awaits f.arena d around s)
    {home : SymbolHome} {inner : Option NodeId} (hadds : Adds home (· = s) d d')
    (hinner : f.arena.Innermost inner s)
    (hfits : FitsAround f.arena d.declared d.tables.symbols inner home.parent) :
    Settles f.arena (· = s) d d' := by
  refine .of_adds hready.placed hadds ?_ ?_ hfits
  · rintro n rfl
    exact hawaits.fresh n (.here n)
  · rintro n rfl
    exact hinner

/-- Nothing below the node has a symbol then. -/
theorem fresh_below (htree : f.arena.IsTree) (hawaits : Awaits f.arena d around s)
    (hsettles : Settles f.arena (· = s) d d') {n : NodeId} (hn : f.arena.Beneath (some s) n) :
    d'.declared[n]? = none := by
  have hne : n ≠ s := by
    rintro rfl
    exact absurd (hn.index_lt htree.isOrdered) (Nat.lt_irrefl _)
  exact (hsettles.only n hne).trans (hawaits.fresh n hn.within)

/-- A namespace or an enum gets a symbol, in which what lies in it can be declared. -/
theorem settles_named (hready : Ready f.arena d c around) (hawaits : Awaits f.arena d around s)
    (hmodule : f.arena.isModule (some s) = false) {flag : SymbolFlag}
    (hplain : SymbolFlags.IsPlain (.single flag)) (name : Slot) (modifiers : Modifiers) :
    Settles f.arena (· = s) d (d.declareNamed f c (.single flag) s name modifiers).1 ∧
      ∀ id, (d.declareNamed f c (.single flag) s name modifiers).2 = some id → ∀ exportsAll,
        Ready f.arena (d.declareNamed f c (.single flag) s name modifiers).1
          (.module_ id exportsAll) (some s) := by
  obtain ⟨hadds, hhome⟩ :=
    adds_declareNamed f c hready.homed hready.hasContainer hplain s name modifiers
  have hsettles := settles_node hready hawaits hadds (hawaits.innermost hmodule) hready.fits
  refine ⟨hsettles, fun id hid exportsAll =>
    ⟨hsettles.homed, hsettles.placed, hawaits.notParameter, id, ?_, rfl, c.home, ?_, rfl⟩⟩
  · exact declared_declareNamed f c s name modifiers hid
  · exact hhome id hid

/-- The statements of a block. -/
theorem settles_block (htree : f.arena.IsTree) {b : NodeId} {statements : List Slot} {depth : Nat}
    {isAmbient : Bool} (hblock : f.arena.form? (some b) = some (.moduleBlock statements))
    (hb : f.arena.Innermost around b) (hready : Ready f.arena d c around)
    (hfresh : ∀ n, f.arena.Beneath (some b) n → d.declared[n]? = none)
    (hstep : ∀ d' t, Ready f.arena d' c around → Awaits f.arena d' around t →
      Settles f.arena (f.arena.Within (some t)) d'
        (declareStatement f depth isAmbient c d' (some t))) :
    Settles f.arena (f.arena.Beneath (some b)) d
      (statements.foldl (declareStatement f depth isAmbient c) d) := by
  refine settles_foldl htree hblock (declareStatement_none f depth isAmbient c)
    (List.Sublist.refl _) hready
    (fun t ht => ?_) fun d' t _ => hstep d' t
  have hparameters : some t ∉ (Form.moduleBlock statements).parameters := List.not_mem_nil
  refine ⟨fun n hn => hfresh n (hn.beneath hblock ht), fun hmodule => ?_,
    Arena.not_isParameter hblock ht htree hparameters⟩
  exact .same (Arena.places_same hblock ht hparameters List.not_mem_nil hmodule) hb

theorem settles_simple (hready : Ready f.arena d c around) (hawaits : Awaits f.arena d around s)
    (hmodule : f.arena.isModule (some s) = false) (hadds : Adds c.home (f.arena.Through s) d d') :
    Settles f.arena (f.arena.Within (some s)) d d' := by
  have hsettles : Settles f.arena (f.arena.Through s) d d' := .of_adds hready.placed hadds
    (fun n hn => hawaits.fresh n hn.within)
      (fun n hn => hn.innermost (hawaits.innermost hmodule)) hready.fits
  exact hsettles.mono fun n hn => hn.within

/-- An enum with its members. -/
theorem settles_enum (htree : f.arena.IsTree) {modifiers : Modifiers} {name : Slot}
    {members : List Slot}
    (hform : f.arena.form? (some s) = some (.enumDeclaration modifiers name members))
    (hready : Ready f.arena d c around) (hawaits : Awaits f.arena d around s) (depth : Nat)
    (isAmbient : Bool) :
    Settles f.arena (f.arena.Within (some s)) d
      (declareStatement f (depth + 1) isAmbient c d (some s)) := by
  have hmodule : f.arena.isModule (some s) = false := by simp [Arena.isModule, hform]
  have houter : (f.arena.isModule (some s) || f.arena.isGlobal (some s)) = false := by
    simp [Arena.isModule, Arena.isGlobal, hform]
  unfold declareStatement
  dsimp only
  rw [hform]
  dsimp only
  generalize hflag : (if modifiers.contains .const = true then SymbolFlag.constEnum
    else SymbolFlag.regularEnum) = flag
  have hplain : SymbolFlags.IsPlain (.single flag) := by
    subst hflag
    split <;> decide
  obtain ⟨hnamed, hinside⟩ := settles_named hready hawaits hmodule hplain name modifiers
  generalize d.declareNamed f c (.single flag) s name modifiers = named at hnamed hinside
  obtain ⟨d', id?⟩ := named
  -- first the enum itself gets its symbol, and then the members are declared in it
  refine (hnamed.mono (by rintro n rfl; exact .here n)).trans ?_
  cases id? with
  | none => exact .refl hnamed.homed hnamed.placed
  | some id =>
    have hready' := hinside id rfl false
    have hmembers := adds_declareEnumMembers f hnamed.homed (hready'.hasContainer id rfl) members
    have hchild : ∀ {n}, some n ∈ members →
        some n ∈ (Form.enumDeclaration modifiers name members).children :=
      fun h => List.mem_cons_of_mem _ h
    refine Settles.mono (.of_adds hnamed.placed hmembers (fun n hn => ?_)
      (fun n hn => ?_) hready'.fits) fun n hn => ?_
    · exact fresh_below htree hawaits hnamed ((Arena.Within.here n).beneath hform (hchild hn.1))
    · exact .inside (Arena.places_inside hform (hchild hn.1) List.not_mem_nil hn.1 houter hn.2)
    · exact ((Arena.Within.here n).beneath hform (hchild hn.1)).within

/-! ## Modules -/

/-- Statements inside modules can be declared in any container that is ready for them. -/
def SettlesInside (f : DeclaringFile) (depth : Nat) : Prop :=
  ∀ isAmbient (c : Container) (around : Option NodeId) d t, Ready f.arena d c around →
    Awaits f.arena d around t →
    Settles f.arena (f.arena.Within (some t)) d (declareStatement f depth isAmbient c d (some t))

section Modules

variable {modifiers : Modifiers} {flavor : ModuleFlavor} {name body : Slot} {b : NodeId}
  {depth : Nat}

theorem body_mem_children (hb : body = some b) :
    some b ∈ (Form.moduleDeclaration modifiers flavor name body).children := by
  subst hb
  simp [Form.children]

theorem body_mem_inner (hb : body = some b) :
    some b ∈ (Form.moduleDeclaration modifiers flavor name body).inner := by
  subst hb
  exact List.mem_cons_self

variable (htree : f.arena.IsTree)
  (hform : f.arena.form? (some s) = some (.moduleDeclaration modifiers flavor name body))
  (hawaits : Awaits f.arena d around s) (hstep : SettlesInside f depth)
    (hsettles : Settles f.arena (· = s) d d')

include htree hform hawaits hstep hsettles

/-- The statements of the body, once the module itself is declared. -/
theorem settles_body {inner : Option NodeId} {statements : List Slot} (isAmbient : Bool)
    (hready : Ready f.arena d' c inner) (hb : body = some b)
    (hblock : f.arena.form? body = some (.moduleBlock statements))
    (hinner : f.arena.Innermost inner b) :
    Settles f.arena (f.arena.Within (some s)) d
      (statements.foldl (declareStatement f depth isAmbient c) d') := by
  subst hb
  have hbelow : ∀ n, f.arena.Beneath (some b) n → f.arena.Beneath (some s) n := fun n hn =>
    hn.within.beneath hform (body_mem_children rfl)
  have hfold := settles_block htree hblock hinner hready
    (fun n hn => fresh_below htree hawaits hsettles (hbelow n hn))
    (hstep isAmbient c inner)
  exact (hsettles.mono fun n hn => hn ▸ .here n).trans (hfold.mono fun n hn => (hbelow n hn).within)

/-- The module that is the body of one with a dotted name. -/
theorem settles_dotted {isAmbient : Bool} (hready : Ready f.arena d' c (some s))
    (hb : body = some b)
    (hinner : f.arena.isModule (some b) = false → f.arena.Innermost (some s) b) :
    Settles f.arena (f.arena.Within (some s)) d (declareStatement f depth isAmbient c d' body) := by
  subst hb
  have hbody : some b ∈ (Form.moduleDeclaration modifiers flavor name (some b)).children :=
    body_mem_children rfl
  have hbelow : ∀ n, f.arena.Within (some b) n → f.arena.Beneath (some s) n :=
    fun n hn => hn.beneath hform hbody
  have hawaits' : Awaits f.arena d' (some s) b :=
    ⟨fun n hn => fresh_below htree hawaits hsettles (hbelow n hn), hinner,
      Arena.not_isParameter hform hbody htree List.not_mem_nil⟩
  have hdeclared := hstep isAmbient c (some s) d' b hready hawaits'
  exact (hsettles.mono fun n hn => hn ▸ .here n).trans
    (hdeclared.mono fun n hn => (hbelow n hn).within)

end Modules

/-- A module, a namespace or a global block with what is in it. -/
theorem settles_module (htree : f.arena.IsTree) {modifiers : Modifiers} {flavor : ModuleFlavor}
    {name body : Slot}
    (hform : f.arena.form? (some s) = some (.moduleDeclaration modifiers flavor name body))
    (hready : Ready f.arena d c around) (hawaits : Awaits f.arena d around s) {depth : Nat}
    (isAmbient : Bool) (hstep : SettlesInside f depth) :
    Settles f.arena (f.arena.Within (some s)) d
      (d.declareModule f (declareStatement f depth) isAmbient c s modifiers flavor name body) := by
  have hself : ∀ n, n = s → f.arena.Within (some s) n := fun n hn => hn ▸ .here n
  have houtside : ∀ {b : NodeId}, body = some b →
    (f.arena.isModule (some s) || f.arena.isGlobal (some s)) = true →
      f.arena.Innermost none b := fun hb houter =>
    Arena.innermost_of_outer hform (body_mem_children hb) List.not_mem_nil
      (body_mem_inner hb) houter
  unfold declareModule
  dsimp only
  split
  · next hglobal =>
    have hnothing : Settles f.arena (· = s) d d := .refl hready.homed hready.placed
    split
    · next statements hstatements =>
      obtain ⟨b, hb⟩ := Arena.exists_of_form? hstatements
      have hready' : Ready f.arena d .global none :=
        ⟨hready.homed, hready.placed, fun q hq => by cases hq⟩
      have hinner := houtside hb (by simp [Arena.isGlobal, hform])
      exact settles_body htree hform hawaits hstep hnothing true hready' hb hstatements hinner
    · exact hnothing.mono hself
  · next text hglobal hname =>
    have hmodule : f.arena.isModule (some s) = true := by
      simp only [Arena.isModule, hform, hname]
      simpa using hglobal
    obtain ⟨hadds, hhome⟩ := adds_declareAmbientModule f hready.homed s text
    have hsettles := settles_node hready hawaits hadds
      (Arena.innermost_of_isModule hmodule) fun q hq => by cases hq
    split
    · next statements hstatements =>
      obtain ⟨b, hb⟩ := Arena.exists_of_form? hstatements
      have hinner := houtside hb (by simp [hmodule])
      refine settles_body htree hform hawaits hstep hsettles _ ⟨hsettles.homed, hsettles.placed,
        fun q hq => ?_⟩ hb
        hstatements hinner
      obtain rfl := Option.some.inj hq
      exact ⟨_, hhome, rfl⟩
    · exact hsettles.mono hself
  · next hglobal hname =>
    have hmodule : f.arena.isModule (some s) = false := by
      simp only [Arena.isModule, hform]
      exact Bool.and_false _
    have houter : (f.arena.isModule (some s) || f.arena.isGlobal (some s)) = false := by
      rw [hmodule, Bool.false_or]
      simpa [Arena.isGlobal, hform] using hglobal
    -- the body lies in the namespace, unless it is a module of its own
    have hinside : ∀ {b : NodeId}, body = some b → f.arena.isModule (some b) = false →
        f.arena.Innermost (some s) b :=
      fun hb hplain => .inside
        (Arena.places_inside hform (body_mem_children hb) List.not_mem_nil
          (body_mem_inner hb) houter hplain)
    generalize hflag :
      (if isInstantiated f.arena (some s) then SymbolFlag.valueModule else .namespaceModule) = flag
    have hplain : SymbolFlags.IsPlain (.single flag) := by
      subst hflag
      split <;> decide
    obtain ⟨hnamed, hready'⟩ := settles_named hready hawaits hmodule hplain name modifiers
    generalize d.declareNamed f c (.single flag) s name modifiers = named at hnamed hready' ⊢
    obtain ⟨d', id?⟩ := named
    dsimp only
    split
    · next id statements hstatements =>
      obtain ⟨b, hb⟩ := Arena.exists_of_form? hstatements
      have hinner := hinside hb (by simp [Arena.isModule, ← hb, hstatements])
      exact settles_body htree hform hawaits hstep hnamed _ (hready' id rfl _) hb hstatements hinner
    · next id modifiers' flavor' name' body' hbodyForm =>
      obtain ⟨b, hb⟩ := Arena.exists_of_form? hbodyForm
      exact settles_dotted htree hform hawaits hstep hnamed (hready' id rfl _) hb (hinside hb)
    · exact hnamed.mono hself

/-- A statement, down to any number of levels of modules. -/
theorem settles_statement (htree : f.arena.IsTree) (depth : Nat) (isAmbient : Bool)
    (hready : Ready f.arena d c around) (hawaits : Awaits f.arena d around s) :
    Settles f.arena (f.arena.Within (some s)) d
      (declareStatement f depth isAmbient c d (some s)) := by
  -- a statement inside a module has one level less left, and any container around it
  induction depth generalizing isAmbient c around d s with
  | zero => exact .refl hready.homed hready.placed
  | succ depth ih =>
    cases hform : f.arena.form? (some s) with
    | none =>
      unfold declareStatement
      dsimp only
      rw [hform]
      exact .refl hready.homed hready.placed
    | some form =>
      cases form
      case moduleDeclaration modifiers flavor name body =>
        have hmodule := settles_module htree hform hready hawaits isAmbient fun isAmbient _ _ _ _ =>
          ih isAmbient
        unfold declareStatement
        dsimp only
        rw [hform]
        exact hmodule
      case enumDeclaration modifiers name members =>
        exact settles_enum htree hform hready hawaits depth isAmbient
      case sourceFile =>
        unfold declareStatement
        dsimp only
        rw [hform]
        exact .refl hready.homed hready.placed
      all_goals
        refine settles_simple hready hawaits (by simp [Arena.isModule, hform]) ?_
        exact adds_simple f c hready.homed hready.hasContainer htree hform (by simp) (by simp)
          (depth + 1) isAmbient

/-- A whole file. -/
theorem settles_declareFile (htree : f.arena.IsTree) {tables : SharedTables} (h : tables.Homed)
    (root : NodeId) :
    Settles f.arena (fun _ => True) { tables } (declareFile f tables root).1 := by
  have hnothing : ∀ n : NodeId, ({ tables } : Declarations).declared[n]? = none :=
    fun n => Std.TreeMap.getElem?_emptyc
  have hplaced : Placed f.arena ({ tables } : Declarations).declared tables.symbols :=
    fun n id hid => by
    cases (hnothing n).symm.trans hid
  have hstart : Settles f.arena (· = root) { tables } { tables } := .refl h hplaced
  unfold declareFile
  dsimp only
  split
  · next statements isModule hform =>
    have hmodule : f.arena.isModule (some root) = true := by simp [Arena.isModule, hform]
    -- the statements, once the file itself is declared
    have hstatements : ∀ {d : Declarations} {c : Container},
      Settles f.arena (· = root) { tables } d →
        Ready f.arena d c none → Settles f.arena (fun _ => True) { tables }
          (statements.foldl
              (declareStatement f (f.arena.size + 1) (Path.isDeclarationFile f.path) c) d) := by
      intro d c hsettles hready
      have hfold :=
        settles_foldl htree hform (declareStatement_none f _ _ c) (List.Sublist.refl _) hready
        (fun t ht =>
          ⟨fun n hn => ?_, fun _ => ?_, Arena.not_isParameter hform ht htree List.not_mem_nil⟩)
        fun d' t _ hready' hawaits =>
          settles_statement htree (f.arena.size + 1) (Path.isDeclarationFile f.path) hready' hawaits
      · exact (hsettles.mono fun _ _ => trivial).trans (hfold.mono fun _ _ => trivial)
      · have hne : n ≠ root := by
          rintro rfl
          exact absurd ((hn.beneath hform ht).index_lt htree.isOrdered) (Nat.lt_irrefl _)
        exact (hsettles.only n hne).trans (hnothing n)
      · exact Arena.innermost_of_outer hform ht List.not_mem_nil ht (by simp [hmodule])
    split
    · obtain ⟨hadds, hhome⟩ := adds_addFile f (d := { tables }) h root
      have hsettles : Settles f.arena (· = root) { tables } (addFile f { tables } root) :=
        .of_adds hplaced hadds
        (fun n _ => hnothing n) (by rintro n rfl; exact Arena.innermost_of_isModule hmodule)
          fun q hq => by cases hq
      refine hstatements hsettles ⟨hsettles.homed, hsettles.placed, fun q hq => ?_⟩
      obtain rfl := Option.some.inj hq
      exact ⟨_, hhome, rfl⟩
    · exact hstatements hstart ⟨h, hplaced, fun q hq => by cases hq⟩
  · exact hstart.mono fun _ _ => trivial

end Declarations

end DeclBundle
