import DeclBundle.Proofs.TokenRanges

/-!
# A lexer that goes back

A snapshot holds where a lexer stands and how many errors it has found, but not the errors
(`Lexer.Snapshot`). Going back to it is exact since everything that a lexer can be told to do only
adds errors (`Lexer.Command.continues`). Snapshots can be nested: what is done between taking one
and going back to it leaves no trace, when it goes back to its own snapshots only
(`Lexer.Session.after_bracket`).

No command leaves the text either, except that a string can count one byte too many
(`Lexer.Command.isPlaced`).
-/

set_option autoImplicit false

namespace DeclBundle

open Text
open Cursor (ReadsTo)

namespace Lexer

/-! ## Snapshots -/

/-- What is kept of a lexer in order to go back to it. -/
structure Snapshot where
  here : Cursor
  token : Token
  /-- How many errors there are. -/
  errorCount : Nat

/-- The snapshot of a lexer. -/
def save (l : Lexer) : Snapshot := ⟨l.here, l.token, l.errors.length⟩

/-- Goes back to a snapshot. The errors that were found first are kept. -/
def restore (l : Lexer) (saved : Snapshot) : Lexer :=
  { l with here := saved.here, token := saved.token, errors := l.errors.rtake saved.errorCount }

/-- The lexer `m` reads the same text as `l`, and has found what `l` has found and maybe more. -/
structure Continues (l m : Lexer) : Prop where
  size_eq : m.size = l.size
  errors : l.errors <:+ m.errors

theorem Continues.refl (l : Lexer) : l.Continues l := ⟨rfl, List.suffix_rfl⟩

theorem Continues.trans {l m n : Lexer} (h : l.Continues m) (h' : m.Continues n) : l.Continues n :=
  ⟨h'.size_eq.trans h.size_eq, h.errors.trans h'.errors⟩

/-- The first elements of a list are counted from its end when the latest stands first. -/
theorem rtake_of_suffix {α : Type} {old new : List α} (h : old <:+ new) :
    new.rtake old.length = old :=
  (List.suffix_iff_eq_drop.1 h).symm

/-- To go back to a snapshot is to be where it was taken. -/
theorem Continues.restore_save {l m : Lexer} (h : l.Continues m) : m.restore l.save = l := by
  simp only [restore, save, h.size_eq, rtake_of_suffix h.errors]

/-! ## Commands -/

/-- What a lexer can be told to do. -/
inductive Command where
  | scan
  | skipBlock
  | skipTemplate
  | rescanTemplate
  | rescanRegex
  deriving DecidableEq, Repr

/-- The lexer after a command. -/
def Command.run (l : Lexer) : Command → Lexer
  | scan => l.scan
  | skipBlock => l.skipBlock.2
  | skipTemplate => l.skipTemplate
  | rescanTemplate => l.rescanTemplate
  | rescanRegex => l.rescanRegex

/-- The lexer after some commands. -/
def runAll (l : Lexer) (cs : List Command) : Lexer := cs.foldl Command.run l

variable {text : String} {l : Lexer}

theorem continues_accept (l : Lexer) (start : Cursor) (found : Lexeme) :
    l.Continues (l.accept start found) := by
  unfold accept
  dsimp only
  split
  · exact ⟨rfl, List.suffix_cons _ _⟩
  · exact ⟨rfl, List.suffix_rfl⟩

theorem continues_atNext (l : Lexer) : l.Continues l.atNext := by
  unfold atNext
  dsimp only
  split
  · exact ⟨rfl, List.suffix_cons _ _⟩
  · exact ⟨rfl, List.suffix_rfl⟩

theorem continues_scan (l : Lexer) : l.Continues l.scan := by
  rw [scan_eq]
  split
  · exact continues_atNext l
  · exact (continues_atNext l).trans (continues_accept _ _ _)

theorem continues_skipBlock (l : Lexer) : l.Continues l.skipBlock.2 := by
  unfold skipBlock
  dsimp only
  refine .trans ?_ (continues_scan _)
  split
  · exact ⟨rfl, List.suffix_rfl⟩
  · exact ⟨rfl, List.suffix_cons _ _⟩

theorem continues_skipTemplate (l : Lexer) : l.Continues l.skipTemplate := by
  unfold skipTemplate
  split
  · exact continues_accept _ _ _
  · exact .refl l

/-- No command takes an error away. -/
theorem Command.continues (c : Command) (l : Lexer) : l.Continues (c.run l) := by
  cases c with
  | scan => exact continues_scan l
  | skipBlock => exact continues_skipBlock l
  | skipTemplate => exact continues_skipTemplate l
  | rescanTemplate => exact continues_accept l l.token.start _
  | rescanRegex =>
    change l.Continues (l.accept l.token.start (written .regularExpression l.token.start _))
    exact continues_accept l _ _

/-! ## Places -/

/-- The lexer and its token stand at positions of the text, unless they are at its end or beyond. -/
structure IsPlaced (text : String) (l : Lexer) : Prop where
  size_eq : l.size = text.utf8ByteSize
  here_isIn : l.here.rest ≠ [] → l.here.IsIn text
  start_isIn : l.token.start.rest ≠ [] → l.token.start.IsIn text

/-- Reading on keeps to the positions of the text. -/
theorem isIn_of_readsTo {c d : Cursor} (hc : c.rest ≠ [] → c.IsIn text) (h : c.ReadsTo d)
    (hd : d.rest ≠ []) :
    d.IsIn text := by
  obtain ⟨us, hrest, -⟩ := id h
  refine (hc fun hnil => hd ?_).readsTo h
  rw [hnil] at hrest
  exact (List.append_eq_nil_iff.1 hrest.symm).2

theorem isPlaced_ofText (text : String) : (ofText text).IsPlaced text :=
  ⟨rfl, fun _ => here_ofText text, fun _ => here_ofText text⟩

theorem IsPlaced.accept (h : l.IsPlaced text) {start : Cursor} {found : Lexeme}
    (hstart : start.rest ≠ [] → start.IsIn text) (hstop : found.stop.rest ≠ [] →
      found.stop.IsIn text) : (l.accept start found).IsPlaced text where
  size_eq := (continues_accept l start found).size_eq.trans h.size_eq
  here_isIn := by rwa [here_accept]
  start_isIn := by rwa [token_start_accept]

theorem IsPlaced.atNext (h : l.IsPlaced text) : l.atNext.IsPlaced text :=
  have hstart := isIn_of_readsTo h.here_isIn (Gap.readsTo_skip l.here)
  ⟨(continues_atNext l).size_eq.trans h.size_eq, hstart, hstart⟩

theorem IsPlaced.scan (h : l.IsPlaced text) : l.scan.IsPlaced text := by
  have hstart := isIn_of_readsTo h.here_isIn (Gap.readsTo_skip l.here)
  obtain ⟨start, hskip⟩ : ∃ start, (Gap.skip l.here).2 = start := ⟨_, rfl⟩
  rw [hskip] at hstart
  obtain ⟨_ | ⟨x, r⟩, o⟩ := start
  · rw [scan_of_nil (congrArg Cursor.rest hskip)]
    exact h.atNext
  · rw [scan_of_cons hskip]
    refine h.atNext.accept hstart fun hrest => ?_
    -- A string that counts too many bytes leaves nothing to read.
    rcases stop_lexeme (hstart (List.cons_ne_nil x r)) with ⟨hread, -⟩ | ⟨hstop, -⟩
    · exact (hstart (List.cons_ne_nil x r)).readsTo hread
    · rw [hstop] at hrest
      exact absurd rfl hrest

theorem IsPlaced.skipBlock (h : l.IsPlaced text) : l.skipBlock.2.IsPlaced text := by
  have hread : l.token.start.ReadsTo (Raw.skipBraces l.token.start.next).1 :=
    l.token.start.readsTo_next.trans (Raw.readsTo_run _ _ _)
  have hstop := isIn_of_readsTo h.start_isIn hread
  have hstop' : (Raw.skipBraces l.token.start.next).1.rest ≠ [] →
      ({ (Raw.skipBraces l.token.start.next).1 with
        offset := min (Raw.skipBraces l.token.start.next).1.offset l.size } :
            Cursor).IsIn text := by
    intro hrest
    rw [h.size_eq, Nat.min_eq_left (hstop hrest).offset_le]
    exact hstop hrest
  unfold Lexer.skipBlock
  refine IsPlaced.scan ?_
  split
  · exact ⟨h.size_eq, hstop', h.start_isIn⟩
  · exact ⟨h.size_eq, hstop', h.start_isIn⟩

theorem IsPlaced.skipTemplate (h : l.IsPlaced text) : l.skipTemplate.IsPlaced text := by
  unfold Lexer.skipTemplate
  split
  · exact h.accept h.start_isIn (isIn_of_readsTo h.here_isIn (Raw.readsTo_run _ _ _))
  · exact h

/-- No command leaves the text. -/
theorem Command.isPlaced (c : Command) (h : l.IsPlaced text) : (c.run l).IsPlaced text := by
  have hnext {d : Cursor} (hread : l.token.start.next.ReadsTo d) : d.rest ≠ [] → d.IsIn text :=
    isIn_of_readsTo h.start_isIn (l.token.start.readsTo_next.trans hread)
  cases c with
  | scan => exact h.scan
  | skipBlock => exact h.skipBlock
  | skipTemplate => exact h.skipTemplate
  | rescanTemplate => exact h.accept h.start_isIn (hnext (readsTo_chunk _ _ _))
  | rescanRegex =>
    change (l.accept l.token.start (written .regularExpression l.token.start _)).IsPlaced text
    exact h.accept h.start_isIn (hnext (Raw.readsTo_regexEnd _ _ _))

theorem isPlaced_runAll (cs : List Command) (h : l.IsPlaced text) :
    (l.runAll cs).IsPlaced text := by
  induction cs generalizing l with
  | nil => exact h
  | cons c cs ih => exact ih (c.isPlaced h)

/-! ## Snapshots inside of each other -/

/-- What a lexer with a stack of snapshots can be asked for. -/
inductive Request where
  | run (c : Command)
  | save
  /-- Goes back to the latest snapshot, which is taken from the stack. -/
  | restore
  /-- Takes the latest snapshot from the stack, and stays. -/
  | forget
  deriving DecidableEq, Repr

/-- A lexer with the snapshots to which it can go back, the latest first. -/
structure Session where
  lexer : Lexer
  saved : List Snapshot

namespace Session

/-- A lexer before the first token, without snapshots. -/
def ofText (text : String) : Session := ⟨.ofText text, []⟩

/-- The session after one request. Without a snapshot there is nothing to go back to. -/
def step (s : Session) : Request → Session
  | .run c => { s with lexer := c.run s.lexer }
  | .save => { s with saved := s.lexer.save :: s.saved }
  | .restore =>
    match s.saved with
    | [] => s
    | latest :: earlier => ⟨s.lexer.restore latest, earlier⟩
  | .forget => { s with saved := s.saved.tail }

/-- The session after some requests. -/
def after (s : Session) (rs : List Request) : Session := rs.foldl step s

/-- Every snapshot that is taken is gone back to or forgotten, and no other one. -/
inductive IsNested : List Request → Prop
  | nil : IsNested []
  | run (c : Command) {rs : List Request} (hrs : IsNested rs) : IsNested (.run c :: rs)
  | bracket {inner rs : List Request} (hinner : IsNested inner) (hrs : IsNested rs) :
      IsNested (.save :: (inner ++ .restore :: rs))
  | kept {inner rs : List Request} (hinner : IsNested inner) (hrs : IsNested rs) :
      IsNested (.save :: (inner ++ .forget :: rs))

theorem after_append (s : Session) (rs rs' : List Request) :
    s.after (rs ++ rs') = (s.after rs).after rs' :=
  List.foldl_append

/-- Going back ends where the snapshot was taken, with the snapshots that there were. -/
theorem step_restore {s t : Session} (hsaved : t.saved = (s.step .save).saved)
    (h : s.lexer.Continues t.lexer) :
    t.step .restore = s := by
  obtain ⟨l, saved⟩ := t
  obtain rfl : saved = s.lexer.save :: s.saved := hsaved
  change Session.mk (l.restore s.lexer.save) s.saved = s
  rw [Continues.restore_save h]

/-- Nested requests leave the snapshots of others alone, and the lexer goes on. By induction on how
they are nested: a snapshot that is gone back to inside is one that was taken inside. -/
theorem continues_after {rs : List Request} (h : IsNested rs) (s : Session) :
    (s.after rs).saved = s.saved ∧ s.lexer.Continues (s.after rs).lexer := by
  induction h generalizing s with
  | nil => exact ⟨rfl, .refl _⟩
  | run c _ ih =>
    obtain ⟨hsaved, hlexer⟩ := ih (s.step (.run c))
    exact ⟨hsaved, (c.continues _).trans hlexer⟩
  | @bracket inner rs _ _ ihinner ihrest =>
    obtain ⟨hsaved, hlexer⟩ := ihinner (s.step .save)
    -- Behind the bracket it is as if there had been none.
    have hrest : s.after (.save :: (inner ++ .restore :: rs)) = s.after rs := by
      rw [← List.cons_append, after_append]
      exact congrArg (·.after rs) (step_restore hsaved hlexer)
    rw [hrest]
    exact ihrest s
  | @kept inner rs _ _ ihinner ihrest =>
    obtain ⟨hsaved, hlexer⟩ := ihinner (s.step .save)
    obtain ⟨hsaved', hlexer'⟩ := ihrest ((s.after (.save :: inner)).step .forget)
    rw [← List.cons_append, after_append]
    exact ⟨hsaved'.trans (congrArg List.tail hsaved), hlexer.trans hlexer'⟩

/-- What is done between taking a snapshot and going back to it leaves no trace. -/
theorem after_bracket {inner : List Request} (h : IsNested inner) (s : Session) :
    s.after (.save :: (inner ++ [.restore])) = s := by
  obtain ⟨hsaved, hlexer⟩ := continues_after h (s.step .save)
  rw [← List.cons_append, after_append]
  exact step_restore hsaved hlexer

end Session

end Lexer

end DeclBundle
