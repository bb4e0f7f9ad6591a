import Chomsky.Proofs.Batch.Runs
/-!
# Cursors move forward

Whatever a cursor is asked to do, and in whatever order, it only moves over lines that are in front
of it. So it always stands behind a number of lines of its text, and this number never gets smaller
nor larger than the number of all lines. Reading a block gets over its first line whether the block
is read or refused, so with each pass of the reading of blocks fewer lines that are not blank are in
front of the cursor, and the passes come to an end on every text.

## Main definitions

* `Cursor.Move`, `Cursor.run`: what a cursor is asked to do, and where that leads.
* `Cursor.Reaches`: a cursor comes to another one by moving over lines in front of it.
* `Cursor.MovesFrom`: what each move does behind a number of lines of a text.
* `BlockOutcome.readWithin`: the reading of blocks by passes, given up after a number of them.

## Main results

* `Cursor.reaches_run`: what every sequence of moves keeps.
* `BlockOutcome.readWithin_eq_some`: as many passes as there are lines that are not blank find all
  blocks, and one more finds the end.
* `Cursor.run_forward`: moves on a text, and the passes that reading it takes.
-/
namespace Chomsky

namespace Cursor

/-! ## Moves -/

/-- What a cursor is asked to do. -/
inductive Move
  | skipBlank
  | takeBlock
  | takeCount
  | readBlock

/-- The cursor behind what it passed over or took. -/
def after (c : Cursor) : Move → Cursor
  | .skipBlank => c.skipBlank
  | .takeBlock => c.takeBlock.2
  | .takeCount => c.takeCount.2
  | .readBlock => (Block.read c).2

/-- The cursor after one move and then the next. -/
def run (c : Cursor) (moves : List Move) : Cursor := moves.foldl after c

/-- A cursor comes to another one by moving over lines that are in front of it. -/
def Reaches (c d : Cursor) : Prop := ∃ n ≤ c.rest.length, d = c.advance n

/-- The number of lines in front of a cursor that are not blank. -/
def unread (c : Cursor) : Nat := c.rest.countP fun line => !Text.isBlankLine line

section
variable {c d e : Cursor}

theorem Reaches.refl (c : Cursor) : c.Reaches c := ⟨0, Nat.zero_le _, rfl⟩

theorem Reaches.trans (h : c.Reaches d) (h' : d.Reaches e) : c.Reaches e := by
  obtain ⟨m, hm, rfl⟩ := h
  obtain ⟨n, hn, rfl⟩ := h'
  rw [rest_advance, List.length_drop] at hn
  exact ⟨m + n, by omega, (advance_add c m n).symm⟩

theorem Reaches.unread_le (h : c.Reaches d) : d.unread ≤ c.unread := by
  obtain ⟨n, -, rfl⟩ := h
  exact (List.drop_sublist n c.rest).countP_le

theorem reaches_skipBlank (c : Cursor) : c.Reaches c.skipBlank :=
  ⟨_, (List.takeWhile_prefix _).length_le, rfl⟩

theorem reaches_takeBlock (c : Cursor) : c.Reaches c.takeBlock.2 :=
  ⟨_, (List.takeWhile_prefix _).length_le, rfl⟩

/-- Without a line, or in front of a blank one, a count is missing and the cursor stays. Any other
line is taken, whether it holds a count or not. -/
theorem takeCount_cases (c : Cursor) :
    ((∀ line ∈ c.rest.head?, Text.isBlankLine line = true) ∧
      c.takeCount = (.error ⟨c.location, .missingCount⟩, c)) ∨
    ∃ line result, c.rest.head? = some line ∧ Text.isBlankLine line = false ∧
      c.takeCount = (result, c.advance 1) ∧
      ((∃ count, result = .ok count) ∨
        result = .error ⟨c.location, .invalidCount (Text.trim line)⟩) := by
  cases hrest : c.rest with
  | nil => exact .inl ⟨by simp, takeCount_of_rest_eq_nil hrest⟩
  | cons line rest =>
    cases hb : Text.isBlankLine line with
    | true => exact .inl ⟨by simpa using hb, by simp [takeCount, hrest, hb]⟩
    | false =>
      refine .inr ⟨line, countOn c.location line, rfl, hb, takeCount_of_rest_eq_cons hrest hb, ?_⟩
      rw [countOn]
      split
      · exact .inl ⟨_, rfl⟩
      · exact .inr rfl

theorem reaches_takeCount (c : Cursor) : c.Reaches c.takeCount.2 := by
  rcases takeCount_cases c with ⟨-, hstays⟩ | ⟨line, result, hline, -, htakes, -⟩
  · rw [hstays]
    exact .refl c
  · obtain ⟨rest, hrest⟩ := List.head?_eq_some_iff.1 hline
    rw [htakes]
    exact ⟨1, by simp [hrest], rfl⟩

/-- The strings of a block are passed over even if their number cannot be read. -/
theorem cursor_readStrings (c : Cursor) :
    (Block.readStrings c).2.2 = c.takeCount.2.takeBlock.2 := by
  rw [Block.readStrings]
  split
  · rename_i hcount
    rw [hcount]
  · rename_i hcount
    rw [hcount]

theorem reaches_readStrings (c : Cursor) : c.Reaches (Block.readStrings c).2.2 := by
  rw [cursor_readStrings]
  exact (reaches_takeCount c).trans (reaches_takeBlock _)

theorem takeBlock_reaches_read (c : Cursor) : c.takeBlock.2.Reaches (Block.read c).2 :=
  (reaches_skipBlank _).trans (reaches_readStrings _)

theorem reaches_after (c : Cursor) (move : Move) : c.Reaches (c.after move) := by
  cases move with
  | skipBlank => exact reaches_skipBlank c
  | takeBlock => exact reaches_takeBlock c
  | takeCount => exact reaches_takeCount c
  | readBlock => exact (reaches_takeBlock c).trans (takeBlock_reaches_read c)

theorem reaches_run (c : Cursor) (moves : List Move) : c.Reaches (c.run moves) := by
  induction moves generalizing c with
  | nil => exact .refl c
  | cons move moves ih => exact (reaches_after c move).trans (ih (c.after move))

theorem run_append (c : Cursor) (moves more : List Move) :
    c.run (moves ++ more) = (c.run moves).run more := List.foldl_append ..

/-! ## Progress -/

/-- A block that starts with a line is read from behind this line on. -/
theorem advance_one_reaches_read {line : Text.Line} {rest : List Text.Line}
    (h : c.rest = line :: rest) (hb : Text.isBlankLine line = false) :
    (c.advance 1).Reaches (Block.read c).2 := by
  have hfirst : (c.advance 1).Reaches c.takeBlock.2 := by
    rw [takeBlock_of_rest_eq_cons h hb]
    exact reaches_takeBlock (c.advance 1)
  exact hfirst.trans (takeBlock_reaches_read c)

theorem unread_advance_one {line : Text.Line} {rest : List Text.Line}
    (h : c.rest = line :: rest) (hb : Text.isBlankLine line = false) :
    (c.advance 1).unread + 1 = c.unread := by
  rw [unread, unread, rest_advance, h, List.drop_one, List.tail_cons,
    List.countP_cons_of_pos (by simp [hb])]

end

end Cursor

namespace BlockOutcome

/-- One pass of the reading of blocks: behind blank lines the next block, unless the file ends
there. -/
def pass? (c : Cursor) : Option (BlockOutcome × Cursor) :=
  if c.skipBlank.atEnd then none else some (Block.read c.skipBlank)

/-- What is read in passes up to the one that finds the end of the file; nothing if this is not
among the first passes, as many as given. -/
def readWithin : Nat → Cursor → Option (List BlockOutcome)
  | 0, _ => none
  | passes + 1, c =>
    match pass? c with
    | none => some []
    | some (outcome, c') => (readWithin passes c').map (outcome :: ·)

/-- Blocks are read pass by pass until one finds the end of the file. -/
theorem readAll_eq (c : Cursor) : readAll c =
    match pass? c with
    | none => []
    | some (outcome, c') => outcome :: readAll c' := by
  rw [readAll, pass?, Cursor.atEnd]
  split
  · rename_i hrest
    rw [hrest]
    rfl
  · rename_i hrest
    rw [hrest]
    rfl

/-- A pass that reads a block leaves fewer lines unread. -/
theorem unread_lt_of_pass? {c c' : Cursor} {outcome : BlockOutcome}
    (h : pass? c = some (outcome, c')) : c'.unread < c.unread := by
  rw [pass?, Cursor.atEnd] at h
  cases hrest : c.skipBlank.rest with
  | nil => simp [hrest] at h
  | cons line rest =>
    have hb := Cursor.isBlankLine_of_rest_skipBlank hrest
    have hskip := (Cursor.reaches_skipBlank c).unread_le
    have hfirst := Cursor.unread_advance_one hrest hb
    have hblock : Block.read c.skipBlank = (outcome, c') := by simpa [hrest] using h
    have hread : c'.unread ≤ (c.skipBlank.advance 1).unread := by
      simpa [hblock] using (Cursor.advance_one_reaches_read hrest hb).unread_le
    omega

/-- With more passes than lines that are not blank the end of the file is found. -/
theorem readWithin_eq_some {passes : Nat} {c : Cursor} (h : c.unread < passes) :
    readWithin passes c = some (readAll c) := by
  induction passes generalizing c with
  | zero => omega
  | succ passes ih =>
    rw [readWithin, readAll_eq]
    cases hpass : pass? c with
    | none => rfl
    | some next =>
      obtain ⟨outcome, c'⟩ := next
      have hlt := unread_lt_of_pass? hpass
      have hrest : readWithin passes c' = some (readAll c') := ih (by omega)
      simp only [hrest, Option.map_some]

/-- Each block takes a pass of its own, and so does finding the end of the file. -/
theorem length_lt_of_readWithin {passes : Nat} {c : Cursor} {outcomes : List BlockOutcome}
    (h : readWithin passes c = some outcomes) : outcomes.length < passes := by
  induction passes generalizing c outcomes with
  | zero => simp [readWithin] at h
  | succ passes ih =>
    rw [readWithin] at h
    split at h
    · cases h
      simp
    · obtain ⟨others, hothers, rfl⟩ := Option.map_eq_some_iff.1 h
      have hlt := ih hothers
      rw [List.length_cons]
      omega

end BlockOutcome

namespace Cursor

/-! ## Places in a text -/

/-- The cursor behind the first `next` lines of a text. -/
def behind (file : Path) (text : List Char) (next : Nat) : Cursor :=
  ⟨file, next + 1, (Text.lines text).drop next⟩

/-- The lines of a text from the place behind its first `next` lines to the place behind its first
`stop` lines. -/
def linesBetween (text : List Char) (next stop : Nat) : List Text.Line :=
  ((Text.lines text).drop next).take (stop - next)

/-- What moves do to the cursor behind the first `next` lines of a text. -/
structure MovesFrom (file : Path) (text : List Char) (next : Nat) : Prop where
  /-- Blank lines are passed over, up to a line that is not blank or the end. -/
  skipBlank : ∃ stop, next ≤ stop ∧ stop ≤ (Text.lines text).length ∧
    (behind file text next).skipBlank = behind file text stop ∧
    (∀ line ∈ linesBetween text next stop, Text.isBlankLine line = true) ∧
    ∀ line ∈ (Text.lines text)[stop]?, Text.isBlankLine line = false
  /-- A block is all lines up to a blank one or the end, with their numbers. -/
  takeBlock : ∃ stop, next ≤ stop ∧ stop ≤ (Text.lines text).length ∧
    (behind file text next).takeBlock =
      (locate file (next + 1) (linesBetween text next stop), behind file text stop) ∧
    (∀ line ∈ linesBetween text next stop, Text.isBlankLine line = false) ∧
    ∀ line ∈ (Text.lines text)[stop]?, Text.isBlankLine line = true
  /-- A count is missing where the text ends or a line is blank, and the cursor stays; any other
  line is taken, whether it holds a count or not. -/
  takeCount :
    ((∀ line ∈ (Text.lines text)[next]?, Text.isBlankLine line = true) ∧
      (behind file text next).takeCount =
        (.error ⟨⟨file, next + 1⟩, .missingCount⟩, behind file text next)) ∨
    ∃ line result, (Text.lines text)[next]? = some line ∧ Text.isBlankLine line = false ∧
      (behind file text next).takeCount = (result, behind file text (next + 1)) ∧
      ((∃ count, result = .ok count) ∨
        result = .error ⟨⟨file, next + 1⟩, .invalidCount (Text.trim line)⟩)
  /-- Reading a block gets over its first line at least, whether the block is read or refused. -/
  readBlock : ∃ stop, next ≤ stop ∧ stop ≤ (Text.lines text).length ∧
    (Block.read (behind file text next)).2 = behind file text stop ∧
    ∀ line ∈ (Text.lines text)[next]?, Text.isBlankLine line = false → next < stop

section
variable {file : Path} {text : List Char} {next : Nat}

theorem advance_behind (file : Path) (text : List Char) (next n : Nat) :
    (behind file text next).advance n = behind file text (next + n) := by
  simp [behind, advance, Nat.add_right_comm]

/-- From a place in a text a cursor comes to this place or to a later one. -/
theorem Reaches.exists_behind (hnext : next ≤ (Text.lines text).length) {d : Cursor}
    (h : (behind file text next).Reaches d) :
    ∃ stop, next ≤ stop ∧ stop ≤ (Text.lines text).length ∧ d = behind file text stop := by
  obtain ⟨n, hn, rfl⟩ := h
  rw [behind, List.length_drop] at hn
  exact ⟨next + n, by omega, by omega, advance_behind file text next n⟩

/-- The element behind the first ones with a property does not have it. -/
theorem eq_false_of_mem_getElem?_takeWhile {α : Type} {p : α → Bool} {xs : List α} {x : α}
    (h : x ∈ xs[(xs.takeWhile p).length]?) : p x = false := by
  induction xs with
  | nil => simp at h
  | cons y xs ih =>
    by_cases hy : p y = true
    · rw [List.takeWhile_cons_of_pos hy, List.length_cons, List.getElem?_cons_succ] at h
      exact ih h
    · rw [List.takeWhile_cons_of_neg hy] at h
      obtain rfl : y = x := by simpa using h
      simpa using hy

/-- Moving over the lines with a property leads to the first line without it, or to the end. -/
theorem exists_stop_takeWhile (file : Path) (p : Text.Line → Bool)
    (hnext : next ≤ (Text.lines text).length) :
    ∃ stop, next ≤ stop ∧ stop ≤ (Text.lines text).length ∧
      (behind file text next).advance
        ((behind file text next).rest.takeWhile p).length = behind file text stop ∧
      (behind file text next).rest.takeWhile p = linesBetween text next stop ∧
      (∀ line ∈ linesBetween text next stop, p line = true) ∧
      ∀ line ∈ (Text.lines text)[stop]?, p line = false := by
  have hprefix := List.takeWhile_prefix p (l := (behind file text next).rest)
  have hlength := hprefix.length_le
  generalize hn : ((behind file text next).rest.takeWhile p).length = n at hlength
  have hlines : (behind file text next).rest.takeWhile p = linesBetween text next (next + n) := by
    rw [linesBetween, Nat.add_sub_cancel_left, ← hn]
    exact List.prefix_iff_eq_take.1 hprefix
  rw [behind, List.length_drop] at hlength
  refine ⟨next + n, by omega, by omega, advance_behind file text next n, hlines, ?_, ?_⟩
  · intro line hline
    exact List.mem_takeWhile_imp (hlines ▸ hline)
  · intro line hline
    rw [← List.getElem?_drop, ← hn] at hline
    exact eq_false_of_mem_getElem?_takeWhile hline

theorem rest_behind_of_getElem? (file : Path) {line : Text.Line}
    (h : (Text.lines text)[next]? = some line) :
    (behind file text next).rest = line :: (Text.lines text).drop (next + 1) := by
  obtain ⟨hlt, rfl⟩ := List.getElem?_eq_some_iff.1 h
  exact List.drop_eq_getElem_cons hlt

theorem movesFrom (file : Path) (hnext : next ≤ (Text.lines text).length) :
    MovesFrom file text next where
  skipBlank := by
    obtain ⟨stop, hle, hstop, hadvance, -, hlines, hbehind⟩ :=
      exists_stop_takeWhile file Text.isBlankLine hnext
    exact ⟨stop, hle, hstop, hadvance, hlines, hbehind⟩
  takeBlock := by
    obtain ⟨stop, hle, hstop, hadvance, htake, hlines, hbehind⟩ :=
      exists_stop_takeWhile file (fun line => !Text.isBlankLine line) hnext
    refine ⟨stop, hle, hstop, ?_, by simpa using hlines, by simpa using hbehind⟩
    rw [← htake, ← hadvance]
    rfl
  takeCount := by
    have hfirst : (behind file text next).rest.head? = (Text.lines text)[next]? := List.head?_drop
    have hcases := takeCount_cases (behind file text next)
    rw [advance_behind, hfirst] at hcases
    exact hcases
  readBlock := by
    obtain ⟨stop, hle, hstop, hread⟩ :=
      (reaches_after (behind file text next) .readBlock).exists_behind hnext
    refine ⟨stop, hle, hstop, hread, fun line hline hb => ?_⟩
    have hlt : next < (Text.lines text).length := (List.getElem?_eq_some_iff.1 hline).1
    have hfirst := advance_one_reaches_read (rest_behind_of_getElem? file hline) hb
    rw [advance_behind] at hfirst
    obtain ⟨stop', hle', -, hread'⟩ := hfirst.exists_behind hlt
    have hsame : stop + 1 = stop' + 1 := congrArg number (hread.symm.trans hread')
    omega

/-- The blocks of a batch are read behind its count, which is a line that is not blank. -/
theorem outcomes_of_read {reading : Batch.Reading} (h : Batch.read file text = .ok reading) :
    reading.outcomes =
        BlockOutcome.readAll ((ofText file text).run [.skipBlank, .takeCount]) ∧
      ((ofText file text).run [.skipBlank, .takeCount]).unread < (ofText file text).unread := by
  generalize hc : (ofText file text).skipBlank = c
  have hskip : c.unread ≤ (ofText file text).unread := hc ▸ (reaches_skipBlank _).unread_le
  have hrun : (ofText file text).run [.skipBlank, .takeCount] = c.takeCount.2 := by rw [← hc]; rfl
  rw [Batch.read, hc] at h
  rw [hrun]
  rcases takeCount_cases c with ⟨-, hmissing⟩ | ⟨line, result, hline, hb, htake, -⟩
  · simp [hmissing] at h
  · obtain ⟨rest, hrest⟩ := List.head?_eq_some_iff.1 hline
    have hfirst := unread_advance_one hrest hb
    have hlt : (c.advance 1).unread < (ofText file text).unread := by omega
    rw [htake]
    refine ⟨?_, hlt⟩
    cases result with
    | error fault => simp [htake] at h
    | ok expected =>
      simp only [htake] at h
      obtain rfl := Except.ok.inj h
      rfl

end

/-- On every text, whatever a cursor was asked to do, it stands behind a number of lines, and every
further move leaves it there or leads on, as `MovesFrom` says for each of the moves. The passes that
read the blocks behind it come to an end, with at most as many blocks as there are lines left that
are not blank. So does the reading of a batch. -/
theorem run_forward (file : Path) (text : List Char) (moves : List Move) :
    (∃ next ≤ (Text.lines text).length,
      (ofText file text).run moves = behind file text next ∧ MovesFrom file text next ∧
      (∀ more, ∃ stop, next ≤ stop ∧ stop ≤ (Text.lines text).length ∧
        (ofText file text).run (moves ++ more) = behind file text stop) ∧
      BlockOutcome.readWithin ((behind file text next).unread + 1) (behind file text next) =
        some (BlockOutcome.readAll (behind file text next)) ∧
      (BlockOutcome.readAll (behind file text next)).length ≤ (behind file text next).unread) ∧
    ∀ reading, Batch.read file text = .ok reading →
      BlockOutcome.readWithin (ofText file text).unread
          ((ofText file text).run [.skipBlank, .takeCount]) = some reading.outcomes ∧
        reading.outcomes.length ≤ (ofText file text).unread := by
  have hstart : ofText file text = behind file text 0 := rfl
  constructor
  · rw [hstart]
    obtain ⟨next, -, hnext, hrun⟩ :=
      (reaches_run (behind file text 0) moves).exists_behind (Nat.zero_le _)
    have hpasses :=
      BlockOutcome.readWithin_eq_some (Nat.lt_succ_self (behind file text next).unread)
    refine ⟨next, hnext, hrun, movesFrom file hnext, fun more => ?_, hpasses,
      Nat.lt_succ_iff.1 (BlockOutcome.length_lt_of_readWithin hpasses)⟩
    rw [run_append, hrun]
    exact (reaches_run (behind file text next) more).exists_behind hnext
  · intro reading hread
    obtain ⟨hall, hlt⟩ := outcomes_of_read hread
    have hpasses := BlockOutcome.readWithin_eq_some hlt
    rw [hall]
    exact ⟨hpasses, (BlockOutcome.length_lt_of_readWithin hpasses).le⟩

/-- A text with a refused block, an unreadable count behind it, and a last block without a count. -/
def refusedText : List Char := "2\n\nS -> ab\n\nx\nab\n \nS --> a".toList

/-- In front of the refused block the cursor stands behind two lines, and reading the block leads
on. The batch is read with at most as many blocks as its five lines that are not blank. -/
theorem run_forward_refusedText :
    (∃ next, (ofText ⟨['f']⟩ refusedText).run [.skipBlank, .takeCount, .skipBlank] =
        behind ⟨['f']⟩ refusedText next ∧
      (∃ stop, next < stop ∧
        (Block.read (behind ⟨['f']⟩ refusedText next)).2 = behind ⟨['f']⟩ refusedText stop)) ∧
      ∃ reading, Batch.read ⟨['f']⟩ refusedText = .ok reading ∧ reading.outcomes.length ≤ 5 := by
  obtain ⟨⟨next, -, hrun, hmoves, -⟩, hbatch⟩ :=
    run_forward ⟨['f']⟩ refusedText [.skipBlank, .takeCount, .skipBlank]
  have hnext : next = 2 := by
    have hnumber : next + 1 = 3 := (congrArg number hrun).symm.trans (by decide +kernel)
    omega
  obtain ⟨stop, -, -, hread, hforward⟩ := hmoves.readBlock
  have hline : (Text.lines refusedText)[next]? = some "S -> ab".toList := by
    subst hnext
    decide +kernel
  obtain ⟨reading, hreading⟩ : ∃ reading, Batch.read ⟨['f']⟩ refusedText = .ok reading := ⟨_, rfl⟩
  exact ⟨⟨next, hrun, stop, hforward _ hline (by decide +kernel), hread⟩, reading, hreading,
    (hbatch reading hreading).2.trans (by decide +kernel)⟩

end Cursor

end Chomsky
