import Chomsky.Batch.Reading
import Mathlib.Data.List.TakeWhile
/-!
# Runs of lines

A file falls into runs of non-blank lines, as long as possible, with blank lines between them.
Whatever a cursor does, it moves over whole runs: it passes over the gap in front of a run and
takes the run. So the blocks of a file come from its runs, taken in pairs, and reading them is
a function of the runs and of the end of the file.

## Main definitions

* `runsBetween gap`: the runs of a list between elements that make a gap.
* `Cursor.located`: the lines in front of a cursor with their locations.
* `Cursor.runs`: the runs of these lines.
* `Block.outcomesOf`: what runs read as, taken in pairs.

## Main results

* `BlockOutcome.readAll_eq_outcomesOf`: reading up to the end of the file.
-/
namespace Chomsky

/-! ## Runs -/

/-- The runs of elements that make no gap, each as long as possible, in order. -/
def runsBetween {α : Type} (gap : α → Bool) (xs : List α) : List (List α) :=
  (xs.splitOnP gap).filter fun run => !run.isEmpty

section
variable {α : Type} {gap : α → Bool}

@[simp] theorem runsBetween_nil : runsBetween gap [] = [] := by simp [runsBetween]

/-- A gap at the front belongs to no run. -/
theorem runsBetween_cons_of_gap {x : α} (hx : gap x = true) (xs : List α) :
    runsBetween gap (x :: xs) = runsBetween gap xs := by
  rw [runsBetween, List.splitOnP_cons_eq_if_modifyHead, if_pos hx]
  rfl

theorem runsBetween_dropWhile (xs : List α) :
    runsBetween gap (xs.dropWhile gap) = runsBetween gap xs := by
  induction xs with
  | nil => rfl
  | cons x xs ih =>
    by_cases hx : gap x = true
    · rw [List.dropWhile_cons_of_pos hx, ih, runsBetween_cons_of_gap hx]
    · rw [List.dropWhile_cons_of_neg hx]

theorem runsBetween_eq_singleton {run : List α} (hne : run ≠ []) (h : ∀ x ∈ run, gap x = false) :
    runsBetween gap run = [run] := by
  rw [runsBetween, List.splitOnP_eq_singleton h]
  simp [hne]

/-- A gap behind elements without one ends their run. -/
theorem runsBetween_append_cons {run : List α} (hne : run ≠ []) (h : ∀ x ∈ run, gap x = false)
    {x : α} (hx : gap x = true) (xs : List α) :
    runsBetween gap (run ++ x :: xs) = run :: runsBetween gap xs := by
  rw [runsBetween, List.splitOnP_append_cons_of_forall_mem h x hx]
  simp [hne, runsBetween]

/-- Without a gap at the front the first run starts there and goes up to the next gap. -/
theorem runsBetween_cons_of_not_gap {x : α} (hx : gap x = false) (xs : List α) :
    runsBetween gap (x :: xs) =
      (x :: xs).takeWhile (!gap ·) :: runsBetween gap ((x :: xs).dropWhile (!gap ·)) := by
  have hrun : ∀ y ∈ (x :: xs).takeWhile (!gap ·), gap y = false := by
    intro y hy
    simpa using List.mem_takeWhile_imp hy
  have hne : (x :: xs).takeWhile (!gap ·) ≠ [] := by simp [hx]
  have happend := List.takeWhile_append_dropWhile (p := (!gap ·)) (l := x :: xs)
  generalize (x :: xs).takeWhile (!gap ·) = run at hrun hne happend
  have hhead := List.head?_dropWhile_not (!gap ·) (x :: xs)
  generalize (x :: xs).dropWhile (!gap ·) = rest at happend hhead
  rw [← happend]
  cases rest with
  | nil => rw [List.append_nil, runsBetween_eq_singleton hne hrun, runsBetween_nil]
  | cons y rest =>
    have hy : gap y = true := by simpa using hhead
    rw [runsBetween_cons_of_gap hy, runsBetween_append_cons hne hrun hy]

/-- The runs hold the elements that make no gap, in order. -/
theorem flatten_runsBetween (xs : List α) :
    (runsBetween gap xs).flatten = xs.filter (!gap ·) := by
  rw [runsBetween, List.flatten_filter_not_isEmpty]
  induction xs with
  | nil => simp
  | cons x xs ih =>
    rw [List.splitOnP_cons_eq_if_modifyHead, List.filter_cons, ← ih]
    obtain ⟨run, runs, hruns⟩ := List.exists_cons_of_ne_nil (List.splitOnP_ne_nil gap xs)
    cases hx : gap x <;> simp [hruns]

theorem ne_nil_of_mem_runsBetween {xs run : List α} (h : run ∈ runsBetween gap xs) :
    run ≠ [] := by
  simpa using (List.mem_filter.1 h).2

/-- Next to a gap, or to an end, no run is cut in two. -/
theorem runsBetween_append {xs ys : List α}
    (h : (∀ x ∈ xs.getLast?, gap x = true) ∨ ∀ y ∈ ys.head?, gap y = true) :
    runsBetween gap (xs ++ ys) = runsBetween gap xs ++ runsBetween gap ys := by
  have hcut : ∀ {x : α}, gap x = true → ∀ xs ys : List α,
      runsBetween gap (xs ++ x :: ys) = runsBetween gap xs ++ runsBetween gap ys := by
    intro x hx xs ys
    rw [runsBetween, List.splitOnP_append_cons xs ys hx, List.filter_append, runsBetween,
      runsBetween]
  rcases h with hlast | hfirst
  · rcases List.eq_nil_or_concat xs with rfl | ⟨before, x, rfl⟩
    · simp
    · have hx : gap x = true := hlast x (by simp)
      have hxs := hcut hx before []
      rw [runsBetween_nil, List.append_nil] at hxs
      rw [List.concat_eq_append, hxs, List.append_assoc, List.singleton_append, hcut hx]
  · cases ys with
    | nil => simp
    | cons y ys =>
      have hy : gap y = true := hfirst y (by simp)
      rw [hcut hy, runsBetween_cons_of_gap hy]

/-- More gaps beside a gap, or at an end, change no run. -/
theorem runsBetween_append_gaps {xs gaps ys : List α} (hgaps : ∀ x ∈ gaps, gap x = true)
    (h : (∀ x ∈ xs.getLast?, gap x = true) ∨ ∀ y ∈ ys.head?, gap y = true) :
    runsBetween gap (xs ++ (gaps ++ ys)) = runsBetween gap (xs ++ ys) := by
  have hskip : runsBetween gap (gaps ++ ys) = runsBetween gap ys := by
    clear h
    induction gaps with
    | nil => rfl
    | cons x gaps ih =>
      obtain ⟨hx, hrest⟩ := List.forall_mem_cons.1 hgaps
      rw [List.cons_append, runsBetween_cons_of_gap hx, ih hrest]
  cases gaps with
  | nil => rfl
  | cons x gaps =>
    rw [runsBetween_append (Or.inr (by simp [hgaps])), runsBetween_append h, hskip]

theorem runsBetween_map {β : Type} (f : β → α) (xs : List β) :
    runsBetween gap (xs.map f) = (runsBetween (gap ∘ f) xs).map (List.map f) := by
  have hsplit : (xs.map f).splitOnP gap = (xs.splitOnP (gap ∘ f)).map (List.map f) := by
    induction xs with
    | nil => rfl
    | cons x xs ih =>
      rw [List.map_cons, List.splitOnP_cons_eq_if_modifyHead, List.splitOnP_cons_eq_if_modifyHead,
        ih, Function.comp_apply]
      split
      · rfl
      · cases xs.splitOnP (gap ∘ f) <;> rfl
  rw [runsBetween, hsplit, runsBetween, List.filter_map]
  congr 2
  funext run
  simp

end

/-! ## Lines with their locations -/

/-- Lines with their locations, when the first of them has a certain number. -/
def locate (file : Path) (number : Nat) (ls : List Text.Line) : List (Location × Text.Line) :=
  (ls.zipIdx number).map fun (line, number) => (⟨file, number⟩, line)

@[simp] theorem locate_nil (file : Path) (number : Nat) : locate file number [] = [] := rfl

@[simp] theorem locate_cons (file : Path) (number : Nat) (line : Text.Line)
    (ls : List Text.Line) :
    locate file number (line :: ls) = (⟨file, number⟩, line) :: locate file (number + 1) ls := rfl

@[simp] theorem map_snd_locate (file : Path) (number : Nat) (ls : List Text.Line) :
    (locate file number ls).map Prod.snd = ls := by
  induction ls generalizing number with
  | nil => rfl
  | cons line ls ih => rw [locate_cons, List.map_cons, ih]

theorem locate_append (file : Path) (number : Nat) (ls ls' : List Text.Line) :
    locate file number (ls ++ ls') =
      locate file number ls ++ locate file (number + ls.length) ls' := by
  rw [locate, List.zipIdx_append, List.map_append]
  rfl

theorem takeWhile_locate (p : Text.Line → Bool) (file : Path) (number : Nat)
    (ls : List Text.Line) : (locate file number ls).takeWhile (p ∘ Prod.snd) =
      locate file number (ls.takeWhile p) := by
  induction ls generalizing number with
  | nil => rfl
  | cons line ls ih =>
    rw [locate_cons, List.takeWhile_cons, List.takeWhile_cons, ih, Function.comp_apply]
    split <;> rfl

theorem dropWhile_locate (p : Text.Line → Bool) (file : Path) (number : Nat)
    (ls : List Text.Line) : (locate file number ls).dropWhile (p ∘ Prod.snd) =
      locate file (number + (ls.takeWhile p).length) (ls.drop (ls.takeWhile p).length) := by
  induction ls generalizing number with
  | nil => rfl
  | cons line ls ih =>
    rw [locate_cons, List.dropWhile_cons, List.takeWhile_cons, ih, Function.comp_apply]
    split
    · rw [List.length_cons, List.drop_succ_cons, Nat.add_assoc, Nat.add_comm 1]
    · rfl

namespace Cursor

/-- The lines in front of a cursor with their locations. -/
def located (c : Cursor) : List (Location × Text.Line) := locate c.file c.number c.rest

/-- The runs of the lines in front of a cursor. -/
def runs (c : Cursor) : List (List (Location × Text.Line)) :=
  runsBetween (Text.isBlankLine ∘ Prod.snd) c.located

def endLocation (c : Cursor) : Location := ⟨c.file, c.number + c.rest.length⟩

theorem location_of_rest_eq_nil {c : Cursor} (h : c.rest = []) : c.location = c.endLocation := by
  rw [location, endLocation, h, List.length_nil, Nat.add_zero]

theorem advance_add (c : Cursor) (m n : Nat) : c.advance (m + n) = (c.advance m).advance n := by
  simp [advance, Nat.add_assoc]

theorem endLocation_advance {c : Cursor} {n : Nat} (h : n ≤ c.rest.length) :
    (c.advance n).endLocation = c.endLocation := by
  have hlen : c.number + n + (c.rest.length - n) = c.number + c.rest.length := by omega
  rw [endLocation, endLocation, rest_advance, number_advance, List.length_drop, hlen]
  rfl

@[simp] theorem endLocation_skipBlank (c : Cursor) : c.skipBlank.endLocation = c.endLocation :=
  endLocation_advance (List.takeWhile_prefix _).length_le

@[simp] theorem endLocation_takeBlock (c : Cursor) :
    c.takeBlock.2.endLocation = c.endLocation :=
  endLocation_advance (List.takeWhile_prefix _).length_le

theorem located_skipBlank (c : Cursor) :
    c.skipBlank.located = c.located.dropWhile (Text.isBlankLine ∘ Prod.snd) :=
  (dropWhile_locate Text.isBlankLine c.file c.number c.rest).symm

theorem located_of_rest_eq_cons {c : Cursor} {line : Text.Line} {rest : List Text.Line}
    (h : c.rest = line :: rest) : c.located = (c.location, line) :: (c.advance 1).located := by
  rw [located, h, locate_cons, located, number_advance, rest_advance, h, List.drop_one,
    List.tail_cons]
  rfl

@[simp] theorem runs_skipBlank (c : Cursor) : c.skipBlank.runs = c.runs := by
  rw [runs, located_skipBlank, runsBetween_dropWhile, runs]

theorem runs_of_rest_eq_nil {c : Cursor} (h : c.rest = []) : c.runs = [] := by
  rw [runs, located, h, locate_nil, runsBetween_nil]

/-- In front of a line that is not blank, a cursor takes the first run. -/
theorem runs_of_rest_eq_cons {c : Cursor} {line : Text.Line} {rest : List Text.Line}
    (h : c.rest = line :: rest) (hb : Text.isBlankLine line = false) :
    c.runs = c.takeBlock.1 :: c.takeBlock.2.runs := by
  have htake : c.takeBlock.1 = c.located.takeWhile ((!Text.isBlankLine ·) ∘ Prod.snd) :=
    (takeWhile_locate (!Text.isBlankLine ·) c.file c.number c.rest).symm
  have hdrop : c.takeBlock.2.located = c.located.dropWhile ((!Text.isBlankLine ·) ∘ Prod.snd) :=
    (dropWhile_locate (!Text.isBlankLine ·) c.file c.number c.rest).symm
  have hgap : (Text.isBlankLine ∘ Prod.snd) (c.location, line) = false := hb
  rw [runs, htake, runs, hdrop, located_of_rest_eq_cons h]
  exact runsBetween_cons_of_not_gap hgap _

theorem takeBlock_of_rest_eq_cons {c : Cursor} {line : Text.Line} {rest : List Text.Line}
    (h : c.rest = line :: rest) (hb : Text.isBlankLine line = false) :
    c.takeBlock = ((c.location, line) :: (c.advance 1).takeBlock.1, (c.advance 1).takeBlock.2) := by
  have hblock : c.block = line :: (c.advance 1).block := by
    rw [block, h, List.takeWhile_cons_of_pos (by rw [hb]; rfl), block, rest_advance, h,
      List.drop_one, List.tail_cons]
  rw [takeBlock, hblock, List.length_cons, Nat.add_comm, advance_add]
  rfl

theorem takeCount_of_rest_eq_nil {c : Cursor} (h : c.rest = []) :
    c.takeCount = (.error ⟨c.location, .missingCount⟩, c) := by
  rw [takeCount, h]

theorem takeCount_of_rest_eq_cons {c : Cursor} {line : Text.Line} {rest : List Text.Line}
    (h : c.rest = line :: rest) (hb : Text.isBlankLine line = false) :
    c.takeCount = (countOn c.location line, c.advance 1) := by
  simp [takeCount, h, hb]

end Cursor

/-! ## Blocks from runs -/

namespace Block

/-- The test strings of a run that starts with their number, and the faults of the number. -/
def stringsOfRun : List (Location × Text.Line) → List (List Char) × List Fault
  | [] => ([], [])
  | (location, line) :: lines =>
    match Cursor.countOn location line with
    | .ok expected => (lines.map fun (_, line) => testString line,
        countFaults location expected lines.length)
    | .error fault => ([], [fault])

def startOf (run : List (Location × Text.Line)) : Location := (run.map Prod.fst).headD default

/-- The block of a run of production lines and of test strings, or its faults. -/
def outcome (run : List (Location × Text.Line)) (strings : List (List Char) × List Fault) :
    BlockOutcome :=
  let faults := faultsOf run ++ strings.2
  if faults.isEmpty then .ok ⟨rulesOf run, run.map Prod.snd, strings.1, startOf run⟩
    else .error faults

/-- What runs read as: each odd one with the next, and a last one alone misses its count at the
end of the file. -/
def outcomesOf (endOfFile : Location) :
    List (List (Location × Text.Line)) → List BlockOutcome
  | [] => []
  | [run] => [outcome run ([], [⟨endOfFile, .missingCount⟩])]
  | run :: counted :: runs => outcome run (stringsOfRun counted) :: outcomesOf endOfFile runs

theorem readStrings_of_rest_eq_nil {c : Cursor} (h : c.rest = []) :
    readStrings c = ([], [⟨c.location, .missingCount⟩], c.takeBlock.2) := by
  rw [readStrings, Cursor.takeCount_of_rest_eq_nil h]

/-- In front of a line that is not blank the first run holds the count and the strings. -/
theorem readStrings_of_rest_eq_cons {c : Cursor} {line : Text.Line} {rest : List Text.Line}
    (h : c.rest = line :: rest) (hb : Text.isBlankLine line = false) :
    readStrings c =
      ((stringsOfRun c.takeBlock.1).1, (stringsOfRun c.takeBlock.1).2, c.takeBlock.2) := by
  rw [Cursor.takeBlock_of_rest_eq_cons h hb, stringsOfRun, readStrings,
    Cursor.takeCount_of_rest_eq_cons h hb]
  cases Cursor.countOn c.location line <;> rfl

/-- A block that is read starts where the cursor stands. -/
theorem read_eq_outcome {c : Cursor} {line : Text.Line} {rest : List Text.Line}
    (h : c.rest = line :: rest) (hb : Text.isBlankLine line = false) :
    read c = (outcome c.takeBlock.1 ((readStrings c.takeBlock.2.skipBlank).1,
      (readStrings c.takeBlock.2.skipBlank).2.1), (readStrings c.takeBlock.2.skipBlank).2.2) := by
  have hstart : startOf c.takeBlock.1 = c.location := by
    rw [Cursor.takeBlock_of_rest_eq_cons h hb]
    rfl
  rw [read, outcome, hstart]

end Block

/-- What is read up to the end of the file depends on the runs and on the end. -/
theorem BlockOutcome.readAll_eq_outcomesOf (c : Cursor) :
    readAll c = Block.outcomesOf c.endLocation c.runs := by
  induction c using readAll.induct with
  | case1 c hc =>
    rw [← c.runs_skipBlank, Cursor.runs_of_rest_eq_nil hc, readAll]
    split
    · rfl
    · rename_i hline
      exact absurd (hc.symm.trans hline) (by simp)
  | case2 c line rest hc next ih =>
    have hb := Cursor.isBlankLine_of_rest_skipBlank hc
    have hread : next = _ := Block.read_eq_outcome hc hb
    have hunfold : readAll c = next.1 :: readAll next.2 := by
      rw [readAll]
      split
      · rename_i hnil
        exact absurd (hc.symm.trans hnil) (by simp)
      · rfl
    have hend : c.endLocation = c.skipBlank.takeBlock.2.skipBlank.endLocation := by simp
    have hruns : c.runs =
        c.skipBlank.takeBlock.1 :: c.skipBlank.takeBlock.2.skipBlank.runs := by
      rw [← c.runs_skipBlank, Cursor.runs_of_rest_eq_cons hc hb, Cursor.runs_skipBlank]
    rw [hunfold, ih, hread, hruns, hend]
    -- what is left is the part of the block behind its production lines
    generalize hd : c.skipBlank.takeBlock.2.skipBlank = d
    cases hrest : d.rest with
    | nil =>
      have hnone : d.takeBlock.2.rest = [] := by
        have hle := Cursor.length_rest_takeBlock_le d
        rw [hrest, List.length_nil, Nat.le_zero, List.length_eq_zero_iff] at hle
        exact hle
      rw [Block.readStrings_of_rest_eq_nil hrest, Cursor.runs_of_rest_eq_nil hrest,
        Cursor.runs_of_rest_eq_nil hnone, Cursor.location_of_rest_eq_nil hrest]
      rfl
    | cons counted others =>
      have hcounted : Text.isBlankLine counted = false :=
        Cursor.isBlankLine_of_rest_skipBlank (hd ▸ hrest)
      rw [Block.readStrings_of_rest_eq_cons hrest hcounted,
        Cursor.runs_of_rest_eq_cons hrest hcounted, Cursor.endLocation_takeBlock,
        Block.outcomesOf]

end Chomsky
