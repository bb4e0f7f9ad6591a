import Chomsky.Proofs.Batch.Runs
import Chomsky.Proofs.Line.Defects
import Mathlib.Data.List.Forall2
/-!
# The layout of a batch file

The first line of a text that is not blank announces a number of blocks. The lines behind it
fall into runs, and the runs are taken in pairs: lines with productions, and a line with a count
in front of test strings. A last run alone is a pair whose second run is missing. What a text
reads as is put together from these pairs, each read for itself.
-/
namespace Chomsky

/-! ## Pairs -/

/-- The elements of a list in pairs: each odd one with the next, and a last one without. -/
def inPairs {α : Type} : List α → List (α × Option α)
  | [] => []
  | [x] => [(x, none)]
  | x :: y :: xs => (x, some y) :: inPairs xs

section
variable {α : Type} (xs : List α)

/-- Taking pairs loses nothing and keeps the order. -/
theorem flatMap_inPairs : ((inPairs xs).flatMap fun p => p.1 :: p.2.toList) = xs := by
  fun_induction inPairs xs with
  | case1 => rfl
  | case2 x => rfl
  | case3 x y xs ih => rw [List.flatMap_cons, ih]; rfl

variable {xs}

theorem length_eq_of_forall_inPairs (h : ∀ p ∈ inPairs xs, p.2 ≠ none) :
    xs.length = 2 * (inPairs xs).length := by
  fun_induction inPairs xs with
  | case1 => rfl
  | case2 x => exact absurd rfl (h _ List.mem_cons_self)
  | case3 x y xs ih =>
    have hrest := ih (List.forall_mem_cons.1 h).2
    simp only [List.length_cons]
    omega

end

/-! ## The parts of a text -/

/-- A line of a file and where it stands. -/
abbrev LocatedLine := Location × Text.Line

/-- Lines with productions, and lines with a count and test strings if there are any. -/
abbrev RunPair := List LocatedLine × Option (List LocatedLine)

namespace Text

/-- The lines of a text with their locations; the first line has number 1. -/
def located (file : Path) (text : List Char) : List LocatedLine := locate file 1 (lines text)

/-- The location one line behind the last line of a text. -/
def endOf (file : Path) (text : List Char) : Location := ⟨file, (lines text).length + 1⟩

/-- The first line that is not blank. -/
def announcement? (file : Path) (text : List Char) : Option LocatedLine :=
  (located file text).find? fun l => !isBlankLine l.2

/-- The runs of the lines behind the first line that is not blank. -/
def runsBehind (file : Path) (text : List Char) : List (List LocatedLine) :=
  runsBetween (isBlankLine ∘ Prod.snd)
    ((located file text).dropWhile (isBlankLine ∘ Prod.snd)).tail

/-- These runs in pairs. -/
def runPairs (file : Path) (text : List Char) : List RunPair := inPairs (runsBehind file text)

theorem announcement?_eq_head? (file : Path) (text : List Char) :
    announcement? file text =
      ((located file text).dropWhile (isBlankLine ∘ Prod.snd)).head? := by
  rw [announcement?, List.find?_eq_head?_dropWhile_not]
  simp only [Bool.not_not]
  rfl

end Text

/-! ## Pairs of runs -/

namespace Block

/-- What is wrong behind production lines: a run that is missing, a first line that is no count,
or a count of other than the lines behind it. -/
def faultsOfCounted (endOfFile : Location) : Option (List LocatedLine) → List Fault
  | none => [⟨endOfFile, .missingCount⟩]
  | some [] => []
  | some ((location, line) :: strings) =>
    match Text.count? 64 (Text.trim line) with
    | none => [⟨location, .invalidCount (Text.trim line)⟩]
    | some expected =>
      if expected = strings.length then []
      else [⟨location, .countMismatch expected strings.length⟩]

/-- What is wrong with production lines: each line with a defect has a fault for its first one. -/
def defectsOf (run : List LocatedLine) : List Fault :=
  run.filterMap fun l => (Rule.defect? l.2).map fun cause => ⟨l.1, cause⟩

/-- The faults of a pair of runs: those of the production lines, then that of the count. -/
def faultsOfPair (endOfFile : Location) (p : RunPair) : List Fault :=
  defectsOf p.1 ++ faultsOfCounted endOfFile p.2

/-- The block that a pair of runs without faults writes. -/
def ofPair (p : RunPair) : Block :=
  ⟨rulesOf p.1, p.1.map Prod.snd, (p.2.getD []).tail.map fun l => testString l.2, startOf p.1⟩

/-- The lines that are not read are those with a defect, and this is what they are refused for. -/
theorem faultsOf_eq_defectsOf (run : List LocatedLine) : faultsOf run = defectsOf run := by
  refine List.filterMap_congr fun l _ => ?_
  obtain ⟨location, line⟩ := l
  cases hline : Rule.ofLine location line with
  | ok r => simp [hline, Rule.defect?_eq_none_iff.2 ⟨r, hline⟩]
  | error fault =>
    obtain ⟨rfl, hdefect⟩ := Rule.ofLine_eq_error_iff.1 hline
    simp [hline, hdefect]

theorem defectsOf_eq_nil_iff {run : List LocatedLine} :
    defectsOf run = [] ↔ ∀ l ∈ run, ∃ r, Rule.ofLine l.1 l.2 = .ok r := by
  rw [defectsOf, List.filterMap_eq_nil_iff]
  exact forall₂_congr fun l _ => Option.map_eq_none_iff.trans Rule.defect?_eq_none_iff

theorem forall₂_ofLine {run : List LocatedLine}
    (h : ∀ l ∈ run, ∃ r, Rule.ofLine l.1 l.2 = .ok r) :
    List.Forall₂ (fun l r => Rule.ofLine l.1 l.2 = .ok r) run (rulesOf run) := by
  induction run with
  | nil => exact .nil
  | cons l run ih =>
    obtain ⟨⟨r, hr⟩, hrun⟩ := List.forall_mem_cons.1 h
    have hrules : rulesOf (l :: run) = r :: rulesOf run := by simp [rulesOf, hr, Except.toOption]
    rw [hrules]
    exact .cons hr (ih hrun)

/-- A run that is there has the faults of its count. -/
theorem faults_stringsOfRun (endOfFile : Location) (run : List LocatedLine) :
    (stringsOfRun run).2 = faultsOfCounted endOfFile (some run) := by
  cases run with
  | nil => rfl
  | cons first strings =>
    obtain ⟨location, line⟩ := first
    rw [stringsOfRun, Cursor.countOn, faultsOfCounted]
    cases Text.count? 64 (Text.trim line) with
    | none => rfl
    | some expected => simp only [countFaults, eq_comm]

/-- Where the count is right, the strings are those of the lines behind it. -/
theorem strings_stringsOfRun {run : List LocatedLine} (h : (stringsOfRun run).2 = []) :
    (stringsOfRun run).1 = run.tail.map fun l => testString l.2 := by
  cases run with
  | nil => rfl
  | cons first strings =>
    obtain ⟨location, line⟩ := first
    cases hcount : Cursor.countOn location line with
    | error fault => simp [stringsOfRun, hcount] at h
    | ok expected => simp [stringsOfRun, hcount]

theorem outcome_eq (run : List LocatedLine) (strings : List (List Char) × List Fault) :
    outcome run strings = if defectsOf run ++ strings.2 = [] then
      .ok ⟨rulesOf run, run.map Prod.snd, strings.1, startOf run⟩
    else .error (defectsOf run ++ strings.2) := by
  simp only [outcome, faultsOf_eq_defectsOf, List.isEmpty_iff]

/-- A pair is read as its block, or as its faults if it has any. -/
def outcomeOfPair (endOfFile : Location) (p : RunPair) : BlockOutcome :=
  if faultsOfPair endOfFile p = [] then .ok (ofPair p) else .error (faultsOfPair endOfFile p)

theorem faults_outcomeOfPair (endOfFile : Location) (p : RunPair) :
    (outcomeOfPair endOfFile p).faults = faultsOfPair endOfFile p := by
  unfold outcomeOfPair
  split
  · rename_i h
    exact h.symm
  · rfl

theorem outcomesOf_eq_map (endOfFile : Location) (runs : List (List LocatedLine)) :
    outcomesOf endOfFile runs = (inPairs runs).map (outcomeOfPair endOfFile) := by
  fun_induction inPairs runs with
  | case1 => rfl
  | case2 run => simp [outcomesOf, outcome_eq, outcomeOfPair, faultsOfPair, faultsOfCounted]
  | case3 run counted runs ih =>
    rw [outcomesOf, ih, List.map_cons, outcome_eq, faults_stringsOfRun endOfFile, outcomeOfPair,
      faultsOfPair]
    split
    · rename_i h
      have hcount : (stringsOfRun counted).2 = [] :=
        (faults_stringsOfRun endOfFile counted).trans (List.append_eq_nil_iff.1 h).2
      rw [strings_stringsOfRun hcount]
      rfl
    · rfl

end Block

/-! ## Texts -/

namespace Batch

/-- A text is read if its announcement is a count, and then pair by pair. -/
theorem read_eq (file : Path) (text : List Char) : read file text =
    match Text.announcement? file text with
    | none => .error ⟨Text.endOf file text, .missingCount⟩
    | some (location, line) => (Cursor.countOn location line).map fun expected =>
      ⟨location, expected,
        (Text.runPairs file text).map (Block.outcomeOfPair (Text.endOf file text))⟩ := by
  have hlocated : (Cursor.ofText file text).skipBlank.located =
      (Text.located file text).dropWhile (Text.isBlankLine ∘ Prod.snd) :=
    Cursor.located_skipBlank _
  have hend : (Cursor.ofText file text).skipBlank.endLocation = Text.endOf file text := by
    rw [Cursor.endLocation_skipBlank, Text.endOf, Nat.add_comm]
    rfl
  rw [read, Text.announcement?_eq_head?, Text.runPairs, Text.runsBehind, ← hlocated, ← hend]
  cases hrest : (Cursor.ofText file text).skipBlank.rest with
  | nil =>
    rw [Cursor.takeCount_of_rest_eq_nil hrest, Cursor.located, hrest,
      Cursor.location_of_rest_eq_nil hrest]
    rfl
  | cons line rest =>
    have hb := Cursor.isBlankLine_of_rest_skipBlank hrest
    generalize (Cursor.ofText file text).skipBlank = c at hrest
    have hbehind : (c.advance 1).endLocation = c.endLocation :=
      Cursor.endLocation_advance (by rw [hrest]; simp)
    rw [Cursor.takeCount_of_rest_eq_cons hrest hb, Cursor.located_of_rest_eq_cons hrest,
      List.head?_cons, List.tail_cons, ← Block.outcomesOf_eq_map, ← hbehind]
    have hread := BlockOutcome.readAll_eq_outcomesOf (c.advance 1)
    cases hcount : Cursor.countOn c.location line with
    | error fault => simp only [hcount, Except.map]
    | ok expected => simp only [hcount, Except.map, hread]; rfl

end Batch

end Chomsky
