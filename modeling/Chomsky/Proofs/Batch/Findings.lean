import Chomsky.Proofs.Batch.Layout
import Mathlib.Data.List.Basic
/-!
# What is wrong with a batch file

Without an announcement, or with one that is no count, nothing else is found. Otherwise each pair
of runs has its own faults, whatever is wrong with the others: one for each line that writes no
rule and one for a count that is missing, unreadable or wrong. The number of pairs is compared
with the announcement last.
-/
namespace Chomsky.Batch

/-- All that is wrong with a text, from its first line to its last, and behind that a number of
blocks other than the announced one. -/
def findings (file : Path) (text : List Char) : List Fault :=
  match Text.announcement? file text with
  | none => [⟨Text.endOf file text, .missingCount⟩]
  | some (location, line) =>
    match Text.count? 64 (Text.trim line) with
    | none => [⟨location, .invalidCount (Text.trim line)⟩]
    | some expected =>
      let pairs := Text.runPairs file text
      pairs.flatMap (Block.faultsOfPair (Text.endOf file text)) ++
        if pairs.length = expected then []
        else [⟨location, .countMismatch expected pairs.length⟩]

variable {file : Path} {text : List Char}

theorem filterMap_outcomeOfPair {endOfFile : Location} {pairs : List RunPair}
    (h : pairs.flatMap (Block.faultsOfPair endOfFile) = []) :
    (pairs.map (Block.outcomeOfPair endOfFile)).filterMap Except.toOption =
      pairs.map Block.ofPair := by
  rw [List.filterMap_map, ← List.filterMap_eq_map]
  refine List.filterMap_congr fun p hp => ?_
  rw [Function.comp_apply, Block.outcomeOfPair, if_pos (List.flatMap_eq_nil_iff.1 h p hp)]
  rfl

/-- The faults of a reading are those of its pairs and of their number. -/
theorem faults_reading (location endOfFile : Location) (expected : Nat) (pairs : List RunPair) :
    (Reading.mk location expected (pairs.map (Block.outcomeOfPair endOfFile))).faults =
      pairs.flatMap (Block.faultsOfPair endOfFile) ++
        if pairs.length = expected then []
        else [⟨location, .countMismatch expected pairs.length⟩] := by
  rw [Reading.faults, List.flatMap_map, List.length_map, Block.countFaults]
  simp only [Block.faults_outcomeOfPair]

/-- A text is refused for what is wrong with it; if nothing is, it has a block for each pair. -/
theorem ofText_eq (file : Path) (text : List Char) : ofText file text =
    if findings file text = [] then .ok ((Text.runPairs file text).map Block.ofPair)
    else .error (findings file text) := by
  rw [ofText, read_eq, findings]
  cases Text.announcement? file text with
  | none => rfl
  | some first =>
    obtain ⟨location, line⟩ := first
    simp only [Cursor.countOn]
    cases Text.count? 64 (Text.trim line) with
    | none => rfl
    | some expected =>
      simp only [Except.map, Reading.result, faults_reading, List.isEmpty_iff]
      generalize (if (Text.runPairs file text).length = expected then _ else _) = wrongNumber
      split
      · rename_i h
        rw [Reading.blocks, filterMap_outcomeOfPair (List.append_eq_nil_iff.1 h).1]
      · rfl

theorem ne_nil_of_ofText_eq_error {faults : List Fault} (h : ofText file text = .error faults) :
    faults ≠ [] := by
  rw [ofText_eq] at h
  split at h
  · cases h
  · rename_i hfindings
    obtain rfl := Except.error.inj h
    exact hfindings

/-- A text is refused for exactly what is wrong with it. -/
theorem ofText_eq_error_iff (file : Path) (text : List Char) (faults : List Fault) :
    ofText file text = .error faults ↔ faults = findings file text ∧ faults ≠ [] := by
  rw [ofText_eq]
  split
  · rename_i h
    simp [h]
  · rename_i h
    constructor
    · intro heq
      obtain rfl := Except.error.inj heq
      exact ⟨rfl, h⟩
    · rintro ⟨rfl, -⟩
      rfl

/-- A text with two faulty lines in one block, whose count is none, a block with a wrong count, a
faulty block without a count, and four blocks announced. -/
def faultyText : List Char :=
  "4\n\nS --> AB | abc\nA -> a\na -> b\n\nx\na\n\nS -> a\n \n3\nb\n\nS a\n".toList

/-- Nothing that is wrong with the faulty text hides anything else. Without any lines but blank
ones a count is missing behind them, and without a first count nothing else is looked for. -/
theorem ofText_eq_error_faultyText :
    ofText ⟨['f']⟩ faultyText = .error
      [⟨⟨⟨['f']⟩, 3⟩, .notNormalForm ['a', 'b', 'c']⟩, ⟨⟨⟨['f']⟩, 5⟩, .missingNonterminal⟩,
        ⟨⟨⟨['f']⟩, 7⟩, .invalidCount ['x']⟩, ⟨⟨⟨['f']⟩, 12⟩, .countMismatch 3 1⟩,
        ⟨⟨⟨['f']⟩, 15⟩, .missingArrow⟩, ⟨⟨⟨['f']⟩, 16⟩, .missingCount⟩,
        ⟨⟨⟨['f']⟩, 1⟩, .countMismatch 4 3⟩] ∧
      ofText ⟨['f']⟩ [' ', '\n', '\n'] = .error [⟨⟨⟨['f']⟩, 3⟩, .missingCount⟩] ∧
      ofText ⟨['f']⟩ "\n -1\n\nS".toList = .error [⟨⟨⟨['f']⟩, 2⟩, .invalidCount ['-', '1']⟩] :=
  ⟨(ofText_eq_error_iff _ _ _).2 (by decide +kernel),
    (ofText_eq_error_iff _ _ _).2 (by decide +kernel),
    (ofText_eq_error_iff _ _ _).2 (by decide +kernel)⟩

end Chomsky.Batch
