import Chomsky.Proofs.Batch.Acceptance
/-!
# Texts with the same runs in other places

What a text reads as depends on its runs of lines and on the location of its end. When another text
has the same runs and every line of them has another number, the same blocks are read and the same
faults are found, in the same order, and the locations in them are moved like the lines.

## Main definitions

* `Text.allRuns`: the runs of a text, its announcement among them.
* `Text.IsMoved`: the second text has the lines of the first one in other places.
* `Batch.IsSameBut`: two results that differ in locations only.

## Main results

* `Batch.findings_of_isMoved`, `Batch.ofText_of_isMoved`: what is found and read in a moved text.
-/
namespace Chomsky

/-! ## Moving what has a location -/

/-- The location of a line whose number is changed. -/
def Location.moved (move : Nat → Nat) (l : Location) : Location := ⟨l.file, move l.line⟩

/-- The line in another place. -/
def LocatedLine.moved (move : Nat → Nat) (l : LocatedLine) : LocatedLine := (l.1.moved move, l.2)

def RunPair.moved (move : Nat → Nat) (p : RunPair) : RunPair :=
  (p.1.map (LocatedLine.moved move), p.2.map (List.map (LocatedLine.moved move)))

def Fault.moved (move : Nat → Nat) (f : Fault) : Fault := ⟨f.location.moved move, f.cause⟩

def Rule.moved (move : Nat → Nat) (r : Rule) : Rule :=
  ⟨r.lhs, r.alternatives, r.location.moved move⟩

def Block.moved (move : Nat → Nat) (b : Block) : Block :=
  ⟨b.rules.map (Rule.moved move), b.source, b.strings, b.location.moved move⟩

section
variable (move : Nat → Nat)

@[simp] theorem Fault.cause_moved (f : Fault) : (f.moved move).cause = f.cause := rfl

@[simp] theorem Fault.location_moved (f : Fault) :
    (f.moved move).location = f.location.moved move := rfl

@[simp] theorem Block.source_moved (b : Block) : (b.moved move).source = b.source := rfl

@[simp] theorem Block.strings_moved (b : Block) : (b.moved move).strings = b.strings := rfl

@[simp] theorem Block.location_moved (b : Block) :
    (b.moved move).location = b.location.moved move := rfl

@[simp] theorem Block.grammar_moved (b : Block) : (b.moved move).grammar = b.grammar := by
  simp only [grammar, Grammar.ofRules, moved, List.flatMap_map]
  rfl

@[simp] theorem LocatedLine.snd_moved (l : LocatedLine) : (moved move l).2 = l.2 := rfl

theorem LocatedLine.map_snd_moved (run : List LocatedLine) :
    (run.map (moved move)).map Prod.snd = run.map Prod.snd := by
  rw [List.map_map]
  rfl

/-! ## Reading in another place -/

theorem Rule.ofLine_moved (location : Location) (line : Text.Line) :
    ofLine (location.moved move) line = match ofLine location line with
      | .ok r => .ok (r.moved move)
      | .error fault => .error (fault.moved move) := by
  unfold ofLine ofTokens
  cases Token.lex line with
  | error cause => rfl
  | ok tokens =>
    simp only [Except.bind]
    cases sidesOf tokens <;> rfl

namespace Block

/-- What is picked from lines moves with them if it does so for each line. -/
theorem filterMap_moved {α : Type} {pick : LocatedLine → Option α} {f : α → α}
    (h : ∀ l, pick (l.moved move) = (pick l).map f) (run : List LocatedLine) :
    (run.map (LocatedLine.moved move)).filterMap pick = (run.filterMap pick).map f := by
  rw [List.filterMap_map, List.map_filterMap]
  apply List.filterMap_congr
  intro l _
  exact h l

theorem rulesOf_moved (run : List LocatedLine) :
    rulesOf (run.map (LocatedLine.moved move)) = (rulesOf run).map (Rule.moved move) := by
  apply filterMap_moved
  intro l
  simp only [LocatedLine.moved, Rule.ofLine_moved]
  cases Rule.ofLine l.1 l.2 <;> rfl

theorem defectsOf_moved (run : List LocatedLine) :
    defectsOf (run.map (LocatedLine.moved move)) = (defectsOf run).map (Fault.moved move) := by
  apply filterMap_moved
  intro l
  rw [LocatedLine.snd_moved]
  cases Rule.defect? l.2 <;> rfl

theorem faultsOfCounted_moved (endOfFile : Location) (counted : Option (List LocatedLine)) :
    faultsOfCounted (endOfFile.moved move) (counted.map (List.map (LocatedLine.moved move))) =
      (faultsOfCounted endOfFile counted).map (Fault.moved move) := by
  rcases counted with _ | _ | ⟨⟨location, line⟩, strings⟩
  · rfl
  · rfl
  · simp only [Option.map_some, List.map_cons, faultsOfCounted, LocatedLine.moved, List.length_map]
    cases Text.count? 64 (Text.trim line) with
    | none => rfl
    | some expected =>
      simp only
      split <;> rfl

theorem faultsOfPair_moved (endOfFile : Location) (p : RunPair) :
    faultsOfPair (endOfFile.moved move) (p.moved move) =
      (faultsOfPair endOfFile p).map (Fault.moved move) := by
  simp only [faultsOfPair, RunPair.moved, defectsOf_moved, faultsOfCounted_moved, List.map_append]

theorem ofPair_moved {p : RunPair} (h : p.1 ≠ []) :
    ofPair (p.moved move) = (ofPair p).moved move := by
  obtain ⟨run, counted⟩ := p
  obtain ⟨first, lines, rfl⟩ := List.exists_cons_of_ne_nil h
  have hstrings : ((counted.map (List.map (LocatedLine.moved move))).getD []).tail.map
      (fun l => testString l.2) = (counted.getD []).tail.map fun l => testString l.2 := by
    cases counted with
    | none => rfl
    | some strings => simp [List.map_tail, Function.comp_def]
  simp only [ofPair, moved, RunPair.moved, rulesOf_moved, LocatedLine.map_snd_moved, hstrings]
  rfl

end Block

end

/-! ## The runs of a text -/

/-- What is left of runs behind their first element. -/
def behindFirst {α : Type} : List (List α) → List (List α)
  | [] => []
  | run :: runs => if run.tail.isEmpty then runs else run.tail :: runs

section
variable {α : Type} {gap : α → Bool} (xs : List α)

/-- The first element that makes no gap is the first one of the first run. -/
theorem head?_dropWhile_eq :
    (xs.dropWhile gap).head? = (runsBetween gap xs).head?.bind List.head? := by
  rw [← runsBetween_dropWhile]
  have hhead := List.head?_dropWhile_not gap xs
  cases hxs : xs.dropWhile gap with
  | nil => simp
  | cons x rest =>
    have hx : gap x = false := by simpa [hxs] using hhead
    simp [runsBetween_cons_of_not_gap hx, hx]

/-- Behind this element the runs are what is left of all runs. -/
theorem runsBetween_tail_dropWhile :
    runsBetween gap (xs.dropWhile gap).tail = behindFirst (runsBetween gap xs) := by
  rw [← runsBetween_dropWhile xs]
  have hhead := List.head?_dropWhile_not gap xs
  cases hxs : xs.dropWhile gap with
  | nil => simp [behindFirst]
  | cons x rest =>
    have hx : gap x = false := by simpa [hxs] using hhead
    rw [runsBetween_cons_of_not_gap hx, List.tail_cons]
    cases rest with
    | nil => simp [behindFirst, hx]
    | cons y rest =>
      -- the run goes on behind its first element, or it ends there
      by_cases hy : gap y = true
      · simp [behindFirst, hx, hy]
      · have hy : gap y = false := by simpa using hy
        rw [runsBetween_cons_of_not_gap hy]
        simp [behindFirst, hx, hy]

theorem behindFirst_map {β : Type} (f : α → β) (runs : List (List α)) :
    behindFirst (runs.map (List.map f)) = (behindFirst runs).map (List.map f) := by
  cases runs with
  | nil => rfl
  | cons run runs =>
    cases run with
    | nil => rfl
    | cons x run => cases run <;> rfl

theorem inPairs_map {β : Type} (f : α → β) (xs : List α) :
    inPairs (xs.map f) = (inPairs xs).map (Prod.map f (Option.map f)) := by
  fun_induction inPairs xs with
  | case1 => rfl
  | case2 x => rfl
  | case3 x y xs ih => simp [inPairs, ih]

end

namespace Text

/-- All runs of a text; the first one starts with the announcement. -/
def allRuns (file : Path) (text : List Char) : List (List LocatedLine) :=
  runsBetween (isBlankLine ∘ Prod.snd) (located file text)

/-- Each line of a text is found in another text in the place where it was moved to, the runs of
both texts are the same lines, and the end is moved to the end. -/
structure IsMoved (file : Path) (text text' : List Char) (move : Nat → Nat) : Prop where
  lines : ∀ l ∈ located file text, LocatedLine.moved move l ∈ located file text'
  runs : allRuns file text' = (allRuns file text).map (List.map (LocatedLine.moved move))
  endOf : endOf file text' = (endOf file text).moved move

namespace IsMoved
variable {file : Path} {text text' : List Char} {move : Nat → Nat}

theorem announcement?_eq (h : IsMoved file text text' move) :
    announcement? file text' = (announcement? file text).map (LocatedLine.moved move) := by
  have hfirst : ∀ text, announcement? file text = (allRuns file text).head?.bind List.head? := by
    intro text
    rw [announcement?_eq_head?, head?_dropWhile_eq, allRuns]
  rw [hfirst, hfirst, h.runs]
  cases allRuns file text with
  | nil => rfl
  | cons run runs => cases run <;> rfl

theorem runPairs_eq (h : IsMoved file text text' move) :
    runPairs file text' = (runPairs file text).map (RunPair.moved move) := by
  have hbehind : ∀ text, runsBehind file text = behindFirst (allRuns file text) := by
    intro text
    rw [runsBehind, runsBetween_tail_dropWhile, allRuns]
  rw [runPairs, runPairs, hbehind, hbehind, h.runs, behindFirst_map, inPairs_map]
  rfl

end IsMoved

end Text

/-! ## Reading a text in another place -/

namespace Batch

/-- The results differ in locations only, and these are moved: the blocks have the same grammars,
source lines and strings, or the faults have the same causes. -/
inductive IsSameBut (move : Nat → Nat) :
    Except (List Fault) Batch → Except (List Fault) Batch → Prop
  | ok {batch batch' : Batch}
    (h : List.Forall₂ (fun b b' => b'.grammar = b.grammar ∧ b'.source = b.source ∧
      b'.strings = b.strings ∧ b'.location = b.location.moved move) batch batch') :
    IsSameBut move (.ok batch) (.ok batch')
  | error {faults faults' : List Fault}
    (h : List.Forall₂ (fun f f' => f'.cause = f.cause ∧ f'.location = f.location.moved move)
      faults faults') :
    IsSameBut move (.error faults) (.error faults')

variable {file : Path} {text text' : List Char} {move : Nat → Nat}

theorem findings_of_isMoved (h : Text.IsMoved file text text' move) :
    findings file text' = (findings file text).map (Fault.moved move) := by
  rw [findings, findings, h.announcement?_eq, h.runPairs_eq, h.endOf]
  cases Text.announcement? file text with
  | none => rfl
  | some first =>
    obtain ⟨location, line⟩ := first
    simp only [Option.map_some, LocatedLine.moved]
    cases Text.count? 64 (Text.trim line) with
    | none => rfl
    | some expected =>
      simp only [List.flatMap_map, Block.faultsOfPair_moved, List.length_map, List.map_append,
        List.map_flatMap]
      split <;> rfl

/-- A moved text is read alike. -/
theorem ofText_of_isMoved (h : Text.IsMoved file text text' move) :
    IsSameBut move (ofText file text) (ofText file text') := by
  have hblocks : (Text.runPairs file text').map Block.ofPair =
      ((Text.runPairs file text).map Block.ofPair).map (Block.moved move) := by
    rw [h.runPairs_eq, List.map_map, List.map_map]
    apply List.map_congr_left
    intro p hp
    exact Block.ofPair_moved move (Text.ne_nil_of_mem_runPairs hp).1
  rw [ofText_eq, ofText_eq, findings_of_isMoved h, hblocks]
  simp only [List.map_eq_nil_iff]
  split
  · apply IsSameBut.ok
    rw [List.forall₂_map_right_iff, List.forall₂_same]
    simp
  · apply IsSameBut.error
    rw [List.forall₂_map_right_iff, List.forall₂_same]
    simp

end Batch

end Chomsky
