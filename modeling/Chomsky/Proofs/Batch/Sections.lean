import Chomsky.Proofs.Batch.Acceptance
import Chomsky.Proofs.Text.Printed
/-!
# Sections of a text

Behind its first count a text falls into runs of lines, and two runs make a section: lines with
productions, then a line with a count and lines with test strings. A text that is accepted is
made of sections without a rest, and its blocks say what its sections say.

## Main definitions

* `Section`: two runs of a text.
* `Text.sections`: the sections of a text.
* `Text.IsEmptyMark`: the lines that stand for the empty string.
* `Block.IsOf b s`: the block is what the lines of the section write.

## Main results

* `Batch.isOf_sections`, `Batch.exists_section`: the blocks of an accepted text.
* `Block.IsOf.grammar_eq`: the grammar of a block is decided by what its lines write.
-/
namespace Chomsky

/-- Lines with productions, a line with a count, and lines with test strings. -/
structure Section where
  productionLines : List Text.Line
  countLine : Text.Line
  stringLines : List Text.Line
deriving DecidableEq, Inhabited

def Section.runs (s : Section) : List (List Text.Line) :=
  [s.productionLines, s.countLine :: s.stringLines]

/-- The sections that runs make in pairs; a last run alone makes none. -/
def Section.ofRuns : List (List Text.Line) → List Section
  | productionLines :: (countLine :: stringLines) :: runs =>
    ⟨productionLines, countLine, stringLines⟩ :: ofRuns runs
  | _ => []

/-- The runs of a text behind its first line that is not blank. -/
def Text.runs (text : List Char) : List (List Line) :=
  runsBetween isBlankLine ((lines text).dropWhile isBlankLine).tail

/-- The sections of a text behind its first line that is not blank. -/
def Text.sections (text : List Char) : List Section := Section.ofRuns (runs text)

/-- The line stands for the empty string: it holds `ε` and behind it nothing but blanks. -/
def Text.IsEmptyMark (line : Line) : Prop :=
  ∃ blanks, isBlankLine blanks = true ∧ line = epsilon :: blanks

/-- The block is what a section writes: it repeats the lines with productions, its rules are
theirs, and its strings are those of the other lines. -/
structure Block.IsOf (b : Block) (s : Section) : Prop where
  source : b.source = s.productionLines
  rules : List.Forall₂ (fun line r => Rule.Writes line r.lhs r.alternatives)
    s.productionLines b.rules
  strings : b.strings = s.stringLines.map Block.testString

/-- Without the blanks at its end, a line is `ε` alone if it stands for the empty string. -/
theorem Text.trimEnd_eq_epsilon_iff {line : Line} :
    trimEnd line = [epsilon] ↔ IsEmptyMark line := by
  constructor
  · intro h
    have happend := List.takeWhile_append_dropWhile (p := isBlank) (l := line.reverse)
    have hmark : line.reverse.dropWhile isBlank = [epsilon] := by
      simpa [trimEnd] using h
    refine ⟨(line.reverse.takeWhile isBlank).reverse, ?_, ?_⟩
    · rw [isBlankLine, List.all_reverse, List.all_eq_true]
      exact fun c hc => List.mem_takeWhile_imp hc
    · rw [hmark] at happend
      simpa using congrArg List.reverse happend.symm
  · rintro ⟨blanks, hblanks, rfl⟩
    have hall : ∀ c ∈ blanks.reverse, isBlank c = true := by
      intro c hc
      exact List.all_eq_true.1 hblanks c (List.mem_reverse.1 hc)
    rw [trimEnd, List.reverse_cons, List.dropWhile_append_of_pos hall]
    rfl

namespace Block

open Classical in
theorem testString_eq (line : Text.Line) :
    testString line = if Text.IsEmptyMark line then [] else line := by
  simp only [testString, Text.trimEnd_eq_epsilon_iff]

/-- A block that repeats what a pair of runs says is what the lines of the pair write. -/
theorem IsOfPair.exists_isOf {b : Block} {p : RunPair} (h : IsOfPair b p) :
    ∃ s : Section, (p.1 :: p.2.toList).map (List.map Prod.snd) = s.runs ∧ IsOf b s := by
  obtain ⟨first, strings, hcounted, hstrings⟩ := h.strings
  refine ⟨⟨p.1.map Prod.snd, first.2, strings.map Prod.snd⟩, ?_, h.source, ?_, ?_⟩
  · rw [hcounted]
    rfl
  · rw [List.forall₂_map_left_iff]
    exact h.rules.imp fun l r hr => (Rule.ofLine_eq_ok_iff.1 hr).2
  · rw [hstrings, List.map_map]
    rfl

/-- Blocks that repeat what runs say in pairs are those of sections without a rest. -/
theorem isOf_ofRuns {batch : Batch} {runs : List (List LocatedLine)}
    (h : List.Forall₂ IsOfPair batch (inPairs runs)) :
    (Section.ofRuns (runs.map (List.map Prod.snd))).flatMap Section.runs =
        runs.map (List.map Prod.snd) ∧
      List.Forall₂ IsOf batch (Section.ofRuns (runs.map (List.map Prod.snd))) := by
  fun_induction inPairs runs generalizing batch with
  | case1 =>
    cases h
    exact ⟨rfl, .nil⟩
  | case2 run =>
    cases h with
    | cons hblock _ =>
      obtain ⟨first, strings, hmissing, -⟩ := hblock.strings
      exact absurd hmissing (by simp)
  | case3 run counted runs ih =>
    cases h with
    | cons hblock hblocks =>
      obtain ⟨s, hruns, hs⟩ := hblock.exists_isOf
      obtain ⟨hall, hsections⟩ := ih hblocks
      obtain ⟨hrun, hcounted⟩ : run.map Prod.snd = s.productionLines ∧
          counted.map Prod.snd = s.countLine :: s.stringLines := by
        simpa [Section.runs] using hruns
      rw [List.map_cons, List.map_cons, hrun, hcounted, Section.ofRuns, List.flatMap_cons, hall]
      exact ⟨rfl, .cons hs hsections⟩

theorem IsOf.grammar_eq {b b' : Block} {s s' : Section} (h : b.IsOf s) (h' : b'.IsOf s')
    (hlines : List.Forall₂ (fun line line' => ∀ x alternatives,
      Rule.Writes line x alternatives → Rule.Writes line' x alternatives)
      s.productionLines s'.productionLines) : b'.grammar = b.grammar := by
  have hrules := h.rules
  have hrules' := h'.rules
  rw [grammar, grammar, Grammar.ofRules, Grammar.ofRules]
  congr 1
  generalize b.rules = rules at hrules
  generalize b'.rules = rules' at hrules'
  generalize s.productionLines = lines at hlines hrules
  generalize s'.productionLines = lines' at hlines hrules'
  induction hlines generalizing rules rules' with
  | nil =>
    cases hrules
    cases hrules'
    rfl
  | cons hsame _ ih =>
    cases hrules with
    | cons hline hrest =>
      cases hrules' with
      | cons hline' hrest' =>
        obtain ⟨hlhs, halternatives⟩ := hline'.unique (hsame _ _ hline)
        rw [List.flatMap_cons, List.flatMap_cons, ih _ _ hrest hrest', Rule.productions,
          Rule.productions, hlhs, halternatives]

end Block

/-- Without their locations the runs of a text are the runs of its lines. -/
theorem Text.map_snd_runsBehind (file : Path) (text : List Char) :
    (runsBehind file text).map (List.map Prod.snd) = runs text := by
  rw [runsBehind, ← runsBetween_map, List.map_tail, runs]
  congr 2
  rw [← List.dropWhile_map, located, map_snd_locate]

/-- The blocks of an accepted text are those of its sections, and no run is left over. -/
theorem Batch.isOf_sections {file : Path} {text : List Char} {batch : Batch}
    (h : ofText file text = .ok batch) :
    (Text.sections text).flatMap Section.runs = Text.runs text ∧
      List.Forall₂ Block.IsOf batch (Text.sections text) := by
  rw [Text.sections, ← Text.map_snd_runsBehind file]
  exact Block.isOf_ofRuns (forall₂_isOfPair h)

theorem exists_mem_of_forall₂ {α β : Type} {R : α → β → Prop} {xs : List α} {ys : List β}
    (h : List.Forall₂ R xs ys) {x : α} (hx : x ∈ xs) : ∃ y ∈ ys, R x y := by
  induction h with
  | nil => exact absurd hx List.not_mem_nil
  | cons hfirst _ ih =>
    rcases List.mem_cons.1 hx with rfl | hrest
    · exact ⟨_, List.mem_cons_self, hfirst⟩
    · obtain ⟨y, hy, hR⟩ := ih hrest
      exact ⟨y, List.mem_cons_of_mem _ hy, hR⟩

/-- The lines of runs are not blank and end where lines of the text do. -/
theorem Text.of_mem_runs {text : List Char} {run : List Line} {line : Line} (hrun : run ∈ runs text)
    (hline : line ∈ run) : Text.isBlankLine line = false ∧ '\n' ∉ line := by
  have hmem : line ∈ (((lines text).dropWhile isBlankLine).tail).filter (!isBlankLine ·) := by
    rw [← flatten_runsBetween]
    exact List.mem_flatten.2 ⟨run, hrun, hline⟩
  obtain ⟨htail, hblank⟩ := List.mem_filter.1 hmem
  have hlines : line ∈ lines text :=
    (List.dropWhile_sublist isBlankLine).subset (List.mem_of_mem_tail htail)
  exact ⟨by simpa using hblank, newline_notMem_of_mem_lines hlines⟩

/-- A block of an accepted text is what a section writes, whose lines are not blank and end where
lines of the text do. -/
theorem Batch.exists_section {file : Path} {text : List Char} {batch : Batch} {b : Block}
    (h : ofText file text = .ok batch) (hb : b ∈ batch) : ∃ s, b.IsOf s ∧
      s.productionLines ≠ [] ∧ ∀ line ∈ s.productionLines ++ s.countLine :: s.stringLines,
        Text.isBlankLine line = false ∧ '\n' ∉ line := by
  obtain ⟨hruns, hblocks⟩ := isOf_sections h
  obtain ⟨s, hs, hof⟩ := exists_mem_of_forall₂ hblocks hb
  have hrun : ∀ run ∈ s.runs, run ∈ Text.runs text := by
    intro run hrun
    rw [← hruns]
    exact List.mem_flatMap.2 ⟨s, hs, hrun⟩
  have hfirst := hrun s.productionLines List.mem_cons_self
  have hsecond := hrun (s.countLine :: s.stringLines) (List.mem_cons_of_mem _ List.mem_cons_self)
  refine ⟨s, hof, ne_nil_of_mem_runsBetween hfirst, fun line hline => ?_⟩
  rcases List.mem_append.1 hline with hline | hline
  · exact Text.of_mem_runs hfirst hline
  · exact Text.of_mem_runs hsecond hline

end Chomsky
