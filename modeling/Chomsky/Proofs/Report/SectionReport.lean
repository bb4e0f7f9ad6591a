import Chomsky.Proofs.Batch.Sections
import Chomsky.Proofs.Recognition.Verdict
import Chomsky.Proofs.Report.Writes
/-!
# The report on verdicts

For every block of a batch the report on verdicts holds its production lines and a line for each
of its strings. What is told about the index, the tables and the verdicts leaves no trace in it,
so each block makes a text of its own.

What the report on an accepted text holds follows from the text alone. Each section makes its own
part: the lines with productions, and for each line with a test string whether the productions on
those lines, and no others, derive the string.
-/
namespace Chomsky

/-! ## What is written for a block -/

/-- A line for each string of a block, with the verdict of its grammar. -/
def Block.verdictLines (start : Symbol) (b : Block) : List Text.Line :=
  b.strings.map fun string => verdictLine string (recognizes b.grammar.index start string)

/-- The production lines of a block, an empty line, a verdict for each string, and an empty
line. -/
def Block.verdictText (start : Symbol) (b : Block) : List Char :=
  Text.unlines (b.source ++ [] :: (b.verdictLines start ++ [[]]))

namespace Writing
variable {σ : Type} (source : σ)

theorem writes_grammar (b : Block) : Writes (grammar b) source ()
    (b.source.flatMap (· ++ ['\n']) ++ ['\n']) source :=
  .bind (.forM fun text _ => .line text source) (.line [] source)

/-- A verdict is one line, whatever is told about finding it. -/
theorem writes_verdict (index : Index) (start : Symbol) (string : List Char) :
    Writes (verdict index start string) source ()
      (verdictLine string (recognizes index start string) ++ ['\n']) source := by
  rw [← fst_decision, verdict]
  generalize decision index start string = decided
  obtain ⟨accepted, events⟩ := decided
  change Writes _ source () ([] ++ ([] ++ (verdictLine string accepted ++ ['\n']))) source
  exact .bind (.forM_tell events source) (.bind (.tell _ source) (.line _ source))

theorem writes_verdictsOf (start : Symbol) (b : Block) :
    Writes (verdictsOf start b) source () (b.verdictText start) source := by
  have hstrings : Writes (b.strings.forM (verdict b.grammar.index start)) source ()
      (b.strings.flatMap fun string =>
        verdictLine string (recognizes b.grammar.index start string) ++ ['\n']) source :=
    .forM fun string _ => writes_verdict source b.grammar.index start string
  have htext : b.verdictText start = (b.source.flatMap (· ++ ['\n']) ++ ['\n']) ++ ([] ++
      ((b.strings.flatMap fun string =>
        verdictLine string (recognizes b.grammar.index start string) ++ ['\n']) ++ ['\n'])) := by
    simp [Block.verdictText, Block.verdictLines, Text.unlines, List.flatMap_map]
  rw [htext]
  exact .bind (writes_grammar source b) (.bind (.tell _ source) (.bind hstrings (.line [] source)))

/-- The report on verdicts shows the blocks with their verdicts in order. -/
theorem writes_batchVerdicts (start : Symbol) (batch : Batch) :
    Writes (verdicts start batch) source () (batch.flatMap (Block.verdictText start)) source :=
  .forM fun b _ => writes_verdictsOf source start b

end Writing

/-! ## What a section says -/

namespace Section

/-- The productions that the lines of a section write. -/
def productions (s : Section) : Set Production :=
  {p | ∃ line ∈ s.productionLines, ∃ alternatives,
    Rule.Writes line p.lhs alternatives ∧ p.rhs ∈ alternatives}

open Classical in
/-- What the report says of a line with a test string. -/
noncomputable def verdict (s : Section) (start : Symbol) (line : Text.Line) : List Char :=
  let string := if Text.IsEmptyMark line then [] else line
  (if string = [] then [epsilon] else string) ++
    (if Admits s.productions start string then " is in the language defined by the above grammar"
      else " is NOT in the language defined by the above grammar").toList

/-- The report on a section: its lines with productions, an empty line, a verdict for each line
with a test string, and an empty line. -/
noncomputable def report (start : Symbol) (s : Section) : List Char :=
  (s.productionLines ++ [] :: (s.stringLines.map (s.verdict start) ++ [[]])).flatMap (· ++ ['\n'])

end Section

/-! ## Blocks and their sections -/

namespace Block
variable {b : Block} {s : Section}

theorem IsOf.productions_eq (h : b.IsOf s) : {p | p ∈ b.grammar.productions} = s.productions := by
  have hrules := h.rules
  ext p
  simp only [grammar, Grammar.ofRules, Section.productions, Set.mem_ofPred_eq]
  generalize b.rules = rules at hrules
  generalize s.productionLines = lines at hrules
  induction hrules with
  | nil => simp
  | cons hline _ ih =>
    rw [List.flatMap_cons, List.mem_append, ih, hline.mem_productions, List.exists_mem_cons_iff]

/-- What is written about a string is the verdict on its line. -/
theorem IsOf.verdictLine_eq (h : b.IsOf s) (start : Symbol) (line : Text.Line) :
    verdictLine (testString line) (recognizes b.grammar.index start (testString line)) =
      s.verdict start line := by
  have hadmits : recognizes b.grammar.index start (testString line) = true ↔
      Admits s.productions start (testString line) := by
    rw [← h.productions_eq]
    exact recognizes_iff_admits
  rw [Section.verdict, ← testString_eq, verdictLine, shown]
  by_cases hderives : Admits s.productions start (testString line)
  · simp [hderives, hadmits.2 hderives]
  · simp [hderives, mt hadmits.1 hderives]

theorem IsOf.verdictText_eq (h : b.IsOf s) (start : Symbol) :
    b.verdictText start = s.report start := by
  have hlines : b.verdictLines start = s.stringLines.map (s.verdict start) := by
    rw [verdictLines, h.strings, List.map_map]
    exact List.map_congr_left fun line _ => h.verdictLine_eq start line
  rw [verdictText, hlines, h.source]
  rfl

end Block

theorem Writing.writes_verdicts {σ : Type} (source : σ) {batch : Batch} {sections : List Section}
    (h : List.Forall₂ Block.IsOf batch sections) (start : Symbol) :
    Writes (verdicts start batch) source () (sections.flatMap (Section.report start)) source := by
  have htext : batch.flatMap (Block.verdictText start) =
      sections.flatMap (Section.report start) := by
    induction h with
    | nil => rfl
    | cons hb _ ih => rw [List.flatMap_cons, List.flatMap_cons, hb.verdictText_eq, ih]
  rw [← htext]
  exact writes_batchVerdicts source start batch

/-- The report on an accepted text, on a sink without a limit, holds the reports on its sections
in order, and every run of the text is in a section. -/
theorem Batch.written_verdicts {file : Path} {text : List Char} {batch : Batch}
    (h : ofText file text = .ok batch) (start : Symbol) {σ : Type} (source : σ) :
    (Text.sections text).flatMap Section.runs = Text.runs text ∧
      ∃ p, Writing.verdicts start batch (.start none source) = (.ok (), p) ∧
        p.sink.written =
          (String.ofList ((Text.sections text).flatMap (Section.report start))).toUTF8 := by
  obtain ⟨hruns, hblocks⟩ := isOf_sections h
  obtain ⟨p, hp, hwritten, -⟩ := (Writing.writes_verdicts source hblocks start).start_none
  exact ⟨hruns, p, hp, hwritten⟩

/-- Two grammars: the first also writes the empty string, and the second does not take over its
productions. -/
def twoGrammars : List Char :=
  "2\nS --> AB | ε\nA->a\nB-->b\n\n3\nab\nε \nba\n\nS -> x\n\n1\nab\n".toList

/-- The report on the two grammars is made of the reports on two sections. -/
theorem Batch.written_verdicts_twoGrammars : ∃ batch, ofText ⟨[]⟩ twoGrammars = .ok batch ∧
    Text.sections twoGrammars =
      [⟨["S --> AB | ε".toList, "A->a".toList, "B-->b".toList], ['3'],
        [['a', 'b'], ['ε', ' '], ['b', 'a']]⟩,
        ⟨["S -> x".toList], ['1'], [['a', 'b']]⟩] ∧
    (Text.sections twoGrammars).flatMap Section.runs = Text.runs twoGrammars ∧
    ∃ p, Writing.verdicts 'S' batch (.start none ()) = (.ok (), p) ∧ p.sink.written =
      (String.ofList ((Text.sections twoGrammars).flatMap (Section.report 'S'))).toUTF8 := by
  have haccepted : (ofText ⟨[]⟩ twoGrammars).toOption.isSome = true := by decide +kernel
  cases hread : ofText ⟨[]⟩ twoGrammars with
  | error faults => simp [hread, Except.toOption] at haccepted
  | ok batch => exact ⟨batch, rfl, by decide +kernel, written_verdicts hread 'S' ()⟩

end Chomsky
