import Chomsky.Proofs.Batch.Sections
import Chomsky.Proofs.Line.Shown
/-!
# Composing batch files

A text is accepted if its sections are, wherever its lines stand: the announcement counts the
sections, no run is left over, and each section writes rules and the number of its test strings.
So a batch file can be composed from a section, and what it reads as is that section again. A
line that ends in a carriage return loses it on the way, which changes nothing in what it writes.
-/
namespace Chomsky

/-! ## Accepted sections -/

/-- Every line with productions writes a rule, and the count is the number of test strings. -/
structure Section.IsAccepted (s : Section) : Prop where
  rules : ∀ line ∈ s.productionLines, ∃ x alternatives, Rule.Writes line x alternatives
  count : Text.count? 64 (Text.trim s.countLine) = some s.stringLines.length

namespace Block

theorem IsAccepted.of_section {run counted : List LocatedLine} {s : Section}
    (h : s.IsAccepted) (hrun : run.map Prod.snd = s.productionLines)
    (hcounted : counted.map Prod.snd = s.countLine :: s.stringLines) :
    IsAccepted (run, some counted) := by
  obtain ⟨first, strings, rfl, hfirst, hstrings⟩ := List.map_eq_cons_iff.1 hcounted
  refine ⟨fun l hl => ?_, first, strings, rfl, ?_⟩
  · obtain ⟨x, alternatives, hwrites⟩ := h.rules l.2 (hrun ▸ List.mem_map_of_mem hl)
    exact ⟨⟨x, alternatives, l.1⟩, Rule.ofLine_eq_ok_iff.2 ⟨rfl, hwrites⟩⟩
  · rw [hfirst, h.count, ← hstrings, List.length_map]

/-- Where the runs make sections without a rest, all pairs are accepted if all sections are. -/
theorem isAccepted_of_ofRuns {runs : List (List LocatedLine)}
    (hrest : (Section.ofRuns (runs.map (List.map Prod.snd))).flatMap Section.runs =
      runs.map (List.map Prod.snd))
    (hsections : ∀ s ∈ Section.ofRuns (runs.map (List.map Prod.snd)), s.IsAccepted) :
    (inPairs runs).length = (Section.ofRuns (runs.map (List.map Prod.snd))).length ∧
      ∀ p ∈ inPairs runs, IsAccepted p := by
  fun_induction inPairs runs with
  | case1 => exact ⟨rfl, fun p hp => absurd hp List.not_mem_nil⟩
  | case2 run => simp [Section.ofRuns] at hrest
  | case3 run counted runs ih =>
    cases counted with
    | nil => simp [Section.ofRuns] at hrest
    | cons first strings =>
      rw [List.map_cons, List.map_cons, List.map_cons, Section.ofRuns] at hrest hsections ⊢
      obtain ⟨hs, hothers⟩ := List.forall_mem_cons.1 hsections
      have hrest' := hrest
      rw [List.flatMap_cons, Section.runs] at hrest'
      obtain ⟨hlength, hpairs⟩ := ih (by simpa using hrest') hothers
      exact ⟨by simp [hlength],
        List.forall_mem_cons.2 ⟨.of_section hs rfl rfl, hpairs⟩⟩

end Block

theorem Text.map_snd_announcement? (file : Path) (text : List Char) :
    (announcement? file text).map Prod.snd = (lines text).find? (!isBlankLine ·) := by
  rw [announcement?, ← map_snd_locate file 1 (lines text), List.find?_map]
  rfl

/-- A text is accepted if its first line that is not blank counts its sections, all of them
accepted and made of all its runs. The blocks are those of the sections. -/
theorem Batch.exists_ofText {text : List Char} {line : Text.Line}
    (hline : (Text.lines text).find? (!Text.isBlankLine ·) = some line)
    (hcount : Text.count? 64 (Text.trim line) = some (Text.sections text).length)
    (hrest : (Text.sections text).flatMap Section.runs = Text.runs text)
    (hsections : ∀ s ∈ Text.sections text, s.IsAccepted) (file : Path) :
    ∃ batch, ofText file text = .ok batch ∧
      List.Forall₂ Block.IsOf batch (Text.sections text) := by
  rw [← Text.map_snd_announcement? file, Option.map_eq_some_iff] at hline
  obtain ⟨first, hfirst, rfl⟩ := hline
  have hruns := Text.map_snd_runsBehind file text
  rw [Text.sections, ← hruns] at hrest hsections hcount
  obtain ⟨hlength, hpairs⟩ := Block.isAccepted_of_ofRuns hrest hsections
  have hnone : findings file text = [] :=
    findings_eq_nil_iff.2 ⟨first, hfirst, by rw [hcount, ← hlength, Text.runPairs], hpairs⟩
  have hbatch := ofText_eq_ok.2 ⟨hnone, rfl⟩
  exact ⟨_, hbatch, (isOf_sections hbatch).2⟩

/-! ## One section alone -/

namespace Section

def soleText (s : Section) : List Char :=
  Text.unlines (['1'] :: [] :: (s.productionLines ++ [] :: s.countLine :: s.stringLines))

/-- The section without the carriage returns at the ends of its lines. -/
def dropReturns (s : Section) : Section :=
  ⟨s.productionLines.map Text.dropReturn, Text.dropReturn s.countLine,
    s.stringLines.map Text.dropReturn⟩

/-- The lines of a section can stand in a batch file: there are productions, and no line is blank
or holds a line end. -/
structure IsPrintable (s : Section) : Prop where
  ne_nil : s.productionLines ≠ []
  not_blank : ∀ line ∈ s.productionLines ++ s.countLine :: s.stringLines,
    Text.isBlankLine line = false
  newline_notMem : ∀ line ∈ s.productionLines ++ s.countLine :: s.stringLines, '\n' ∉ line

variable {s : Section}

theorem IsPrintable.lines_soleText (h : s.IsPrintable) :
    Text.lines s.soleText = ['1'] :: [] :: (s.dropReturns.productionLines ++
      [] :: s.dropReturns.countLine :: s.dropReturns.stringLines) := by
  have hline : ∀ line ∈ ['1'] :: [] :: (s.productionLines ++ [] :: s.countLine :: s.stringLines),
      '\n' ∉ line := by
    intro line hline
    have hmem : line = ['1'] ∨ line = [] ∨
        line ∈ s.productionLines ++ s.countLine :: s.stringLines := by
      simp only [List.mem_cons, List.mem_append] at hline ⊢
      tauto
    rcases hmem with rfl | rfl | hmem
    · decide
    · exact List.not_mem_nil
    · exact h.newline_notMem line hmem
  rw [soleText, Text.lines_unlines hline]
  simp [dropReturns, Text.dropReturn]

theorem IsPrintable.runs_soleText (h : s.IsPrintable) :
    Text.runs s.soleText = s.dropReturns.runs := by
  have hproductions : ∀ line ∈ s.dropReturns.productionLines, Text.isBlankLine line = false := by
    intro line hline
    obtain ⟨original, hmem, rfl⟩ := List.mem_map.1 hline
    rw [Text.isBlankLine_dropReturn]
    exact h.not_blank original (List.mem_append_left _ hmem)
  have hstrings : ∀ line ∈ s.dropReturns.countLine :: s.dropReturns.stringLines,
      Text.isBlankLine line = false := by
    intro line hline
    obtain ⟨original, hmem, rfl⟩ :=
      List.mem_map.1 (show line ∈ (s.countLine :: s.stringLines).map Text.dropReturn from hline)
    rw [Text.isBlankLine_dropReturn]
    exact h.not_blank original (List.mem_append_right _ hmem)
  have hne : s.dropReturns.productionLines ≠ [] := by simpa [dropReturns] using h.ne_nil
  rw [Text.runs, h.lines_soleText]
  calc runsBetween Text.isBlankLine ([] :: (s.dropReturns.productionLines ++
        [] :: s.dropReturns.countLine :: s.dropReturns.stringLines))
      = runsBetween Text.isBlankLine (s.dropReturns.productionLines ++
          [] :: s.dropReturns.countLine :: s.dropReturns.stringLines) :=
        runsBetween_cons_of_gap rfl _
    _ = s.dropReturns.productionLines ::
          runsBetween Text.isBlankLine (s.dropReturns.countLine :: s.dropReturns.stringLines) :=
        runsBetween_append_cons hne hproductions rfl _
    _ = s.dropReturns.runs := by
        rw [runsBetween_eq_singleton (List.cons_ne_nil _ _) hstrings, runs]

theorem IsPrintable.sections_soleText (h : s.IsPrintable) :
    Text.sections s.soleText = [s.dropReturns] := by
  rw [Text.sections, h.runs_soleText]
  rfl

end Section

/-! ## Lines with blanks at their ends -/

theorem Rhs.text_ne_nil (rhs : Rhs) : rhs.text ≠ [] := by cases rhs <;> simp [text]

/-- What a line writes does not depend on a blank at its end. -/
theorem Rule.Writes.of_append_blank {line : Text.Line} {c : Char} {x : Symbol}
    {alternatives : List Rhs} (hc : Text.isBlank c = true)
    (h : Writes (line ++ [c]) x alternatives) : Writes line x alternatives := by
  obtain ⟨before, between, arrow, rest, hline, hbefore, hx, hbetween, harrow, hparts, hwritable⟩ :=
    h
  -- the blank stands behind the arrow, since something is written there
  rcases List.eq_nil_or_concat rest with rfl | ⟨rest, d, rfl⟩
  · have hempty : [[]] = alternatives.map Rhs.text := hparts
    obtain ⟨rhs, -, hrhs⟩ := List.mem_map.1 (hempty ▸ List.mem_singleton_self [])
    exact absurd hrhs rhs.text_ne_nil
  · have hend : line ++ [c] = (before ++ x :: (between ++ (arrow ++ rest))) ++ [d] := by
      simpa using hline
    obtain ⟨rfl, hcd⟩ := List.append_inj' hend rfl
    obtain rfl : c = d := by simpa using hcd
    have hdense : Text.dense (rest ++ [c]) = Text.dense rest := by
      rw [Text.dense_append]
      simp [Text.dense, hc]
    rw [List.concat_eq_append, hdense] at hparts
    exact ⟨before, between, arrow, rest, rfl, hbefore, hx, hbetween, harrow, hparts, hwritable⟩

theorem Rule.Writes.dropReturn {line : Text.Line} {x : Symbol} {alternatives : List Rhs}
    (h : Writes line x alternatives) : Writes (Text.dropReturn line) x alternatives := by
  unfold Text.dropReturn
  split
  · rename_i hlast
    refine of_append_blank (c := '\r') rfl ?_
    rwa [List.dropLast_append_getLast? _ hlast]
  · exact h

/-! ## The batch file of one section -/

/-- The batch file of a printable section whose lines write rules and whose count is right reads
as one block, which is what the section writes without carriage returns at the ends of its
lines. -/
theorem Batch.exists_ofText_soleText {s : Section} (hprint : s.IsPrintable)
    (hrules : ∀ line ∈ s.productionLines, ∃ x alternatives, Rule.Writes line x alternatives)
    (hcount : Text.count? 64 (Text.trim (Text.dropReturn s.countLine)) = some s.stringLines.length)
    (file : Path) : ∃ b, ofText file s.soleText = .ok [b] ∧ b.IsOf s.dropReturns := by
  have haccepted : s.dropReturns.IsAccepted := by
    refine ⟨fun line hline => ?_, by simpa [Section.dropReturns] using hcount⟩
    obtain ⟨original, hmem, rfl⟩ := List.mem_map.1 hline
    obtain ⟨x, alternatives, hwrites⟩ := hrules original hmem
    exact ⟨x, alternatives, hwrites.dropReturn⟩
  have hline : (Text.lines s.soleText).find? (!Text.isBlankLine ·) = some ['1'] := by
    rw [hprint.lines_soleText]
    rfl
  have hone : Text.count? 64 (Text.trim ['1']) = some (Text.sections s.soleText).length := by
    rw [hprint.sections_soleText, List.length_singleton]
    decide
  have hrest : (Text.sections s.soleText).flatMap Section.runs = Text.runs s.soleText := by
    rw [hprint.sections_soleText, hprint.runs_soleText, List.flatMap_singleton]
  have hsections : ∀ t ∈ Text.sections s.soleText, t.IsAccepted := by
    rw [hprint.sections_soleText, List.forall_mem_singleton]
    exact haccepted
  obtain ⟨batch, hbatch, hblocks⟩ := exists_ofText hline hone hrest hsections file
  rw [hprint.sections_soleText] at hblocks
  cases hblocks with
  | cons hb hnil =>
    cases hnil
    exact ⟨_, hbatch, hb⟩

end Chomsky
