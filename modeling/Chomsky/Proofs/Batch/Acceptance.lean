import Chomsky.Proofs.Batch.Findings
/-!
# Which batch files are accepted

A text is accepted if nothing is wrong with it: the announcement counts the pairs of runs, no run
is left alone, every line of a first run writes a rule, and every second run starts with the
number of its other lines. Its blocks then repeat what the runs say, and together with the
announcement the runs are all lines that are not blank.
-/
namespace Chomsky

/-- Every line of the first run is read as a rule, and the second run starts with the number of
its other lines. -/
structure Block.IsAccepted (p : RunPair) : Prop where
  rules : ∀ l ∈ p.1, ∃ r, Rule.ofLine l.1 l.2 = .ok r
  count : ∃ first strings, p.2 = some (first :: strings) ∧
    Text.count? 64 (Text.trim first.2) = some strings.length

/-- The block repeats the lines of the first run and stands where they start, its productions are
those of their alternatives, and its strings are those of the second run behind its count. -/
structure Block.IsOfPair (b : Block) (p : RunPair) : Prop where
  source : b.source = p.1.map Prod.snd
  location : ∃ line lines, p.1 = (b.location, line) :: lines
  rules : List.Forall₂ (fun l r => Rule.ofLine l.1 l.2 = .ok r) p.1 b.rules
  productions : b.grammar.productions =
    b.rules.flatMap fun r => r.alternatives.map fun rhs => ⟨r.lhs, rhs⟩
  strings : ∃ first strings, p.2 = some (first :: strings) ∧
    b.strings = strings.map fun l => Block.testString l.2

namespace Text
variable {file : Path} {text : List Char}

theorem ne_nil_of_mem_runPairs {p : RunPair} (h : p ∈ runPairs file text) :
    p.1 ≠ [] ∧ p.2 ≠ some [] := by
  have hmem : ∀ run ∈ p.1 :: p.2.toList, run ∈ runsBehind file text := by
    intro run hrun
    rw [← flatMap_inPairs (runsBehind file text)]
    exact List.mem_flatMap.2 ⟨p, h, hrun⟩
  refine ⟨ne_nil_of_mem_runsBetween (hmem _ List.mem_cons_self), fun hnone => ?_⟩
  exact ne_nil_of_mem_runsBetween (hmem [] (by simp [hnone])) rfl

theorem length_runsBehind (h : ∀ p ∈ runPairs file text, Block.IsAccepted p) :
    (runsBehind file text).length = 2 * (runPairs file text).length := by
  refine length_eq_of_forall_inPairs fun p hp => ?_
  obtain ⟨first, strings, hcounted, -⟩ := (h p hp).count
  simp [hcounted]

/-- The lines that are not blank are the announcement and the lines of the runs, in order. -/
theorem filter_located {first : LocatedLine} (h : announcement? file text = some first) :
    (located file text).filter (fun l => !isBlankLine l.2) =
      first :: (runPairs file text).flatMap fun p => p.1 ++ p.2.getD [] := by
  have hruns : ((runPairs file text).flatMap fun p => p.1 ++ p.2.getD []) =
      (runsBehind file text).flatten := by
    rw [← flatMap_inPairs (runsBehind file text), ← List.flatMap_id, List.flatMap_assoc]
    refine List.flatMap_congr fun p _ => ?_
    cases p.2 <;> simp
  have hblank : (located file text).filter (fun l => !isBlankLine l.2) =
      ((located file text).dropWhile (isBlankLine ∘ Prod.snd)).filter
        fun l => !isBlankLine l.2 := by
    calc (located file text).filter (fun l => !isBlankLine l.2)
        = (runsBetween (isBlankLine ∘ Prod.snd) (located file text)).flatten :=
          (flatten_runsBetween _).symm
      _ = _ := by
        rw [← runsBetween_dropWhile, flatten_runsBetween]
        rfl
  have hfirst : (!isBlankLine first.2) = true :=
    List.find?_some (p := fun l : LocatedLine => !isBlankLine l.2) h
  rw [announcement?_eq_head?] at h
  obtain ⟨behind, hbehind⟩ := List.head?_eq_some_iff.1 h
  rw [hruns, runsBehind, flatten_runsBetween, hblank, hbehind]
  exact List.filter_cons_of_pos (p := fun l : LocatedLine => !isBlankLine l.2) hfirst

end Text

namespace Block

theorem faultsOfPair_eq_nil_iff {endOfFile : Location} {p : RunPair} (hne : p.2 ≠ some []) :
    faultsOfPair endOfFile p = [] ↔ IsAccepted p := by
  obtain ⟨run, counted⟩ := p
  rw [faultsOfPair, List.append_eq_nil_iff, defectsOf_eq_nil_iff]
  have hcount : faultsOfCounted endOfFile counted = [] ↔ ∃ first strings,
      counted = some (first :: strings) ∧
        Text.count? 64 (Text.trim first.2) = some strings.length := by
    rcases counted with _ | _ | ⟨⟨location, line⟩, strings⟩
    · simp [faultsOfCounted]
    · exact absurd rfl hne
    · cases hcount : Text.count? 64 (Text.trim line) <;> simp [faultsOfCounted, hcount]
  rw [hcount]
  exact ⟨fun h => ⟨h.1, h.2⟩, fun h => ⟨h.rules, h.count⟩⟩

/-- An accepted pair has a block that repeats what it says. -/
theorem IsAccepted.isOfPair {p : RunPair} (h : IsAccepted p) (hne : p.1 ≠ []) :
    IsOfPair (ofPair p) p := by
  obtain ⟨⟨location, line⟩, lines, hlines⟩ := List.exists_cons_of_ne_nil hne
  obtain ⟨first, strings, hcounted, -⟩ := h.count
  refine ⟨rfl, ⟨line, lines, ?_⟩, forall₂_ofLine h.rules, rfl, first, strings, hcounted, ?_⟩
  · rw [ofPair, hlines]
    rfl
  · rw [ofPair, hcounted]
    rfl

end Block

namespace Batch

/-- Nothing is wrong with a text if its announcement counts its pairs and all are accepted. -/
theorem findings_eq_nil_iff {file : Path} {text : List Char} :
    findings file text = [] ↔ ∃ first, Text.announcement? file text = some first ∧
      Text.count? 64 (Text.trim first.2) = some (Text.runPairs file text).length ∧
      ∀ p ∈ Text.runPairs file text, Block.IsAccepted p := by
  have hpairs : ((Text.runPairs file text).flatMap
      (Block.faultsOfPair (Text.endOf file text))) = [] ↔
        ∀ p ∈ Text.runPairs file text, Block.IsAccepted p := by
    rw [List.flatMap_eq_nil_iff]
    exact forall₂_congr fun p hp =>
      Block.faultsOfPair_eq_nil_iff (Text.ne_nil_of_mem_runPairs hp).2
  rw [findings]
  cases Text.announcement? file text with
  | none => simp
  | some first =>
    obtain ⟨location, line⟩ := first
    cases hcount : Text.count? 64 (Text.trim line) with
    | none => simp [hcount]
    | some expected =>
      have hnumber : ((if (Text.runPairs file text).length = expected then []
          else [⟨location, .countMismatch expected (Text.runPairs file text).length⟩]) =
            ([] : List Fault)) ↔ expected = (Text.runPairs file text).length := by
        rw [ite_eq_left_iff, eq_comm]
        simp
      simp only [hcount, List.append_eq_nil_iff, hpairs, hnumber, Option.some.injEq,
        exists_eq_left']
      exact and_comm

/-- A text is read as a batch if nothing is wrong with it, with a block for each pair. -/
theorem ofText_eq_ok {file : Path} {text : List Char} {batch : Batch} :
    ofText file text = .ok batch ↔
      findings file text = [] ∧ (Text.runPairs file text).map Block.ofPair = batch := by
  rw [ofText_eq]
  split
  · rename_i h
    simp [h]
  · rename_i h
    simp [h]

theorem forall₂_isOfPair {file : Path} {text : List Char} {batch : Batch}
    (h : ofText file text = .ok batch) :
    List.Forall₂ Block.IsOfPair batch (Text.runPairs file text) := by
  obtain ⟨hnone, rfl⟩ := ofText_eq_ok.1 h
  obtain ⟨-, -, -, hpairs⟩ := findings_eq_nil_iff.1 hnone
  rw [List.forall₂_map_left_iff, List.forall₂_same]
  exact fun p hp => (hpairs p hp).isOfPair (Text.ne_nil_of_mem_runPairs hp).1

/-- A text is accepted if the first line that is not blank counts half of the runs behind it, and
every two of these runs are accepted. Its blocks then repeat what its pairs of runs say, the
announcement and these runs being all the lines that are not blank. -/
theorem ofText_eq_ok_iff (file : Path) (text : List Char) :
    ((∃ batch, ofText file text = .ok batch) ↔
      ∃ first k, Text.announcement? file text = some first ∧
        Text.count? 64 (Text.trim first.2) = some k ∧
        (Text.runsBehind file text).length = 2 * k ∧
        ∀ p ∈ Text.runPairs file text, Block.IsAccepted p) ∧
    ∀ batch, ofText file text = .ok batch →
      ∃ first, Text.announcement? file text = some first ∧
        Text.count? 64 (Text.trim first.2) = some batch.length ∧
        List.Forall₂ Block.IsOfPair batch (Text.runPairs file text) ∧
        (Text.located file text).filter (fun l => !Text.isBlankLine l.2) =
          first :: (Text.runPairs file text).flatMap fun p => p.1 ++ p.2.getD [] := by
  constructor
  · constructor
    · rintro ⟨batch, h⟩
      obtain ⟨first, hfirst, hcount, hpairs⟩ := findings_eq_nil_iff.1 (ofText_eq_ok.1 h).1
      exact ⟨first, _, hfirst, hcount, Text.length_runsBehind hpairs, hpairs⟩
    · rintro ⟨first, k, hfirst, hcount, hlen, hpairs⟩
      obtain rfl : k = (Text.runPairs file text).length := by
        have hpaired := Text.length_runsBehind hpairs
        omega
      exact ⟨_, ofText_eq_ok.2 ⟨findings_eq_nil_iff.2 ⟨first, hfirst, hcount, hpairs⟩, rfl⟩⟩
  · intro batch h
    obtain ⟨first, hfirst, hcount, -⟩ := findings_eq_nil_iff.1 (ofText_eq_ok.1 h).1
    have hblocks := forall₂_isOfPair h
    exact ⟨first, hfirst, by rw [hcount, hblocks.length_eq], hblocks, Text.filter_located hfirst⟩

/-- A text without a blank line behind its announcement, with a line of blanks between two runs,
and without strings for its last block. -/
def tightText : List Char := "2\nS --> AB | ε\nA -> a\n \t\n1\nab\n\nS --> b\n\n0".toList

/-- The tight text is accepted with two blocks. -/
theorem ofText_tightText :
    (∃ first, Text.announcement? ⟨['f']⟩ tightText = some first ∧
      Text.count? 64 (Text.trim first.2) = some 2) ∧
      (∀ p ∈ Text.runPairs ⟨['f']⟩ tightText, Block.IsAccepted p) ∧
      ∃ batch, ofText ⟨['f']⟩ tightText = .ok batch ∧ batch.length = 2 ∧
        List.Forall₂ Block.IsOfPair batch (Text.runPairs ⟨['f']⟩ tightText) := by
  have hnone : findings ⟨['f']⟩ tightText = [] := by decide +kernel
  have hlen : (Text.runPairs ⟨['f']⟩ tightText).length = 2 := by decide +kernel
  obtain ⟨first, hfirst, hcount, hpairs⟩ := findings_eq_nil_iff.1 hnone
  obtain ⟨batch, hbatch⟩ := (ofText_eq_ok_iff _ _).1.2
    ⟨first, _, hfirst, hcount, Text.length_runsBehind hpairs, hpairs⟩
  obtain ⟨-, -, -, hblocks, -⟩ := (ofText_eq_ok_iff _ _).2 batch hbatch
  exact ⟨⟨first, hfirst, hlen ▸ hcount⟩, hpairs, batch, hbatch, hblocks.length_eq.trans hlen,
    hblocks⟩

end Batch

end Chomsky
