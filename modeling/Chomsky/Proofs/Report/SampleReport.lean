import Chomsky.Proofs.Report.SectionReport
import Chomsky.Proofs.Sentence.Sequence
/-!
# The report on samples

For every block of a batch the report on samples holds its production lines and the sentences
that are drawn in a row from its grammar. The choices go on from block to block, so what is drawn
for a block depends on what was drawn for the blocks in front of it, and on nothing else that the
report writes or tells. The report names the first grammar without sentences and is complete
nevertheless.
-/
namespace Chomsky

/-- The production lines of a block, an empty line, a line for each sentence, and an empty line. -/
def Block.sampleText (b : Block) (sentences : List (List Char)) : List Char :=
  Text.unlines (b.source ++ [] :: (sentences.map shown ++ [[]]))

open Classical in
/-- The grammar has no sentences although some are asked for. -/
noncomputable def Block.failure? (start : Symbol) (amount : Nat) (b : Block) :
    Option Unproductive :=
  if amount = 0 ∨ b.grammar.IsProductive start then none else some ⟨b.location, start⟩

/-- The first grammar that has no sentences although some are asked for. -/
noncomputable def Batch.failure? (start : Symbol) (amount : Nat) (batch : Batch) :
    Option Unproductive :=
  batch.findSome? (Block.failure? start amount)

/-- The blocks with the sentences that are drawn for them, one block after the other. -/
def Batch.sampled {σ : Type} (choose : Chooser σ) (start : Symbol) (amount : Nat) :
    Batch → σ → List (Block × List (List Char))
  | [], _ => []
  | b :: batch, s =>
    let drawn := (Generator.ofGrammar b.grammar).sentences choose start b.location amount s
    (b, drawn.1) :: Batch.sampled choose start amount batch drawn.2

/-- The state of the chooser behind the sentences of all blocks. -/
def Batch.sampledSource {σ : Type} (choose : Chooser σ) (start : Symbol) (amount : Nat) :
    Batch → σ → σ
  | [], s => s
  | b :: batch, s => Batch.sampledSource choose start amount batch
      ((Generator.ofGrammar b.grammar).sentences choose start b.location amount s).2

theorem Batch.map_fst_sampled {σ : Type} (choose : Chooser σ) (start : Symbol) (amount : Nat)
    (batch : Batch) (s : σ) : (Batch.sampled choose start amount batch s).map Prod.fst = batch := by
  induction batch generalizing s with
  | nil => rfl
  | cons b batch ih => rw [Batch.sampled, List.map_cons, ih]

theorem Batch.exists_eq_of_mem_sampled {σ : Type} {choose : Chooser σ} {start : Symbol}
    {amount : Nat} {batch : Batch} {s : σ} {b : Block} {sentences : List (List Char)}
    (h : (b, sentences) ∈ Batch.sampled choose start amount batch s) :
    b ∈ batch ∧ ∃ s', sentences =
      ((Generator.ofGrammar b.grammar).sentences choose start b.location amount s').1 := by
  induction batch generalizing s with
  | nil => exact absurd h List.not_mem_nil
  | cons first batch ih =>
    rcases List.mem_cons.1 h with heq | hmem
    · obtain ⟨rfl, rfl⟩ := Prod.mk.inj heq
      exact ⟨List.mem_cons_self, s, rfl⟩
    · obtain ⟨hb, hs⟩ := ih hmem
      exact ⟨List.mem_cons_of_mem first hb, hs⟩

theorem Block.failure?_eq_none_iff {start : Symbol} {amount : Nat} {b : Block} :
    b.failure? start amount = none ↔ amount = 0 ∨ b.grammar.IsProductive start := by
  simp only [failure?, ite_eq_left_iff, reduceCtorEq, imp_false, not_not]

theorem Batch.failure?_eq_none_iff {start : Symbol} {amount : Nat} {batch : Batch} :
    batch.failure? start amount = none ↔
      amount = 0 ∨ ∀ b ∈ batch, b.grammar.IsProductive start := by
  rw [Batch.failure?, List.findSome?_eq_none_iff]
  simp only [Block.failure?_eq_none_iff]
  by_cases hamount : amount = 0 <;> simp [hamount]

namespace Writing
variable {σ : Type} (choose : Chooser σ) (start : Symbol)

/-- From a start symbol with a derivation the sentences are written line by line. -/
theorem writes_sentences {g : Grammar} (hstart : g.IsProductive start) (location : Location)
    (amount : Nat) (s : σ) :
    Writes (sentences choose (.ofGrammar g) start location amount) s none
      (Text.unlines (((Generator.ofGrammar g).sentences choose start location amount s).1.map
        shown))
      ((Generator.ofGrammar g).sentences choose start location amount s).2 := by
  induction amount generalizing s with
  | zero => exact .pure none s
  | succ amount ih =>
    obtain ⟨w, s', hs⟩ := Generator.exists_sentence choose hstart location s
    rw [Generator.sentences_succ_of_ok hs, ← List.nil_append (Text.unlines _)]
    refine .bind (.draw_of_ok hs) ?_
    exact .bind (.line (shown w) s') (ih s')

/-- From a start symbol without a derivation nothing is written, and the grammar is named. -/
theorem writes_sentences_of_not_isProductive {g : Grammar} (hstart : ¬ g.IsProductive start)
    (location : Location) (amount : Nat) (s : σ) :
    Writes (sentences choose (.ofGrammar g) start location (amount + 1)) s
      (some ⟨location, start⟩) [] s := by
  refine .bind (.draw_of_error (Generator.sentence_of_not_isProductive hstart s)) ?_
  exact .bind (.tell _ s) (.pure _ s)

/-- The sentences of a block are written, and its grammar is named if it should have some and has
none. -/
theorem writes_sentences_block (amount : Nat) (b : Block) (s : σ) :
    Writes (sentences choose (.ofGrammar b.grammar) start b.location amount) s
      (b.failure? start amount)
      (Text.unlines (((Generator.ofGrammar b.grammar).sentences choose start b.location amount
        s).1.map shown))
      ((Generator.ofGrammar b.grammar).sentences choose start b.location amount s).2 := by
  by_cases hstart : b.grammar.IsProductive start
  · rw [Block.failure?, if_pos (Or.inr hstart)]
    exact writes_sentences choose start hstart b.location amount s
  · rw [Generator.sentences_of_not_isProductive hstart]
    cases amount with
    | zero =>
      rw [Block.failure?, if_pos (Or.inl rfl)]
      exact .pure none s
    | succ amount =>
      rw [Block.failure?, if_neg (by simpa using hstart)]
      exact writes_sentences_of_not_isProductive choose start hstart b.location amount s

theorem writes_samplesOf (amount : Nat) (b : Block) (s : σ) :
    Writes (samplesOf choose start amount b) s (b.failure? start amount)
      (b.sampleText ((Generator.ofGrammar b.grammar).sentences choose start b.location amount s).1)
      ((Generator.ofGrammar b.grammar).sentences choose start b.location amount s).2 := by
  generalize hdrawn : (Generator.ofGrammar b.grammar).sentences choose start b.location amount s =
    drawn
  have hsentences := writes_sentences_block choose start amount b s
  rw [hdrawn] at hsentences
  have htext : b.sampleText drawn.1 = (b.source.flatMap (· ++ ['\n']) ++ ['\n']) ++
      (Text.unlines (drawn.1.map shown) ++ (['\n'] ++ [])) := by
    simp [Block.sampleText, Text.unlines]
  rw [htext]
  exact .bind (writes_grammar s b) (.bind hsentences (.bind (.line [] drawn.2) (.pure _ _)))

/-- The report on samples shows the blocks with their sentences in order, and names the first
grammar without. -/
theorem writes_sampled (amount : Nat) (batch : Batch) (s : σ) :
    Writes (samples choose start amount batch) s (batch.failure? start amount)
      ((Batch.sampled choose start amount batch s).flatMap fun p => p.1.sampleText p.2)
      (Batch.sampledSource choose start amount batch s) := by
  induction batch generalizing s with
  | nil => exact .pure none s
  | cons b batch ih =>
    have hrest :=
      ih ((Generator.ofGrammar b.grammar).sentences choose start b.location amount s).2
    have hfailure : Batch.failure? start amount (b :: batch) =
        (b.failure? start amount).or (Batch.failure? start amount batch) := by
      rw [Batch.failure?, List.findSome?_cons]
      cases b.failure? start amount <;> rfl
    rw [hfailure, Batch.sampled, Batch.sampledSource, List.flatMap_cons,
      ← List.append_nil (List.flatMap _ _)]
    exact .bind (writes_samplesOf choose start amount b s) (.bind hrest (.pure _ _))

theorem writes_samples (amount : Nat) (batch : Batch) (s : σ) :
    ∃ s', Writes (samples choose start amount batch) s (batch.failure? start amount)
      ((Batch.sampled choose start amount batch s).flatMap fun p => p.1.sampleText p.2) s' :=
  ⟨_, writes_sampled choose start amount batch s⟩

end Writing

end Chomsky
