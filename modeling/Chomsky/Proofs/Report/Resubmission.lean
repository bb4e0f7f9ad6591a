import Chomsky.Proofs.Batch.Composed
import Chomsky.Proofs.Report.SampleReport
/-!
# Samples as test strings

The report on samples shows a block as its production lines and its sentences, so a batch file
can be made of it again, with the sentences as test strings. That file is accepted, and it has the
grammar of the block and the sentences that were drawn: terminals are no blanks and not `ε`, so a
sentence stays on one line, no sentence shows as a blank line, and only the empty one shows as `ε`.
-/
namespace Chomsky

/-- The batch file with the production lines of a block, a count, and a line for each sentence. -/
def Block.resubmission (b : Block) (amount : Nat) (sentences : List (List Char)) : List Char :=
  Text.unlines (['1'] :: [] :: (b.source ++ [] :: Text.decimal amount :: sentences.map shown))

/-- The section that this file has. -/
def Block.sampleSection (b : Block) (amount : Nat) (sentences : List (List Char)) : Section :=
  ⟨b.source, Text.decimal amount, sentences.map shown⟩

namespace Text

theorem isBlankLine_eq_false {line : Line} (hne : line ≠ []) (h : ∀ c ∈ line, isBlank c = false) :
    isBlankLine line = false := by
  obtain ⟨c, cs, rfl⟩ := List.exists_cons_of_ne_nil hne
  rw [isBlankLine_cons, h c List.mem_cons_self, Bool.false_and]

end Text

/-! ## Sentences on lines -/

/-- The characters are neither blanks nor `ε`, so the text can be shown on a line and read again. -/
def IsPlain (w : List Char) : Prop := ∀ c ∈ w, Text.isBlank c = false ∧ c ≠ epsilon

theorem shown_ne_nil (w : List Char) : shown w ≠ [] := by
  cases w <;> simp [shown]

namespace IsPlain
variable {w : List Char}

theorem isBlank_of_mem_shown (h : IsPlain w) {c : Char} (hc : c ∈ shown w) :
    Text.isBlank c = false := by
  cases w with
  | nil =>
    obtain rfl : c = epsilon := by simpa [shown] using hc
    rfl
  | cons d w => exact (h c hc).1

theorem testString_shown (h : IsPlain w) : Block.testString (shown w) = w := by
  cases w with
  | nil => decide
  | cons d w =>
    have hmark : ¬ Text.IsEmptyMark (d :: w) := by
      rintro ⟨blanks, -, hw⟩
      exact (h d List.mem_cons_self).2 (List.cons.inj hw).1
    rw [shown, List.isEmpty_cons, if_neg Bool.false_ne_true, Block.testString_eq, if_neg hmark]

end IsPlain

/-! ## Blocks and their sections -/

namespace Block
variable {b b' : Block} {s : Section}

theorem IsOf.isShowable (h : b.IsOf s) {p : Production} (hp : p ∈ b.grammar.productions) :
    p.rhs.IsShowable := by
  have hmem : p ∈ s.productions := by
    rw [← h.productions_eq]
    exact hp
  obtain ⟨line, -, alternatives, hwrites, hrhs⟩ := hmem
  exact hwrites.isShowable.alternatives p.rhs hrhs

variable {amount : Nat} {sentences : List (List Char)}

/-- Where the sentences are plain, the lines behind the production lines have no blanks. -/
theorem isBlank_of_mem_sampleSection (b : Block) (amount : Nat)
    (hplain : ∀ w ∈ sentences, IsPlain w) :
    ∀ line ∈ (b.sampleSection amount sentences).countLine ::
        (b.sampleSection amount sentences).stringLines,
      line ≠ [] ∧ ∀ c ∈ line, Text.isBlank c = false := by
  refine List.forall_mem_cons.2 ⟨⟨Text.decimal_ne_nil amount, ?_⟩, ?_⟩
  · intro c hc
    exact Text.isBlank_of_mem_decimal hc
  · intro line hline
    obtain ⟨w, hw, rfl⟩ := List.mem_map.1 hline
    exact ⟨shown_ne_nil w, fun c hc => (hplain w hw).isBlank_of_mem_shown hc⟩

theorem isPrintable_sampleSection (hne : b.source ≠ [])
    (hsource : ∀ line ∈ b.source, Text.isBlankLine line = false ∧ '\n' ∉ line)
    (hplain : ∀ w ∈ sentences, IsPlain w) : (b.sampleSection amount sentences).IsPrintable := by
  have hline : ∀ line ∈ (b.sampleSection amount sentences).productionLines ++
      (b.sampleSection amount sentences).countLine ::
        (b.sampleSection amount sentences).stringLines,
      Text.isBlankLine line = false ∧ '\n' ∉ line := by
    intro line hline
    rcases List.mem_append.1 hline with hmem | hmem
    · exact hsource line hmem
    · obtain ⟨hne, hblank⟩ := isBlank_of_mem_sampleSection b amount hplain line hmem
      exact ⟨Text.isBlankLine_eq_false hne hblank, Text.newline_notMem hblank⟩
  exact ⟨hne, fun line h => (hline line h).1, fun line h => (hline line h).2⟩

/-- The batch file made of a block in an accepted batch and of plain sentences, as many as
counted, reads as one block with the same grammar and with the sentences as its strings. -/
theorem exists_ofText_resubmission {file : Path} {text : List Char} {batch : Batch}
    (h : Batch.ofText file text = .ok batch) (hb : b ∈ batch) (hamount : amount < 2 ^ 64)
    (hlength : sentences.length = amount) (hplain : ∀ w ∈ sentences, IsPlain w) (file' : Path) :
    ∃ b', Batch.ofText file' (b.resubmission amount sentences) = .ok [b'] ∧
      b'.grammar = b.grammar ∧ b'.strings = sentences := by
  obtain ⟨s, hof, hne, hlines⟩ := Batch.exists_section h hb
  rw [← hof.source] at hne hlines
  have hsource := (List.forall_mem_append.1 hlines).1
  have hbehind := isBlank_of_mem_sampleSection b amount hplain
  have hrules : ∀ line ∈ b.source, ∃ x alternatives, Rule.Writes line x alternatives := by
    intro line hline
    obtain ⟨r, -, hwrites⟩ := exists_mem_of_forall₂ hof.rules (hof.source ▸ hline)
    exact ⟨_, _, hwrites⟩
  have hcount : Text.count? 64 (Text.trim (Text.dropReturn (Text.decimal amount))) =
      some (sentences.map shown).length := by
    have hblank : ∀ c ∈ Text.decimal amount, Text.isBlank c = false :=
      (hbehind _ List.mem_cons_self).2
    rw [Text.dropReturn_eq_self hblank, Text.trim_eq_self hblank, Text.count?_decimal hamount,
      List.length_map, hlength]
  obtain ⟨b', hb', hof'⟩ := Batch.exists_ofText_soleText
    (isPrintable_sampleSection hne hsource hplain) hrules hcount file'
  have hsame : b'.grammar = b.grammar := by
    refine hof.grammar_eq hof' ?_
    change List.Forall₂ _ s.productionLines (b.source.map Text.dropReturn)
    rw [hof.source, List.forall₂_map_right_iff, List.forall₂_same]
    exact fun line _ x alternatives hwrites => hwrites.dropReturn
  refine ⟨b', hb', hsame, ?_⟩
  calc b'.strings
      = ((sentences.map shown).map Text.dropReturn).map testString := hof'.strings
    _ = sentences.map id := by
        rw [List.map_map, List.map_map]
        refine List.map_congr_left fun w hw => ?_
        have hblank := (hbehind (shown w)
          (List.mem_cons_of_mem _ (List.mem_map_of_mem hw))).2
        rw [Function.comp_apply, Function.comp_apply, Text.dropReturn_eq_self hblank,
          (hplain w hw).testString_shown, id]
    _ = sentences := List.map_id _

/-- The sentences of a block in an accepted batch are plain. -/
theorem isPlain_of_mem_sentences {file : Path} {text : List Char} {batch : Batch}
    (h : Batch.ofText file text = .ok batch) (hb : b ∈ batch) {σ : Type} {choose : Chooser σ}
    {start : Symbol} {location : Location} {state : σ} {w : List Char}
    (hw : w ∈ ((Generator.ofGrammar b.grammar).sentences choose start location amount state).1) :
    IsPlain w := by
  obtain ⟨s, hof, -⟩ := Batch.exists_section h hb
  intro c hc
  obtain ⟨x, hx⟩ := Generator.exists_terminal_of_mem_sentences hw hc
  obtain ⟨hblank, -, hepsilon, -⟩ := hof.isShowable hx
  exact ⟨hblank, hepsilon⟩

end Block

/-- The report on samples of an accepted batch shows every block with the sentences that were
drawn for it. From a start symbol with a derivation they are as many as asked for, and the batch
file made of the block and of their lines reads as one block with the same grammar and with these
sentences as its strings. -/
theorem Batch.ofText_resubmission {file : Path} {text : List Char} {batch : Batch}
    (h : ofText file text = .ok batch) (start : Symbol) {amount : Nat} (hamount : amount < 2 ^ 64)
    {σ : Type} (choose : Chooser σ) (source : σ) :
    (sampled choose start amount batch source).map Prod.fst = batch ∧
    (∃ p, Writing.samples choose start amount batch (.start none source) =
        (.ok (batch.failure? start amount), p) ∧
      p.sink.written = (String.ofList ((sampled choose start amount batch source).flatMap
        fun shown => shown.1.sampleText shown.2)).toUTF8) ∧
    ∀ b sentences, (b, sentences) ∈ sampled choose start amount batch source →
      (∃ state, sentences =
        ((Generator.ofGrammar b.grammar).sentences choose start b.location amount state).1) ∧
      (b.grammar.IsProductive start → sentences.length = amount ∧ ∀ file', ∃ b',
        ofText file' (b.resubmission amount sentences) = .ok [b'] ∧
          b'.grammar = b.grammar ∧ b'.strings = sentences) := by
  refine ⟨map_fst_sampled choose start amount batch source, ?_, ?_⟩
  · obtain ⟨source', hwrites⟩ := Writing.writes_samples choose start amount batch source
    obtain ⟨p, hp, hwritten, -⟩ := hwrites.start_none
    exact ⟨p, hp, hwritten⟩
  · intro b sentences hmem
    obtain ⟨hb, state, rfl⟩ := exists_eq_of_mem_sampled hmem
    refine ⟨⟨state, rfl⟩, fun hstart => ?_⟩
    have hlength := Generator.length_sentences choose hstart b.location amount state
    exact ⟨hlength, Block.exists_ofText_resubmission h hb hamount hlength fun w hw =>
      Block.isPlain_of_mem_sentences h hb hw⟩

/-- Of a production line with a carriage return at its end, and with an empty sentence among the
samples, a batch file is made that reads as the same grammar and the same sentences. -/
theorem Batch.ofText_resubmission_emptySentence : ∃ b : Block,
    ofText ⟨['f']⟩ "1\n\nS --> a | ε\r\r\n\n0\n".toList = .ok [b] ∧ 2 < 2 ^ 64 ∧
      b.grammar.IsProductive 'S' ∧
      (b, [['a'], []]) ∈ sampled WordSource.choose 'S' 2 [b] ⟨[0, 0x80000000], 0, 0⟩ ∧
      ∃ b' : Block, ofText ⟨['g']⟩ "1\n\nS --> a | ε\r\n\n2\na\nε\n".toList = .ok [b'] ∧
        b'.grammar = b.grammar ∧ b'.strings = [['a'], []] := by
  let b : Block := ⟨[⟨'S', [.terminal 'a', .empty], ⟨⟨['f']⟩, 3⟩⟩], ["S --> a | ε\r".toList], [],
    ⟨⟨['f']⟩, 3⟩⟩
  have hread : ofText ⟨['f']⟩ "1\n\nS --> a | ε\r\r\n\n0\n".toList = .ok [b] := by
    decide +kernel
  have hstart : b.grammar.IsProductive 'S' := ⟨.leaf 'S' 'a', rfl, by decide +kernel⟩
  have hmem : (b, [['a'], []]) ∈ sampled WordSource.choose 'S' 2 [b] ⟨[0, 0x80000000], 0, 0⟩ := by
    decide +kernel
  obtain ⟨-, -, hblocks⟩ := ofText_resubmission hread 'S' (by decide : 2 < 2 ^ 64)
    WordSource.choose ⟨[0, 0x80000000], 0, 0⟩
  obtain ⟨-, hagain⟩ := (hblocks b _ hmem).2 hstart
  exact ⟨b, hread, by decide, hstart, hmem, hagain ⟨['g']⟩⟩

end Chomsky
