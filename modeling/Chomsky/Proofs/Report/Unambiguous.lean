import Chomsky.Proofs.Report.SectionReport
/-!
# Reading a report

The report on verdicts can be read back, whatever the lines of the batch file hold. No line of a
file is empty where production lines or test strings stand, so the empty lines of the report tell
its paragraphs apart. Behind any string the two verdicts end in different words. And no test
string is `ε` alone, since a line with `ε` alone stands for the empty string. So reports on
accepted texts are only the same if the blocks are, verdicts included.
-/
namespace Chomsky

/-! ## Parts and their ends -/

/-- Cutting at the ends of parts gives the parts back, and what is left is empty. -/
theorem splitOn_flatMap_append_singleton {α : Type} [DecidableEq α] {separator : α}
    {xs : List (List α)} (h : ∀ x ∈ xs, separator ∉ x) :
    (xs.flatMap (· ++ [separator])).splitOn separator = xs ++ [[]] := by
  induction xs with
  | nil => rfl
  | cons x xs ih =>
    obtain ⟨hx, hxs⟩ := List.forall_mem_cons.1 h
    have hfirst : ∀ c ∈ x, (c == separator) = false := by
      intro c hc
      rw [beq_eq_false_iff_ne]
      rintro rfl
      exact hx hc
    rw [List.flatMap_cons, List.append_assoc, List.singleton_append, List.splitOn,
      List.splitOnP_append_cons_of_forall_mem hfirst separator (by simp), List.cons_append,
      ← ih hxs]
    rfl

/-- Parts that end where a separator stands, and nowhere before, can be told apart. -/
theorem eq_of_flatMap_append_singleton_eq {α : Type} [DecidableEq α] {separator : α}
    {xs ys : List (List α)} (hx : ∀ x ∈ xs, separator ∉ x) (hy : ∀ y ∈ ys, separator ∉ y)
    (h : xs.flatMap (· ++ [separator]) = ys.flatMap (· ++ [separator])) : xs = ys := by
  have hsplit := congrArg (List.splitOn separator) h
  rw [splitOn_flatMap_append_singleton hx, splitOn_flatMap_append_singleton hy] at hsplit
  exact List.append_cancel_right hsplit

/-- Lines without newlines can be told apart in their text. -/
theorem Text.unlines_inj {ls ls' : List Line} (h : ∀ line ∈ ls, '\n' ∉ line)
    (h' : ∀ line ∈ ls', '\n' ∉ line) (heq : unlines ls = unlines ls') : ls = ls' :=
  eq_of_flatMap_append_singleton_eq h h' heq

theorem Text.eq_of_toUTF8_ofList_eq {text text' : List Char}
    (h : (String.ofList text).toUTF8 = (String.ofList text').toUTF8) : text = text' :=
  String.ofList_injective (String.toByteArray_inj.1 h)

/-! ## Verdicts -/

theorem Block.testString_ne_epsilon (line : Text.Line) : testString line ≠ [epsilon] := by
  unfold testString
  split
  · simp
  · rename_i h
    rintro rfl
    exact h (by decide)

theorem shown_inj {s s' : List Char} (hs : s ≠ [epsilon]) (hs' : s' ≠ [epsilon])
    (h : shown s = shown s') : s = s' := by
  cases s <;> cases s' <;> simp_all [shown]

/-- A verdict on a string other than `ε` is about this string only, and falls in one way. -/
theorem verdictLine_inj {s s' : List Char} {accepted accepted' : Bool} (hs : s ≠ [epsilon])
    (hs' : s' ≠ [epsilon]) (h : verdictLine s accepted = verdictLine s' accepted') :
    s = s' ∧ accepted = accepted' := by
  -- in front of the words that both verdicts end with, one has `is` and the other `is NOT`
  have hdiffer : ∀ t u : List Char, verdictLine t true ≠ verdictLine u false := by
    intro t u heq
    have hwords :
        (shown t ++ " is".toList) ++ " in the language defined by the above grammar".toList =
          (shown u ++ " is NOT".toList) ++
            " in the language defined by the above grammar".toList := by
      simpa [verdictLine] using heq
    have hlast := congrArg List.getLast? (List.append_cancel_right hwords)
    simp at hlast
  cases accepted <;> cases accepted'
  · exact ⟨shown_inj hs hs' (List.append_cancel_right h), rfl⟩
  · exact absurd h.symm (hdiffer _ _)
  · exact absurd h (hdiffer _ _)
  · exact ⟨shown_inj hs hs' (List.append_cancel_right h), rfl⟩

/-- Verdicts on the strings of a list are about this list only, and each falls in one way. -/
theorem eq_of_map_verdictLine_eq {accepts accepts' : List Char → Bool} {xs ys : List (List Char)}
    (hx : ∀ w ∈ xs, w ≠ [epsilon]) (hy : ∀ w ∈ ys, w ≠ [epsilon])
    (h : xs.map (fun w => verdictLine w (accepts w)) =
      ys.map fun w => verdictLine w (accepts' w)) :
    xs = ys ∧ ∀ w ∈ xs, accepts w = accepts' w := by
  induction xs generalizing ys with
  | nil =>
    obtain rfl : ys = [] := List.map_eq_nil_iff.1 h.symm
    exact ⟨rfl, fun w hw => absurd hw List.not_mem_nil⟩
  | cons w xs ih =>
    obtain ⟨v, ys, rfl, hfirst, hrest⟩ := List.map_eq_cons_iff.1 h.symm
    rw [List.forall_mem_cons] at hx hy
    obtain ⟨rfl, hverdict⟩ := verdictLine_inj hx.1 hy.1 hfirst.symm
    obtain ⟨rfl, hverdicts⟩ := ih hx.2 hy.2 hrest.symm
    exact ⟨rfl, List.forall_mem_cons.2 ⟨hverdict, hverdicts⟩⟩

theorem verdictLine_ne_nil (w : List Char) (accepted : Bool) : verdictLine w accepted ≠ [] := by
  cases accepted <;> simp [verdictLine]

theorem newline_notMem_verdictLine {w : List Char} (h : '\n' ∉ w) (accepted : Bool) :
    '\n' ∉ verdictLine w accepted := by
  have hshown : '\n' ∉ shown w := by
    cases w with
    | nil => decide
    | cons c w => exact h
  rw [verdictLine, List.mem_append, not_or]
  exact ⟨hshown, by cases accepted <;> decide⟩

/-! ## Blocks -/

namespace Block
variable {b b' : Block} {start start' : Symbol}

/-- The two paragraphs that the report shows of a block. -/
def paragraphs (start : Symbol) (b : Block) : List (List Text.Line) :=
  [b.source, b.verdictLines start]

/-- The block was read from lines of a file: neither its production lines nor its strings hold a
line end, no production line is empty, and no string is `ε`. -/
structure IsLegible (b : Block) : Prop where
  source : ∀ line ∈ b.source, line ≠ [] ∧ '\n' ∉ line
  strings : ∀ w ∈ b.strings, w ≠ [epsilon] ∧ '\n' ∉ w
  written : ∃ s, b.IsOf s

theorem isLegible_of_mem {file : Path} {text : List Char} {batch : Batch}
    (h : Batch.ofText file text = .ok batch) (hb : b ∈ batch) : b.IsLegible := by
  obtain ⟨s, hof, -, hlines⟩ := Batch.exists_section h hb
  obtain ⟨hproductions, hothers⟩ := List.forall_mem_append.1 hlines
  refine ⟨fun line hline => ?_, fun w hw => ?_, s, hof⟩
  · obtain ⟨hblank, hnewline⟩ := hproductions line (hof.source ▸ hline)
    refine ⟨?_, hnewline⟩
    rintro rfl
    simp at hblank
  · obtain ⟨line, hline, rfl⟩ := List.mem_map.1 (hof.strings ▸ hw)
    refine ⟨testString_ne_epsilon line, ?_⟩
    unfold testString
    split
    · exact List.not_mem_nil
    · exact (hothers line (List.mem_cons_of_mem _ hline)).2

/-- The paragraphs of a legible block hold no empty lines, and their lines no line ends. -/
theorem IsLegible.paragraphs (h : b.IsLegible) :
    ∀ paragraph ∈ b.paragraphs start, ∀ line ∈ paragraph, line ≠ [] ∧ '\n' ∉ line := by
  rw [Block.paragraphs, List.forall_mem_cons, List.forall_mem_singleton]
  refine ⟨h.source, fun line hline => ?_⟩
  obtain ⟨w, hw, rfl⟩ := List.mem_map.1 hline
  exact ⟨verdictLine_ne_nil w _, newline_notMem_verdictLine (h.strings w hw).2 _⟩

/-- The block has the production lines, the grammar and the strings of another, and the same
verdict on each of its strings. -/
structure IsSameReport (start start' : Symbol) (b b' : Block) : Prop where
  source : b.source = b'.source
  grammar : b.grammar = b'.grammar
  strings : b.strings = b'.strings
  verdicts : ∀ w ∈ b.strings,
    recognizes b.grammar.index start w = recognizes b'.grammar.index start' w

/-- What the report shows of a block decides the block, verdicts included. -/
theorem IsLegible.isSameReport (h : b.IsLegible) (h' : b'.IsLegible)
    (hsource : b.source = b'.source) (hlines : b.verdictLines start = b'.verdictLines start') :
    IsSameReport start start' b b' := by
  obtain ⟨s, hs⟩ := h.written
  obtain ⟨s', hs'⟩ := h'.written
  have hproductions : s'.productionLines = s.productionLines := by
    rw [← hs.source, ← hs'.source, hsource]
  have hgrammar : b.grammar = b'.grammar := by
    refine hs'.grammar_eq hs ?_
    rw [hproductions, List.forall₂_same]
    exact fun _ _ _ _ => id
  obtain ⟨hstrings, hverdicts⟩ := eq_of_map_verdictLine_eq (fun w hw => (h.strings w hw).1)
    (fun w hw => (h'.strings w hw).1) hlines
  exact ⟨hsource, hgrammar, hstrings, hverdicts⟩

end Block

namespace Batch
variable {batch batch' : Batch} {start start' : Symbol}

theorem flatMap_verdictText (start : Symbol) (batch : Batch) :
    batch.flatMap (Block.verdictText start) =
      Text.unlines ((batch.flatMap (Block.paragraphs start)).flatMap (· ++ [[]])) := by
  induction batch with
  | nil => rfl
  | cons b batch ih =>
    rw [List.flatMap_cons, ih, Block.verdictText]
    simp [Text.unlines, Block.paragraphs]

/-- The report on legible blocks can be cut into their paragraphs. -/
theorem flatMap_paragraphs_eq (h : ∀ b ∈ batch, b.IsLegible) (h' : ∀ b ∈ batch', b.IsLegible)
    (hsame : batch.flatMap (Block.verdictText start) =
      batch'.flatMap (Block.verdictText start')) :
    batch.flatMap (Block.paragraphs start) = batch'.flatMap (Block.paragraphs start') := by
  have hlines : ∀ {blocks : Batch} {x : Symbol}, (∀ b ∈ blocks, b.IsLegible) →
      ∀ paragraph ∈ blocks.flatMap (Block.paragraphs x),
        ∀ line ∈ paragraph, line ≠ [] ∧ '\n' ∉ line := by
    intro blocks x hblocks paragraph hparagraph
    obtain ⟨b, hb, hmem⟩ := List.mem_flatMap.1 hparagraph
    exact (hblocks b hb).paragraphs paragraph hmem
  have hnewline : ∀ {blocks : Batch} {x : Symbol}, (∀ b ∈ blocks, b.IsLegible) →
      ∀ line ∈ (blocks.flatMap (Block.paragraphs x)).flatMap (· ++ [[]]), '\n' ∉ line := by
    intro blocks x hblocks line hline
    obtain ⟨paragraph, hparagraph, hmem⟩ := List.mem_flatMap.1 hline
    rcases List.mem_append.1 hmem with hmem | hempty
    · exact (hlines hblocks paragraph hparagraph line hmem).2
    · rw [List.mem_singleton.1 hempty]
      exact List.not_mem_nil
  rw [flatMap_verdictText, flatMap_verdictText] at hsame
  refine eq_of_flatMap_append_singleton_eq ?_ ?_
    (Text.unlines_inj (hnewline h) (hnewline h') hsame)
  · exact fun paragraph hparagraph hempty => (hlines h paragraph hparagraph [] hempty).1 rfl
  · exact fun paragraph hparagraph hempty => (hlines h' paragraph hparagraph [] hempty).1 rfl

/-- What the report shows of legible blocks decides how many there are, and each of them. -/
theorem forall₂_isSameReport (h : ∀ b ∈ batch, b.IsLegible) (h' : ∀ b ∈ batch', b.IsLegible)
    (hsame : batch.flatMap (Block.paragraphs start) = batch'.flatMap (Block.paragraphs start')) :
    List.Forall₂ (Block.IsSameReport start start') batch batch' := by
  induction batch generalizing batch' with
  | nil =>
    cases batch' with
    | nil => exact .nil
    | cons b' batch' => simp [Block.paragraphs] at hsame
  | cons b batch ih =>
    cases batch' with
    | nil => simp [Block.paragraphs] at hsame
    | cons b' batch' =>
      rw [List.forall_mem_cons] at h h'
      obtain ⟨hsource, hlines, hrest⟩ : b.source = b'.source ∧
          b.verdictLines start = b'.verdictLines start' ∧
          batch.flatMap (Block.paragraphs start) = batch'.flatMap (Block.paragraphs start') := by
        simpa [Block.paragraphs] using hsame
      exact .cons (h.1.isSameReport h'.1 hsource hlines) (ih h.2 h'.2 hrest)

theorem sink_verdicts {σ : Type} (start : Symbol) (batch : Batch) (source : σ) :
    (Writing.verdicts start batch (.start none source)).2.sink.written =
      (String.ofList (batch.flatMap (Block.verdictText start))).toUTF8 := by
  obtain ⟨p, hp, hwritten, -⟩ := (Writing.writes_batchVerdicts source start batch).start_none
  rw [hp, hwritten]

/-- Where the reports on two accepted texts have the same bytes, the texts have as many blocks,
with the same production lines, grammars, strings and verdicts one by one. -/
theorem eq_of_written_verdicts_eq {file file' : Path} {text text' : List Char}
    (h : ofText file text = .ok batch) (h' : ofText file' text' = .ok batch') {σ : Type}
    {source source' : σ}
    (hsame : (Writing.verdicts start batch (.start none source)).2.sink.written =
      (Writing.verdicts start' batch' (.start none source')).2.sink.written) :
    batch.length = batch'.length ∧
      List.Forall₂ (Block.IsSameReport start start') batch batch' := by
  rw [sink_verdicts, sink_verdicts] at hsame
  have hlegible : ∀ b ∈ batch, b.IsLegible := fun b hb => Block.isLegible_of_mem h hb
  have hlegible' : ∀ b ∈ batch', b.IsLegible := fun b hb => Block.isLegible_of_mem h' hb
  have hblocks := forall₂_isSameReport hlegible hlegible'
    (flatMap_paragraphs_eq hlegible hlegible' (Text.eq_of_toUTF8_ofList_eq hsame))
  exact ⟨hblocks.length_eq, hblocks⟩

/-- Two files of one block that differ in their blank lines, counts, line ends and marks of the
empty string. One of the strings goes on like a verdict. -/
theorem eq_of_written_verdicts_eq_relaidText : ∃ batch batch' : Batch,
    ofText ⟨['f']⟩ "1\n\nS --> a\n\n2\na is NOT\nε\n".toList = .ok batch ∧
      ofText ⟨['g']⟩ "\n+1\n \nS --> a\r\n\n02\na is NOT\r\nε ".toList = .ok batch' ∧
      (Writing.verdicts 'S' batch (.start none ())).2.sink.written =
        (Writing.verdicts 'T' batch' (.start none ())).2.sink.written ∧
      batch.length = batch'.length ∧
      List.Forall₂ (Block.IsSameReport 'S' 'T') batch batch' := by
  let b : Block := ⟨[⟨'S', [.terminal 'a'], ⟨⟨['f']⟩, 3⟩⟩], ["S --> a".toList],
    ["a is NOT".toList, []], ⟨⟨['f']⟩, 3⟩⟩
  let b' : Block := ⟨[⟨'S', [.terminal 'a'], ⟨⟨['g']⟩, 4⟩⟩], ["S --> a".toList],
    ["a is NOT".toList, []], ⟨⟨['g']⟩, 4⟩⟩
  have h : ofText ⟨['f']⟩ "1\n\nS --> a\n\n2\na is NOT\nε\n".toList = .ok [b] := by
    decide +kernel
  have h' : ofText ⟨['g']⟩ "\n+1\n \nS --> a\r\n\n02\na is NOT\r\nε ".toList = .ok [b'] := by
    decide +kernel
  have hsame : (Writing.verdicts 'S' [b] (.start none ())).2.sink.written =
      (Writing.verdicts 'T' [b'] (.start none ())).2.sink.written := by
    have htext : [b].flatMap (Block.verdictText 'S') = [b'].flatMap (Block.verdictText 'T') := by
      decide +kernel
    rw [sink_verdicts, sink_verdicts, htext]
  exact ⟨[b], [b'], h, h', hsame, eq_of_written_verdicts_eq h h' hsame⟩

end Batch

end Chomsky
