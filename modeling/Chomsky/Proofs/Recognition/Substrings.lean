import Chomsky.Proofs.Recognition.Rows
/-!
# Tables of substrings

A cell depends on the characters of its span and on no others. So the table of a part of an input
is a smaller triangle inside the table of the whole input: its columns are moved by the number of
characters in front of the part, and its cells are the same, the order of their symbols included.
-/
namespace Chomsky

theorem length_part {input : List Char} {k m : Nat} (h : k + m ≤ input.length) :
    ((input.drop k).take m).length = m := by
  simp only [List.length_take, List.length_drop]
  omega

namespace Table
variable (index : Index) {input : List Char}

/-- A part of an input fills its cells as the input does in the columns of the part. -/
theorem symbolsAt_fill_substring {k m row col : Nat} (hm : k + m ≤ input.length)
    (h : row + col < m) : (fill index ((input.drop k).take m)).symbolsAt row col =
      (fill index input).symbolsAt row (k + col) := by
  have hlen := length_part hm
  induction row using Nat.strongRecOn generalizing col with
  | ind row ih =>
    cases row with
    | zero =>
      have hcol : col < ((input.drop k).take m).length := by omega
      have hchar : ((input.drop k).take m)[col] = input[k + col] := by
        rw [List.getElem_take, List.getElem_drop]
      rw [symbolsAt_fill_zero index _ hcol, symbolsAt_fill_zero index _ (by omega), hchar]
    | succ row =>
      rw [symbolsAt_fill_succ index _ (by omega), symbolsAt_fill_succ index _ (by omega)]
      -- the cells that a cut looks up lie over the part as well, so they are the same by induction
      apply fillCell_congr
      intro r hr c hc
      exact ih r hr (by omega)

/-- The table of a part of an input is the triangle over this part in the table of the input, cell
by cell and with the symbols of each cell in the same order. A cell is the top cell of the table of
the characters that it covers. -/
theorem cell?_fill_substring (index : Index) (input : List Char) :
    (∀ k m, k + m ≤ input.length → ∀ row col, row + col < m → ∃ cell,
      (fill index ((input.drop k).take m)).cell? row col = some cell ∧
      (fill index input).cell? row (k + col) = some cell) ∧
    ∀ row col, row + col < input.length → ∃ cell,
      (fill index input).cell? row col = some cell ∧
      (fill index ((input.drop col).take (row + 1))).top? = some cell := by
  have hcells : ∀ k m, k + m ≤ input.length → ∀ row col, row + col < m → ∃ cell,
      (fill index ((input.drop k).take m)).cell? row col = some cell ∧
      (fill index input).cell? row (k + col) = some cell := by
    intro k m hm row col h
    have hlen := length_part hm
    refine ⟨(fill index input).symbolsAt row (k + col), ?_, ?_⟩
    · rw [cell?_fill, if_pos (by omega), symbolsAt_fill_substring index hm h]
    · rw [cell?_fill, if_pos (by omega)]
  refine ⟨hcells, ?_⟩
  intro row col h
  have hlen : ((input.drop col).take (row + 1)).length = row + 1 := length_part (by omega)
  obtain ⟨cell, htop, hcell⟩ := hcells col (row + 1) (by omega) row 0 (by omega)
  refine ⟨cell, hcell, ?_⟩
  rw [top?_fill, hlen]
  exact htop

/-- Two producers of one pair, the later symbol of the alphabet first. -/
def twinRules : List Production :=
  [⟨'T', .pair 'A' 'B'⟩, ⟨'S', .pair 'A' 'B'⟩, ⟨'A', .terminal 'a'⟩, ⟨'B', .terminal 'b'⟩]

/-- The table of `ab` is found behind a character that nothing produces, with `T` in front of `S`,
and the cell over all characters is the top of the whole table. -/
theorem cell?_fill_twinRules :
    (3 + 2 ≤ ['a', 'b', '?', 'a', 'b'].length ∧ ∃ cell,
      (fill (Index.ofList twinRules) ['a', 'b']).cell? 1 0 = some cell ∧
      (fill (Index.ofList twinRules) ['a', 'b', '?', 'a', 'b']).cell? 1 3 = some cell ∧
      cell.toList = ['T', 'S']) ∧
    4 + 0 < ['a', 'b', '?', 'a', 'b'].length ∧ ∃ cell,
      (fill (Index.ofList twinRules) ['a', 'b', '?', 'a', 'b']).cell? 4 0 = some cell ∧
      (fill (Index.ofList twinRules) ['a', 'b', '?', 'a', 'b']).top? = some cell ∧
      cell.toList = [] := by
  have hpair : (fill (Index.ofList twinRules) ['a', 'b', '?', 'a', 'b']).cell? 1 3 =
      some (SymbolSet.ofList ['T', 'S']) := by decide +kernel
  have hnone : (fill (Index.ofList twinRules) ['a', 'b', '?', 'a', 'b']).cell? 4 0 =
      some ∅ := by decide +kernel
  have hfill := cell?_fill_substring (Index.ofList twinRules) ['a', 'b', '?', 'a', 'b']
  constructor
  · obtain ⟨cell, hpart, hcell⟩ := hfill.1 3 2 (by decide) 1 0 (by decide)
    have heq := Option.some.inj (hpair.symm.trans hcell)
    exact ⟨by decide, cell, hpart, hcell, by rw [← heq]; rfl⟩
  · obtain ⟨cell, hcell, htop⟩ := hfill.2 4 0 (by decide)
    have heq := Option.some.inj (hnone.symm.trans hcell)
    exact ⟨by decide, cell, hcell, htop, by rw [← heq]; rfl⟩

end Table

end Chomsky
