import Chomsky.Proofs.Derivation.Derivable
import Chomsky.Proofs.Recognition.Rows
/-!
# Cells and derivations

The cell in row `row` and column `col` holds the symbols that derive the `row + 1` characters
from position `col` on without empty leaves. The induction is on the row: a longer span is
derived by cutting it in two, and the filling of a cell tries exactly the possible cuts.
-/
namespace Chomsky

namespace Table

theorem addPair_eq_union (index : Index) (left right : Symbol) (cell : SymbolSet) :
    addPair index left cell right = cell.union (index.producers (.pair left right)) := by
  change _ = cell.union ((index.producersOfPair? left right).getD ∅)
  rw [addPair]
  cases index.producersOfPair? left right with
  | none => rfl
  | some producers => rfl

theorem mem_addPairs {index : Index} {lefts rights cell : SymbolSet} {x : Symbol} :
    x ∈ addPairs index lefts rights cell ↔ x ∈ cell ∨
      ∃ l ∈ lefts, ∃ r ∈ rights, x ∈ index.producers (.pair l r) := by
  refine SymbolSet.mem_foldl (fun l y => ∃ r ∈ rights, y ∈ index.producers (.pair l r)) ?_
  intro cell l y
  refine SymbolSet.mem_foldl (fun r y => y ∈ index.producers (.pair l r)) ?_
  intro cell r y
  rw [addPair_eq_union, SymbolSet.mem_union]

/-- A cell collects the producers of all pairs that some cut of its span offers. -/
theorem mem_fillCell {index : Index} {below : Table} {row col : Nat} {x : Symbol} :
    x ∈ fillCell index below row col ↔ ∃ split < row,
      ∃ l ∈ below.symbolsAt split col, ∃ r ∈ below.symbolsAt (row - split - 1) (col + split + 1),
        x ∈ index.producers (.pair l r) := by
  unfold fillCell
  rw [SymbolSet.mem_foldl (fun split y => ∃ l ∈ below.symbolsAt split col,
    ∃ r ∈ below.symbolsAt (row - split - 1) (col + split + 1), y ∈ index.producers (.pair l r))
    fun _ _ _ => mem_addPairs]
  simp

private theorem take_take_span {input : List Char} {col row k : Nat} (h : k < row) :
    ((input.drop col).take row).take k = (input.drop col).take k := by
  rw [List.take_take, Nat.min_eq_left (Nat.le_of_lt h)]

private theorem drop_take_span (input : List Char) (col row k : Nat) :
    ((input.drop col).take row).drop k = (input.drop (col + k)).take (row - k) := by
  rw [List.drop_take, List.drop_drop]

/-- The symbols in a cell are those that derive its span without empty leaves. -/
theorem mem_symbolsAt_fill {ps : List Production} {input : List Char} {row col : Nat}
    (h : row + col < input.length) (x : Symbol) :
    x ∈ (fill (Index.ofList ps) input).symbolsAt row col ↔
      Derivable (proper {p | p ∈ ps}) x ((input.drop col).take (row + 1)) := by
  induction row using Nat.strongRecOn generalizing col x with
  | ind row ih =>
    cases row with
    | zero =>
      have hcol : col < input.length := by omega
      have hspan : (input.drop col).take 1 = [input[col]] := by
        rw [List.drop_eq_getElem_cons hcol, List.take_succ_cons, List.take_zero]
      rw [symbolsAt_fill_zero _ _ hcol, Index.mem_producers_ofList, hspan,
        derivable_proper_singleton]
      exact Iff.rfl
    | succ row =>
      have hlen : ((input.drop col).take (row + 1 + 1)).length = row + 2 := by
        rw [List.length_take, List.length_drop]
        omega
      rw [symbolsAt_fill_succ _ _ h, mem_fillCell, derivable_proper_iff_cut (by omega), hlen]
      -- The cut after `k + 1` characters is the split numbered `k`.
      refine exists_congr fun k => ?_
      constructor
      · rintro ⟨hk, l, hl, r, hr, hx⟩
        refine ⟨by omega, l, r, Index.mem_producers_ofList.1 hx, ?_, ?_⟩
        · rw [take_take_span (by omega)]
          exact (ih k hk (by omega) l).1 hl
        · rw [drop_take_span, ← Nat.add_assoc,
            show row + 2 - (k + 1) = row + 1 - k - 1 + 1 by omega]
          exact (ih _ (by omega) (by omega) r).1 hr
      · rintro ⟨hk, l, r, hx, hl, hr⟩
        rw [take_take_span (by omega)] at hl
        rw [drop_take_span, ← Nat.add_assoc,
          show row + 2 - (k + 1) = row + 1 - k - 1 + 1 by omega] at hr
        exact ⟨by omega, l, (ih k (by omega) (by omega) l).2 hl, r,
          (ih _ (by omega) (by omega) r).2 hr, Index.mem_producers_ofList.2 hx⟩

/-- Inside the triangle a cell holds exactly the symbols that derive its span, a derivation
being made of terminal and pair productions; outside the triangle there is no cell. -/
theorem cell?_fill_iff_derivable (ps : List Production) (input : List Char) (row col : Nat) :
    (row + col < input.length →
      ∃ cell, (fill (Index.ofList ps) input).cell? row col = some cell ∧
        ∀ x, x ∈ cell ↔
          Derivable (proper {p | p ∈ ps}) x ((input.drop col).take (row + 1))) ∧
    (¬ row + col < input.length → (fill (Index.ofList ps) input).cell? row col = none) := by
  rw [cell?_fill]
  constructor
  · intro h
    rw [if_pos h]
    exact ⟨_, rfl, mem_symbolsAt_fill h⟩
  · intro h
    rw [if_neg h]

/-- An `a` and any number of `b`; the empty production does not shorten a span. -/
def trailingRules : List Production :=
  [⟨'S', .pair 'S' 'B'⟩, ⟨'S', .terminal 'a'⟩, ⟨'B', .terminal 'b'⟩, ⟨'B', .empty⟩]

/-- The top cell of `abb` decides what derives `abb`; nothing stands to the right of it. -/
theorem cell?_fill_trailingRules :
    2 + 0 < ['a', 'b', 'b'].length ∧ ¬ 2 + 1 < ['a', 'b', 'b'].length ∧
      Derivable (proper {p | p ∈ trailingRules}) 'S' ['a', 'b', 'b'] ∧
      ¬ Derivable (proper {p | p ∈ trailingRules}) 'B' ['a', 'b', 'b'] ∧
      (fill (Index.ofList trailingRules) ['a', 'b', 'b']).cell? 2 1 = none := by
  have hin := (cell?_fill_iff_derivable trailingRules ['a', 'b', 'b'] 2 0).1 (by decide)
  have hout := (cell?_fill_iff_derivable trailingRules ['a', 'b', 'b'] 2 1).2 (by decide)
  obtain ⟨cell, hcell, hmem⟩ := hin
  have htop : (fill (Index.ofList trailingRules) ['a', 'b', 'b']).cell? 2 0 =
      some (SymbolSet.ofList ['S']) := by decide +kernel
  obtain rfl : SymbolSet.ofList ['S'] = cell := Option.some.inj (htop.symm.trans hcell)
  exact ⟨by decide, by decide, (hmem 'S').1 (by decide), fun h => absurd ((hmem 'B').2 h)
    (by decide), hout⟩

end Table

end Chomsky
