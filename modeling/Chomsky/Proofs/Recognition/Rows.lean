import Chomsky.Proofs.Grammar.Producers
import Chomsky.Recognition.Table
import Mathlib.Data.List.Basic
/-!
# Rows of a table

A row is filled once and never changes, so a cell may be read from the finished table or from
the rows that were there when it was filled. This turns the filling of a table into two
equations between its cells, one for single characters and one for longer spans.
-/
namespace Chomsky

namespace Table
variable (index : Index) (input : List Char)

/-- A row is what its own filling made it, however many rows came after it. -/
theorem getElem?_rows_fillRows {count row : Nat} (h : row < count) :
    (fillRows index input count).rows[row]? =
      some (rowCells index input (fillRows index input row) row) := by
  induction count with
  | zero => exact absurd h (Nat.not_lt_zero row)
  | succ count ih =>
    have hsize := size_rows_fillRows index input count
    rw [fillRows, rows_push]
    by_cases heq : row = count
    · subst heq
      rw [Array.getElem?_push, if_pos hsize.symm]
    · rw [Array.getElem?_push_lt (by omega), ← Array.getElem?_eq_getElem]
      exact ih (by omega)

/-- Row `row` has one cell for each place where a span of its length can start. -/
theorem size_rowCells (below : Table) (row : Nat) :
    (rowCells index input below row).size = input.length - row := by
  cases row with
  | zero => simp [rowCells, firstRow]
  | succ row => simp [rowCells, nextRow]

theorem cell?_fillRows {count row : Nat} (h : row < count) (col : Nat) :
    (fillRows index input count).cell? row col =
      (rowCells index input (fillRows index input row) row)[col]? := by
  rw [cell?, getElem?_rows_fillRows index input h, Option.bind_some]

/-- The cells of a finished table are those of the spans of its input, and no others. -/
theorem cell?_fill (row col : Nat) :
    (fill index input).cell? row col =
      if row + col < input.length then some ((fill index input).symbolsAt row col) else none := by
  have hfill : fill index input = fillRows index input input.length := rfl
  by_cases hrow : row < input.length
  · have hsize := size_rowCells index input (fillRows index input row) row
    rw [symbolsAt, hfill, cell?_fillRows index input hrow]
    split
    · rw [Array.getElem?_eq_getElem (by omega), Option.getD_some]
    · rw [Array.getElem?_eq_none (by omega)]
  · rw [if_neg (by omega), cell?, Array.getElem?_eq_none (by simp; omega), Option.bind_none]

theorem top?_fill : (fill index input).top? = (fill index input).cell? (input.length - 1) 0 := by
  rw [top?, Array.back?, size_rows_fill, cell?]

theorem derives_fill_iff {x : Symbol} (h : input ≠ []) : (fill index input).derives x = true ↔
    x ∈ (fill index input).symbolsAt (input.length - 1) 0 := by
  have hlen := List.length_pos_iff.2 h
  have hin : input.length - 1 + 0 < input.length := by omega
  rw [derives, top?_fill, cell?_fill, if_pos hin]
  exact decide_eq_true_iff

theorem symbolsAt_fillRows {count row : Nat} (h : row < count) (hcount : count ≤ input.length)
    (col : Nat) :
    (fillRows index input count).symbolsAt row col = (fill index input).symbolsAt row col := by
  rw [symbolsAt, symbolsAt, fill, cell?_fillRows index input h,
    cell?_fillRows index input (Nat.lt_of_lt_of_le h hcount)]

/-- A cell depends only on the cells below it whose spans lie in its own; where another table has
these cells `k` columns further on, it fills the same cell there. -/
theorem fillCell_congr {below below' : Table} {row col k : Nat}
    (h : ∀ r < row, ∀ c, r + c ≤ row + col →
      below.symbolsAt r c = below'.symbolsAt r (k + c)) :
    fillCell index below row col = fillCell index below' row (k + col) := by
  unfold fillCell
  refine List.foldl_ext _ _ _ ?_
  intro cell split hsplit
  rw [List.mem_range] at hsplit
  rw [h split hsplit col (by omega), h (row - split - 1) (by omega) _ (by omega), Nat.add_assoc k,
    Nat.add_assoc k]

theorem symbolsAt_fill_zero {col : Nat} (h : col < input.length) :
    (fill index input).symbolsAt 0 col = index.producers (.terminal input[col]) := by
  rw [symbolsAt, fill, cell?_fillRows index input (by omega), rowCells, firstRow]
  simp [h, Index.producers]

/-- A cell of a longer span is filled from cells of the same table. -/
theorem symbolsAt_fill_succ {row col : Nat} (h : row + 1 + col < input.length) :
    (fill index input).symbolsAt (row + 1) col =
      fillCell index (fill index input) (row + 1) col := by
  have hcol : col < input.length - (row + 1) := by omega
  rw [symbolsAt, fill, cell?_fillRows index input (by omega), rowCells, nextRow]
  rw [List.getElem?_toArray, List.getElem?_map, List.getElem?_range hcol, Option.map_some,
    Option.getD_some]
  have hbelow : ∀ r < row + 1, ∀ c, r + c ≤ row + 1 + col →
      (fillRows index input (row + 1)).symbolsAt r c = (fill index input).symbolsAt r (0 + c) := by
    intro r hr c _
    rw [Nat.zero_add, symbolsAt_fillRows index input hr (by omega)]
  have hcell := fillCell_congr index hbelow
  rw [Nat.zero_add] at hcell
  exact hcell

end Table

end Chomsky
