import Chomsky.Proofs.Recognition.Rows
import Mathlib.Data.Nat.PSub
/-!
# Filling stays inside the triangle

The filling of a table looks up cells by computed places, and outside the triangle the lookup
answers with no symbols, as a subtraction answers with zero below zero. Neither ever happens. This
is said with a second filling that stops at the first cell that is missing, at the first number
that is taken from a smaller one, and at the first call for a cell whose rows below are not
complete; it goes through for every input and builds the same table.
-/
namespace Chomsky

namespace Table

/-- The table has exactly `count` rows, and row `r` of them has `n - r` cells. -/
def HasShape (t : Table) (n count : Nat) : Prop :=
  t.rows.toList.map Array.size = (List.range count).map (n - ·)

instance (t : Table) (n count : Nat) : Decidable (t.HasShape n count) :=
  inferInstanceAs (Decidable (_ = _))

/-! ## A filling that checks -/

/-- Adds the pairs of a cut after `split + 1` characters to a cell, if both parts have a cell. -/
def addCut? (index : Index) (below : Table) (row col : Nat) (cell : SymbolSet) (split : Nat) :
    Option SymbolSet := do
  let left ← below.cell? split col
  let behind ← Nat.psub row split
  let height ← Nat.psub behind 1
  let right ← below.cell? height (col + split + 1)
  return addPairs index left right cell

/-- The cell in row `row` and column `col` for an input of `n` characters, if the rows below it are
complete and every cut finds its cells. -/
def fillCell? (index : Index) (n : Nat) (below : Table) (row col : Nat) : Option SymbolSet :=
  if below.HasShape n row then (List.range row).foldlM (addCut? index below row col) ∅ else none

-- Without the row of single characters no cut of a pair finds its parts.
example : fillCell? ∅ 2 ⟨#[]⟩ 1 0 = none := by decide

def nextRow? (index : Index) (below : Table) (n row : Nat) : Option (Array SymbolSet) := do
  let width ← Nat.psub n row
  let cells ← (List.range width).mapM (fillCell? index n below row)
  return cells.toArray

def rowCells? (index : Index) (input : List Char) (below : Table) :
    Nat → Option (Array SymbolSet)
  | 0 => some (firstRow index input)
  | row + 1 => nextRow? index below input.length (row + 1)

/-- The lowest `count` rows of the table of an input, if every cell of them can be filled. -/
def fillRows? (index : Index) (input : List Char) : Nat → Option Table
  | 0 => some ⟨#[]⟩
  | count + 1 => do
    let below ← fillRows? index input count
    let cells ← rowCells? index input below count
    return below.push cells

/-- The table of an input, if every cell of it can be filled. -/
def fill? (index : Index) (input : List Char) : Option Table :=
  fillRows? index input input.length

/-! ## The shape of a table -/

section
variable {t : Table} {n count row col : Nat}

theorem HasShape.push {cells : Array SymbolSet} (h : t.HasShape n count)
    (hcells : cells.size = n - count) : (t.push cells).HasShape n (count + 1) := by
  simpa [HasShape, List.range_succ, hcells] using h

theorem HasShape.size_rows (h : t.HasShape n count) : t.rows.size = count := by
  simpa using congrArg List.length h

theorem HasShape.cell?_eq_some (h : t.HasShape n count) (hrow : row < count)
    (hcol : row + col < n) : t.cell? row col = some (t.symbolsAt row col) := by
  have hsize := h.size_rows
  have hwidth : t.rows[row].size = n - row := by
    have hget := congrArg (·[row]?) h
    simpa [hrow, hsize] using hget
  have hcell : t.cell? row col = some t.rows[row][col] := by
    simp [cell?, hsize, hrow, hwidth, show col < n - row by omega]
  rw [symbolsAt, hcell, Option.getD_some]

end

variable (index : Index) (input : List Char)

/-- The rows that are filled are always the lowest of the triangle. -/
theorem hasShape_fillRows (count : Nat) :
    (fillRows index input count).HasShape input.length count := by
  induction count with
  | zero => rfl
  | succ count ih => exact ih.push (size_rowCells index input _ count)

/-! ## No check fails -/

theorem foldlM_eq_some_foldl {α β : Type} {f : β → α → Option β} {g : β → α → β} {xs : List α}
    (h : ∀ x ∈ xs, ∀ b, f b x = some (g b x)) (b : β) : xs.foldlM f b = some (xs.foldl g b) := by
  induction xs generalizing b with
  | nil => rfl
  | cons x xs ih =>
    rw [List.foldlM_cons, h x List.mem_cons_self, List.foldl_cons]
    exact ih (fun y hy => h y (List.mem_cons_of_mem x hy)) (g b x)

theorem mapM_eq_some_map {α β : Type} {f : α → Option β} {g : α → β} {xs : List α}
    (h : ∀ x ∈ xs, f x = some (g x)) : xs.mapM f = some (xs.map g) := by
  induction xs with
  | nil => rfl
  | cons x xs ih =>
    simp [h x List.mem_cons_self, ih fun y hy => h y (List.mem_cons_of_mem x hy)]

variable {index} {below : Table} {n row col : Nat}

theorem addCut?_eq_some (h : below.HasShape n row) (hcol : row + col < n) {split : Nat}
    (hsplit : split < row) (cell : SymbolSet) : addCut? index below row col cell split =
      some (addPairs index (below.symbolsAt split col)
        (below.symbolsAt (row - split - 1) (col + split + 1)) cell) := by
  have hleft := h.cell?_eq_some hsplit (show split + col < n by omega)
  have hright := h.cell?_eq_some (show row - split - 1 < row by omega)
    (show row - split - 1 + (col + split + 1) < n by omega)
  have hbehind : Nat.psub row split = some (row - split) := Nat.psub_eq_sub (by omega)
  have hheight : Nat.psub (row - split) 1 = some (row - split - 1) := Nat.psub_eq_sub (by omega)
  simp only [addCut?, Option.bind_eq_bind, hleft, hbehind, hheight, hright, Option.bind_some,
    Option.pure_def]

theorem fillCell?_eq_some (h : below.HasShape n row) (hcol : row + col < n) :
    fillCell? index n below row col = some (fillCell index below row col) := by
  rw [fillCell?, if_pos h]
  apply foldlM_eq_some_foldl
  intro split hsplit cell
  exact addCut?_eq_some h hcol (List.mem_range.1 hsplit) cell

theorem nextRow?_eq_some (h : below.HasShape n row) (hrow : row ≤ n) :
    nextRow? index below n row = some (nextRow index below n row) := by
  have hcells : (List.range (n - row)).mapM (fillCell? index n below row) =
      some ((List.range (n - row)).map (fillCell index below row)) := by
    apply mapM_eq_some_map
    intro col hcol
    have hlt := List.mem_range.1 hcol
    exact fillCell?_eq_some h (by omega)
  simp [nextRow?, nextRow, Nat.psub_eq_sub hrow, hcells]

variable (index)

/-- The checked filling goes through, since the rows that it has filled have the right shape. -/
theorem fillRows?_eq_some {count : Nat} (h : count ≤ input.length) :
    fillRows? index input count = some (fillRows index input count) := by
  induction count with
  | zero => rfl
  | succ count ih =>
    have hbelow := ih (by omega)
    have hcells : rowCells? index input (fillRows index input count) count =
        some (rowCells index input (fillRows index input count) count) := by
      cases count with
      | zero => rfl
      | succ row => exact nextRow?_eq_some (hasShape_fillRows index input (row + 1)) (by omega)
    simp [fillRows?, fillRows, hbelow, hcells]

/-- The filling of a table never looks for a cell outside the rows that it has filled and never
takes a number from a smaller one. When a cell is filled, exactly the rows below it are there, each
with its full number of cells, and each cut finds the cells of both its parts. The finished table
is the whole triangle, and only the empty input has no cell of the whole input. -/
theorem fill?_eq_some_fill (index : Index) (input : List Char) :
    fill? index input = some (fill index input) ∧
    (∀ row col, 0 < row → row + col < input.length →
      (fillRows index input row).HasShape input.length row ∧
      ∀ split < row, split + 1 ≤ row ∧
        ((fillRows index input row).cell? split col).isSome ∧
        ((fillRows index input row).cell? (row - split - 1) (col + split + 1)).isSome) ∧
    (fill index input).HasShape input.length input.length ∧
    (∀ row col, ((fill index input).cell? row col).isSome ↔ row + col < input.length) ∧
    ((fill index input).top? = none ↔ input = []) := by
  refine ⟨fillRows?_eq_some index input (Nat.le_refl _), ?_,
    hasShape_fillRows index input _, ?_, ?_⟩
  · intro row col _ hcol
    have hshape := hasShape_fillRows index input row
    refine ⟨hshape, ?_⟩
    intro split hsplit
    rw [hshape.cell?_eq_some hsplit (by omega), hshape.cell?_eq_some (by omega) (by omega)]
    exact ⟨hsplit, rfl, rfl⟩
  · intro row col
    rw [cell?_fill]
    split <;> simp [*]
  · rw [top?_fill, cell?_fill]
    cases input with
    | nil => simp
    | cons c input => simp

/-- In the table of four characters the cell over the last three has rows of four and three cells
below it, and the cut after the second character finds the cells of both its parts. -/
theorem fill?_eq_some_fill_fourLetters :
    fill? ∅ ['a', 'b', 'a', 'b'] = some (fill ∅ ['a', 'b', 'a', 'b']) ∧
      2 + 1 < ['a', 'b', 'a', 'b'].length ∧ (fillRows ∅ ['a', 'b', 'a', 'b'] 2).HasShape 4 2 ∧
      ((fillRows ∅ ['a', 'b', 'a', 'b'] 2).cell? 1 1).isSome ∧
      ((fillRows ∅ ['a', 'b', 'a', 'b'] 2).cell? 0 3).isSome := by
  obtain ⟨hfill, hrows, -⟩ := fill?_eq_some_fill ∅ ['a', 'b', 'a', 'b']
  obtain ⟨hshape, hcuts⟩ := hrows 2 1 (by decide) (by decide)
  obtain ⟨-, hleft, hright⟩ := hcuts 1 (by decide)
  exact ⟨hfill, by decide, hshape, hleft, hright⟩

end Table

end Chomsky
