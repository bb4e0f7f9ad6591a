import Chomsky.Grammar.Index
/-!
# The triangular table of an input

Row `r` of the table of an input of `n` characters has `n - r` cells. The cell in row `r`
and column `c` holds the symbols that derive the `r + 1` characters from position `c` on.
Row 0 is read off the index; every further cell joins two cells of lower rows for each way
of cutting its span in two.

## Main definitions

* `Table.fill`: the table of an input.
* `Table.cell?`: a cell, `none` outside the triangle.
* `Table.derives`: whether a symbol derives the whole input.
-/
namespace Chomsky

/-- The rows of a table, shortest spans first. -/
structure Table where
  rows : Array (Array SymbolSet)
deriving DecidableEq, Inhabited

namespace Table

/-- The cell in a row and column, `none` outside the triangle. -/
def cell? (t : Table) (row col : Nat) : Option SymbolSet :=
  (t.rows[row]?).bind (·[col]?)

/-- The symbols in a cell; outside the triangle there are none. -/
def symbolsAt (t : Table) (row col : Nat) : SymbolSet := (t.cell? row col).getD ∅

/-- The cell of the whole input, `none` for the empty input. -/
def top? (t : Table) : Option SymbolSet := t.rows.back?.bind (·[0]?)

/-- Whether `x` is in the cell of the whole input. -/
def derives (t : Table) (x : Symbol) : Bool := t.top?.any (·.contains x)

/-- Adds the producers of one pair to a cell. -/
def addPair (index : Index) (left : Symbol) (cell : SymbolSet) (right : Symbol) : SymbolSet :=
  match index.producersOfPair? left right with
  | some producers => cell.union producers
  | none => cell

/-- Adds the producers of every pair with its first symbol in `lefts` and its second in
`rights`, first symbols varying slowest. -/
def addPairs (index : Index) (lefts rights cell : SymbolSet) : SymbolSet :=
  lefts.toList.foldl (fun cell left => rights.toList.foldl (addPair index left) cell) cell

/-- The cell in row `row` and column `col`, from the rows below it: a cut after `split + 1`
characters leaves `row - split` for the right part. -/
def fillCell (index : Index) (below : Table) (row col : Nat) : SymbolSet :=
  (List.range row).foldl (fun cell split =>
    addPairs index (below.symbolsAt split col)
      (below.symbolsAt (row - split - 1) (col + split + 1)) cell) ∅

def firstRow (index : Index) (input : List Char) : Array SymbolSet :=
  (input.map fun c => (index.producersOfTerminal? c).getD ∅).toArray

/-- Row `row`, which is not the first, from the rows below it. -/
def nextRow (index : Index) (below : Table) (n row : Nat) : Array SymbolSet :=
  ((List.range (n - row)).map (fillCell index below row)).toArray

/-- A row of the table of an input, from the rows below it. -/
def rowCells (index : Index) (input : List Char) (below : Table) : Nat → Array SymbolSet
  | 0 => firstRow index input
  | row + 1 => nextRow index below input.length (row + 1)

def push (t : Table) (cells : Array SymbolSet) : Table := ⟨t.rows.push cells⟩

/-- The lowest `count` rows of the table of an input. -/
def fillRows (index : Index) (input : List Char) : Nat → Table
  | 0 => ⟨#[]⟩
  | count + 1 =>
    let below := fillRows index input count
    below.push (rowCells index input below count)

def fill (index : Index) (input : List Char) : Table := fillRows index input input.length

@[simp] theorem rows_push (t : Table) (cells : Array SymbolSet) :
    (t.push cells).rows = t.rows.push cells := rfl

@[simp] theorem size_rows_fillRows (index : Index) (input : List Char) (count : Nat) :
    (fillRows index input count).rows.size = count := by
  induction count with
  | zero => rfl
  | succ count ih => simp [fillRows, ih]

@[simp] theorem size_rows_fill (index : Index) (input : List Char) :
    (fill index input).rows.size = input.length := size_rows_fillRows index input input.length

/-- The symbols of a cell as they are shown, a dash when there are none. -/
def cellText (cell : SymbolSet) : String := if cell.isEmpty then "-" else cell.text

/-- A row's number, right-aligned to three places, and its cells. -/
def rowText (row : Nat) (cells : Array SymbolSet) : String :=
  let number := toString (row + 1)
  String.ofList (List.replicate (3 - number.length) ' ') ++ number ++ ": " ++
    String.intercalate " | " (cells.toList.map cellText) ++ "\n"

/-- The table with the row of the whole input first, each row on a line. -/
def text (t : Table) : String :=
  String.join (((List.range t.rows.size).map fun row =>
    rowText row (t.rows.getD row #[])).reverse)

end Table

/-- Whether `start` derives `input`. A table of no characters has no cells, so the empty
string is looked up in the index. -/
def recognizes (index : Index) (start : Symbol) (input : List Char) : Bool :=
  if input.isEmpty then index.derivesEmpty start else (Table.fill index input).derives start

end Chomsky
