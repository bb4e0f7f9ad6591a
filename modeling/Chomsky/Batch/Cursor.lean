import Chomsky.Fault
import Chomsky.Text.Lines
/-!
# Cursors over the lines of a file

A cursor stands in front of a line of a file and only moves forward. It passes over blank
lines, takes the non-blank lines up to the next blank one, and takes lines that hold a
count.
-/
namespace Chomsky

/-- The number of the next line of a file, and the lines from it on. -/
structure Cursor where
  file : Path
  number : Nat
  rest : List Text.Line
deriving DecidableEq, Inhabited

namespace Cursor

def ofText (file : Path) (text : List Char) : Cursor := ⟨file, 1, Text.lines text⟩

/-- The location of the next line; behind the last line that is one line further. -/
def location (c : Cursor) : Location := ⟨c.file, c.number⟩

def atEnd (c : Cursor) : Bool := c.rest.isEmpty

def advance (c : Cursor) (n : Nat) : Cursor :=
  { c with number := c.number + n, rest := c.rest.drop n }

@[simp] theorem rest_advance (c : Cursor) (n : Nat) : (c.advance n).rest = c.rest.drop n := rfl

@[simp] theorem number_advance (c : Cursor) (n : Nat) :
    (c.advance n).number = c.number + n := rfl

/-- The cursor behind the blank lines in front of it. -/
def skipBlank (c : Cursor) : Cursor :=
  c.advance (c.rest.takeWhile Text.isBlankLine).length

/-- The non-blank lines in front of the cursor. -/
def block (c : Cursor) : List Text.Line := c.rest.takeWhile fun line => !Text.isBlankLine line

/-- Takes the lines up to the next blank one or the end, each with its location. -/
def takeBlock (c : Cursor) : List (Location × Text.Line) × Cursor :=
  ((c.block.zipIdx c.number).map fun (line, number) => (⟨c.file, number⟩, line),
    c.advance c.block.length)

/-- The count on a line that is not blank. -/
def countOn (location : Location) (line : Text.Line) : Except Fault Nat :=
  match Text.count? 64 (Text.trim line) with
  | some n => .ok n
  | none => .error ⟨location, .invalidCount (Text.trim line)⟩

/-- Takes a line with a count. A line that holds something else is taken as well; where
there is no line, or a blank one, the cursor stays. -/
def takeCount (c : Cursor) : Except Fault Nat × Cursor :=
  match c.rest with
  | [] => (.error ⟨c.location, .missingCount⟩, c)
  | line :: _ =>
    if Text.isBlankLine line then (.error ⟨c.location, .missingCount⟩, c)
    else (countOn c.location line, c.advance 1)

theorem length_rest_skipBlank_le (c : Cursor) : c.skipBlank.rest.length ≤ c.rest.length := by
  simp [skipBlank]

theorem length_rest_takeBlock_le (c : Cursor) :
    c.takeBlock.2.rest.length ≤ c.rest.length := by simp [takeBlock]

/-- A block that starts with a line takes at least this line. -/
theorem length_rest_takeBlock_lt {c : Cursor} {line : Text.Line} {rest : List Text.Line}
    (h : c.rest = line :: rest) (hb : Text.isBlankLine line = false) :
    c.takeBlock.2.rest.length < c.rest.length := by
  simp only [takeBlock, block, rest_advance, h, List.takeWhile_cons, hb, Bool.not_false, if_true,
    List.length_cons, List.length_drop]
  omega

theorem length_rest_takeCount_le (c : Cursor) :
    c.takeCount.2.rest.length ≤ c.rest.length := by
  unfold takeCount
  split
  · exact Nat.le_refl _
  · split <;> simp

/-- Skipping drops the blank lines in front of the cursor and no others. -/
theorem rest_skipBlank (c : Cursor) : c.skipBlank.rest = c.rest.dropWhile Text.isBlankLine := by
  simp only [skipBlank, rest_advance]
  generalize c.rest = ls
  induction ls with
  | nil => rfl
  | cons l ls ih => by_cases h : Text.isBlankLine l <;> simp [h, ih]

/-- A line that blank lines were skipped up to is not blank. -/
theorem isBlankLine_of_rest_skipBlank {c : Cursor} {line : Text.Line} {rest : List Text.Line}
    (h : c.skipBlank.rest = line :: rest) : Text.isBlankLine line = false := by
  have hd := List.head?_dropWhile_not Text.isBlankLine c.rest
  rw [← rest_skipBlank, h] at hd
  exact hd

end Cursor

end Chomsky
