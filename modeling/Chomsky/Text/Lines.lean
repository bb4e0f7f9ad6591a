/-!
# Lines of a text

A text is cut at its newlines. A carriage return directly before a newline belongs to the line
end and is dropped with it; any other carriage return is part of its line. A newline at the end
of the text ends the last line and starts no further one.

A line may be blank, and it may hold a count with blanks around it. Blank are the characters with
the Unicode property `White_Space`.
-/
namespace Chomsky.Text

/-- A line without its line end. -/
abbrev Line := List Char

/-- The line whose characters were read in reverse, at a newline: one carriage return goes. -/
def closeLine : List Char → Line
  | '\r' :: read => read.reverse
  | read => read.reverse

/-- The lines of `cs` when the characters `read`, latest first, already belong to the first
of them. -/
def linesFrom (read : List Char) : List Char → List Line
  | [] => if read.isEmpty then [] else [read.reverse]
  | c :: cs => if c = '\n' then closeLine read :: linesFrom [] cs else linesFrom (c :: read) cs

def lines (text : List Char) : List Line := linesFrom [] text

@[simp] theorem lines_nil : lines [] = [] := rfl

/-- Without a newline in front of it, a character only joins the line being read. -/
theorem linesFrom_cons_of_ne {c : Char} (h : c ≠ '\n') (read cs : List Char) :
    linesFrom read (c :: cs) = linesFrom (c :: read) cs := by simp [linesFrom, h]

@[simp] theorem linesFrom_newline (read cs : List Char) :
    linesFrom read ('\n' :: cs) = closeLine read :: lines cs := by simp [linesFrom, lines]

/-! ## Blanks -/

/-- Whether a character has the property `White_Space`. The zero width space, the byte
order mark and the ASCII separators U+001C to U+001F do not. -/
def isBlank (c : Char) : Bool :=
  let n := c.toNat
  (0x09 ≤ n && n ≤ 0x0D) || n = 0x20 || n = 0x85 || n = 0xA0 || n = 0x1680 ||
    (0x2000 ≤ n && n ≤ 0x200A) || n = 0x2028 || n = 0x2029 || n = 0x202F || n = 0x205F ||
    n = 0x3000

/-- The text without the blanks it ends with. -/
def trimEnd (cs : List Char) : List Char := (cs.reverse.dropWhile isBlank).reverse

/-- The text without the blanks it starts and ends with. -/
def trim (cs : List Char) : List Char := trimEnd (cs.dropWhile isBlank)

/-- A blank line holds blanks only; the empty line is blank. -/
def isBlankLine (line : List Char) : Bool := line.all isBlank

@[simp] theorem isBlankLine_nil : isBlankLine [] = true := rfl

@[simp] theorem isBlankLine_cons (c : Char) (cs : List Char) :
    isBlankLine (c :: cs) = (isBlank c && isBlankLine cs) := rfl

/-! ## Counts

A count is written as a decimal number: an optional plus sign, then ASCII digits, leading zeros
included. A number that does not fit the width asked for is no count. -/

def digit? (c : Char) : Option Nat :=
  if '0' ≤ c ∧ c ≤ '9' then some (c.toNat - '0'.toNat) else none

/-- The number whose digits follow `value`, `none` at the first character that is no digit. -/
def digitsFrom (value : Nat) : List Char → Option Nat
  | [] => some value
  | c :: cs => (digit? c).bind fun d => digitsFrom (10 * value + d) cs

/-- A number of one or more digits. -/
def digits? (cs : List Char) : Option Nat :=
  if cs.isEmpty then none else digitsFrom 0 cs

/-- The text after one plus sign at its start, if it has one. -/
def dropPlus : List Char → List Char
  | '+' :: cs => cs
  | cs => cs

/-- The count that a text writes, if it is less than `2 ^ bits`. -/
def count? (bits : Nat) (cs : List Char) : Option Nat :=
  (digits? (dropPlus cs)).filter (· < 1 <<< bits)

end Chomsky.Text
