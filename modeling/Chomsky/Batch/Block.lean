import Chomsky.Batch.Cursor
import Chomsky.Event
import Chomsky.Line.Rule
/-!
# Grammar blocks

A block of a batch is a run of production lines and behind it, over blank lines, a run that
starts with a count and goes on with as many test strings. All faults of a block are
collected, and reading goes on behind it whatever they are.
-/
namespace Chomsky

/-- A grammar as it was written, and the strings to test against it. -/
structure Block where
  rules : List Rule
  source : List Text.Line
  strings : List (List Char)
  location : Location
deriving DecidableEq, Inhabited

namespace Block

def grammar (b : Block) : Grammar := Grammar.ofRules b.rules

/-- The string that a line writes: a lone `ε`, blanks behind it aside, stands for the empty
string, and any other line for itself. -/
def testString (line : Text.Line) : List Char :=
  if Text.trimEnd line = [epsilon] then [] else line

/-- The rules of those production lines that are free of faults. -/
def rulesOf (lines : List (Location × Text.Line)) : List Rule :=
  lines.filterMap fun (location, line) => (Rule.ofLine location line).toOption

/-- The faults of those production lines that have one. -/
def faultsOf (lines : List (Location × Text.Line)) : List Fault :=
  lines.filterMap fun (location, line) =>
    match Rule.ofLine location line with
    | .ok _ => none
    | .error fault => some fault

/-- A fault if the number of strings is not the expected one. -/
def countFaults (location : Location) (expected found : Nat) : List Fault :=
  if found = expected then [] else [⟨location, .countMismatch expected found⟩]

/-- Reads a count and the test strings behind it: the strings, the faults, and the cursor
behind them. Without a count the strings are passed over. -/
def readStrings (c : Cursor) : List (List Char) × List Fault × Cursor :=
  match c.takeCount with
  | (.ok expected, c') =>
    let (lines, c'') := c'.takeBlock
    (lines.map fun (_, line) => testString line,
      countFaults c.location expected lines.length, c'')
  | (.error fault, c') => ([], [fault], c'.takeBlock.2)

/-- Reads the block in front of the cursor: the block or all its faults, production lines
first, and the cursor behind it. -/
def read (c : Cursor) : Except (List Fault) Block × Cursor :=
  let (lines, c') := c.takeBlock
  let (strings, countFaults, c'') := readStrings c'.skipBlank
  let faults := faultsOf lines ++ countFaults
  (if faults.isEmpty then .ok ⟨rulesOf lines, lines.map Prod.snd, strings, c.location⟩
    else .error faults, c'')

def events (start : Symbol) (b : Block) : List Event :=
  (Rule.undefined b.rules start b.location).map .undefinedSymbol ++
    [.blockRead b.location b.grammar.productions.length b.strings.length]

theorem length_rest_readStrings_le (c : Cursor) :
    (readStrings c).2.2.rest.length ≤ c.rest.length := by
  have h := Cursor.length_rest_takeCount_le c
  unfold readStrings
  split <;> rename_i c' hc <;> rw [hc] at h <;>
    exact Nat.le_trans (Cursor.length_rest_takeBlock_le c') h

/-- Reading a block that starts with a line moves the cursor on. -/
theorem length_rest_read_lt {c : Cursor} {line : Text.Line} {rest : List Text.Line}
    (h : c.rest = line :: rest) (hb : Text.isBlankLine line = false) :
    (read c).2.rest.length < c.rest.length := by
  have hs := length_rest_readStrings_le c.takeBlock.2.skipBlank
  have hk := Cursor.length_rest_skipBlank_le c.takeBlock.2
  have ht := Cursor.length_rest_takeBlock_lt h hb
  exact Nat.lt_of_le_of_lt (Nat.le_trans hs hk) ht

end Block

end Chomsky
