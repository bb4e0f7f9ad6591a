import Chomsky.Batch.Block
/-!
# Batches

A batch file starts with the number of its grammars, and each grammar is a block. A batch
is accepted when no block has a fault and their number is the one announced; otherwise all
faults are reported, in the order of the file, and the wrong number of blocks last.
-/
namespace Chomsky

/-- The grammar blocks of a file in order. -/
abbrev Batch := List Block

/-- A block that was read, or its faults. -/
abbrev BlockOutcome := Except (List Fault) Block

/-- The faults of a block; a block that was read has none. -/
def BlockOutcome.faults : BlockOutcome → List Fault
  | .ok _ => []
  | .error faults => faults

/-- What the blocks up to the end of the file read as. -/
def BlockOutcome.readAll (c : Cursor) : List BlockOutcome :=
  match _hc : c.skipBlank.rest with
  | [] => []
  | _line :: _ =>
    let next := Block.read c.skipBlank
    next.1 :: readAll next.2
termination_by c.rest.length
decreasing_by
  exact Nat.lt_of_lt_of_le
    (Block.length_rest_read_lt _hc (Cursor.isBlankLine_of_rest_skipBlank _hc))
    (Cursor.length_rest_skipBlank_le c)

namespace Batch

/-- The announced number of blocks, where it stands, and what the blocks read as. -/
structure Reading where
  location : Location
  expected : Nat
  outcomes : List BlockOutcome

namespace Reading

/-- All faults, those of the blocks first. -/
def faults (r : Reading) : List Fault :=
  r.outcomes.flatMap BlockOutcome.faults ++
    Block.countFaults r.location r.expected r.outcomes.length

def blocks (r : Reading) : Batch := r.outcomes.filterMap Except.toOption

def result (r : Reading) : Except (List Fault) Batch :=
  if r.faults.isEmpty then .ok r.blocks else .error r.faults

end Reading

/-- Reads a text up to its end. Without a count at its start nothing more is read. -/
def read (file : Path) (text : List Char) : Except Fault Reading :=
  let c := (Cursor.ofText file text).skipBlank
  match c.takeCount with
  | (.ok expected, behind) => .ok ⟨c.location, expected, BlockOutcome.readAll behind⟩
  | (.error fault, _) => .error fault

/-- The batch that a text writes, or all its faults. -/
def ofText (file : Path) (text : List Char) : Except (List Fault) Batch :=
  match read file text with
  | .ok reading => reading.result
  | .error fault => .error [fault]

/-- What is told about reading a text for a start symbol. Blocks that were read are told of
even if the batch is refused for another one. -/
def events (file : Path) (text : List Char) (start : Symbol) : List Event :=
  match read file text with
  | .ok reading => reading.blocks.flatMap (Block.events start)
  | .error _ => []

end Batch

end Chomsky
