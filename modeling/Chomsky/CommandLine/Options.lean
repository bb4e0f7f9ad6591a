import Chomsky.Location
import Chomsky.Symbol
import Chomsky.Text.Lines
/-!
# Options

What a user can settle: the batch file, where the report goes, the start symbol, and how
many sample sentences to show instead of verdicts. Each setting can be given once, and each
has a default.
-/
namespace Chomsky

/-- What to read, what to report and where. -/
structure Options where
  file : Path
  output : Path
  start : Symbol
  amount : Option Nat
deriving DecidableEq, Inhabited

/-- Why a command line is not run. -/
inductive UsageFault
  /-- An argument that there is no place for. -/
  | unknownArgument
  /-- A value is missing, or is an empty path. -/
  | invalidValue
  /-- A value is no symbol or no amount. -/
  | valueValidation
  /-- A setting is given twice. -/
  | argumentConflict
  /-- A flag that takes no value is given one. -/
  | tooManyValues
  /-- The user asks for help. -/
  | displayHelp
  /-- The user asks for the version. -/
  | displayVersion
deriving DecidableEq, Inhabited

/-- The settings that take a value. -/
inductive Setting
  | file
  | output
  | start
  | amount
deriving DecidableEq, Inhabited

/-- The values given so far. -/
structure Draft where
  file : Option Path
  output : Option Path
  start : Option Symbol
  amount : Option Nat
deriving DecidableEq, Inhabited

/-- A path has at least one character. -/
def pathValue (v : List Char) : Except UsageFault Path :=
  if v.isEmpty then .error .invalidValue else .ok ⟨v⟩

/-- A symbol is exactly one character. -/
def symbolValue : List Char → Except UsageFault Symbol
  | [c] => .ok c
  | _ => .error .valueValidation

/-- An amount is a count of at most 32 bits; a zero may also have a minus sign. -/
def amountValue (v : List Char) : Except UsageFault Nat :=
  let amount := match v with
    | '-' :: digits => (Text.digits? digits).filter (· = 0)
    | _ => Text.count? 32 v
  match amount with
  | some n => .ok n
  | none => .error .valueValidation

namespace Draft

def empty : Draft := ⟨none, none, none, none⟩

def gives (d : Draft) : Setting → Bool
  | .file => d.file.isSome
  | .output => d.output.isSome
  | .start => d.start.isSome
  | .amount => d.amount.isSome

def set (d : Draft) (v : List Char) : Setting → Except UsageFault Draft
  | .file => (pathValue v).map fun path => { d with file := some path }
  | .output => (pathValue v).map fun path => { d with output := some path }
  | .start => (symbolValue v).map fun x => { d with start := some x }
  | .amount => (amountValue v).map fun n => { d with amount := some n }

/-- Settles a setting: it needs a value, must not be given before, and the value must suit. -/
def assign (d : Draft) (setting : Setting) : Option (List Char) → Except UsageFault Draft
  | none => .error .invalidValue
  | some v => if d.gives setting then .error .argumentConflict else d.set v setting

/-- The options, with defaults where nothing is given. -/
def options (d : Draft) : Options where
  file := d.file.getD (.ofString "input.txt")
  output := d.output.getD (.ofString "output.txt")
  start := d.start.getD 'S'
  amount := d.amount

end Draft

end Chomsky
