import Chomsky.Fault
import Chomsky.Recognition.Table
import Chomsky.Sentence.Generator
/-!
# Events

What is told about a run besides its report. An event carries the values it is about;
its words are only made for those who want to read it.
-/
namespace Chomsky

/-- How much an event matters, the most important first. -/
inductive Severity
  | error
  | warn
  | info
  | debug
  | trace
deriving DecidableEq, Inhabited

namespace Severity

/-- The place of a severity, counted from the most important. -/
def rank : Severity → Nat
  | error => 0
  | warn => 1
  | info => 2
  | debug => 3
  | trace => 4

def text : Severity → String
  | error => "ERROR"
  | warn => "WARN"
  | info => "INFO"
  | debug => "DEBUG"
  | trace => "TRACE"

end Severity

inductive Event
  /-- A grammar was read although it uses a symbol without productions. -/
  | undefinedSymbol (fault : Fault)
  /-- A grammar and its test strings were read. -/
  | blockRead (location : Location) (productions strings : Nat)
  /-- A whole batch was read. -/
  | batchRead (blocks : Nat) (file : Path)
  /-- The productions of a grammar were indexed. -/
  | indexed (location : Location) (productions terminals pairs : Nat)
  /-- The table of an input was filled. -/
  | tableFilled (input : List Char) (table : Table)
  /-- A test string was decided. -/
  | judged (input : List Char) (accepted : Bool)
  /-- A grammar has no sentences to show. -/
  | unproductive (failure : Unproductive)
  /-- The report is complete. -/
  | reportWritten (file : Path)
deriving DecidableEq, Inhabited

namespace Event

def severity : Event → Severity
  | undefinedSymbol _ => .warn
  | blockRead .. => .debug
  | batchRead .. => .info
  | indexed .. => .debug
  | tableFilled .. => .trace
  | judged .. => .debug
  | unproductive _ => .error
  | reportWritten _ => .info

def message : Event → String
  | undefinedSymbol fault => fault.message
  | blockRead location productions strings =>
    "Grammar at " ++ location.text ++ " has " ++ toString productions ++ " productions and " ++
      toString strings ++ " test strings"
  | batchRead blocks file => "Read " ++ toString blocks ++ " grammars from " ++ file.text
  | indexed location productions terminals pairs =>
    "Indexed " ++ toString productions ++ " productions of the grammar at " ++ location.text ++
      " into " ++ toString terminals ++ " terminal entries and " ++ toString pairs ++
      " pair entries"
  | tableFilled input table =>
    "CYK table for `" ++ String.ofList input ++ "`:\n" ++ table.text
  | judged input accepted =>
    "`" ++ String.ofList (shown input) ++ "` accepted: " ++ (if accepted then "true" else "false")
  | unproductive failure => failure.message
  | reportWritten file => "Wrote report to " ++ file.text

/-- Whether an event matters at least as much as `threshold`. -/
def matters (threshold : Severity) (e : Event) : Bool := e.severity.rank ≤ threshold.rank

end Event

/-- Whether `start` derives `input`, and what is told about finding out: the table, which is
filled for any input but the empty one. -/
def decision (index : Index) (start : Symbol) (input : List Char) : Bool × List Event :=
  if input.isEmpty then (index.derivesEmpty start, [])
  else
    let table := Table.fill index input
    (table.derives start, [.tableFilled input table])

@[simp] theorem fst_decision (index : Index) (start : Symbol) (input : List Char) :
    (decision index start input).1 = recognizes index start input := by
  unfold decision recognizes
  split <;> rfl

end Chomsky
