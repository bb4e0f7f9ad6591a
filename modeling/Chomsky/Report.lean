import Chomsky.Batch.Reading
/-!
# Reports

A report is about the verdicts on the test strings of a batch or about sample sentences of its
grammars. For every block it repeats the production lines as they were written, and an empty line
follows each part.

A report is written line by line into a sink, which may have room for a limited number of bytes.
A report that fails to write a line ends there; what it wrote, what it told and where it left the
source of its choices stay on record. A report also fails when a grammar has no sentences to
show, but then it is complete nevertheless.
-/
namespace Chomsky

/-! ## Writing -/

/-- The bytes written so far, and the number of bytes that there is room for, if limited. -/
structure Sink where
  written : ByteArray
  limit : Option Nat

namespace Sink

def ofLimit (limit : Option Nat) : Sink := ⟨ByteArray.empty, limit⟩

/-- The number of further bytes that fit, at most `wanted`. -/
def room (s : Sink) (wanted : Nat) : Nat :=
  match s.limit with
  | none => wanted
  | some limit => min wanted (limit - s.written.size)

/-- Writes the bytes that fit; it is a failure if that is not all of them. -/
def write (s : Sink) (bytes : ByteArray) : Except FileFailure Unit × Sink :=
  let fitting := s.room bytes.size
  (if fitting = bytes.size then .ok () else .error .diskFull,
    { s with written := s.written ++ bytes.extract 0 fitting })

end Sink

/-- What a report has written and told, and the source of its choices. -/
structure Progress (σ : Type) where
  sink : Sink
  events : Array Event
  source : σ

def Progress.start {σ : Type} (limit : Option Nat) (source : σ) : Progress σ :=
  ⟨Sink.ofLimit limit, #[], source⟩

/-- Steps of writing a report; a failure to write ends them and keeps their progress. -/
abbrev Writing (σ : Type) := ExceptT FileFailure (StateM (Progress σ))

namespace Writing
variable {σ : Type}

def line (text : List Char) : Writing σ Unit := fun p =>
  let (result, sink) := p.sink.write (String.ofList (text ++ ['\n'])).toUTF8
  (result, { p with sink := sink })

def tell (event : Event) : Writing σ Unit :=
  modify fun p => { p with events := p.events.push event }

/-- Takes a value and a new state from the source of choices, if it has them to give. -/
def draw {ε α : Type} (take : σ → Except ε (α × σ)) : Writing σ (Except ε α) := fun p =>
  match take p.source with
  | .ok (a, source) => (.ok (.ok a), { p with source := source })
  | .error e => (.ok (.error e), p)

end Writing

/-! ## Verdicts -/

def verdictLine (s : List Char) (accepted : Bool) : List Char :=
  shown s ++ (if accepted then " is in the language defined by the above grammar"
    else " is NOT in the language defined by the above grammar").toList

namespace Writing
variable {σ : Type}

/-- Writes the production lines of a block and an empty line. -/
def grammar (b : Block) : Writing σ Unit := do
  b.source.forM line
  line []

def indexedEvent (b : Block) (index : Index) : Event :=
  .indexed b.location index.productions.length index.terminalCount index.pairCount

/-- Decides a string and writes the verdict. -/
def verdict (index : Index) (start : Symbol) (s : List Char) : Writing σ Unit := do
  let (accepted, events) := decision index start s
  events.forM tell
  tell (.judged s accepted)
  line (verdictLine s accepted)

/-- Writes a block with the verdicts on its test strings. -/
def verdictsOf (start : Symbol) (b : Block) : Writing σ Unit := do
  grammar b
  let index := b.grammar.index
  tell (indexedEvent b index)
  b.strings.forM (verdict index start)
  line []

/-- Writes the verdicts for a batch. -/
def verdicts (start : Symbol) (batch : Batch) : Writing σ Unit := batch.forM (verdictsOf start)

end Writing

/-! ## Sample sentences -/

namespace Writing
variable {σ : Type}

/-- Writes sentences one by one until there are enough or there turn out to be none. -/
def sentences (choose : Chooser σ) (gen : Generator) (start : Symbol) (location : Location) :
    Nat → Writing σ (Option Unproductive)
  | 0 => pure none
  | amount + 1 => do
    match ← draw (gen.sentence choose start location) with
    | .ok sentence =>
      line (shown sentence)
      sentences choose gen start location amount
    | .error failure =>
      tell (.unproductive failure)
      pure (some failure)

/-- Writes a block with sentences of its grammar. -/
def samplesOf (choose : Chooser σ) (start : Symbol) (amount : Nat) (b : Block) :
    Writing σ (Option Unproductive) := do
  grammar b
  let failure ← sentences choose (Generator.ofGrammar b.grammar) start b.location amount
  line []
  pure failure

/-- Writes the samples for a batch and returns the first grammar without sentences. -/
def samples (choose : Chooser σ) (start : Symbol) (amount : Nat) :
    Batch → Writing σ (Option Unproductive)
  | [] => pure none
  | b :: rest => do
    let failure ← samplesOf choose start amount b
    let later ← samples choose start amount rest
    pure (failure.or later)

end Writing

/-! ## Reports -/

inductive Topic
  | verdicts
  | samples (amount : Nat)
deriving DecidableEq, Inhabited

inductive ReportFault
  /-- A line could not be written. -/
  | unwritten (failure : FileFailure)
  /-- A grammar has no sentences to show. -/
  | unproductive (failure : Unproductive)
deriving DecidableEq, Inhabited

def ReportFault.message : ReportFault → String
  | unwritten failure => "Could not write report: " ++ failure.text
  | unproductive failure => failure.message

def Writing.report {σ : Type} (choose : Chooser σ) (topic : Topic) (start : Symbol)
    (batch : Batch) : Writing σ (Option Unproductive) :=
  match topic with
  | .verdicts => do verdicts start batch; pure none
  | .samples amount => samples choose start amount batch

/-- How a report ended, and its progress. -/
def report {σ : Type} (choose : Chooser σ) (topic : Topic) (start : Symbol) (batch : Batch)
    (p : Progress σ) : Except ReportFault Unit × Progress σ :=
  match Writing.report choose topic start batch p with
  | (.error failure, p) => (.error (.unwritten failure), p)
  | (.ok (some failure), p) => (.error (.unproductive failure), p)
  | (.ok none, p) => (.ok (), p)

end Chomsky
