import Chomsky.CommandLine.Options
import Chomsky.Report
import Chomsky.Store
/-!
# Runs

A run reads a batch, and only if it has no faults makes the output and writes the report to it.
The output is made after the batch was read, so it may be the file that held the batch. The files
of a run may be those of a store; the run then takes one store to another.
-/
namespace Chomsky

/-- Reading and writing files, and printing, in some monad. -/
structure Files (m : Type → Type) where
  read : Path → m (Except FileFailure ByteArray)
  write : Path → ByteArray → m (Except FileFailure Unit)
  print : ByteArray → m (Except FileFailure Unit)

def textOf (bytes : ByteArray) : Except FileFailure (List Char) :=
  match String.fromUTF8? bytes with
  | some text => .ok text.toList
  | none => .error .invalidText

/-- The batch in a file that was read to some content or could not be read, and what is told
about it. -/
def Batch.ofFile (file : Path) (start : Symbol) (content : Except FileFailure ByteArray) :
    Except (List Fault) Batch × List Event :=
  match content.bind textOf with
  | .error failure => (.error [⟨.wholeFile file, .fileFailure failure⟩], [])
  | .ok text =>
    match Batch.ofText file text with
    | .ok batch => (.ok batch, Batch.events file text start ++ [.batchRead batch.length file])
    | .error faults => (.error faults, Batch.events file text start)

namespace Options

def topic (o : Options) : Topic :=
  match o.amount with
  | some amount => .samples amount
  | none => .verdicts

/-- Whether the report is printed: the output is a dash. -/
def printsReport (o : Options) : Bool := o.output.same ⟨['-']⟩

def report (o : Options) (batch : Batch) (source : WordSource) :
    Except ReportFault Unit × Progress WordSource :=
  Chomsky.report WordSource.choose o.topic o.start batch (.start none source)

end Options

/-- How a run ended: what there is to complain about, and what was told. -/
structure Outcome where
  complaints : List String
  events : List Event

/-- A run succeeds if there is nothing to complain about. -/
def Outcome.succeeded (o : Outcome) : Bool := o.complaints.isEmpty

def Outcome.exitCode (o : Outcome) : Nat := if o.succeeded then 0 else 1

/-- The complaints, each on a line. -/
def Outcome.complaintText (o : Outcome) : String := String.join (o.complaints.map (· ++ "\n"))

/-- The complaint about an output that cannot be made. -/
def outputComplaint (output : Path) (failure : FileFailure) : String :=
  "Could not create " ++ output.text ++ ": " ++ failure.text

/-- The outcome of a run whose report ended in some way and was then put out. -/
def outcomeOfReport (o : Options) (events : List Event) (result : Except ReportFault Unit)
    (put : Except FileFailure Unit) : Outcome :=
  match result, put with
  | .error fault, _ => ⟨[fault.message], events⟩
  | .ok (), .error failure => ⟨[(ReportFault.unwritten failure).message], events⟩
  | .ok (), .ok () => ⟨[], events ++ [.reportWritten o.output]⟩

/-- Puts out the report on a batch that was read. -/
def putReport {m : Type → Type} [Monad m] (files : Files m) (o : Options) (source : WordSource)
    (batch : Batch) (events : List Event) : m Outcome := do
  let written (progress : Progress WordSource) := events ++ progress.events.toList
  if o.printsReport then
    let (result, progress) := o.report batch source
    let put ← files.print progress.sink.written
    pure (outcomeOfReport o (written progress) result put)
  else
    match ← files.write o.output ByteArray.empty with
    | .error failure => pure ⟨[outputComplaint o.output failure], events⟩
    | .ok () =>
      let (result, progress) := o.report batch source
      let put ← files.write o.output progress.sink.written
      pure (outcomeOfReport o (written progress) result put)

/-- Runs with some options, choosing by the words of a source. -/
def run {m : Type → Type} [Monad m] (files : Files m) (o : Options) (source : WordSource) :
    m Outcome := do
  match Batch.ofFile o.file o.start (← files.read o.file) with
  | (.error faults, events) => pure ⟨faults.map Fault.message, events⟩
  | (.ok batch, events) => putReport files o source batch events

/-! ## Runs on a store -/

/-- Changes the store by a write, or leaves it when the write fails. -/
def Store.writeState (p : Path) (content : ByteArray) : StateM Store (Except FileFailure Unit) :=
  fun s =>
    match s.write p content with
    | .ok s' => (.ok (), s')
    | .error failure => (.error failure, s)

def Files.stored : Files (StateM Store) where
  read p := fun s => (s.read p, s)
  write := Store.writeState
  print bytes := fun s => (.ok (), s.print bytes)

/-- Runs on a store: the outcome, and the store afterwards. -/
def Store.run (s : Store) (o : Options) (source : WordSource) : Outcome × Store :=
  Chomsky.run Files.stored o source s

end Chomsky
