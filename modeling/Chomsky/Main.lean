import Chomsky.CommandLine.Scan
import Chomsky.Run
/-!
# The program

Runs on the files of the system. The choices for sample sentences start from random bytes.
Warnings and errors that are told about the run go to standard error, in front of its
complaints.
-/
namespace Chomsky

/-- The number of a system failure, which may come negated. -/
def systemNumber (code : UInt32) : Nat :=
  if code.toNat < UInt32.size / 2 then code.toNat else UInt32.size - code.toNat

/-- A system failure in the words of the library where it has some. -/
def FileFailure.ofSystem (e : IO.Error) : FileFailure :=
  match e with
  | .noFileOrDirectory .. => .notFound
  | .permissionDenied .. => .permissionDenied
  | .inappropriateType _ code _ =>
    if systemNumber code = 20 then .notADirectory
    else if systemNumber code = 21 then .isADirectory
    else ⟨.other, toString e⟩
  | .invalidArgument _ code _ =>
    if systemNumber code = 36 then .nameTooLong else ⟨.other, toString e⟩
  | _ => ⟨.other, toString e⟩

/-- Turns a system failure into a result. -/
def attempt {α : Type} (act : IO α) : IO (Except FileFailure α) := do
  match ← act.toBaseIO with
  | .ok a => pure (.ok a)
  | .error e => pure (.error (.ofSystem e))

def Files.system : Files IO where
  read p := attempt (IO.FS.readBinFile p.text)
  write p content := attempt (IO.FS.writeBinFile p.text content)
  print bytes := attempt do
    let out ← IO.getStdout
    out.write bytes
    out.flush

/-- A source of words that starts from random bytes. -/
def WordSource.random : IO WordSource := do
  let bytes ← IO.getRandomBytes 8
  pure (.ofSeed [] (bytes.foldl (fun seed b => seed * 256 + b.toUInt64) 0))

def usageText : String :=
  "Usage: chomsky [-o FILE] [-s SYMBOL] [-n AMOUNT] [FILE]\n\n" ++
  "  FILE        batch file of grammars and test strings (input.txt)\n" ++
  "  -o, --output FILE    where to write the report, - for standard output (output.txt)\n" ++
  "  -s, --start SYMBOL   start symbol of every grammar (S)\n" ++
  "  -n, --amount AMOUNT  show sentences of every grammar instead of testing strings\n" ++
  "  -h, --help           show this text\n" ++
  "  -V, --version        show the version\n"

/-- Shows what was asked for, or how the program is called, and gives the exit code. -/
def UsageFault.explain : UsageFault → IO UInt32
  | .displayHelp => do IO.print usageText; pure 0
  | .displayVersion => do IO.print "chomsky 0.1.0\n"; pure 0
  | _ => do IO.eprint usageText; pure 2

end Chomsky

open Chomsky in
def main (args : List String) : IO UInt32 := do
  match Options.ofArguments (args.map String.toList) with
  | .error fault => fault.explain
  | .ok options =>
    let outcome ← run Files.system options (← WordSource.random)
    for event in outcome.events do
      if event.matters .warn then
        IO.eprintln (event.severity.text ++ " " ++ event.message)
    IO.eprint outcome.complaintText
    pure outcome.exitCode.toUInt32
