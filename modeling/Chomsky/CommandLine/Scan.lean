import Chomsky.CommandLine.Options
/-!
# Command lines

A command line is scanned from left to right. A flag may carry its value, or the next
argument is its value; such a flag is pending until the next flag or file name, or the end,
settles it. Behind a lone double dash every argument is a file name.

## Main definitions

* `Argument.ofChars`: what an argument looks like.
* `Scan.argument`: one step of the scan.
* `Options.ofArguments`: the options that a command line gives, or its first fault.
-/
namespace Chomsky

/-- What an argument looks like. A dash alone is a word. -/
inductive Argument
  | escape
  | long (name : List Char) (value : Option (List Char))
  | short (name : Char) (rest : List Char)
  | word (text : List Char)
deriving DecidableEq, Inhabited

/-- The text behind the first equals sign. -/
def valueBehindEquals (body : List Char) : Option (List Char) :=
  match body.dropWhile (· ≠ '=') with
  | [] => none
  | _ :: value => some value

/-- Tells flags from words. -/
def Argument.ofChars : List Char → Argument
  | ['-', '-'] => .escape
  | '-' :: '-' :: body => .long (body.takeWhile (· ≠ '=')) (valueBehindEquals body)
  | '-' :: name :: rest => .short name rest
  | text => .word text

/-- What a flag stands for. -/
inductive Flag
  | setting (setting : Setting)
  | help
  | version
deriving DecidableEq, Inhabited

def Flag.ofName (name : List Char) : Option Flag :=
  if name = "output".toList then some (.setting .output)
  else if name = "start".toList then some (.setting .start)
  else if name = "amount".toList then some (.setting .amount)
  else if name = "help".toList then some .help
  else if name = "version".toList then some .version
  else none

def Flag.ofLetter : Char → Option Flag
  | 'o' => some (.setting .output)
  | 's' => some (.setting .start)
  | 'n' => some (.setting .amount)
  | 'h' => some .help
  | 'V' => some .version
  | _ => none

/-- What stands behind a short flag in its argument: nothing, or a value, which an equals
sign may introduce. -/
def attachedValue : List Char → Option (List Char)
  | [] => none
  | '=' :: value => some value
  | value => some value

/-- The settled values, a setting that waits to be settled with its value if it has one,
whether a file name was met, and whether the double dash was. -/
structure Scan where
  draft : Draft
  pending : Option (Setting × Option (List Char))
  fileMet : Bool
  escaped : Bool
deriving DecidableEq, Inhabited

namespace Scan

def start : Scan := ⟨.empty, none, false, false⟩

/-- Settles what is pending. -/
def settle (s : Scan) : Except UsageFault Scan :=
  match s.pending with
  | none => .ok s
  | some (setting, value) =>
    (s.draft.assign setting value).map fun draft => { s with draft := draft, pending := none }

/-- A flag for a setting: with a value of its own it is settled at once. -/
def setting (s : Scan) (setting : Setting) (value : Option (List Char)) :
    Except UsageFault Scan :=
  s.settle.bind fun s =>
    let s := { s with pending := some (setting, value) }
    if value.isSome then s.settle else .ok s

/-- A request to be shown something instead. -/
def request (s : Scan) (fault : UsageFault) : Except UsageFault Scan :=
  s.settle.bind fun _ => .error fault

/-- A word that no flag waits for is the file name; there is only one. -/
def fileName (s : Scan) (text : List Char) : Except UsageFault Scan :=
  if s.fileMet then .error .unknownArgument
  else s.settle.map fun s => { s with pending := some (.file, some text), fileMet := true }

/-- A word: the value of the flag that waits for one, or the file name. -/
def word (s : Scan) (text : List Char) : Except UsageFault Scan :=
  match s.pending with
  | some (setting, none) => .ok { s with pending := some (setting, some text) }
  | _ => s.fileName text

/-- A flag with a long name, and the value behind its equals sign. -/
def long (s : Scan) (name : List Char) (value : Option (List Char)) : Except UsageFault Scan :=
  match Flag.ofName name with
  | none => .error .unknownArgument
  | some (.setting setting) => s.setting setting value
  | some .help => if value.isSome then .error .tooManyValues else s.request .displayHelp
  | some .version => if value.isSome then .error .tooManyValues else s.request .displayVersion

/-- A flag with a short name, and what stands behind it. -/
def short (s : Scan) (name : Char) (rest : List Char) : Except UsageFault Scan :=
  match Flag.ofLetter name with
  | none => .error .unknownArgument
  | some (.setting setting) => s.setting setting (attachedValue rest)
  | some .help => s.request .displayHelp
  | some .version => s.request .displayVersion

def argument (s : Scan) (arg : List Char) : Except UsageFault Scan :=
  if s.escaped then s.fileName arg
  else
    match Argument.ofChars arg with
    | .escape => .ok { s with escaped := true }
    | .long name value => s.long name value
    | .short name rest => s.short name rest
    | .word text => s.word text

/-- Scans arguments up to the first fault. -/
def arguments (s : Scan) : List (List Char) → Except UsageFault Scan
  | [] => .ok s
  | arg :: args => (s.argument arg).bind fun s => s.arguments args

end Scan

/-- The options that a command line gives. -/
def Options.ofArguments (args : List (List Char)) : Except UsageFault Options :=
  ((Scan.start.arguments args).bind Scan.settle).map fun s => s.draft.options

end Chomsky
