import Chomsky.Location
import Chomsky.Symbol
/-!
# Faults in batch files

What can be wrong with a batch file, what is said about it, and where it is. Some faults
are only warned about; which ones is up to the reader of the batch.
-/
namespace Chomsky

/-- The kinds of failure that reading and writing files know. -/
inductive FileFailureKind
  | notFound
  | permissionDenied
  | notADirectory
  | isADirectory
  | invalidData
  | invalidName
  | invalidInput
  | other
deriving DecidableEq, Inhabited

def FileFailureKind.text : FileFailureKind → String
  | notFound => "entity not found"
  | permissionDenied => "permission denied"
  | notADirectory => "not a directory"
  | isADirectory => "is a directory"
  | invalidData => "invalid data"
  | invalidName => "invalid filename"
  | invalidInput => "invalid input parameter"
  | other => "other error"

/-- A failure to read or write a file, with the system's words for it. -/
structure FileFailure where
  kind : FileFailureKind
  text : String
deriving DecidableEq, Inhabited

namespace FileFailure

/-- A failure of which nothing but the kind is known. -/
def ofKind (kind : FileFailureKind) : FileFailure := ⟨kind, kind.text⟩

/-- No entry has the name. -/
def notFound : FileFailure := ⟨.notFound, "No such file or directory (os error 2)"⟩

def permissionDenied : FileFailure := ⟨.permissionDenied, "Permission denied (os error 13)"⟩

def notADirectory : FileFailure := ⟨.notADirectory, "Not a directory (os error 20)"⟩

def isADirectory : FileFailure := ⟨.isADirectory, "Is a directory (os error 21)"⟩

/-- A name, or a path as a whole, has more bytes than it may have. -/
def nameTooLong : FileFailure := ⟨.invalidName, "File name too long (os error 36)"⟩

/-- A NUL character cannot be part of a path. -/
def nulInName : FileFailure := ⟨.invalidInput, "file name contained an unexpected NUL byte"⟩

/-- The bytes of a file are no text. -/
def invalidText : FileFailure := ⟨.invalidData, "stream did not contain valid UTF-8"⟩

def diskFull : FileFailure := ⟨.other, "disk full"⟩

end FileFailure

inductive Cause
  /-- A production line starts with something other than a nonterminal. -/
  | missingNonterminal
  /-- No arrow follows the left side. -/
  | missingArrow
  /-- Something starts like an arrow and is none. -/
  | malformedArrow
  /-- A right side is neither a terminal, nor two nonterminals, nor the empty string. -/
  | notNormalForm (rhs : List Char)
  /-- A production line holds nothing. -/
  | unexpectedBlankLine
  /-- A line that should hold a count is missing. -/
  | missingCount
  /-- A line that should hold a count holds something else. -/
  | invalidCount (text : List Char)
  /-- A count does not match what follows it. -/
  | countMismatch (expected found : Nat)
  /-- A symbol is used and has no productions. -/
  | undefinedNonterminal (x : Symbol)
  /-- The start symbol has no productions. -/
  | undefinedStart (x : Symbol)
  /-- The file cannot be read. -/
  | fileFailure (failure : FileFailure)
deriving DecidableEq, Inhabited

namespace Cause

/-- A text between backticks. -/
def quoted (text : String) : String := "`" ++ text ++ "`"

def message : Cause → String
  | missingNonterminal => "A production must start with a nonterminal"
  | missingArrow => "Expected `-->` after nonterminal"
  | malformedArrow => "Malformed arrow, expected `-->` or `->`"
  | notNormalForm rhs =>
    quoted (String.ofList rhs) ++ " is not in Chomsky Normal Form " ++
      "(expected one terminal, two nonterminals or " ++ epsilon.toString ++ ")"
  | unexpectedBlankLine =>
    "Blank line encountered in production parser " ++
      "(this is a problem with the batch reader, not the grammar)"
  | missingCount => "Expected a count"
  | invalidCount text => quoted (String.ofList text) ++ " is not a valid count"
  | countMismatch expected found =>
    "Expected " ++ toString expected ++ " entries but found " ++ toString found
  | undefinedNonterminal x => "Could not find a production for " ++ quoted x.toString
  | undefinedStart x => "Start symbol " ++ quoted x.toString ++ " has no productions"
  | fileFailure failure => "File error: " ++ failure.text

/-- Whether two causes are the same; of file failures only the kind counts. -/
def same : Cause → Cause → Bool
  | fileFailure a, fileFailure b => a.kind = b.kind
  | a, b => a = b

end Cause

/-- A cause at a location. -/
structure Fault where
  location : Location
  cause : Cause
deriving DecidableEq, Inhabited

namespace Fault

def message (f : Fault) : String := f.location.mark f.cause.message

/-- Whether two faults have the same cause at the same location. -/
def same (f g : Fault) : Bool := f.location.same g.location && f.cause.same g.cause

end Fault

end Chomsky
