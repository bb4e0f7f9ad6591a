/-!
# Locations in batch files

A location is a line of a file. Line 0, which no file has, stands for the file as a whole. The
file is named by a path: names with slashes between them. Paths are compared by their components,
so doubled slashes, a slash at the end and inner dots make no difference.
-/
namespace Chomsky

structure Path where
  chars : List Char
deriving DecidableEq, Inhabited

namespace Path

def ofString (s : String) : Path := ⟨s.toList⟩

def text (p : Path) : String := String.ofList p.chars

/-- The names between slashes, empty ones included, when the characters `read`, latest
first, already belong to the first name. -/
def namesFrom (read : List Char) : List Char → List (List Char)
  | [] => [read.reverse]
  | c :: cs => if c = '/' then read.reverse :: namesFrom [] cs else namesFrom (c :: read) cs

/-- The names between slashes, empty ones included. -/
def names (p : Path) : List (List Char) := namesFrom [] p.chars

/-- The number of bytes that encode a text. -/
def encodedSize (cs : List Char) : Nat := cs.foldl (fun size c => size + c.utf8Size) 0

/-- The number of bytes that a name may have. -/
def maxNameSize : Nat := 255

/-- The number of bytes that a path may have. -/
def maxSize : Nat := 4095

def isAbsolute (p : Path) : Bool := p.chars.head? = some '/'

def endsInSlash (p : Path) : Bool := p.chars.getLast? = some '/'

/-- Whether the path starts at the root, whether it starts with a dot of its own, and its
names without empty ones and dots. -/
def components (p : Path) : Bool × Bool × List (List Char) :=
  (p.isAbsolute, p.names.head? = some ['.'],
    p.names.filter fun name => name ≠ [] && name ≠ ['.'])

/-- Whether two paths have the same components. -/
def same (p q : Path) : Bool := p.components = q.components

end Path

/-- A line of a file, or with line 0 the whole file. -/
structure Location where
  file : Path
  line : Nat
deriving DecidableEq, Inhabited

namespace Location

def wholeFile (file : Path) : Location := ⟨file, 0⟩

/-- The file, and the line behind a colon unless the file as a whole is meant. -/
def text (l : Location) : String :=
  if l.line = 0 then l.file.text else l.file.text ++ ":" ++ toString l.line

/-- A message about a location, with the terminal colours that set off the location. -/
def mark (l : Location) (message : String) : String :=
  "\x1b[31;49;1m[" ++ l.text ++ "]\x1b[39;49;1m  " ++ message ++ "\x1b[0m"

def same (l m : Location) : Bool := l.file.same m.file && l.line = m.line

end Location

end Chomsky
