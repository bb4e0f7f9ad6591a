import Chomsky.Dictionary
import Chomsky.Fault
/-!
# Stores of files

A store holds files and directories by their names from the root down, and has a working
directory, where paths that do not start at the root start. Paths are walked name by name:
a dot stays where it is, two dots go up, and every other name but the last has to be a
directory. A path that is too long, or holds a NUL character, is not walked at all.
-/
namespace Chomsky

inductive Entry
  | file (content : ByteArray)
  | directory

instance : DecidableEq Entry
  | .file content, .file content' =>
    have := ByteArray.instDecidableEq content content'
    decidable_of_decidable_of_iff (p := content = content') ⟨congrArg Entry.file, Entry.file.inj⟩
  | .directory, .directory => isTrue rfl
  | .file _, .directory => isFalse Entry.noConfusion
  | .directory, .file _ => isFalse Entry.noConfusion

instance : Inhabited Entry := ⟨.directory⟩

/-- A place in a store by its names from the root down; the root has none. -/
abbrev Place := List (List Char)

/-- The working directory, the entries of all places but the root, and what was printed. -/
structure Store where
  home : Place
  entries : Dictionary Place Entry
  printed : ByteArray

/-- Where a path ends: in a directory, or at a name in one. -/
inductive Destination
  | directory
  | name (place : Place) (name : List Char)
deriving DecidableEq, Inhabited

namespace Store

def empty : Store := ⟨[], ∅, ByteArray.empty⟩

/-- What a name in a directory stands for, if anything. A name of more bytes than names may
have is not looked up. -/
def entryAt (s : Store) (place : Place) (name : List Char) : Except FileFailure (Option Entry) :=
  if Path.maxNameSize < Path.encodedSize name then .error .nameTooLong
  else .ok (s.entries.find? (place ++ [name]))

/-- The directory that a name in a directory leads to. Above the root is the root. -/
def enter (s : Store) (place : Place) (name : List Char) : Except FileFailure Place :=
  if name = ['.'] then .ok place
  else if name = ['.', '.'] then .ok place.dropLast
  else
    match s.entryAt place name with
    | .error failure => .error failure
    | .ok none => .error .notFound
    | .ok (some (.file _)) => .error .notADirectory
    | .ok (some .directory) => .ok (place ++ [name])

/-- Walks all names but the last. -/
def walk (s : Store) (place : Place) : List (List Char) → Except FileFailure Destination
  | [] => .ok .directory
  | [name] =>
    if name = ['.'] || name = ['.', '.'] then .ok .directory else .ok (.name place name)
  | name :: rest =>
    match s.enter place name with
    | .ok place => s.walk place rest
    | .error failure => .error failure

/-- Where a path ends. The empty path ends nowhere. -/
def destination (s : Store) (p : Path) : Except FileFailure Destination :=
  if '\x00' ∈ p.chars then .error .nulInName
  else if p.chars.isEmpty then .error .notFound
  else if Path.maxSize < Path.encodedSize p.chars then .error .nameTooLong
  else s.walk (if p.isAbsolute then [] else s.home) (p.names.filter (· ≠ []))

def read (s : Store) (p : Path) : Except FileFailure ByteArray :=
  match s.destination p with
  | .error failure => .error failure
  | .ok .directory => .error .isADirectory
  | .ok (.name place name) =>
    match s.entryAt place name with
    | .error failure => .error failure
    | .ok none => .error .notFound
    | .ok (some .directory) => .error .isADirectory
    | .ok (some (.file content)) =>
      if p.endsInSlash then .error .notADirectory else .ok content

/-- The place of the file that a path may be written to. A slash at the end asks for a
directory, whatever the name stands for. -/
def target (s : Store) (p : Path) : Except FileFailure Place :=
  match s.destination p with
  | .error failure => .error failure
  | .ok .directory => .error .isADirectory
  | .ok (.name place name) =>
    if p.endsInSlash then .error .isADirectory
    else
      match s.entryAt place name with
      | .error failure => .error failure
      | .ok (some .directory) => .error .isADirectory
      | .ok _ => .ok (place ++ [name])

/-- Gives the file at a path a content; the file is made if it does not exist. -/
def write (s : Store) (p : Path) (content : ByteArray) : Except FileFailure Store :=
  (s.target p).map fun place => { s with entries := s.entries.set place (.file content) }

def print (s : Store) (bytes : ByteArray) : Store := { s with printed := s.printed ++ bytes }

/-- The names from the working directory down, for a place below it. -/
def fromHome? (s : Store) (place : Place) : Option Place :=
  if s.home.isPrefixOf place then some (place.drop s.home.length) else none

/-- The files below the working directory whose content is not the one that an earlier store
has for them. -/
def filesChangedSince (s before : Store) : List (Place × ByteArray) :=
  s.entries.entries.filterMap fun (place, entry) =>
    match entry with
    | .file content =>
      if before.entries.find? place = some entry then none
      else (s.fromHome? place).map (·, content)
    | .directory => none

end Store

end Chomsky
