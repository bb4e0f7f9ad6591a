import Chomsky.Dictionary
import Chomsky.Grammar.Basic
/-!
# Productions by their right side

An index answers which symbols produce a given right side. All producers of one right side
share an entry, so a repeated production is stored once.
-/
namespace Chomsky

/-- The producers of each terminal, of each pair and of the empty string. -/
structure Index where
  terminals : Dictionary Char SymbolSet
  pairs : Dictionary (Symbol × Symbol) SymbolSet
  nullable : SymbolSet
deriving DecidableEq

namespace Index

def empty : Index := ⟨∅, ∅, ∅⟩

instance : EmptyCollection Index := ⟨empty⟩
instance : Inhabited Index := ⟨empty⟩

/-- Makes `x` a producer of the right side `key`. -/
def addProducer {κ : Type} [DecidableEq κ] (d : Dictionary κ SymbolSet) (key : κ) (x : Symbol) :
    Dictionary κ SymbolSet :=
  d.alter key fun producers => (producers.getD ∅).insert x

/-- Enters one production. -/
def add (i : Index) (p : Production) : Index :=
  match p.rhs with
  | .terminal t => { i with terminals := addProducer i.terminals t p.lhs }
  | .pair left right => { i with pairs := addProducer i.pairs (left, right) p.lhs }
  | .empty => { i with nullable := i.nullable.insert p.lhs }

def ofList (ps : List Production) : Index := ps.foldl add ∅

/-- The symbols that produce a terminal; `none` when there are none. -/
def producersOfTerminal? (i : Index) (t : Char) : Option SymbolSet := i.terminals.find? t

/-- The symbols that produce a pair; `none` when there are none. -/
def producersOfPair? (i : Index) (left right : Symbol) : Option SymbolSet :=
  i.pairs.find? (left, right)

/-- Whether `x` produces the empty string. -/
def derivesEmpty (i : Index) (x : Symbol) : Bool := i.nullable.contains x

def terminalCount (i : Index) : Nat := i.terminals.size

def pairCount (i : Index) : Nat := i.pairs.size

/-- The productions of an entry, one for each producer. -/
def expand (producers : SymbolSet) (rhs : Rhs) : List Production :=
  producers.toList.map (⟨·, rhs⟩)

/-- One production for each right side and producer. -/
def productions (i : Index) : List Production :=
  (i.terminals.entries.flatMap fun (t, producers) => expand producers (.terminal t)) ++
  (i.pairs.entries.flatMap fun (pair, producers) => expand producers (.pair pair.1 pair.2)) ++
  expand i.nullable .empty

/-- Whether two indices answer every lookup with the same members. -/
def same (i j : Index) : Bool :=
  i.terminals.sameEntries SymbolSet.sameMembers j.terminals &&
  i.pairs.sameEntries SymbolSet.sameMembers j.pairs &&
  i.nullable.sameMembers j.nullable

end Index

def Grammar.index (g : Grammar) : Index := Index.ofList g.productions

end Chomsky
