import Chomsky.Text.Uppercase
/-!
# Symbols

Grammars are written with single characters. The uppercase ones are nonterminals; `ε` stands for
the empty string, in productions and in test strings alike.

A set of symbols remembers the order in which its members first came. The order is shown and
nothing else: two sets with the same members are the same set to `sameMembers`.
-/
namespace Chomsky

/-- A symbol on the left side of a production. -/
abbrev Symbol := Char

/-- The character that stands for the empty string. -/
def epsilon : Char := 'ε'

/-- Nonterminals are the uppercase characters. -/
def isNonterminal (c : Char) : Bool := Text.isUppercase c

/-- A string as it is shown: the empty one would be invisible and is shown as `ε`. -/
def shown (s : List Char) : List Char := if s.isEmpty then [epsilon] else s

/-! ## Sets of symbols -/

/-- Distinct symbols in the order of their first insertion. -/
structure SymbolSet where
  toList : List Symbol
  nodup : toList.Nodup
deriving DecidableEq

namespace SymbolSet

def empty : SymbolSet := ⟨[], List.nodup_nil⟩

instance : EmptyCollection SymbolSet := ⟨empty⟩
instance : Inhabited SymbolSet := ⟨empty⟩
instance : Membership Symbol SymbolSet := ⟨fun s x => x ∈ s.toList⟩

instance (x : Symbol) (s : SymbolSet) : Decidable (x ∈ s) :=
  inferInstanceAs (Decidable (x ∈ s.toList))

@[simp] theorem mem_toList {x : Symbol} {s : SymbolSet} : x ∈ s.toList ↔ x ∈ s := Iff.rfl

@[simp] theorem not_mem_empty (x : Symbol) : x ∉ (∅ : SymbolSet) := List.not_mem_nil

def contains (s : SymbolSet) (x : Symbol) : Bool := decide (x ∈ s)

def size (s : SymbolSet) : Nat := s.toList.length

def isEmpty (s : SymbolSet) : Bool := s.toList.isEmpty

/-- Adds a symbol behind the members, unless it is one of them already. -/
def insert (s : SymbolSet) (x : Symbol) : SymbolSet :=
  if h : x ∈ s.toList then s
  else ⟨s.toList ++ [x], by
    refine List.nodup_append.2 ⟨s.nodup, by simp, ?_⟩
    intro a ha b hb hab
    rw [List.mem_singleton] at hb
    exact h (hb ▸ hab ▸ ha)⟩

theorem toList_insert (s : SymbolSet) (x : Symbol) :
    (s.insert x).toList = if x ∈ s then s.toList else s.toList ++ [x] := by
  unfold insert
  by_cases h : x ∈ s.toList
  · rw [dif_pos h, if_pos (mem_toList.1 h)]
  · rw [dif_neg h, if_neg fun hx => h (mem_toList.2 hx)]

@[simp] theorem mem_insert {s : SymbolSet} {x y : Symbol} : y ∈ s.insert x ↔ y ∈ s ∨ y = x := by
  rw [← mem_toList, toList_insert]
  split <;> simp_all

/-- Adds a symbol and tells whether it was new. -/
def insertNew (s : SymbolSet) (x : Symbol) : Bool × SymbolSet :=
  if s.contains x then (false, s) else (true, s.insert x)

/-- Adds the symbols of a list one after the other. -/
def insertMany (s : SymbolSet) (xs : List Symbol) : SymbolSet := xs.foldl insert s

@[simp] theorem mem_insertMany {s : SymbolSet} {xs : List Symbol} {y : Symbol} :
    y ∈ s.insertMany xs ↔ y ∈ s ∨ y ∈ xs := by
  unfold insertMany
  induction xs generalizing s with
  | nil => simp
  | cons x xs ih => simp [ih, or_assoc]

def ofList (xs : List Symbol) : SymbolSet := empty.insertMany xs

/-- Adds the members of `t` that `s` lacks, in the order of `t`. -/
def union (s t : SymbolSet) : SymbolSet := s.insertMany t.toList

@[simp] theorem mem_union {s t : SymbolSet} {y : Symbol} : y ∈ s.union t ↔ y ∈ s ∨ y ∈ t :=
  mem_insertMany

/-- Whether two sets have the same members, whatever their order. -/
def sameMembers (s t : SymbolSet) : Bool :=
  s.size = t.size && s.toList.all t.contains

/-- The members with a blank between any two. -/
def text (s : SymbolSet) : String := String.intercalate " " (s.toList.map Char.toString)

end SymbolSet

end Chomsky
