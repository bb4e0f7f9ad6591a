import Chomsky.Symbol
/-!
# Grammars in Chomsky normal form

A production lets a symbol stand for one terminal, for two symbols, or for the empty string. A
grammar is a list of productions, in the order in which they were written.

A derivation is a finite tree of symbols: at every inner node a symbol gives way to two, at every
leaf to a terminal or to the empty string. It carries its symbols, so whether it belongs to a
grammar is a question about the productions that it uses.
-/
namespace Chomsky

inductive Rhs
  | terminal (t : Char)
  | pair (left right : Symbol)
  | empty
deriving DecidableEq, Inhabited

def Rhs.text : Rhs → List Char
  | .terminal t => [t]
  | .pair left right => [left, right]
  | .empty => [epsilon]

/-- The symbols that a right side refers to, from left to right. -/
def Rhs.symbols : Rhs → List Symbol
  | .pair left right => [left, right]
  | _ => []

/-- One right side for the symbol `lhs`. -/
structure Production where
  lhs : Symbol
  rhs : Rhs
deriving DecidableEq, Inhabited

/-- What stands between the two sides of a production. -/
def arrowText : List Char := ['-', '-', '>']

def Production.text (p : Production) : List Char :=
  p.lhs :: ' ' :: (arrowText ++ ' ' :: p.rhs.text)

/-- The productions in order; repetitions count. -/
structure Grammar where
  productions : List Production
deriving DecidableEq, Inhabited

namespace Grammar

/-- The productions with the left side `x`, in order. -/
def rulesFor (g : Grammar) (x : Symbol) : List Production :=
  g.productions.filter (·.lhs = x)

@[simp] theorem mem_rulesFor {g : Grammar} {x : Symbol} {p : Production} :
    p ∈ g.rulesFor x ↔ p ∈ g.productions ∧ p.lhs = x := by simp [rulesFor]

end Grammar

/-! ## Derivations -/

/-- A derivation from the symbol `root`. -/
inductive Tree
  | leaf (root : Symbol) (t : Char)
  | hollow (root : Symbol)
  | node (root : Symbol) (left right : Tree)
deriving DecidableEq, Inhabited

namespace Tree

def root : Tree → Symbol
  | leaf x _ => x
  | hollow x => x
  | node x _ _ => x

/-- The terminals at the leaves, from left to right. -/
def sentence : Tree → List Char
  | leaf _ t => [t]
  | hollow _ => []
  | node _ left right => left.sentence ++ right.sentence

/-- The number of symbols on a longest path from the root to a leaf. -/
def height : Tree → Nat
  | leaf _ _ => 1
  | hollow _ => 1
  | node _ left right => 1 + max left.height right.height

/-- The productions that the derivation uses, one for each node. -/
def productions : Tree → List Production
  | leaf x t => [⟨x, .terminal t⟩]
  | hollow x => [⟨x, .empty⟩]
  | node x left right =>
    ⟨x, .pair left.root right.root⟩ :: (left.productions ++ right.productions)

/-- The tree is a derivation in a grammar with these productions. -/
def IsFor (ps : List Production) (t : Tree) : Prop := ∀ p ∈ t.productions, p ∈ ps

instance (ps : List Production) (t : Tree) : Decidable (t.IsFor ps) :=
  inferInstanceAs (Decidable (∀ p ∈ t.productions, p ∈ ps))

theorem forall_productions_leaf {allowed : Production → Prop} {x : Symbol} {c : Char} :
    (∀ p ∈ (leaf x c).productions, allowed p) ↔ allowed ⟨x, .terminal c⟩ := by
  rw [productions, List.forall_mem_singleton]

theorem forall_productions_hollow {allowed : Production → Prop} {x : Symbol} :
    (∀ p ∈ (hollow x).productions, allowed p) ↔ allowed ⟨x, .empty⟩ := by
  rw [productions, List.forall_mem_singleton]

/-- What holds of the productions of a node holds of its own and of those of its parts. -/
theorem forall_productions_node {allowed : Production → Prop} {x : Symbol} {left right : Tree} :
    (∀ p ∈ (node x left right).productions, allowed p) ↔
      allowed ⟨x, .pair left.root right.root⟩ ∧
        (∀ p ∈ left.productions, allowed p) ∧ ∀ p ∈ right.productions, allowed p := by
  rw [productions, List.forall_mem_cons, List.forall_mem_append]

theorem isFor_leaf {ps : List Production} {x : Symbol} {c : Char} :
    (leaf x c).IsFor ps ↔ ⟨x, .terminal c⟩ ∈ ps := forall_productions_leaf

theorem isFor_hollow {ps : List Production} {x : Symbol} :
    (hollow x).IsFor ps ↔ ⟨x, .empty⟩ ∈ ps := forall_productions_hollow

theorem isFor_node {ps : List Production} {x : Symbol} {left right : Tree} :
    (node x left right).IsFor ps ↔
      ⟨x, .pair left.root right.root⟩ ∈ ps ∧ left.IsFor ps ∧ right.IsFor ps :=
  forall_productions_node

end Tree

end Chomsky
