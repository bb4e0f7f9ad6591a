import Chomsky.Grammar.Heights
import Chomsky.Location
import Chomsky.Sentence.Chooser
/-!
# Sentences of a grammar

A derivation is grown from its root down, left before right, a chooser settling each production.
Only productions that can be finished are candidates. Down to a depth of `depthBudget` all of
them are; from there on only those of least height, so that every further step comes closer to
the leaves and the growth ends.

A generator keeps the heights of its grammar and grows one derivation for each sentence. From a
start symbol without a finite derivation there is no sentence, and nothing is chosen.
-/
namespace Chomsky

/-- The depth from which on only shortest derivations are grown. -/
def depthBudget : Nat := 12

/-- Whether a right side of `x` may be taken at a depth. -/
def mayTake (h : Heights) (x : Symbol) (depth : Nat) (rhs : Rhs) : Bool :=
  (rhs.height? h).any fun k => depth < depthBudget || h.find? x = some k

/-- The right sides of `x` that may be taken at a depth, in the order of the grammar. -/
def candidates (g : Grammar) (h : Heights) (x : Symbol) (depth : Nat) : List Rhs :=
  ((g.rulesFor x).map Production.rhs).filter (mayTake h x depth)

/-- What growing uses up: each step above the budget counts for more than any height, and
below it the heights themselves shrink. -/
def growthMeasure (h : Heights) (x : Symbol) (depth : Nat) : Nat :=
  (depthBudget - depth) * (h.total + 1) + (h.find? x).getD 0

private theorem growthMeasure_lt {h : Heights} {x y : Symbol} {depth k ky : Nat}
    (hy : h.find? y = some ky) (hk : ky < k)
    (ht : depth < depthBudget ∨ h.find? x = some k) :
    growthMeasure h y (depth + 1) < growthMeasure h x depth := by
  have hle := Heights.le_total_of_find? hy
  unfold growthMeasure
  rw [hy, Option.getD_some]
  by_cases hd : depth < depthBudget
  · have hs : depthBudget - depth = depthBudget - (depth + 1) + 1 := by omega
    rw [hs, Nat.succ_mul]
    omega
  · have hx := ht.resolve_left hd
    have h1 : depthBudget - depth = 0 := by omega
    have h2 : depthBudget - (depth + 1) = 0 := by omega
    rw [h1, h2, hx, Option.getD_some]
    omega

/-- Both symbols of a pair that may be taken are closer to the end of the growth. -/
theorem growthMeasure_lt_of_mayTake {h : Heights} {x l r : Symbol} {depth : Nat}
    (ht : mayTake h x depth (.pair l r) = true) :
    growthMeasure h l (depth + 1) < growthMeasure h x depth ∧
    growthMeasure h r (depth + 1) < growthMeasure h x depth := by
  cases hl : h.find? l with
  | none => simp [mayTake, Rhs.height?, hl] at ht
  | some kl =>
    cases hr : h.find? r with
    | none => simp [mayTake, Rhs.height?, hl, hr] at ht
    | some kr =>
      simp only [mayTake, Rhs.height?, hl, hr, Option.bind_some, Option.map_some,
        Option.any_some, Bool.or_eq_true, decide_eq_true_eq] at ht
      exact ⟨growthMeasure_lt hl (by omega) ht, growthMeasure_lt hr (by omega) ht⟩

/-- Grows a derivation from `x` at a depth; `none` when some symbol has no candidates. -/
def grow {σ : Type} (choose : Chooser σ) (g : Grammar) (h : Heights) (x : Symbol)
    (depth : Nat) (s : σ) : Option (Tree × σ) :=
  match hc : candidates g h x depth with
  | [] => none
  | c :: cs =>
    let pick := choose cs.length s
    match hp : (c :: cs)[pick.1] with
    | .terminal t => some (.leaf x t, pick.2)
    | .empty => some (.hollow x, pick.2)
    | .pair l r =>
      (grow choose g h l (depth + 1) pick.2).bind fun left =>
        (grow choose g h r (depth + 1) left.2).map fun right =>
          (.node x left.1 right.1, right.2)
termination_by growthMeasure h x depth
decreasing_by
  all_goals
    have hm : Rhs.pair l r ∈ candidates g h x depth := by
      rw [hc, ← hp]; exact List.getElem_mem _
    have ht := growthMeasure_lt_of_mayTake (List.mem_filter.1 hm).2
  · exact ht.1
  · exact ht.2

/-! ## Generators -/

/-- A start symbol without a finite derivation, at the location of its grammar. -/
structure Unproductive where
  location : Location
  symbol : Symbol
deriving DecidableEq, Inhabited

def Unproductive.message (u : Unproductive) : String :=
  u.location.mark ("`" ++ u.symbol.toString ++ "` does not derive any finite sentence")

/-- A grammar and the heights of its symbols. -/
structure Generator where
  grammar : Grammar
  heights : Heights
deriving DecidableEq, Inhabited

namespace Generator

def ofGrammar (g : Grammar) : Generator := ⟨g, g.heights⟩

/-- Grows a derivation from `start`, if `start` has a height. -/
def derivation? {σ : Type} (gen : Generator) (choose : Chooser σ) (start : Symbol) (s : σ) :
    Option (Tree × σ) :=
  (gen.heights.find? start).bind fun _ => grow choose gen.grammar gen.heights start 0 s

/-- A sentence derived from `start`, and the state of the chooser after it. -/
def sentence {σ : Type} (gen : Generator) (choose : Chooser σ) (start : Symbol)
    (location : Location) (s : σ) : Except Unproductive (List Char × σ) :=
  match gen.derivation? choose start s with
  | some (tree, s) => .ok (tree.sentence, s)
  | none => .error ⟨location, start⟩

end Generator

end Chomsky
