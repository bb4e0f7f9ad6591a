import Chomsky.Proofs.Grammar.Settled
import Mathlib.Data.Finset.Card
/-!
# Heights that are attained

A production can only give its left side the height of a derivation that starts with it and goes
on with derivations found before. So at any moment every height is that of some derivation.
Moreover a new height is at most one more than the greatest so far, and when it is, its symbol is
new as well; so no height exceeds the number of symbols that have one. Both facts are kept by each
step of the passes and hence hold at their end.

## Main definitions

* `Heights.Attained`: every height is the height of a derivation.
* `Heights.Bounded`: no height exceeds the number of symbols with heights, all left sides.
* `Grammar.leftSides`: the distinct left sides.
* `Grammar.IsProductive`: the symbols with a finite derivation.

## Main results

* `Grammar.exists_find?_heights_iff`: the symbols with heights are those with derivations.
* `Grammar.find?_heights_le`: heights are at most the number of left sides.
-/
namespace Chomsky

/-- The distinct left sides of the productions. -/
def Grammar.leftSides (g : Grammar) : Finset Symbol := (g.productions.map Production.lhs).toFinset

/-- The symbol has a finite derivation. -/
def Grammar.IsProductive (g : Grammar) (x : Symbol) : Prop :=
  ∃ t : Tree, t.root = x ∧ t.IsFor g.productions

namespace Heights

/-- A production is no improvement, or it gives its left side a height that is lower than the one
so far. -/
theorem relax_cases (h : Heights) (p : Production) : relax h p = h ∨
    ∃ k, p.rhs.height? h = some k ∧ (∀ v, h.find? p.lhs = some v → k < v) ∧
      relax h p = h.set p.lhs k := by
  unfold relax
  split
  · exact Or.inl rfl
  · rename_i k hk
    split
    · rename_i hlow
      exact Or.inr ⟨k, hk, fun v hv => by simpa [hv] using hlow, rfl⟩
    · exact Or.inl rfl

variable {ps : List Production}

/-- What every step keeps holds after a pass. -/
theorem pass_induction {P : Heights → Prop} (hstep : ∀ h, ∀ p ∈ ps, P h → P (relax h p))
    {h : Heights} (h₀ : P h) : P (pass ps h) :=
  List.foldlRecOn ps relax h₀ fun h hh p hp => hstep h p hp hh

/-- What every step keeps holds at the end of the passes. -/
theorem settle_induction {P : Heights → Prop} (hstep : ∀ h, ∀ p ∈ ps, P h → P (relax h p))
    {h : Heights} (h₀ : P h) : P (settle ps h) := by
  fun_induction settle ps h with
  | case1 h _ => exact h₀
  | case2 h _ ih => exact ih (pass_induction hstep h₀)

/-! ## Derivations of the heights -/

/-- Every height is the height of a derivation. -/
def Attained (ps : List Production) (h : Heights) : Prop :=
  ∀ x v, h.find? x = some v → ∃ t : Tree, t.root = x ∧ t.IsFor ps ∧ t.height = v

/-- A right side that has a height starts a derivation of this height. -/
theorem Attained.exists_tree {h : Heights} (ha : Attained ps h) {p : Production} (hp : p ∈ ps)
    {k : Nat} (hk : p.rhs.height? h = some k) :
    ∃ t : Tree, t.root = p.lhs ∧ t.IsFor ps ∧ t.height = k := by
  obtain ⟨x, rhs⟩ := p
  cases rhs with
  | terminal c =>
    obtain rfl : 1 = k := by simpa [Rhs.height?] using hk
    exact ⟨.leaf x c, rfl, Tree.isFor_leaf.2 hp, rfl⟩
  | empty =>
    obtain rfl : 1 = k := by simpa [Rhs.height?] using hk
    exact ⟨.hollow x, rfl, Tree.isFor_hollow.2 hp, rfl⟩
  | pair l r =>
    obtain ⟨vl, hvl, vr, hvr, rfl⟩ := Rhs.height?_pair_eq_some.1 hk
    obtain ⟨left, rfl, hleft, rfl⟩ := ha l vl hvl
    obtain ⟨right, rfl, hright, rfl⟩ := ha r vr hvr
    exact ⟨.node x left right, rfl, Tree.isFor_node.2 ⟨hp, hleft, hright⟩, rfl⟩

theorem Attained.relax {h : Heights} (ha : Attained ps h) {p : Production} (hp : p ∈ ps) :
    Attained ps (relax h p) := by
  rcases relax_cases h p with heq | ⟨k, hk, -, heq⟩ <;> rw [heq]
  · exact ha
  · intro x v hv
    rw [Dictionary.find?_set] at hv
    split at hv
    · rename_i hx
      obtain rfl := Option.some.inj hv
      exact hx ▸ ha.exists_tree hp hk
    · exact ha x v hv

theorem attained_empty : Attained ps ∅ := fun x v hv => by simp at hv

theorem attained_heights (g : Grammar) : Attained g.productions g.heights :=
  settle_induction (fun _ _ hp ha => ha.relax hp) attained_empty

/-! ## Bounds of the heights -/

/-- No height exceeds the number of symbols that have one, and these are left sides. -/
structure Bounded (ps : List Production) (h : Heights) : Prop where
  le_size : ∀ x v, h.find? x = some v → v ≤ h.size
  keys_subset : h.keys ⊆ ps.map Production.lhs

theorem Bounded.height?_le {h : Heights} (hb : Bounded ps h) {rhs : Rhs} {k : Nat}
    (hk : rhs.height? h = some k) : k ≤ h.size + 1 := by
  cases rhs with
  | terminal _ | empty =>
    obtain rfl : 1 = k := by simpa [Rhs.height?] using hk
    omega
  | pair l r =>
    obtain ⟨vl, hvl, vr, hvr, rfl⟩ := Rhs.height?_pair_eq_some.1 hk
    have hl := hb.le_size l vl hvl
    have hr := hb.le_size r vr hvr
    omega

theorem Bounded.relax {h : Heights} (hb : Bounded ps h) {p : Production} (hp : p ∈ ps) :
    Bounded ps (relax h p) := by
  rcases relax_cases h p with heq | ⟨k, hk, hlow, heq⟩ <;> rw [heq]
  · exact hb
  · have hsize : k ≤ (h.set p.lhs k).size ∧ h.size ≤ (h.set p.lhs k).size := by
      rw [← Dictionary.length_keys, ← Dictionary.length_keys, Dictionary.keys_set]
      split
      -- a known symbol only gets lower; a new one makes room for one more
      · rename_i hmem
        cases hv : h.find? p.lhs with
        | none => exact absurd hmem (Dictionary.find?_eq_none_iff.1 hv)
        | some v =>
          have hlt := hlow v hv
          have hle := hb.le_size p.lhs v hv
          rw [Dictionary.length_keys]
          omega
      · have hle := hb.height?_le hk
        rw [List.length_append, Dictionary.length_keys, List.length_singleton]
        omega
    constructor
    · intro x v hv
      rw [Dictionary.find?_set] at hv
      split at hv
      · obtain rfl := Option.some.inj hv
        exact hsize.1
      · exact (hb.le_size x v hv).trans hsize.2
    · rw [Dictionary.keys_set]
      split
      · exact hb.keys_subset
      · refine List.append_subset.2 ⟨hb.keys_subset, ?_⟩
        exact List.cons_subset.2 ⟨List.mem_map_of_mem hp, List.nil_subset _⟩

theorem bounded_empty : Bounded ps ∅ := ⟨fun x v hv => by simp at hv, List.nil_subset _⟩

theorem bounded_heights (g : Grammar) : Bounded g.productions g.heights :=
  settle_induction (fun _ _ hp hb => hb.relax hp) bounded_empty

end Heights

namespace Grammar
variable {g : Grammar} {x : Symbol}

/-- The symbols with heights are those with derivations. -/
theorem exists_find?_heights_iff :
    (∃ v, g.heights.find? x = some v) ↔ g.IsProductive x := by
  constructor
  · rintro ⟨v, hv⟩
    obtain ⟨t, hx, ht, -⟩ := Heights.attained_heights g x v hv
    exact ⟨t, hx, ht⟩
  · rintro ⟨t, rfl, ht⟩
    obtain ⟨v, hv, -⟩ := (Heights.settled_heights g).find?_root_le ht
    exact ⟨v, hv⟩

theorem find?_heights_le {v : Nat} (hv : g.heights.find? x = some v) : v ≤ g.leftSides.card := by
  have hb := Heights.bounded_heights g
  have hnodup : g.heights.keys.Nodup := g.heights.nodup
  calc v ≤ g.heights.keys.length := Dictionary.length_keys g.heights ▸ hb.le_size x v hv
    _ = g.heights.keys.toFinset.card := (List.toFinset_card_of_nodup hnodup).symm
    _ ≤ g.leftSides.card := Finset.card_le_card fun y hy =>
        List.mem_toFinset.2 (hb.keys_subset (List.mem_toFinset.1 hy))

end Grammar

end Chomsky
