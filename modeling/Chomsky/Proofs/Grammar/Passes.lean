import Chomsky.Proofs.Grammar.Attained
import Mathlib.Logic.Function.Iterate
/-!
# The number of passes

A pass goes on with the heights that it has found itself, so the order of the productions decides
how far it gets. In any order it gets up by one level: after `n` passes the root of a derivation of
height `n` at most has a height, and one that is no higher than the derivation. The heights of a
grammar are at most the number of its left sides, so as many passes find them all.

## Main definitions

* `Heights.Visited`: the heights that the passes come to.
* `Heights.Within h x k`: the symbol has a height of at most `k`.
* `Heights.passCount`: the number of passes that are made.

## Main results

* `Heights.within_iterate_pass`: what a number of passes finds.
* `Grammar.passCount_le_card_leftSides`: how many passes there are.
-/
namespace Chomsky

namespace Heights

variable {ps : List Production} {h : Heights} {x : Symbol} {k : Nat}

/-! ## Heights on the way -/

/-- The passes come to these heights: after a number of passes and some productions of the next
pass. -/
def Visited (ps : List Production) (h : Heights) : Prop :=
  ∃ n k, h = pass (ps.take k) ((pass ps)^[n] ∅)

theorem visited_iterate_pass (ps : List Production) (n : Nat) : Visited ps ((pass ps)^[n] ∅) :=
  ⟨n, 0, rfl⟩

theorem Visited.induction {P : Heights → Prop} (hvisited : Visited ps h) (h₀ : P ∅)
    (hstep : ∀ h, ∀ p ∈ ps, P h → P (h.relax p)) : P h := by
  have hiterate : ∀ n, P ((pass ps)^[n] ∅) := by
    intro n
    induction n with
    | zero => exact h₀
    | succ n ih =>
      rw [Function.iterate_succ_apply']
      exact pass_induction hstep ih
  obtain ⟨n, k, rfl⟩ := hvisited
  exact pass_induction (fun h p hp => hstep h p (List.mem_of_mem_take hp)) (hiterate n)

theorem Visited.attained (hvisited : Visited ps h) : Attained ps h :=
  hvisited.induction attained_empty fun _ _ hp ha => ha.relax hp

theorem Visited.bounded (hvisited : Visited ps h) : Bounded ps h :=
  hvisited.induction bounded_empty fun _ _ hp hb => hb.relax hp

/-! ## Heights within bounds -/

/-- The symbol has a height of at most `k`. -/
def Within (h : Heights) (x : Symbol) (k : Nat) : Prop := ∃ v, h.find? x = some v ∧ v ≤ k

/-- A pair is at most one higher than the bound of its symbols. -/
theorem exists_height?_pair_le {l r : Symbol} {kl kr : Nat} (hl : h.Within l kl)
    (hr : h.Within r kr) : ∃ j, (Rhs.pair l r).height? h = some j ∧ j ≤ 1 + max kl kr := by
  obtain ⟨vl, hvl, hkl⟩ := hl
  obtain ⟨vr, hvr, hkr⟩ := hr
  exact ⟨1 + max vl vr, Rhs.height?_pair hvl hvr, by omega⟩

/-- A step lowers heights or leaves them. -/
theorem Within.relax (hx : h.Within x k) (p : Production) : (h.relax p).Within x k := by
  obtain ⟨v, hv, hle⟩ := hx
  rcases relax_cases h p with heq | ⟨j, -, hlow, heq⟩
  · exact ⟨v, by rw [heq, hv], hle⟩
  · by_cases hp : x = p.lhs
    · subst hp
      have hjv := hlow v hv
      exact ⟨j, by simp [heq, Dictionary.find?_set], by omega⟩
    · exact ⟨v, by simp [heq, Dictionary.find?_set, hp, hv], hle⟩

theorem Within.pass (hx : h.Within x k) (ps : List Production) : (pass ps h).Within x k :=
  pass_induction (P := fun h => h.Within x k) (fun _ p _ hx => hx.relax p) hx

theorem within_relax_lhs {p : Production} {j : Nat} (hj : p.rhs.height? h = some j)
    (hle : j ≤ k) : (h.relax p).Within p.lhs k := by
  simp only [relax, hj]
  split
  · exact ⟨j, by simp [Dictionary.find?_set], hle⟩
  · rename_i hnot
    cases hv : h.find? p.lhs with
    | none => simp [hv] at hnot
    | some v =>
      have hvj : v ≤ j := by simpa [hv] using hnot
      exact ⟨v, hv, by omega⟩

/-- In a pass every production comes to its step, with heights that are no higher than at the
start of the pass. -/
theorem within_pass {p : Production} (hp : p ∈ ps)
    (hk : ∀ h' : Heights, (∀ y j, h.Within y j → h'.Within y j) →
      ∃ j, p.rhs.height? h' = some j ∧ j ≤ k) : (pass ps h).Within p.lhs k := by
  obtain ⟨before, behind, rfl⟩ := List.append_of_mem hp
  obtain ⟨j, hj, hle⟩ := hk (pass before h) fun y j hy => hy.pass before
  have hsplit : pass (before ++ p :: behind) h = pass behind ((pass before h).relax p) :=
    List.foldl_append ..
  rw [hsplit]
  exact (within_relax_lhs hj hle).pass behind

/-- After `n` passes the root of a derivation of height `n` at most has a height, and one that is no
higher than the derivation. -/
theorem within_iterate_pass {t : Tree} (ht : t.IsFor ps) {n : Nat} (hn : t.height ≤ n) :
    ((pass ps)^[n] h).Within t.root t.height := by
  induction t generalizing n with
  | leaf x c =>
    obtain ⟨m, rfl⟩ := Nat.exists_eq_add_of_le' hn
    rw [Tree.height, Function.iterate_succ_apply']
    exact within_pass (Tree.isFor_leaf.1 ht) fun _ _ => ⟨1, rfl, Nat.le_refl 1⟩
  | hollow x =>
    obtain ⟨m, rfl⟩ := Nat.exists_eq_add_of_le' hn
    rw [Tree.height, Function.iterate_succ_apply']
    exact within_pass (Tree.isFor_hollow.1 ht) fun _ _ => ⟨1, rfl, Nat.le_refl 1⟩
  | node x left right ihl ihr =>
    obtain ⟨hx, hleft, hright⟩ := Tree.isFor_node.1 ht
    obtain ⟨m, rfl⟩ := Nat.exists_eq_add_of_le' hn
    have hl : left.height ≤ m + max left.height right.height := by omega
    have hr : right.height ≤ m + max left.height right.height := by omega
    -- the last pass takes the production at the root, the passes before it find both subtrees
    rw [Tree.height, ← Nat.add_assoc, Nat.add_right_comm, Function.iterate_succ_apply']
    refine within_pass hx fun h' hh' => ?_
    exact exists_height?_pair_le (hh' _ _ (ihl hleft hl)) (hh' _ _ (ihr hright hr))

/-! ## The last pass -/

theorem Settled.pass_eq (hs : Settled ps h) : Heights.pass ps h = h :=
  pass_induction (P := (· = h)) (fun _ p hp heq => heq ▸ hs p hp) rfl

/-- After as many passes as there are left sides no production improves on the heights: what it
gives to its left side is the height of a derivation, and the lowest derivation from there has been
found. -/
theorem settled_iterate_pass (g : Grammar) :
    Settled g.productions ((pass g.productions)^[g.leftSides.card] ∅) := by
  intro p hp
  rcases relax_cases ((pass g.productions)^[g.leftSides.card] ∅) p with heq | ⟨k, hk, hlow, -⟩
  · exact heq
  · obtain ⟨t, hroot, ht, hheight⟩ :=
      (visited_iterate_pass _ g.leftSides.card).attained.exists_tree hp hk
    obtain ⟨v, hv, hvk⟩ := (settled_heights g).find?_root_le ht
    obtain ⟨lowest, hlroot, hlowest, hlheight⟩ := attained_heights g t.root v hv
    have hcard := Grammar.find?_heights_le hv
    obtain ⟨w, hw, hwv⟩ :=
      within_iterate_pass (h := ∅) hlowest (n := g.leftSides.card) (by omega)
    rw [hlroot, hroot] at hw
    have hkw := hlow w hw
    omega

/-- The number of passes that are made from given heights on, the last of them being the one that
changes nothing. -/
def passCount (ps : List Production) (h : Heights) : Nat :=
  if pass ps h = h then 1 else passCount ps (pass ps h) + 1
termination_by potential ps h
decreasing_by
  rename_i hne
  exact (pass_eq_or_potential_lt h fun _ hq => hq).resolve_left hne

/-- The passes that are made end with the settled heights. -/
theorem settle_eq_iterate_pass (ps : List Production) (h : Heights) :
    settle ps h = (pass ps)^[passCount ps h] h := by
  fun_induction passCount ps h with
  | case1 h heq => rw [settle, if_pos heq, Function.iterate_one, heq]
  | case2 h hne ih => rw [settle, if_neg hne, ih, Function.iterate_succ_apply]

/-- If a pass changes nothing after `n` of them, it was the last at the latest. -/
theorem passCount_le_of_pass_eq {n : Nat} (hn : pass ps ((pass ps)^[n] h) = (pass ps)^[n] h) :
    passCount ps h ≤ n + 1 := by
  induction n generalizing h with
  | zero => rw [passCount, if_pos (show pass ps h = h from hn)]
  | succ n ih =>
    rw [passCount]
    split
    · omega
    · have hrest := ih (h := pass ps h) hn
      omega

end Heights

/-- With `d` left sides the heights are settled after `d` passes, in whatever order the productions
stand: one more changes nothing. So at most `d + 1` passes are made. -/
theorem Grammar.passCount_le_card_leftSides (g : Grammar) :
    Heights.Settled g.productions ((Heights.pass g.productions)^[g.leftSides.card] ∅) ∧
      Heights.pass g.productions ((Heights.pass g.productions)^[g.leftSides.card] ∅) =
        (Heights.pass g.productions)^[g.leftSides.card] ∅ ∧
      g.heights = (Heights.pass g.productions)^[Heights.passCount g.productions ∅] ∅ ∧
      Heights.passCount g.productions ∅ ≤ g.leftSides.card + 1 := by
  have hsettled := Heights.settled_iterate_pass g
  have hpass := hsettled.pass_eq
  exact ⟨hsettled, hpass, Heights.settle_eq_iterate_pass _ _,
    Heights.passCount_le_of_pass_eq hpass⟩

/-- Productions with every symbol used before it is defined need all these passes. -/
example : Heights.passCount
    [⟨'S', .pair 'A' 'A'⟩, ⟨'A', .pair 'B' 'B'⟩, ⟨'B', .terminal 'b'⟩] ∅ = 3 + 1 := by
  decide +kernel

end Chomsky
