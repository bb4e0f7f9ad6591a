import Chomsky.Proofs.Grammar.Attained
import Chomsky.Proofs.Sentence.Grown
import Mathlib.Algebra.Group.Nat.Defs
/-!
# Growth comes to an end

A symbol with a height has a derivation of that height, and the production at its root may be
taken at any depth. A pair that may be taken has two symbols with heights. So however the choices
fall, growth never meets a symbol without candidates, and it ends with a derivation: above the
depth budget each level costs one, and below it what is left is bounded by the heights.
-/
namespace Chomsky

/-! ## Sizes of trees -/

namespace Tree

end Tree

/-! ## Candidates -/

variable {g : Grammar} {start x : Symbol} {depth v : Nat}

/-- A symbol with a height has candidates at any depth: a derivation of this height begins with
one. -/
theorem candidates_ne_nil (hv : g.heights.find? x = some v) (depth : Nat) :
    candidates g g.heights x depth ≠ [] := by
  obtain ⟨t, rfl, ht, rfl⟩ := Heights.attained_heights g x v hv
  exact List.ne_nil_of_mem
    (rootRhs_mem_candidates (Heights.settled_heights g) ht fun _ => hv)

theorem find?_of_pair_mem_candidates {h : Heights} {l r : Symbol}
    (hpair : .pair l r ∈ candidates g h x depth) :
    (∃ v, h.find? l = some v) ∧ ∃ v, h.find? r = some v := by
  obtain ⟨k, hk, -⟩ := mayTake_iff.1 (mem_candidates.1 hpair).2
  obtain ⟨vl, hl, vr, hr, -⟩ := Rhs.height?_pair_eq_some.1 hk
  exact ⟨⟨vl, hl⟩, vr, hr⟩

/-- From a symbol with a height, growth ends with a derivation whatever is chosen. -/
theorem exists_grow {σ : Type} (choose : Chooser σ) (hv : ∃ v, g.heights.find? x = some v)
    (depth : Nat) (s : σ) : ∃ t s', grow choose g g.heights x depth s = some (t, s') := by
  induction x, depth using growth_induction g g.heights generalizing s with
  | step x depth ih =>
    obtain ⟨v, hv⟩ := hv
    obtain ⟨c, cs, hc⟩ := List.exists_cons_of_ne_nil (candidates_ne_nil hv depth)
    have hmem : (c :: cs).get (choose cs.length s).1 ∈ candidates g g.heights x depth := by
      rw [hc]
      exact List.get_mem _ _
    rw [grow_eq_growFrom choose g g.heights x depth hc]
    -- nothing else is known about the choice, so the argument covers every chooser
    generalize (c :: cs).get (choose cs.length s).1 = rhs at hmem
    cases rhs with
    | terminal c => exact ⟨_, _, rfl⟩
    | empty => exact ⟨_, _, rfl⟩
    | pair l r =>
      obtain ⟨hl, hr⟩ := find?_of_pair_mem_candidates hmem
      obtain ⟨growl, growr⟩ := ih l r hmem
      obtain ⟨left, sl, hleft⟩ := growl hl (choose cs.length s).2
      obtain ⟨right, sr, hright⟩ := growr hr sl
      exact ⟨.node x left right, sr, by simp [growFrom, hleft, hright]⟩

namespace Generator

theorem exists_derivation? {σ : Type} (choose : Chooser σ) (hstart : g.IsProductive start) (s : σ) :
    ∃ t s', (ofGrammar g).derivation? choose start s = some (t, s') ∧ t.root = start ∧
      t.IsFor g.productions ∧ t.IsLowBelow g.heights 0 := by
  obtain ⟨v, hv⟩ := Grammar.exists_find?_heights_iff.2 hstart
  obtain ⟨t, s', hgrow⟩ := exists_grow choose ⟨v, hv⟩ 0 s
  exact ⟨t, s', Option.bind_eq_some_iff.2 ⟨v, hv, hgrow⟩, isLowBelow_of_grow hgrow⟩

end Generator

end Chomsky
