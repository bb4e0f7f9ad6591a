import Chomsky.Grammar.Heights
/-!
# Settled heights

The heights of a grammar are settled: relaxing with any production once more changes nothing.
Hence no derivation is lower than the height of its root, which every derivation gives to its
root by induction on the tree.
-/
namespace Chomsky

theorem Rhs.height?_pair {h : Heights} {l r : Symbol} {vl vr : Nat} (hl : h.find? l = some vl)
    (hr : h.find? r = some vr) : (Rhs.pair l r).height? h = some (1 + max vl vr) := by
  simp [Rhs.height?, hl, hr]

theorem Rhs.height?_pair_eq_some {h : Heights} {l r : Symbol} {k : Nat} :
    (Rhs.pair l r).height? h = some k ↔
      ∃ vl, h.find? l = some vl ∧ ∃ vr, h.find? r = some vr ∧ 1 + max vl vr = k := by
  simp only [Rhs.height?, Option.bind_eq_some_iff, Option.map_eq_some_iff]

namespace Heights

/-- No production of `ps` improves on the heights. -/
def Settled (ps : List Production) (h : Heights) : Prop := ∀ p ∈ ps, relax h p = h

/-- A pass that changes nothing is made of steps that change nothing: a step that changed
something would use up potential, which no later step gives back. -/
theorem settled_of_pass_eq {ps : List Production} {h : Heights} (hpass : pass ps h = h) :
    Settled ps h := by
  suffices key : ∀ qs, (∀ q ∈ qs, q ∈ ps) → pass qs h = h → Settled qs h from
    key ps (fun _ hp => hp) hpass
  intro qs
  induction qs with
  | nil => exact fun _ _ q hq => absurd hq List.not_mem_nil
  | cons q qs ih =>
    intro hps hpass
    have hrest : ∀ r ∈ qs, r ∈ ps := fun r hr => hps r (List.mem_cons_of_mem q hr)
    have hcons : pass (q :: qs) h = pass qs (relax h q) := rfl
    have hq : relax h q = h := by
      rcases relax_eq_or_potential_lt h (hps q List.mem_cons_self) with heq | hlt
      · exact heq
      · rcases pass_eq_or_potential_lt (relax h q) hrest with hlater | hlater
        · rw [← hlater, ← hcons, hpass]
        · rw [← hcons, hpass] at hlater
          omega
    rw [hcons, hq] at hpass
    exact List.forall_mem_cons.2 ⟨hq, ih hrest hpass⟩

theorem settled_heights (g : Grammar) : Settled g.productions g.heights :=
  settled_of_pass_eq (pass_settle g.productions ∅)

variable {ps : List Production} {h : Heights}

/-- The height of a symbol is at most what any of its productions gives it. -/
theorem Settled.find?_lhs_le (hs : Settled ps h) {p : Production} (hp : p ∈ ps) {k : Nat}
    (hk : p.rhs.height? h = some k) : ∃ v, h.find? p.lhs = some v ∧ v ≤ k := by
  have hrelax := hs p hp
  simp only [relax, hk] at hrelax
  split at hrelax
  · have hfind := Dictionary.find?_set h p.lhs p.lhs k
    rw [hrelax, if_pos rfl] at hfind
    exact ⟨k, hfind, Nat.le_refl k⟩
  · rename_i hall
    cases hv : h.find? p.lhs with
    | none => simp [hv] at hall
    | some v => exact ⟨v, rfl, by simpa [hv] using hall⟩

/-- The root of a derivation has a height, and the derivation is no lower. -/
theorem Settled.find?_root_le (hs : Settled ps h) {t : Tree} (ht : t.IsFor ps) :
    ∃ v, h.find? t.root = some v ∧ v ≤ t.height := by
  induction t with
  | leaf x c => exact hs.find?_lhs_le (Tree.isFor_leaf.1 ht) rfl
  | hollow x => exact hs.find?_lhs_le (Tree.isFor_hollow.1 ht) rfl
  | node x left right ihl ihr =>
    obtain ⟨hx, hleft, hright⟩ := Tree.isFor_node.1 ht
    obtain ⟨vl, hvl, hl⟩ := ihl hleft
    obtain ⟨vr, hvr, hr⟩ := ihr hright
    obtain ⟨v, hv, hle⟩ := hs.find?_lhs_le hx (Rhs.height?_pair hvl hvr)
    refine ⟨v, hv, ?_⟩
    simp only [Tree.height]
    omega

end Heights

end Chomsky
