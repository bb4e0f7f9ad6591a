import Chomsky.Grammar.Basic
import Mathlib.Data.Set.Defs
/-!
# Derivability

A symbol derives a string when there is a derivation tree between the two. Which productions
the tree may use is a set, so that derivations without empty leaves are derivations with the
proper productions only, and the productions of a list need not be listed.

## Main definitions

* `Derivable ps x s`: there is a derivation of `s` from `x` with productions of `ps`.
* `proper ps`: the terminal and the pair productions of `ps`.
* `Admits ps x s`: the same with proper productions, or with an empty production at the root.
-/
namespace Chomsky

/-- There is a derivation of `s` from `x` that uses productions of `ps` only. -/
def Derivable (ps : Set Production) (x : Symbol) (s : List Char) : Prop :=
  ∃ t : Tree, t.root = x ∧ t.sentence = s ∧ ∀ p ∈ t.productions, p ∈ ps

/-- The terminal and the pair productions among `ps`. -/
def proper (ps : Set Production) : Set Production := {p | p ∈ ps ∧ p.rhs ≠ .empty}

/-- There is a derivation of `s` from `x` in which an empty production is used at the root
or not at all. -/
def Admits (ps : Set Production) (x : Symbol) (s : List Char) : Prop :=
  Derivable (proper ps) x s ∨ s = [] ∧ ⟨x, .empty⟩ ∈ ps

@[simp] theorem mem_proper {ps : Set Production} {p : Production} :
    p ∈ proper ps ↔ p ∈ ps ∧ p.rhs ≠ .empty := Iff.rfl

variable {ps qs : Set Production} {x l r : Symbol} {s u v : List Char}

theorem Derivable.mono (hpq : ∀ p ∈ ps, p ∈ qs) (h : Derivable ps x s) : Derivable qs x s := by
  obtain ⟨t, hx, hs, ht⟩ := h
  exact ⟨t, hx, hs, fun p hp => hpq p (ht p hp)⟩

theorem Derivable.terminal {c : Char} (h : ⟨x, .terminal c⟩ ∈ ps) : Derivable ps x [c] :=
  ⟨.leaf x c, rfl, rfl, Tree.forall_productions_leaf.2 h⟩

theorem Derivable.empty (h : ⟨x, .empty⟩ ∈ ps) : Derivable ps x [] :=
  ⟨.hollow x, rfl, rfl, Tree.forall_productions_hollow.2 h⟩

theorem Derivable.pair (h : ⟨x, .pair l r⟩ ∈ ps) (hl : Derivable ps l u)
    (hr : Derivable ps r v) : Derivable ps x (u ++ v) := by
  obtain ⟨left, rfl, rfl, hleft⟩ := hl
  obtain ⟨right, rfl, rfl, hright⟩ := hr
  exact ⟨.node x left right, rfl, rfl, Tree.forall_productions_node.2 ⟨h, hleft, hright⟩⟩

/-- A derivation begins with a terminal, an empty or a pair production. -/
theorem derivable_iff : Derivable ps x s ↔
    (∃ c, s = [c] ∧ ⟨x, .terminal c⟩ ∈ ps) ∨ (s = [] ∧ ⟨x, .empty⟩ ∈ ps) ∨
      ∃ l r u v, ⟨x, .pair l r⟩ ∈ ps ∧ Derivable ps l u ∧ Derivable ps r v ∧ s = u ++ v := by
  constructor
  · rintro ⟨t, rfl, rfl, ht⟩
    cases t with
    | leaf x c => exact Or.inl ⟨c, rfl, Tree.forall_productions_leaf.1 ht⟩
    | hollow x => exact Or.inr (Or.inl ⟨rfl, Tree.forall_productions_hollow.1 ht⟩)
    | node x left right =>
      obtain ⟨hx, hleft, hright⟩ := Tree.forall_productions_node.1 ht
      exact Or.inr (Or.inr ⟨left.root, right.root, left.sentence, right.sentence, hx,
        ⟨left, rfl, rfl, hleft⟩, ⟨right, rfl, rfl, hright⟩, rfl⟩)
  · rintro (⟨c, rfl, h⟩ | ⟨rfl, h⟩ | ⟨l, r, u, v, h, hl, hr, rfl⟩)
    · exact Derivable.terminal h
    · exact Derivable.empty h
    · exact Derivable.pair h hl hr

/-- With proper productions every leaf carries a terminal. -/
theorem Tree.sentence_ne_nil {t : Tree} (h : ∀ p ∈ t.productions, p.rhs ≠ .empty) :
    t.sentence ≠ [] := by
  induction t with
  | leaf x c => exact List.cons_ne_nil c []
  | hollow x => exact absurd rfl (forall_productions_hollow.1 h)
  | node x left right ihl ihr =>
    have hleft := ihl (forall_productions_node.1 h).2.1
    intro hs
    exact hleft (List.append_eq_nil_iff.1 hs).1

theorem Derivable.ne_nil (h : Derivable (proper ps) x s) : s ≠ [] := by
  obtain ⟨t, rfl, rfl, ht⟩ := h
  exact Tree.sentence_ne_nil fun p hp => (ht p hp).2

/-- With proper productions a derivation begins with a terminal or a pair production. -/
theorem derivable_proper_iff : Derivable (proper ps) x s ↔
    (∃ c, s = [c] ∧ ⟨x, .terminal c⟩ ∈ ps) ∨
      ∃ l r u v, ⟨x, .pair l r⟩ ∈ ps ∧ Derivable (proper ps) l u ∧ Derivable (proper ps) r v ∧
        s = u ++ v := by
  rw [derivable_iff]
  simp

theorem derivable_proper_singleton {c : Char} :
    Derivable (proper ps) x [c] ↔ ⟨x, .terminal c⟩ ∈ ps := by
  rw [derivable_proper_iff]
  constructor
  · rintro (⟨d, hd, h⟩ | ⟨l, r, u, v, -, hu, hv, huv⟩)
    · rw [List.singleton_inj] at hd
      exact hd ▸ h
    · have hlen := congrArg List.length huv
      have hu0 := List.length_pos_iff.2 hu.ne_nil
      have hv0 := List.length_pos_iff.2 hv.ne_nil
      rw [List.length_append, List.length_singleton] at hlen
      omega
  · intro h
    exact Or.inl ⟨c, rfl, h⟩

/-- A longer string takes a pair production and is cut in two, neither part being empty. -/
theorem derivable_proper_iff_cut (hs : 1 < s.length) : Derivable (proper ps) x s ↔
    ∃ k, k + 1 < s.length ∧ ∃ l r, ⟨x, .pair l r⟩ ∈ ps ∧
      Derivable (proper ps) l (s.take (k + 1)) ∧ Derivable (proper ps) r (s.drop (k + 1)) := by
  rw [derivable_proper_iff]
  constructor
  · rintro (⟨c, rfl, -⟩ | ⟨l, r, u, v, h, hu, hv, rfl⟩)
    · exact absurd hs (Nat.lt_irrefl 1)
    · have hu0 := List.length_pos_iff.2 hu.ne_nil
      have hv0 := List.length_pos_iff.2 hv.ne_nil
      have hk : u.length - 1 + 1 = u.length := by omega
      refine ⟨u.length - 1, ?_, l, r, h, ?_, ?_⟩
      · rw [List.length_append]
        omega
      · rw [hk, List.take_left]
        exact hu
      · rw [hk, List.drop_left]
        exact hv
  · rintro ⟨k, -, l, r, h, hl, hr⟩
    exact Or.inr ⟨l, r, _, _, h, hl, hr, (List.take_append_drop (k + 1) s).symm⟩

theorem Admits.derivable (h : Admits ps x s) : Derivable ps x s := by
  rcases h with h | ⟨rfl, h⟩
  · exact h.mono fun p hp => hp.1
  · exact Derivable.empty h

/-- Where no symbol of a pair has an empty production, empty leaves occur at the root only. -/
theorem Tree.mem_proper (hps : ∀ p ∈ ps, ∀ y ∈ p.rhs.symbols, ⟨y, .empty⟩ ∉ ps) {t : Tree}
    (ht : ∀ p ∈ t.productions, p ∈ ps) (hroot : ⟨t.root, .empty⟩ ∉ ps) :
    ∀ p ∈ t.productions, p ∈ proper ps := by
  induction t with
  | leaf x c => exact forall_productions_leaf.2 ⟨forall_productions_leaf.1 ht, by simp⟩
  | hollow x => exact absurd (forall_productions_hollow.1 ht) hroot
  | node x left right ihl ihr =>
    obtain ⟨hx, hleft, hright⟩ := forall_productions_node.1 ht
    have hl := hps _ hx left.root (by simp [Rhs.symbols])
    have hr := hps _ hx right.root (by simp [Rhs.symbols])
    exact forall_productions_node.2 ⟨⟨hx, by simp⟩, ihl hleft hl, ihr hright hr⟩

/-- Where no symbol of a pair has an empty production, all that is derivable is admitted. -/
theorem Derivable.admits (hps : ∀ p ∈ ps, ∀ y ∈ p.rhs.symbols, ⟨y, .empty⟩ ∉ ps)
    (h : Derivable ps x s) : Admits ps x s := by
  rcases derivable_iff.1 h with ⟨c, rfl, hx⟩ | hempty | ⟨l, r, u, v, hx, hl, hr, rfl⟩
  · exact Or.inl (Derivable.terminal ⟨hx, by simp⟩)
  · exact Or.inr hempty
  · obtain ⟨left, rfl, rfl, hleft⟩ := hl
    obtain ⟨right, rfl, rfl, hright⟩ := hr
    have hnl := hps _ hx left.root (by simp [Rhs.symbols])
    have hnr := hps _ hx right.root (by simp [Rhs.symbols])
    exact Or.inl (Derivable.pair ⟨hx, by simp⟩ ⟨left, rfl, rfl, Tree.mem_proper hps hleft hnl⟩
      ⟨right, rfl, rfl, Tree.mem_proper hps hright hnr⟩)

end Chomsky
