import Chomsky.Proofs.Grammar.Settled
import Chomsky.Sentence.Generator
/-!
# Which trees are grown

Growth gives up freedom at the depth budget: from there on every subtree is as low as the
height of its root says. Conversely each tree of the grammar that does so is grown, provided
that the chooser picks the right candidates, since its productions are candidates wherever they
are used. Random words can make it pick them as long as there are fewer candidates than words.

## Main definitions

* `Tree.subtreesFrom`: the subtrees of a tree with their depths.
* `Tree.IsLowBelow`: the subtrees below the depth budget have the heights of their roots.

## Main results

* `isLowBelow_of_grow`: grown trees are trees of the grammar and low below the budget.
* `exists_words_grow`, `exists_words_sentence_of_isLowBelow`: every such tree is grown for some
  words.
-/
namespace Chomsky

/-! ## Words for choices

Each of fewer candidates than words is taken for some word that is not refused: the least word
that points to the candidate leaves a remainder below the number of candidates, and no word with
such a remainder is refused. -/

namespace WordSource

/-- Remainders below the number of candidates are always accepted. -/
theorem le_zone {n : Nat} (hn : n + 1 < UInt32.size) : n ≤ zone (n + 1) := by
  have hlog : (n + 1).log2 < 32 := (Nat.log2_lt (Nat.succ_ne_zero n)).2 hn
  have hlt : (n + 1) * 2 ^ leadingZeros (n + 1) < UInt32.size := by
    have hself : n + 1 < 2 ^ ((n + 1).log2 + 1) := Nat.lt_log2_self
    calc (n + 1) * 2 ^ leadingZeros (n + 1)
        < 2 ^ ((n + 1).log2 + 1) * 2 ^ leadingZeros (n + 1) :=
          Nat.mul_lt_mul_of_pos_right hself (Nat.two_pow_pos _)
      _ = 2 ^ 32 := by
          rw [← Nat.pow_add, leadingZeros]
          congr 1
          omega
  have hle : n + 1 ≤ (n + 1) * 2 ^ leadingZeros (n + 1) :=
    Nat.le_mul_of_pos_right _ (Nat.two_pow_pos _)
  rw [zone, Nat.shiftLeft_eq, Nat.mod_eq_of_lt hlt]
  omega

/-- Each of fewer candidates than words has an accepted word that points to it. -/
theorem exists_accepted_word {n : Nat} (hn : n + 1 < UInt32.size) (i : Fin (n + 1)) :
    ∃ w, accepts (n + 1) w = true ∧ candidate n w = i := by
  have hsize : UInt32.size = 4294967296 := rfl
  have hsmall : n + 1 < 4294967296 := hn
  have hi : i.val ≤ n := Nat.le_of_lt_succ i.isLt
  let q := (i.val * UInt32.size + n) / (n + 1)
  let r := n - (i.val * UInt32.size + n) % (n + 1)
  have hr : r ≤ n := Nat.sub_le _ _
  have hq : q * (n + 1) = i.val * UInt32.size + r := by
    have hdiv := Nat.div_add_mod' (i.val * UInt32.size + n) (n + 1)
    have hmod : (i.val * UInt32.size + n) % (n + 1) < n + 1 := Nat.mod_lt _ (Nat.succ_pos n)
    change q * (n + 1) + _ = _ at hdiv
    omega
  have hword : q < UInt32.size := by
    refine Nat.lt_of_mul_lt_mul_right (a := n + 1) ?_
    rw [hq, hsize]
    omega
  have htoNat : (UInt32.ofNatLT q hword).toNat = q := UInt32.toNat_ofNatLT
  refine ⟨UInt32.ofNatLT q hword, ?_, ?_⟩
  · have hle := le_zone hn
    rw [accepts, htoNat, hq, decide_eq_true_eq, hsize]
    omega
  · apply Fin.ext
    change (UInt32.ofNatLT q hword).toNat * (n + 1) / UInt32.size = i.val
    rw [htoNat, hq, hsize]
    omega

theorem choose_of_accepts {n : Nat} {w : UInt32} (hw : accepts (n + 1) w = true)
    (ws : List UInt32) (state : UInt64) (taken : Nat) :
    choose n ⟨w :: ws, state, taken⟩ = (candidate n w, ⟨ws, state, taken + 1⟩) := by
  obtain ⟨budget, hbudget⟩ : ∃ budget, (w :: ws).length + UInt64.size = budget + 1 :=
    Nat.exists_eq_succ_of_ne_zero (by simp)
  rw [choose, hbudget, search]
  simp [next, hw]

end WordSource

/-! ## Low trees -/

namespace Tree

/-- The subtrees of a tree, each with the depth of its root, when the tree itself has its root
at a certain depth. -/
def subtreesFrom (depth : Nat) : Tree → List (Nat × Tree)
  | leaf x c => [(depth, leaf x c)]
  | hollow x => [(depth, hollow x)]
  | node x left right =>
    (depth, node x left right) ::
      (left.subtreesFrom (depth + 1) ++ right.subtreesFrom (depth + 1))

def rootRhs : Tree → Rhs
  | leaf _ c => .terminal c
  | hollow _ => .empty
  | node _ left right => .pair left.root right.root

/-- From the depth budget on every subtree has the height of the symbol at its root. -/
def IsLowBelow (h : Heights) (depth : Nat) (t : Tree) : Prop :=
  ∀ p ∈ t.subtreesFrom depth, depthBudget ≤ p.1 → h.find? p.2.root = some p.2.height

variable {h : Heights} {depth : Nat} {x : Symbol} {left right : Tree}

theorem isLowBelow_leaf {c : Char} : (leaf x c).IsLowBelow h depth ↔
    (depthBudget ≤ depth → h.find? x = some 1) := by
  rw [IsLowBelow, subtreesFrom, List.forall_mem_singleton, root, height]

theorem isLowBelow_hollow : (hollow x).IsLowBelow h depth ↔
    (depthBudget ≤ depth → h.find? x = some 1) := by
  rw [IsLowBelow, subtreesFrom, List.forall_mem_singleton, root, height]

theorem isLowBelow_node : (node x left right).IsLowBelow h depth ↔
    (depthBudget ≤ depth → h.find? x = some (1 + max left.height right.height)) ∧
      left.IsLowBelow h (depth + 1) ∧ right.IsLowBelow h (depth + 1) := by
  rw [IsLowBelow, subtreesFrom, List.forall_mem_cons, List.forall_mem_append, root, height]
  rfl

theorem IsLowBelow.find?_root {t : Tree} (ht : t.IsLowBelow h depth)
    (hd : depthBudget ≤ depth) : h.find? t.root = some t.height := by
  cases t with
  | leaf x c => exact isLowBelow_leaf.1 ht hd
  | hollow x => exact isLowBelow_hollow.1 ht hd
  | node x left right => exact (isLowBelow_node.1 ht).1 hd

end Tree

theorem mayTake_iff {h : Heights} {x : Symbol} {depth : Nat} {rhs : Rhs} :
    mayTake h x depth rhs = true ↔
      ∃ k, rhs.height? h = some k ∧ (depth < depthBudget ∨ h.find? x = some k) := by
  simp [mayTake, Option.any_eq_true]

theorem mem_candidates {g : Grammar} {h : Heights} {x : Symbol} {depth : Nat} {rhs : Rhs} :
    rhs ∈ candidates g h x depth ↔
      ⟨x, rhs⟩ ∈ g.productions ∧ mayTake h x depth rhs = true := by
  rw [candidates, List.mem_filter, List.mem_map]
  refine and_congr_left fun _ => ?_
  constructor
  · rintro ⟨⟨y, _⟩, hp, rfl⟩
    obtain ⟨hmem, rfl⟩ := Grammar.mem_rulesFor.1 hp
    exact hmem
  · intro hp
    exact ⟨⟨x, rhs⟩, Grammar.mem_rulesFor.2 ⟨hp, rfl⟩, rfl⟩

/-- A pair that may be taken comes closer to the leaves with both its symbols, so what follows for
a symbol at a depth from its candidates holds at every depth. -/
theorem growth_induction (g : Grammar) (h : Heights) {motive : Symbol → Nat → Prop}
    (step : ∀ x depth, (∀ l r, .pair l r ∈ candidates g h x depth →
      motive l (depth + 1) ∧ motive r (depth + 1)) → motive x depth) (x : Symbol) (depth : Nat) :
    motive x depth := by
  induction hm : growthMeasure h x depth using Nat.strongRecOn generalizing x depth with
  | ind m ih =>
    refine step x depth fun l r hmem => ?_
    obtain ⟨hl, hr⟩ := growthMeasure_lt_of_mayTake (mem_candidates.1 hmem).2
    exact ⟨ih _ (hm ▸ hl) l (depth + 1) rfl, ih _ (hm ▸ hr) r (depth + 1) rfl⟩

section
variable {σ : Type} (choose : Chooser σ) (g : Grammar) (h : Heights) (x : Symbol) (depth : Nat)

/-- What becomes of a symbol when its right side is settled. -/
def growFrom (rhs : Rhs) (s : σ) : Option (Tree × σ) :=
  match rhs with
  | .terminal t => some (.leaf x t, s)
  | .empty => some (.hollow x, s)
  | .pair l r =>
    (grow choose g h l (depth + 1) s).bind fun left =>
      (grow choose g h r (depth + 1) left.2).map fun right =>
        (.node x left.1 right.1, right.2)

/-- Growth settles the right side of its symbol by one choice among the candidates. -/
theorem grow_eq_growFrom {c : Rhs} {cs : List Rhs} (hc : candidates g h x depth = c :: cs)
    (s : σ) :
    grow choose g h x depth s =
      growFrom choose g h x depth ((c :: cs).get (choose cs.length s).1)
        (choose cs.length s).2 := by
  rw [grow]
  split
  · rename_i heq
    exact absurd (hc.symm.trans heq) (List.cons_ne_nil c cs)
  · rename_i heq
    obtain ⟨rfl, rfl⟩ := List.cons.inj (hc.symm.trans heq)
    unfold growFrom
    dsimp only
    split <;> rename_i hp <;>
      rw [show (c :: cs).get (choose cs.length s).1 = _ from hp]

theorem grow_of_candidates_nil (hc : candidates g h x depth = []) (s : σ) :
    grow choose g h x depth s = none := by
  rw [grow]
  split
  · rfl
  · rename_i heq
    exact absurd (heq.symm.trans hc) (List.cons_ne_nil _ _)

end

/-- A grown tree is a derivation from its symbol that is low below the depth budget. Below the
budget the right side that was taken gives the symbol its height, and so do the subtrees. -/
theorem isLowBelow_of_grow {σ : Type} {choose : Chooser σ} {g : Grammar} {h : Heights}
    {x : Symbol} {depth : Nat} {s s' : σ} {t : Tree}
    (hgrow : grow choose g h x depth s = some (t, s')) :
    t.root = x ∧ t.IsFor g.productions ∧ t.IsLowBelow h depth := by
  induction x, depth using growth_induction g h generalizing s s' t with
  | step x depth ih =>
    cases hc : candidates g h x depth with
    | nil =>
      rw [grow_of_candidates_nil choose g h x depth hc] at hgrow
      exact absurd hgrow (by simp)
    | cons c cs =>
      rw [grow_eq_growFrom choose g h x depth hc] at hgrow
      have hmem : (c :: cs).get (choose cs.length s).1 ∈ candidates g h x depth := by
        rw [hc]
        exact List.get_mem _ _
      generalize (c :: cs).get (choose cs.length s).1 = rhs at hgrow hmem
      obtain ⟨hprod, htake⟩ := mem_candidates.1 hmem
      obtain ⟨k, hk, hlow⟩ := mayTake_iff.1 htake
      have hheight : depthBudget ≤ depth → h.find? x = some k :=
        fun hd => hlow.resolve_left (by omega)
      cases rhs with
      | terminal c =>
        obtain ⟨rfl, rfl⟩ : Tree.leaf x c = t ∧ _ := by simpa [growFrom] using hgrow
        obtain rfl : 1 = k := by simpa [Rhs.height?] using hk
        exact ⟨rfl, Tree.isFor_leaf.2 hprod, Tree.isLowBelow_leaf.2 hheight⟩
      | empty =>
        obtain ⟨rfl, rfl⟩ : Tree.hollow x = t ∧ _ := by simpa [growFrom] using hgrow
        obtain rfl : 1 = k := by simpa [Rhs.height?] using hk
        exact ⟨rfl, Tree.isFor_hollow.2 hprod, Tree.isLowBelow_hollow.2 hheight⟩
      | pair l r =>
        obtain ⟨⟨left, sl⟩, hleft, ⟨right, sr⟩, hright, heq⟩ : ∃ left,
            grow choose g h l (depth + 1) (choose cs.length s).2 = some left ∧ ∃ right,
              grow choose g h r (depth + 1) left.2 = some right ∧
                (Tree.node x left.1 right.1, right.2) = (t, s') := by
          simpa only [growFrom, Option.bind_eq_some_iff, Option.map_eq_some_iff] using hgrow
        obtain ⟨rfl, rfl⟩ := Prod.mk.inj heq
        obtain ⟨hl, hr⟩ := ih l r hmem
        obtain ⟨rfl, hforl, hlowl⟩ := hl hleft
        obtain ⟨rfl, hforr, hlowr⟩ := hr hright
        refine ⟨rfl, Tree.isFor_node.2 ⟨hprod, hforl, hforr⟩,
          Tree.isLowBelow_node.2 ⟨?_, hlowl, hlowr⟩⟩
        intro hd
        have hl := hlowl.find?_root (by omega)
        have hr := hlowr.find?_root (by omega)
        obtain rfl : 1 + max left.height right.height = k := by
          rw [Rhs.height?_pair hl hr] at hk
          exact Option.some.inj hk
        exact hheight hd

/-! ## The trees that are grown -/

theorem Tree.IsFor.root_mem {ps : List Production} {t : Tree} (ht : t.IsFor ps) :
    ⟨t.root, t.rootRhs⟩ ∈ ps := by
  cases t with
  | leaf x c => exact Tree.isFor_leaf.1 ht
  | hollow x => exact Tree.isFor_hollow.1 ht
  | node x left right => exact (Tree.isFor_node.1 ht).1

/-- The production at the root of a tree gives a height that is at most that of the tree. -/
theorem Heights.Settled.height?_rootRhs_le {ps : List Production} {h : Heights}
    (hs : Settled ps h) {t : Tree} (ht : t.IsFor ps) :
    ∃ k, t.rootRhs.height? h = some k ∧ k ≤ t.height := by
  cases t with
  | leaf _ _ | hollow _ => exact ⟨1, rfl, Nat.le_refl 1⟩
  | node x left right =>
    obtain ⟨-, hleft, hright⟩ := Tree.isFor_node.1 ht
    obtain ⟨vl, hvl, hl⟩ := hs.find?_root_le hleft
    obtain ⟨vr, hvr, hr⟩ := hs.find?_root_le hright
    refine ⟨1 + max vl vr, Rhs.height?_pair hvl hvr, ?_⟩
    rw [Tree.height]
    omega

/-- Settled heights allow the production at the root of a tree above the depth budget, and below it
if the tree is as low as its root allows. -/
theorem rootRhs_mem_candidates {g : Grammar} {h : Heights}
    (hs : Heights.Settled g.productions h) {depth : Nat} {t : Tree} (ht : t.IsFor g.productions)
    (hlow : depthBudget ≤ depth → h.find? t.root = some t.height) :
    t.rootRhs ∈ candidates g h t.root depth := by
  obtain ⟨k, hk, hle⟩ := hs.height?_rootRhs_le ht
  refine mem_candidates.2 ⟨ht.root_mem, mayTake_iff.2 ⟨k, hk, ?_⟩⟩
  refine (Nat.lt_or_ge depth depthBudget).imp_right fun hd => ?_
  obtain ⟨v, hv, hvk⟩ := hs.find?_lhs_le ht.root_mem hk
  obtain rfl : t.height = v := Option.some.inj ((hlow hd).symm.trans hv)
  rw [hlow hd, Nat.le_antisymm hle hvk]

theorem exists_word_growFrom {g : Grammar} {h : Heights} {x : Symbol} {depth : Nat} {rhs : Rhs}
    (hbound : (g.rulesFor x).length < UInt32.size) (hmem : rhs ∈ candidates g h x depth) :
    ∃ w, ∀ ws state taken, grow WordSource.choose g h x depth ⟨w :: ws, state, taken⟩ =
      growFrom WordSource.choose g h x depth rhs ⟨ws, state, taken + 1⟩ := by
  have hlen : (candidates g h x depth).length ≤ (g.rulesFor x).length := by
    rw [candidates, ← List.length_map Production.rhs]
    exact List.length_filter_le _ _
  obtain ⟨c, cs, hc⟩ := List.exists_cons_of_ne_nil (List.ne_nil_of_mem hmem)
  rw [hc] at hmem hlen
  obtain ⟨i, hi, hrhs⟩ := List.getElem_of_mem hmem
  rw [List.length_cons] at hi hlen
  obtain ⟨w, hw, hcand⟩ := WordSource.exists_accepted_word (by omega) ⟨i, hi⟩
  refine ⟨w, fun ws state taken => ?_⟩
  rw [grow_eq_growFrom _ _ _ _ _ hc]
  simp [WordSource.choose_of_accepts hw, hcand, hrhs]

/-- Every tree of a grammar that is low below the depth budget is grown for some words, and takes
just these words if others follow them. -/
theorem exists_words_grow {g : Grammar} {h : Heights} (hs : Heights.Settled g.productions h)
    (hbound : ∀ x, (g.rulesFor x).length < UInt32.size) {t : Tree} {depth : Nat}
    (ht : t.IsFor g.productions) (hlow : t.IsLowBelow h depth) :
    ∃ words, ∀ ws state taken,
      grow WordSource.choose g h t.root depth ⟨words ++ ws, state, taken⟩ =
        some (t, ⟨ws, state, taken + words.length⟩) := by
  induction t generalizing depth with
  | leaf x _ | hollow x =>
    obtain ⟨w, hw⟩ := exists_word_growFrom (hbound x)
      (rootRhs_mem_candidates hs ht hlow.find?_root)
    exact ⟨[w], hw⟩
  | node x left right ihl ihr =>
    obtain ⟨w, hw⟩ := exists_word_growFrom (hbound x)
      (rootRhs_mem_candidates hs ht hlow.find?_root)
    obtain ⟨-, hleft, hright⟩ := Tree.isFor_node.1 ht
    obtain ⟨-, hlowl, hlowr⟩ := Tree.isLowBelow_node.1 hlow
    obtain ⟨wsl, hwsl⟩ := ihl hleft hlowl
    obtain ⟨wsr, hwsr⟩ := ihr hright hlowr
    refine ⟨w :: (wsl ++ wsr), fun ws state taken => ?_⟩
    have htaken : taken + 1 + wsl.length + wsr.length = taken + (w :: (wsl ++ wsr)).length := by
      rw [List.length_cons, List.length_append]
      omega
    rw [Tree.root, List.cons_append, List.append_assoc, hw, ← htaken]
    simp [growFrom, Tree.rootRhs, hwsl, hwsr]

/-- The generator returns the sentence of such a tree for some words, and takes just these. -/
theorem exists_words_sentence_of_isLowBelow {g : Grammar}
    (hbound : ∀ x, (g.rulesFor x).length < UInt32.size) {t : Tree} (ht : t.IsFor g.productions)
    (hlow : t.IsLowBelow g.heights 0) (location : Location) :
    ∃ words, ∀ seed, (Generator.ofGrammar g).sentence WordSource.choose t.root location
      (WordSource.ofSeed words seed) = .ok (t.sentence, ⟨[], seed, words.length⟩) := by
  have hs := Heights.settled_heights g
  obtain ⟨v, hv, -⟩ := hs.find?_root_le ht
  obtain ⟨words, hwords⟩ := exists_words_grow hs hbound ht hlow
  refine ⟨words, fun seed => ?_⟩
  have hgrow := hwords [] seed 0
  rw [List.append_nil, Nat.zero_add] at hgrow
  have hd : (Generator.ofGrammar g).derivation? WordSource.choose t.root
      (WordSource.ofSeed words seed) = some (t, ⟨[], seed, words.length⟩) :=
    Option.bind_eq_some_iff.2 ⟨v, hv, hgrow⟩
  rw [Generator.sentence, hd]

end Chomsky
