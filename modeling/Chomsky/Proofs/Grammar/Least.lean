import Chomsky.Proofs.Dictionary.Entries
import Chomsky.Proofs.Grammar.Passes
import Mathlib.Order.Bounds.Basic
/-!
# Heights are least

The height of a symbol is the least height of a derivation from it: it is attained, and every
derivation is at least as high as the height of its root. So it depends on the productions alone and
not on their order or on repetitions. On the way no height exceeds the number of symbols that have
one. There are fewer characters than machine words, so heights can be counted in words, and the
greatest word can stand for a height that is not known yet.
-/
namespace Chomsky

/-! ## Least heights -/

namespace Grammar
variable {g g' : Grammar} {x : Symbol}

/-- The heights of the derivations from a symbol. -/
def derivationHeights (g : Grammar) (x : Symbol) : Set Nat :=
  {n | ∃ t : Tree, t.root = x ∧ t.IsFor g.productions ∧ t.height = n}

theorem isLeast_of_find?_heights {v : Nat} (hv : g.heights.find? x = some v) :
    IsLeast (g.derivationHeights x) v := by
  constructor
  · exact Heights.attained_heights g x v hv
  · rintro n ⟨t, rfl, ht, rfl⟩
    obtain ⟨w, hw, hle⟩ := (Heights.settled_heights g).find?_root_le ht
    rw [hv, Option.some.injEq] at hw
    omega

theorem find?_heights_eq_some_iff {v : Nat} :
    g.heights.find? x = some v ↔ IsLeast (g.derivationHeights x) v := by
  constructor
  · exact isLeast_of_find?_heights
  · intro hleast
    obtain ⟨t, hroot, ht, -⟩ := hleast.1
    obtain ⟨w, hw⟩ := exists_find?_heights_iff.2 ⟨t, hroot, ht⟩
    rw [hw, (isLeast_of_find?_heights hw).unique hleast]

theorem derivationHeights_congr (h : ∀ p, p ∈ g'.productions ↔ p ∈ g.productions) (x : Symbol) :
    g'.derivationHeights x = g.derivationHeights x := by
  ext n
  simp only [derivationHeights, Tree.IsFor, h]

/-- The order of the productions and their repetitions have no part in the heights. -/
theorem find?_heights_congr (h : ∀ p, p ∈ g'.productions ↔ p ∈ g.productions) (x : Symbol) :
    g'.heights.find? x = g.heights.find? x := by
  ext v
  rw [find?_heights_eq_some_iff, find?_heights_eq_some_iff, derivationHeights_congr h]

end Grammar

/-! ## Heights in machine words -/

namespace Heights
variable {ps : List Production} {h : Heights}

theorem toNat_lt (c : Char) : c.toNat < 0x110000 := by
  have hvalid := c.valid
  simp only [UInt32.isValidChar, Nat.isValidChar] at hvalid
  rw [Char.toNat]
  omega

/-- There are no more symbols with heights than characters. -/
theorem size_le (h : Heights) : h.size ≤ 0x110000 := by
  have hnodup : (h.keys.map Char.toNat).Nodup :=
    h.nodup.map fun _ _ => Char.toNat_inj.1
  have hsubset : h.keys.map Char.toNat ⊆ List.range 0x110000 := by
    intro n hn
    obtain ⟨c, -, rfl⟩ := List.mem_map.1 hn
    exact List.mem_range.2 (toNat_lt c)
  have hle := (List.subperm_of_subset hnodup hsubset).length_le
  rwa [List.length_map, List.length_range, Dictionary.length_keys] at hle

/-- On the way no right side comes near the greatest word. -/
theorem Visited.height?_lt (hvisited : Visited ps h) {rhs : Rhs} {k : Nat}
    (hk : rhs.height? h = some k) : k < UInt64.size - 1 := by
  have hbound := hvisited.bounded.height?_le hk
  have hsize := h.size_le
  have hword : UInt64.size = 18446744073709551616 := rfl
  omega

/-- The step of a production that enters a placeholder if its left side has no height yet. The
height that the right side gives is then an improvement if it is less than what has been
entered. -/
def relaxFrom (placeholder : Nat) (h : Heights) (p : Production) : Heights :=
  match p.rhs.height? h with
  | none => h
  | some k =>
    let entered := h.alter p.lhs fun best => best.getD placeholder
    if (entered.find? p.lhs).all (k < ·) then entered.set p.lhs k else entered

/-- A placeholder that is greater than the new height does not stay. -/
theorem relaxFrom_eq_relax {placeholder : Nat} {p : Production}
    (hk : ∀ k, p.rhs.height? h = some k → k < placeholder) :
    relaxFrom placeholder h p = relax h p := by
  unfold relaxFrom relax
  cases hp : p.rhs.height? h with
  | none => rfl
  | some k =>
    cases hv : h.find? p.lhs with
    | none => simp [Dictionary.find?_alter, hv, hk k hp]
    | some v =>
      have hsame : h.alter p.lhs (fun best => best.getD placeholder) = h :=
        Dictionary.alter_eq_self hv rfl
      simp [hsame, hv]

/-- On the way the greatest word serves as a placeholder, and no step leaves it behind. -/
theorem Visited.relaxFrom_eq (hvisited : Visited ps h) {p : Production} (hp : p ∈ ps) :
    relaxFrom (UInt64.size - 1) h p = relax h p ∧
      ∀ x, (relaxFrom (UInt64.size - 1) h p).find? x ≠ some (UInt64.size - 1) := by
  have heq : relaxFrom (UInt64.size - 1) h p = relax h p :=
    relaxFrom_eq_relax fun k hk => hvisited.height?_lt hk
  refine ⟨heq, fun x hx => ?_⟩
  rw [heq] at hx
  have hbound := (hvisited.bounded.relax hp).le_size x _ hx
  have hsize := (relax h p).size_le
  have hword : UInt64.size = 18446744073709551616 := rfl
  omega

end Heights

/-- The symbols with heights are those with derivations, and each has the least height of its
derivations. On the way to the heights no height exceeds the number of symbols that have one, a
right side never comes to the greatest word, and entering that word for an unknown height makes no
difference and leaves no trace. Other productions with the same members give the same heights. -/
theorem Grammar.heights_isLeast (g : Grammar) :
    (∀ x, (∃ v, g.heights.find? x = some v) ↔ g.IsProductive x) ∧
    (∀ x v, g.heights.find? x = some v ↔ IsLeast (g.derivationHeights x) v) ∧
    (Heights.Visited g.productions g.heights ∧ ∀ h, Heights.Visited g.productions h →
      (∀ x v, h.find? x = some v → v ≤ h.keys.length) ∧
      (∀ (rhs : Rhs) (k : Nat), rhs.height? h = some k → k < UInt64.size - 1) ∧
      ∀ p ∈ g.productions, Heights.relaxFrom (UInt64.size - 1) h p = Heights.relax h p ∧
        ∀ x, (Heights.relaxFrom (UInt64.size - 1) h p).find? x ≠ some (UInt64.size - 1)) ∧
    ∀ g' : Grammar, (∀ p, p ∈ g'.productions ↔ p ∈ g.productions) →
      ∀ x, g'.heights.find? x = g.heights.find? x := by
  refine ⟨fun _ => exists_find?_heights_iff, fun _ _ => find?_heights_eq_some_iff, ?_,
    fun _ => find?_heights_congr⟩
  constructor
  · rw [heights, Heights.settle_eq_iterate_pass]
    exact Heights.visited_iterate_pass _ _
  · intro h hvisited
    refine ⟨?_, fun _ _ => hvisited.height?_lt, fun _ => hvisited.relaxFrom_eq⟩
    rw [Dictionary.length_keys]
    exact hvisited.bounded.le_size

/-- Productions that first give `S` a height of 3, which the last of them lowers. -/
def loweringRules : List Production :=
  [⟨'A', .terminal 'a'⟩, ⟨'B', .pair 'A' 'A'⟩, ⟨'S', .pair 'B' 'B'⟩, ⟨'S', .empty⟩]

/-- The third step gives `S` a height of 3 with three symbols known. In the end the height is 1, and
so it is when the productions stand in the opposite order and twice. -/
theorem Grammar.heights_isLeast_loweringRules : ∃ h : Heights,
    Heights.Visited loweringRules h ∧ h.find? 'S' = some 3 ∧ 3 ≤ h.keys.length ∧
      IsLeast (Grammar.derivationHeights ⟨loweringRules⟩ 'S') 1 ∧
      (Grammar.heights ⟨loweringRules.reverse ++ loweringRules⟩).find? 'S' = some 1 := by
  obtain ⟨-, hleast, ⟨-, hvisited⟩, hsame⟩ := heights_isLeast ⟨loweringRules⟩
  have hthree : Heights.Visited loweringRules (Heights.pass (loweringRules.take 3) ∅) :=
    ⟨0, 3, rfl⟩
  have hS : (Heights.pass (loweringRules.take 3) ∅).find? 'S' = some 3 := by decide +kernel
  have hone : (Grammar.heights ⟨loweringRules⟩).find? 'S' = some 1 := by decide +kernel
  refine ⟨_, hthree, hS, (hvisited _ hthree).1 'S' 3 hS, (hleast 'S' 1).1 hone, ?_⟩
  rw [hsame ⟨loweringRules.reverse ++ loweringRules⟩ (by simp), hone]

end Chomsky
