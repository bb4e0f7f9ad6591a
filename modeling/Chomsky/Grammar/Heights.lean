import Chomsky.Dictionary
import Chomsky.Grammar.Basic
/-!
# Heights of shortest derivations

The height of a symbol is the least height of a finite derivation from it; a symbol without
such a derivation has none. Heights are found by passing over the productions until a pass
improves nothing. A pass that changes something reaches a new left side or lowers a height,
so the passes come to an end.
-/
namespace Chomsky

/-- The heights known for symbols. -/
abbrev Heights := Dictionary Symbol Nat

/-- The height of a derivation that starts with this right side and goes on with the
shortest known ones; `none` while one of its symbols has no known derivation. -/
def Rhs.height? (h : Heights) : Rhs → Option Nat
  | .terminal _ => some 1
  | .empty => some 1
  | .pair left right =>
    (h.find? left).bind fun l => (h.find? right).map fun r => 1 + max l r

namespace Heights

/-- Takes over the height that a production gives to its left side, if it is an improvement. -/
def relax (h : Heights) (p : Production) : Heights :=
  match p.rhs.height? h with
  | none => h
  | some k => if (h.find? p.lhs).all (k < ·) then h.set p.lhs k else h

/-- Relaxes with each production in order, every time on the heights found so far. -/
def pass (ps : List Production) (h : Heights) : Heights := ps.foldl relax h

/-- The number of productions whose left side has no height yet. -/
def unreached (ps : List Production) (h : Heights) : Nat :=
  ps.countP fun p => (h.find? p.lhs).isNone

def sumIn : List (Symbol × Nat) → Nat
  | [] => 0
  | (_, v) :: es => v + sumIn es

def total (h : Heights) : Nat := sumIn h.entries

/-- What passes use up. A newly reached left side adds at most the height of a symbol and
one more, which at most doubles `total h + 1`, and is outweighed by the lost factor three. -/
def potential (ps : List Production) (h : Heights) : Nat :=
  Nat.pow 3 (unreached ps h) * (total h + 1)

private theorem findIn_le_sum {x : Symbol} {v : Nat} {es : List (Symbol × Nat)}
    (hv : Dictionary.findIn x es = some v) : v ≤ sumIn es := by
  induction es with
  | nil => simp [Dictionary.findIn] at hv
  | cons e es ih =>
    obtain ⟨y, w⟩ := e
    rw [sumIn]
    by_cases h : y = x
    · simp only [Dictionary.findIn, h, if_true, Option.some.injEq] at hv
      omega
    · simp only [Dictionary.findIn, h, if_false] at hv
      have := ih hv
      omega

theorem le_total_of_find? {h : Heights} {x : Symbol} {v : Nat} (hv : h.find? x = some v) :
    v ≤ total h := findIn_le_sum hv

/-- The height that a right side gives is at most one more than the sum of all heights. -/
theorem height?_le {h : Heights} {rhs : Rhs} {k : Nat} (hk : rhs.height? h = some k) :
    k ≤ total h + 1 := by
  cases rhs with
  | terminal t => simp only [Rhs.height?, Option.some.injEq] at hk; omega
  | empty => simp only [Rhs.height?, Option.some.injEq] at hk; omega
  | pair left right =>
    simp only [Rhs.height?, Option.bind_eq_some_iff, Option.map_eq_some_iff] at hk
    obtain ⟨l, hl, r, hr, rfl⟩ := hk
    have h1 := le_total_of_find? hl
    have h2 := le_total_of_find? hr
    omega

private theorem sum_alterIn_new {x : Symbol} {k : Nat} {es : List (Symbol × Nat)}
    (hn : Dictionary.findIn x es = none) :
    sumIn (Dictionary.alterIn x (fun _ => k) es) = sumIn es + k := by
  induction es with
  | nil => simp [Dictionary.alterIn, sumIn]
  | cons e es ih =>
    obtain ⟨y, w⟩ := e
    by_cases h : y = x
    · simp [Dictionary.findIn, h] at hn
    · simp only [Dictionary.findIn, h, if_false] at hn
      simp only [Dictionary.alterIn, h, if_false, sumIn]
      have := ih hn
      omega

private theorem sum_alterIn_lt {x : Symbol} {k v : Nat} {es : List (Symbol × Nat)}
    (hv : Dictionary.findIn x es = some v) (hk : k < v) :
    sumIn (Dictionary.alterIn x (fun _ => k) es) < sumIn es := by
  induction es with
  | nil => simp [Dictionary.findIn] at hv
  | cons e es ih =>
    obtain ⟨y, w⟩ := e
    by_cases h : y = x
    · simp only [Dictionary.findIn, h, if_true, Option.some.injEq] at hv
      simp only [Dictionary.alterIn, h, if_true, sumIn]
      omega
    · simp only [Dictionary.findIn, h, if_false] at hv
      simp only [Dictionary.alterIn, h, if_false, sumIn]
      have := ih hv
      omega

theorem total_set_of_none {h : Heights} {x : Symbol} {k : Nat} (hn : h.find? x = none) :
    total (h.set x k) = total h + k := sum_alterIn_new hn

theorem total_set_lt {h : Heights} {x : Symbol} {k v : Nat} (hv : h.find? x = some v)
    (hk : k < v) : total (h.set x k) < total h := sum_alterIn_lt hv hk

private theorem countP_lt_of_mem {α : Type} {p q : α → Bool} {l : List α} {a : α}
    (himp : ∀ x ∈ l, p x = true → q x = true) (ha : a ∈ l) (hp : p a = false)
    (hq : q a = true) : l.countP p < l.countP q := by
  induction l with
  | nil => simp at ha
  | cons x xs ih =>
    have hxs : ∀ y ∈ xs, p y = true → q y = true := fun y hy =>
      himp y (List.mem_cons_of_mem _ hy)
    have hle := List.countP_mono_left hxs
    rcases List.mem_cons.1 ha with rfl | ha
    · simp only [List.countP_cons, hp, hq, if_true, Bool.false_eq_true, if_false]
      omega
    · have hlt := ih hxs ha
      have hx := himp x List.mem_cons_self
      simp only [List.countP_cons]
      by_cases hpx : p x = true
      · simp only [hpx, hx hpx, if_true]; omega
      · simp only [hpx, Bool.false_eq_true, if_false]; omega

/-- A new left side reaches its productions. -/
theorem unreached_set_lt {ps : List Production} {h : Heights} {p : Production} {k : Nat}
    (hp : p ∈ ps) (hn : h.find? p.lhs = none) :
    unreached ps (h.set p.lhs k) < unreached ps h := by
  refine countP_lt_of_mem ?_ hp ?_ ?_
  · intro q _ hq
    rw [Dictionary.find?_set] at hq
    split at hq
    · simp at hq
    · exact hq
  · simp [Dictionary.find?_set]
  · simp [hn]

theorem unreached_set_of_some {ps : List Production} {h : Heights} {x : Symbol} {k v : Nat}
    (hv : h.find? x = some v) : unreached ps (h.set x k) = unreached ps h := by
  refine List.countP_congr ?_
  intro q _
  rw [Dictionary.find?_set]
  split
  · rename_i hq; simp [hq, hv]
  · exact Iff.rfl

private theorem pow_mul_lt {u u' t t' : Nat} (hu : u' < u) (ht : t' + 1 ≤ 2 * (t + 1)) :
    Nat.pow 3 u' * (t' + 1) < Nat.pow 3 u * (t + 1) := by
  have hpow : Nat.pow 3 (u' + 1) ≤ Nat.pow 3 u := Nat.pow_le_pow_right (Nat.succ_pos 2) hu
  have hpos : 0 < Nat.pow 3 u' := Nat.pow_pos (Nat.succ_pos 2)
  calc Nat.pow 3 u' * (t' + 1) < Nat.pow 3 u' * (3 * (t + 1)) :=
        Nat.mul_lt_mul_of_pos_left (by omega) hpos
    _ = Nat.pow 3 u' * 3 * (t + 1) := (Nat.mul_assoc ..).symm
    _ ≤ Nat.pow 3 u * (t + 1) := Nat.mul_le_mul_right _ hpow

/-- Relaxing with a production of the grammar changes nothing or uses up potential. -/
theorem relax_eq_or_potential_lt {ps : List Production} (h : Heights) {p : Production}
    (hp : p ∈ ps) : relax h p = h ∨ potential ps (relax h p) < potential ps h := by
  unfold relax
  split
  · exact Or.inl rfl
  · rename_i k hk
    split
    · rename_i hlow
      right
      unfold potential
      cases hf : h.find? p.lhs with
      | none =>
        have ht : total (h.set p.lhs k) = total h + k := total_set_of_none hf
        have hle := height?_le hk
        exact pow_mul_lt (unreached_set_lt hp hf) (by omega)
      | some v =>
        have hkv : k < v := by simpa [hf] using hlow
        have ht := total_set_lt hf hkv
        rw [unreached_set_of_some hf]
        exact Nat.mul_lt_mul_of_pos_left (by omega) (Nat.pow_pos (Nat.succ_pos 2))
    · exact Or.inl rfl

/-- A pass changes nothing or uses up potential. -/
theorem pass_eq_or_potential_lt {ps qs : List Production} (h : Heights)
    (hq : ∀ q ∈ qs, q ∈ ps) : pass qs h = h ∨ potential ps (pass qs h) < potential ps h := by
  induction qs generalizing h with
  | nil => exact Or.inl rfl
  | cons q qs ih =>
    have hrest := ih (relax h q) fun r hr => hq r (List.mem_cons_of_mem _ hr)
    have hfirst := relax_eq_or_potential_lt h (hq q List.mem_cons_self)
    change pass qs (relax h q) = h ∨ potential ps (pass qs (relax h q)) < potential ps h
    rcases hrest with hrest | hrest <;> rcases hfirst with hfirst | hfirst
    · exact Or.inl (hrest.trans hfirst)
    · right; rw [hrest]; exact hfirst
    · right; rw [hfirst] at hrest ⊢; exact hrest
    · exact Or.inr (Nat.lt_trans hrest hfirst)

/-- Passes over the productions until one changes nothing. -/
def settle (ps : List Production) (h : Heights) : Heights :=
  if pass ps h = h then h else settle ps (pass ps h)
termination_by potential ps h
decreasing_by
  rename_i hne
  exact (pass_eq_or_potential_lt h fun _ hq => hq).resolve_left hne

/-- Where the passes end, one more changes nothing. -/
theorem pass_settle (ps : List Production) (h : Heights) :
    pass ps (settle ps h) = settle ps h := by
  fun_induction settle ps h with
  | case1 h heq => exact heq
  | case2 h _ ih => exact ih

end Heights

/-- The height of every symbol with a finite derivation. -/
def Grammar.heights (g : Grammar) : Heights := Heights.settle g.productions ∅

end Chomsky
