import Chomsky.Dictionary
import Mathlib.Data.List.Perm.Subperm
/-!
# Entries of dictionaries

The entries of a dictionary are its keys with what is found for them, so dictionaries are taken for
equal exactly if the same is found in both. A change that comes after another change of the same
key undoes it, and a change that gives a key the value it has is none.
-/
namespace Chomsky

namespace Dictionary
variable {κ ν : Type} [DecidableEq κ]

theorem mem_iff_findIn_eq_some {es : List (κ × ν)} (h : (entryKeys es).Nodup) {k : κ} {v : ν} :
    (k, v) ∈ es ↔ findIn k es = some v := by
  induction es with
  | nil => simp [findIn]
  | cons e es ih =>
    obtain ⟨k', v'⟩ := e
    obtain ⟨hnew, hrest⟩ := List.nodup_cons.1 h
    rw [List.mem_cons, ih hrest, findIn]
    by_cases hk : k' = k
    · subst hk
      have hnone : findIn k' es = none := findIn_eq_none_iff.2 hnew
      simp [hnone, eq_comm]
    · simp [hk, Ne.symm hk]

theorem mem_entries_iff {d : Dictionary κ ν} {k : κ} {v : ν} :
    (k, v) ∈ d.entries ↔ d.find? k = some v := mem_iff_findIn_eq_some d.nodup

theorem mem_keys_iff {d : Dictionary κ ν} {k : κ} : k ∈ d.keys ↔ ∃ v, d.find? k = some v := by
  rw [← Option.ne_none_iff_exists', ne_eq, find?_eq_none_iff, not_not]

theorem found_rel_iff {r : ν → ν → Prop} {a b : Option ν} :
    Option.Rel r a b ↔ (∀ v, a = some v → ∃ w, b = some w ∧ r v w) ∧ (a = none → b = none) := by
  cases a <;> cases b <;> simp

/-- Comparing sizes and the entries of the first dictionary compares what is found for every
key. -/
theorem sameEntries_iff {same : ν → ν → Bool} {d e : Dictionary κ ν} :
    d.sameEntries same e = true ↔
      ∀ k, Option.Rel (fun v w => same v w = true) (d.find? k) (e.find? k) := by
  have hunfold : d.sameEntries same e = true ↔ d.keys.length = e.keys.length ∧
      ∀ k v, d.find? k = some v → ∃ w, e.find? k = some w ∧ same v w = true := by
    rw [sameEntries, Bool.and_eq_true, decide_eq_true_eq, List.all_eq_true, length_keys,
      length_keys]
    simp only [Prod.forall, mem_entries_iff, Option.any_eq_true]
  simp only [hunfold, found_rel_iff, find?_eq_none_iff]
  constructor
  · rintro ⟨hlength, hfound⟩ k
    refine ⟨hfound k, ?_⟩
    -- the keys of `d` are keys of `e`, and there are as many of them, so `e` has no others
    have hsubset : d.keys ⊆ e.keys := by
      intro x hx
      obtain ⟨v, hv⟩ := mem_keys_iff.1 hx
      obtain ⟨w, hw, -⟩ := hfound x v hv
      exact mem_keys_iff.2 ⟨w, hw⟩
    exact mt ((List.subperm_of_subset d.nodup hsubset).perm_of_length_le
      (Nat.le_of_eq hlength.symm)).mem_iff.2
  · intro h
    have hkeys : ∀ k, k ∈ d.keys ↔ k ∈ e.keys := by
      intro k
      refine ⟨fun hk => ?_, not_imp_not.1 (h k).2⟩
      obtain ⟨v, hv⟩ := mem_keys_iff.1 hk
      obtain ⟨w, hw, -⟩ := (h k).1 v hv
      exact mem_keys_iff.2 ⟨w, hw⟩
    exact ⟨((List.perm_ext_iff_of_nodup d.nodup e.nodup).2 hkeys).length_eq, fun k => (h k).1⟩

/-! ## Changes -/

theorem alterIn_alterIn (k : κ) (f g : Option ν → ν) (es : List (κ × ν)) :
    alterIn k g (alterIn k f es) = alterIn k (fun v => g (some (f v))) es := by
  induction es with
  | nil => simp [alterIn]
  | cons e es ih =>
    by_cases hk : e.1 = k
    · simp [alterIn, hk]
    · simp [alterIn, hk, ih]

theorem alterIn_eq_self {k : κ} {v : ν} {f : Option ν → ν} {es : List (κ × ν)}
    (hv : findIn k es = some v) (hf : f (some v) = v) : alterIn k f es = es := by
  induction es with
  | nil => simp [findIn] at hv
  | cons e es ih =>
    obtain ⟨k', w⟩ := e
    by_cases hk : k' = k
    · have hw : w = v := by simpa [findIn, hk] using hv
      simp [alterIn, hk, hw, hf]
    · simp [alterIn, hk, ih (by simpa [findIn, hk] using hv)]

omit [DecidableEq κ] in
theorem eq_of_entries_eq {d e : Dictionary κ ν} (h : d.entries = e.entries) : d = e := by
  cases d
  cases e
  exact (mk.injEq ..).mpr h

/-- A value that is given to a key stays, whatever the key had before. -/
@[simp] theorem set_alter (d : Dictionary κ ν) (k : κ) (f : Option ν → ν) (v : ν) :
    (d.alter k f).set k v = d.set k v :=
  eq_of_entries_eq (alterIn_alterIn k f (fun _ => v) d.entries)

@[simp] theorem set_set (d : Dictionary κ ν) (k : κ) (v w : ν) : (d.set k v).set k w = d.set k w :=
  set_alter d k (fun _ => v) w

theorem alter_eq_self {d : Dictionary κ ν} {k : κ} {v : ν} {f : Option ν → ν}
    (hv : d.find? k = some v) (hf : f (some v) = v) : d.alter k f = d :=
  eq_of_entries_eq (alterIn_eq_self hv hf)

end Dictionary

end Chomsky
