import Chomsky.Symbol
import Mathlib.Data.List.Perm.Subperm
/-!
# Members of sets of symbols

A set made of a list has the symbols of the list, each once, in the order in which they first
come. Two sets are taken for equal if they have the same members: the comparison counts members
and looks for those of the first in the second only, which is enough since neither has a member
twice.
-/
namespace Chomsky.SymbolSet

theorem ne_empty_of_mem {s : SymbolSet} {x : Symbol} (h : x ∈ s) : s ≠ ∅ := by
  rintro rfl
  exact not_mem_empty x h

theorem toList_eq_nil_iff {s : SymbolSet} : s.toList = [] ↔ s = ∅ := by
  obtain ⟨xs, hnodup⟩ := s
  constructor
  · rintro rfl
    rfl
  · intro h
    exact congrArg toList h

theorem insert_of_mem {s : SymbolSet} {x : Symbol} (h : x ∈ s) : s.insert x = s := dif_pos h

/-- A symbol is new if it is no member, and it is one afterwards. -/
theorem insertNew_eq (s : SymbolSet) (x : Symbol) :
    s.insertNew x = (!s.contains x, s.insert x) := by
  unfold insertNew contains
  by_cases hx : x ∈ s
  · simp [hx, insert_of_mem hx]
  · simp [hx]

/-- What the symbols of a list add to a set: those that it lacks, each where it first comes. -/
theorem toList_insertMany (s : SymbolSet) (xs : List Symbol) :
    (s.insertMany xs).toList = s.toList ++ (xs.filter (· ∉ s)).eraseDups := by
  induction xs generalizing s with
  | nil => simp [insertMany]
  | cons x xs ih =>
    have hstep : s.insertMany (x :: xs) = (s.insert x).insertMany xs := rfl
    rw [hstep, ih]
    by_cases hx : x ∈ s
    · rw [insert_of_mem hx, List.filter_cons_of_neg (by simpa using hx)]
    · -- `x` comes first, and later copies of it are those that the larger set no longer lacks
      have hlater : xs.filter (· ∉ s.insert x) = (xs.filter (· ∉ s)).filter fun y => !y == x := by
        rw [List.filter_filter]
        refine List.filter_congr fun y _ => ?_
        by_cases hy : y = x <;> simp [hy]
      rw [toList_insert, if_neg hx, hlater, List.filter_cons_of_pos (by simpa using hx),
        List.eraseDups_cons, List.append_assoc, List.singleton_append]

theorem toList_ofList (xs : List Symbol) : (ofList xs).toList = xs.eraseDups := by
  have hall : xs.filter (· ∉ empty) = xs :=
    List.filter_eq_self.2 fun x _ => decide_eq_true (not_mem_empty x)
  rw [ofList, toList_insertMany, hall]
  rfl

/-- Two sets are taken for equal if they have the same members. -/
theorem sameMembers_iff {s t : SymbolSet} : s.sameMembers t = true ↔ ∀ x, x ∈ s ↔ x ∈ t := by
  have hunfold : s.sameMembers t = true ↔
      s.toList.length = t.toList.length ∧ s.toList ⊆ t.toList := by
    rw [sameMembers, Bool.and_eq_true, decide_eq_true_eq, List.all_eq_true]
    simp only [contains, decide_eq_true_eq]
    rfl
  rw [hunfold]
  constructor
  · rintro ⟨hlength, hsubset⟩ x
    have hperm : s.toList.Perm t.toList :=
      (List.subperm_of_subset s.nodup hsubset).perm_of_length_le (Nat.le_of_eq hlength.symm)
    exact hperm.mem_iff
  · intro h
    have hperm : s.toList.Perm t.toList := (List.perm_ext_iff_of_nodup s.nodup t.nodup).2 h
    exact ⟨hperm.length_eq, hperm.subset⟩

end Chomsky.SymbolSet
