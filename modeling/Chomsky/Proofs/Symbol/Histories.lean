import Chomsky.Proofs.Symbol.Members
import Mathlib.Data.List.Basic
/-!
# Sets of symbols remember their histories

However a set came about, it has the symbols that were ever put into it, each once, in the order in
which they first came. The order is told by the list of all insertions, repetitions included, which
a history gives without looking at a set: a symbol stands in front of another one if its first
insertion comes earlier in this list. A union puts in whatever was put into the other set.

## Main definitions

* `SymbolSet.History`: the ways in which sets come about.
* `SymbolSet.Remembers`: a set has the symbols of a list in the order of their first insertion.

## Main results

* `SymbolSet.History.remembers`: what every history leads to, by induction on the history.
* `SymbolSet.insertion_ordered`: sets that came about in any way, and their comparison.
-/
namespace Chomsky.SymbolSet

/-! ## Histories -/

/-- How a set came about. The other set of a union has a history of its own, which may be the same
one. -/
inductive History
  | new
  | insert (h : History) (x : Symbol)
  | collect (xs : List Symbol)
  | union (h other : History)

namespace History

def set : History → SymbolSet
  | new => ∅
  | insert h x => (h.set.insertNew x).2
  | collect xs => ofList xs
  | union h other => h.set.union other.set

/-- The symbols that were put into the set, in order and as often as they were. -/
def inserted : History → List Symbol
  | new => []
  | insert h x => h.inserted ++ [x]
  | collect xs => xs
  | union h other => h.inserted ++ other.inserted

end History

/-- The set has the symbols of a list, and one of them stands in front of another if it comes first
in the list. -/
structure Remembers (s : SymbolSet) (log : List Symbol) : Prop where
  mem_iff : ∀ x, x ∈ s ↔ x ∈ log
  ordered : s.toList.Pairwise fun x y => log.idxOf x < log.idxOf y

/-! ## What the operations remember -/

section
variable {s t : SymbolSet} {log log' : List Symbol}

theorem remembers_empty : (∅ : SymbolSet).Remembers [] :=
  ⟨fun _ => Iff.rfl, List.Pairwise.nil⟩

/-- What comes later in a list changes no first place. -/
theorem idxOf_append_lt_of_mem {x y : Symbol} (hx : x ∈ log)
    (hxy : y ∈ log → log.idxOf x < log.idxOf y) :
    (log ++ log').idxOf x < (log ++ log').idxOf y := by
  rw [List.idxOf_append_of_mem hx]
  by_cases hy : y ∈ log
  · rw [List.idxOf_append_of_mem hy]
    exact hxy hy
  · have hlt := List.idxOf_lt_length_iff.2 hx
    rw [List.idxOf_append_of_notMem hy]
    omega

/-- A symbol is put behind those that came before it, unless it is one of them. -/
theorem Remembers.insert (h : s.Remembers log) (x : Symbol) :
    (s.insert x).Remembers (log ++ [x]) := by
  have hold : s.toList.Pairwise fun y z => (log ++ [x]).idxOf y < (log ++ [x]).idxOf z :=
    h.ordered.imp_of_mem fun hy _ hyz => idxOf_append_lt_of_mem ((h.mem_iff _).1 hy) fun _ => hyz
  refine ⟨fun y => by rw [mem_insert, h.mem_iff, List.mem_append, List.mem_singleton], ?_⟩
  rw [toList_insert]
  split
  · exact hold
  · rename_i hx
    rw [h.mem_iff] at hx
    rw [List.pairwise_append]
    refine ⟨hold, List.pairwise_singleton .., fun y hy z hz => ?_⟩
    obtain rfl := List.mem_singleton.1 hz
    exact idxOf_append_lt_of_mem ((h.mem_iff y).1 hy) fun hmem => absurd hmem hx

theorem Remembers.insertMany (h : s.Remembers log) (xs : List Symbol) :
    (s.insertMany xs).Remembers (log ++ xs) := by
  induction xs generalizing s log with
  | nil => rwa [List.append_nil]
  | cons x xs ih =>
    have hrest := ih (h.insert x)
    rwa [List.append_assoc, List.singleton_append] at hrest

/-- In a set that remembers a list, its own order is that of the list. -/
theorem Remembers.idxOf_lt (h : t.Remembers log) {x y : Symbol} (hy : y ∈ t)
    (hxy : t.toList.idxOf x < t.toList.idxOf y) : log.idxOf x < log.idxOf y := by
  have hlt : t.toList.idxOf y < t.toList.length := List.idxOf_lt_length_iff.2 hy
  have hget := List.pairwise_iff_getElem.1 h.ordered _ _ (Nat.lt_trans hxy hlt) hlt hxy
  simpa using hget

/-- A union remembers what either set remembers, since the other set goes through its symbols in
the order of their first insertion. -/
theorem Remembers.union (hs : s.Remembers log) (ht : t.Remembers log') :
    (s.union t).Remembers (log ++ log') := by
  have hmem : ∀ x, x ∈ s.union t ↔ x ∈ log ++ log' := fun x => by
    rw [mem_union, hs.mem_iff, ht.mem_iff, List.mem_append]
  refine ⟨hmem, (hs.insertMany t.toList).ordered.imp_of_mem fun {x y} hx hy hxy => ?_⟩
  by_cases hxs : x ∈ log
  · refine idxOf_append_lt_of_mem hxs fun hys => ?_
    rwa [List.idxOf_append_of_mem hxs, List.idxOf_append_of_mem hys] at hxy
  · -- `x` is new, so `y` is too: the symbols of `s` stand in front of it
    have hys : y ∉ log := by
      intro hys
      have hlt := List.idxOf_lt_length_iff.2 hys
      rw [List.idxOf_append_of_notMem hxs, List.idxOf_append_of_mem hys] at hxy
      omega
    have hyt : y ∈ t := (mem_union.1 hy).resolve_left (mt (hs.mem_iff y).1 hys)
    rw [List.idxOf_append_of_notMem hxs, List.idxOf_append_of_notMem hys] at hxy ⊢
    have hlt := ht.idxOf_lt (x := x) hyt (by omega)
    omega

end

/-- Every set remembers what was put into it: each operation keeps that. -/
theorem History.remembers (h : History) : h.set.Remembers h.inserted := by
  induction h with
  | new => exact remembers_empty
  | insert h x ih =>
    rw [set, insertNew_eq]
    exact ih.insert x
  | collect xs => exact remembers_empty.insertMany xs
  | union h other ihh iho => exact ihh.union iho

theorem eraseDups_of_nodup {xs : List Symbol} (h : xs.Nodup) : xs.eraseDups = xs := by
  induction xs with
  | nil => rfl
  | cons x xs ih =>
    obtain ⟨hx, hrest⟩ := List.nodup_cons.1 h
    have hfilter : xs.filter (fun y => !y == x) = xs := by
      rw [List.filter_eq_self]
      intro y hy
      simpa using ne_of_mem_of_not_mem hy hx
    rw [List.eraseDups_cons, hfilter, ih hrest]

/-- A union puts the symbols that are new to the first set behind its own, in the order in which the
second set has them. -/
theorem toList_union (s t : SymbolSet) :
    (s.union t).toList = s.toList ++ t.toList.filter (· ∉ s) := by
  rw [union, toList_insertMany, eraseDups_of_nodup (t.nodup.filter _)]

/-! ## Comparisons -/

/-- Sets are taken for equal exactly if they have the same members, so this is an equivalence. -/
theorem equivalence_sameMembers : Equivalence fun s t : SymbolSet => s.sameMembers t = true where
  refl _ := sameMembers_iff.2 fun _ => Iff.rfl
  symm h := sameMembers_iff.2 fun x => (sameMembers_iff.1 h x).symm
  trans h h' := sameMembers_iff.2 fun x => (sameMembers_iff.1 h x).trans (sameMembers_iff.1 h' x)

theorem size_eq_of_sameMembers {s t : SymbolSet} (h : s.sameMembers t = true) :
    s.size = t.size := by
  rw [sameMembers, Bool.and_eq_true] at h
  exact of_decide_eq_true h.1

theorem isEmpty_eq_true_iff {s : SymbolSet} : s.isEmpty = true ↔ s.size = 0 :=
  List.isEmpty_iff_length_eq_zero

/-- A set that came about in any way has the symbols that were ever put into it, each once and in
the order of their first insertion. A further insertion tells whether the symbol comes for the
first time, and a union puts the symbols that are new behind the others in the order of the other
set. Two such sets are taken for equal exactly if the same symbols were put into them; this is an
equivalence, and sets that are taken for equal cannot be told apart by what they contain, by their
being empty or by their size. -/
theorem insertion_ordered (h : History) :
    h.set.toList.Nodup ∧ h.set.Remembers h.inserted ∧
    (∀ x, (h.set.insertNew x).1 = true ↔ x ∉ h.inserted) ∧
    (∀ k : History, (h.union k).set.toList =
      h.set.toList ++ k.set.toList.filter (· ∉ h.set)) ∧
    (∀ k : History, h.set.sameMembers k.set = true ↔ ∀ x, x ∈ h.inserted ↔ x ∈ k.inserted) ∧
    (Equivalence fun h k : History => h.set.sameMembers k.set = true) ∧
    ∀ k : History, h.set.sameMembers k.set = true →
      (∀ x, h.set.contains x = k.set.contains x) ∧ h.set.isEmpty = k.set.isEmpty ∧
        h.set.size = k.set.size := by
  refine ⟨h.set.nodup, h.remembers, ?_, fun k => toList_union h.set k.set, ?_,
    equivalence_sameMembers.comap History.set, ?_⟩
  · intro x
    rw [insertNew_eq, ← h.remembers.mem_iff]
    simp [contains]
  · intro k
    simp only [sameMembers_iff, h.remembers.mem_iff, k.remembers.mem_iff]
  · intro k hk
    have hsize := size_eq_of_sameMembers hk
    refine ⟨fun x => decide_eq_decide.2 (sameMembers_iff.1 hk x), ?_, hsize⟩
    rw [Bool.eq_iff_iff, isEmpty_eq_true_iff, isEmpty_eq_true_iff, hsize]

/-- A union of two sets that share a symbol. -/
def unionHistory : History := .union (.collect ['A', 'S']) (.collect ['S', 'C', 'B'])

/-- The same symbols in another order, some of them more than once. -/
def repeatedHistory : History := .insert (.insert (.collect ['B', 'C', 'B']) 'S') 'A'

/-- The union keeps the first insertions in order, and a set with another order of the same symbols
is taken for equal and has as many of them. -/
theorem insertion_ordered_sharedSymbols :
    unionHistory.set.toList = ['A', 'S', 'C', 'B'] ∧
      unionHistory.set.sameMembers repeatedHistory.set = true ∧
      unionHistory.set.size = repeatedHistory.set.size ∧
      (unionHistory.set.insertNew 'C').1 ≠ true := by
  obtain ⟨-, -, hinsert, -, -, -, hrespects⟩ := insertion_ordered unionHistory
  have heq : unionHistory.set.sameMembers repeatedHistory.set = true := by decide
  exact ⟨by decide, heq, (hrespects repeatedHistory heq).2.2,
    mt (hinsert 'C').1 (by decide)⟩

end Chomsky.SymbolSet
