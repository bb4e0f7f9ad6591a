import Chomsky.Proofs.Derivation.Language
import Chomsky.Proofs.Recognition.Cells
/-!
# Verdicts and languages

The recognizer decides the empty string by the index and every other string by the table.
Together the two admit exactly the derivations that use an empty production at the root or not
at all. This is never more than the context-free language of the grammar, and all of it when
no symbol of a pair has an empty production.
-/
namespace Chomsky

/-- The top cell holds what derives the whole input without empty leaves. -/
theorem Table.derives_fill {ps : List Production} {x : Symbol} {s : List Char} (hs : s ≠ []) :
    (Table.fill (Index.ofList ps) s).derives x = true ↔ Derivable (proper {p | p ∈ ps}) x s := by
  have hlen := List.length_pos_iff.2 hs
  have hin : s.length - 1 + 0 < s.length := by omega
  have hspan : (s.drop 0).take (s.length - 1 + 1) = s := by
    rw [List.drop_zero, Nat.sub_add_cancel hlen, List.take_length]
  rw [derives_fill_iff _ _ hs, mem_symbolsAt_fill hin, hspan]

/-- The recognizer accepts a string when it has a derivation that uses an empty production at
the root or not at all. -/
theorem recognizes_iff_admits {ps : List Production} {x : Symbol} {s : List Char} :
    recognizes (Index.ofList ps) x s = true ↔ Admits {p | p ∈ ps} x s := by
  by_cases hs : s = []
  · subst hs
    have hnot : ¬ Derivable (proper {p | p ∈ ps}) x [] := fun h => h.ne_nil rfl
    rw [recognizes, if_pos List.isEmpty_nil, Index.derivesEmpty_ofList, Admits]
    simp [hnot]
  · rw [recognizes, if_neg (by simpa using hs), Table.derives_fill hs, Admits]
    simp [hs]

/-- What the recognizer accepts is in the context-free language of the grammar, and where no
symbol of a pair has an empty production it accepts the whole language. -/
theorem recognizes_mem_language (ps : List Production) (x : Symbol) (s : List Char) :
    (recognizes (Index.ofList ps) x s = true → s ∈ (contextFree ps x).language) ∧
    ((∀ p ∈ ps, ∀ y ∈ p.rhs.symbols, ⟨y, .empty⟩ ∉ ps) →
      (recognizes (Index.ofList ps) x s = true ↔ s ∈ (contextFree ps x).language)) := by
  rw [recognizes_iff_admits, mem_language_contextFree]
  constructor
  · exact Admits.derivable
  · intro hps
    exact ⟨Admits.derivable, Derivable.admits hps⟩

/-- Balanced `a`s and `b`s; only the start symbol, which stands in no pair, may be empty. -/
def balancedRules : List Production :=
  [⟨'S', .empty⟩, ⟨'S', .pair 'A' 'B'⟩, ⟨'S', .pair 'A' 'R'⟩, ⟨'T', .pair 'A' 'B'⟩,
    ⟨'T', .pair 'A' 'R'⟩, ⟨'R', .pair 'T' 'B'⟩, ⟨'A', .terminal 'a'⟩, ⟨'B', .terminal 'b'⟩]

theorem balancedRules_pairs :
    ∀ p ∈ balancedRules, ∀ y ∈ p.rhs.symbols, ⟨y, .empty⟩ ∉ balancedRules := by
  simp [balancedRules, Rhs.symbols]

/-- The language of balanced strings has the empty string and `aabb`, and lacks `abab`. -/
theorem balancedRules_language :
    recognizes (Index.ofList balancedRules) 'S' ['a', 'a', 'b', 'b'] = true ∧
      ['a', 'a', 'b', 'b'] ∈ (contextFree balancedRules 'S').language ∧
      (∀ p ∈ balancedRules, ∀ y ∈ p.rhs.symbols, ⟨y, .empty⟩ ∉ balancedRules) ∧
      [] ∈ (contextFree balancedRules 'S').language ∧
      ['a', 'b', 'a', 'b'] ∉ (contextFree balancedRules 'S').language := by
  have haccept : recognizes (Index.ofList balancedRules) 'S' ['a', 'a', 'b', 'b'] = true := by
    decide +kernel
  have hpairs := balancedRules_pairs
  refine ⟨haccept, (recognizes_mem_language balancedRules 'S' _).1 haccept, hpairs, ?_, ?_⟩
  · exact ((recognizes_mem_language balancedRules 'S' []).2 hpairs).1 (by decide +kernel)
  · intro h
    have hrec := ((recognizes_mem_language balancedRules 'S' _).2 hpairs).2 h
    exact absurd hrec (by decide +kernel)

end Chomsky
