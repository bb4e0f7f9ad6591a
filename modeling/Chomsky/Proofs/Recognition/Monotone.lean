import Chomsky.Proofs.Recognition.Cells
import Chomsky.Proofs.Symbol.Members
/-!
# More productions

An index with more producers fills larger cells: two tables of one input are compared cell by cell,
and in every cut of a span the larger table offers all pairs that the smaller one does. Two lists
with the same productions give tables with the same cells, although their symbols may come in
another order.
-/
namespace Chomsky

/-- What produces a right side in the first index produces it in the second. -/
def Index.IsWithin (i j : Index) : Prop := ∀ rhs, ∀ x ∈ i.producers rhs, x ∈ j.producers rhs

theorem Index.isWithin_ofList {ps qs : List Production} (h : ∀ p ∈ ps, p ∈ qs) :
    (ofList ps).IsWithin (ofList qs) := by
  intro rhs x hx
  rw [mem_producers_ofList] at hx ⊢
  exact h _ hx

variable {i j : Index} {input : List Char} {x : Symbol}

namespace Table

/-- A larger index fills larger cells, since larger cells below offer more pairs. -/
theorem mem_symbolsAt_fill_mono (hij : i.IsWithin j) {row col : Nat}
    (h : row + col < input.length) (hx : x ∈ (fill i input).symbolsAt row col) :
    x ∈ (fill j input).symbolsAt row col := by
  induction row using Nat.strongRecOn generalizing col x with
  | ind row ih =>
    cases row with
    | zero =>
      have hcol : col < input.length := by omega
      rw [symbolsAt_fill_zero _ _ hcol] at hx ⊢
      exact hij _ x hx
    | succ row =>
      rw [symbolsAt_fill_succ _ _ h, mem_fillCell] at hx ⊢
      obtain ⟨split, hsplit, l, hl, r, hr, hprod⟩ := hx
      have hleft := ih split hsplit (by omega) hl
      have hright := ih (row + 1 - split - 1) (by omega) (by omega) hr
      exact ⟨split, hsplit, l, hleft, r, hright, hij _ x hprod⟩

end Table

theorem recognizes_mono (hij : i.IsWithin j) (h : recognizes i x input = true) :
    recognizes j x input = true := by
  by_cases hinput : input = []
  · subst hinput
    have hx : x ∈ i.producers .empty := of_decide_eq_true h
    exact decide_eq_true (hij .empty x hx)
  · have hlen := List.length_pos_iff.2 hinput
    simp only [recognizes, List.isEmpty_iff, hinput, if_false,
      Table.derives_fill_iff _ _ hinput] at h ⊢
    exact Table.mem_symbolsAt_fill_mono hij (by omega) h

/-- More productions fill larger cells and accept no less, the empty string included. Lists with
the same productions, in any order and with any repetitions, fill cells that are taken for equal
and give the same verdicts. -/
theorem Table.fill_mono {ps qs : List Production} (hpq : ∀ p ∈ ps, p ∈ qs) (input : List Char) :
    (∀ row col, row + col < input.length → ∃ small large,
      (fill (Index.ofList ps) input).cell? row col = some small ∧
      (fill (Index.ofList qs) input).cell? row col = some large ∧ ∀ x ∈ small, x ∈ large) ∧
    (∀ start, recognizes (Index.ofList ps) start input = true →
      recognizes (Index.ofList qs) start input = true) ∧
    ((∀ q ∈ qs, q ∈ ps) →
      (∀ row col, Option.Rel (fun s t => SymbolSet.sameMembers s t = true)
        ((fill (Index.ofList ps) input).cell? row col)
        ((fill (Index.ofList qs) input).cell? row col)) ∧
      ∀ start, recognizes (Index.ofList ps) start input =
        recognizes (Index.ofList qs) start input) := by
  have hup := Index.isWithin_ofList hpq
  refine ⟨?_, fun start => recognizes_mono hup, fun hqp => ?_⟩
  · intro row col h
    refine ⟨_, _, ?_, ?_, fun x => mem_symbolsAt_fill_mono hup h⟩
    · rw [cell?_fill, if_pos h]
    · rw [cell?_fill, if_pos h]
  · have hdown := Index.isWithin_ofList hqp
    constructor
    · intro row col
      rw [cell?_fill, cell?_fill]
      split
      · rename_i h
        rw [Option.rel_some_some, SymbolSet.sameMembers_iff]
        exact fun x => ⟨mem_symbolsAt_fill_mono hup h, mem_symbolsAt_fill_mono hdown h⟩
      · exact Option.Rel.none
    · intro start
      rw [Bool.eq_iff_iff]
      exact ⟨recognizes_mono hup, recognizes_mono hdown⟩

/-- Two producers of one pair. -/
def rivalRules : List Production :=
  [⟨'S', .pair 'A' 'B'⟩, ⟨'T', .pair 'A' 'B'⟩, ⟨'A', .terminal 'a'⟩, ⟨'B', .terminal 'b'⟩]

/-- In the opposite order the two producers come in the opposite order in their cell, and the cells
are taken for equal. An empty production changes the verdict on the empty string only. -/
theorem Table.fill_mono_rivalRules :
    (∀ p ∈ rivalRules, p ∈ rivalRules.reverse) ∧ (∀ p ∈ rivalRules.reverse, p ∈ rivalRules) ∧
      (∃ s t, (fill (Index.ofList rivalRules) ['a', 'b']).cell? 1 0 = some s ∧
        (fill (Index.ofList rivalRules.reverse) ['a', 'b']).cell? 1 0 = some t ∧
        s.toList = ['S', 'T'] ∧ t.toList = ['T', 'S'] ∧ s.sameMembers t = true) ∧
      (∀ p ∈ rivalRules, p ∈ ⟨'S', .empty⟩ :: rivalRules) ∧
      recognizes (Index.ofList (⟨'S', .empty⟩ :: rivalRules)) 'S' ['a', 'b'] = true ∧
      recognizes (Index.ofList (⟨'S', .empty⟩ :: rivalRules)) 'S' [] = true ∧
      recognizes (Index.ofList rivalRules) 'S' [] = false := by
  have hreverse : ∀ p ∈ rivalRules, p ∈ rivalRules.reverse := fun _ => List.mem_reverse.2
  have hback : ∀ p ∈ rivalRules.reverse, p ∈ rivalRules := fun _ => List.mem_reverse.1
  have hmore : ∀ p ∈ rivalRules, p ∈ ⟨'S', .empty⟩ :: rivalRules := fun _ =>
    List.mem_cons_of_mem _
  have hs : (fill (Index.ofList rivalRules) ['a', 'b']).cell? 1 0 =
      some (SymbolSet.ofList ['S', 'T']) := by decide +kernel
  have ht : (fill (Index.ofList rivalRules.reverse) ['a', 'b']).cell? 1 0 =
      some (SymbolSet.ofList ['T', 'S']) := by decide +kernel
  have hsame := ((fill_mono hreverse ['a', 'b']).2.2 hback).1 1 0
  rw [hs, ht, Option.rel_some_some] at hsame
  exact ⟨hreverse, hback, ⟨_, _, hs, ht, rfl, rfl, hsame⟩, hmore,
    (fill_mono hmore ['a', 'b']).2.1 'S' (by decide +kernel), by decide +kernel,
    by decide +kernel⟩

end Chomsky
