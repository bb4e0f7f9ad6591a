import Chomsky.Grammar.Index
/-!
# What an index answers

The producers that an index finds for a right side are the left sides of the productions with
this right side, each once and in the order in which they first came. Terminals, pairs and the
empty string are kept apart in the index; `Index.producers` asks for any of them alike.
-/
namespace Chomsky

namespace SymbolSet

/-- When every step adds certain symbols, all steps together add what any of them adds. -/
theorem mem_foldl {α : Type} {step : SymbolSet → α → SymbolSet} (adds : α → Symbol → Prop)
    (hstep : ∀ s a y, y ∈ step s a ↔ y ∈ s ∨ adds a y) {xs : List α} {s : SymbolSet}
    {y : Symbol} : y ∈ xs.foldl step s ↔ y ∈ s ∨ ∃ a ∈ xs, adds a y := by
  induction xs generalizing s with
  | nil => simp
  | cons a xs ih =>
    rw [List.foldl_cons, ih, hstep, or_assoc]
    simp only [List.mem_cons, exists_eq_or_imp]

theorem insertMany_cons (s : SymbolSet) (x : Symbol) (xs : List Symbol) :
    s.insertMany (x :: xs) = (s.insert x).insertMany xs := rfl

@[simp] theorem mem_ofList {x : Symbol} {xs : List Symbol} : x ∈ ofList xs ↔ x ∈ xs :=
  mem_insertMany.trans (or_iff_right (not_mem_empty x))

end SymbolSet

namespace Index

/-- The symbols that produce a right side; there may be none. -/
def producers (i : Index) : Rhs → SymbolSet
  | .terminal t => (i.producersOfTerminal? t).getD ∅
  | .pair left right => (i.producersOfPair? left right).getD ∅
  | .empty => i.nullable

theorem getD_find?_addProducer {κ : Type} [DecidableEq κ] (d : Dictionary κ SymbolSet)
    (key k : κ) (x : Symbol) :
    ((addProducer d key x).find? k).getD ∅ =
      if k = key then ((d.find? k).getD ∅).insert x else (d.find? k).getD ∅ := by
  rw [addProducer, Dictionary.find?_alter]
  split
  · rename_i h
    rw [h, Option.getD_some]
  · rfl

theorem producers_add (i : Index) (p : Production) (rhs : Rhs) :
    (i.add p).producers rhs =
      if rhs = p.rhs then (i.producers rhs).insert p.lhs else i.producers rhs := by
  obtain ⟨x, q⟩ := p
  cases q with
  | terminal t =>
    cases rhs <;>
      simp [add, producers, producersOfTerminal?, producersOfPair?, getD_find?_addProducer]
  | pair left right =>
    cases rhs <;>
      simp [add, producers, producersOfTerminal?, producersOfPair?, getD_find?_addProducer]
  | empty => cases rhs <;> simp [add, producers, producersOfTerminal?, producersOfPair?]

theorem producers_foldl_add (ps : List Production) (i : Index) (rhs : Rhs) :
    (ps.foldl add i).producers rhs =
      (i.producers rhs).insertMany ((ps.filter (·.rhs = rhs)).map Production.lhs) := by
  induction ps generalizing i with
  | nil => rfl
  | cons p ps ih =>
    rw [List.foldl_cons, ih, producers_add]
    by_cases h : p.rhs = rhs
    · rw [if_pos h.symm, List.filter_cons_of_pos (by simpa using h), List.map_cons,
        SymbolSet.insertMany_cons]
    · rw [if_neg fun e => h e.symm, List.filter_cons_of_neg (by simpa using h)]

/-- The producers of a right side are the left sides of its productions, in order. -/
theorem producers_ofList (ps : List Production) (rhs : Rhs) :
    (ofList ps).producers rhs =
      SymbolSet.ofList ((ps.filter (·.rhs = rhs)).map Production.lhs) := by
  have hempty : (∅ : Index).producers rhs = SymbolSet.empty := by cases rhs <;> rfl
  rw [ofList, producers_foldl_add, hempty, SymbolSet.ofList]

/-- A symbol is a producer of a right side if the two form a production. -/
theorem mem_producers_ofList {ps : List Production} {x : Symbol} {rhs : Rhs} :
    x ∈ (ofList ps).producers rhs ↔ ⟨x, rhs⟩ ∈ ps := by
  rw [producers_ofList, SymbolSet.mem_ofList, List.mem_map]
  constructor
  · rintro ⟨p, hp, rfl⟩
    rw [List.mem_filter, decide_eq_true_eq] at hp
    exact hp.2 ▸ hp.1
  · intro h
    exact ⟨⟨x, rhs⟩, List.mem_filter.2 ⟨h, by simp⟩, rfl⟩

theorem derivesEmpty_ofList {ps : List Production} {x : Symbol} :
    (ofList ps).derivesEmpty x = true ↔ ⟨x, .empty⟩ ∈ ps := by
  rw [← mem_producers_ofList]
  exact decide_eq_true_iff

end Index

end Chomsky
