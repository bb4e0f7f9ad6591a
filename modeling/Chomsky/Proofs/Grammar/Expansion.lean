import Chomsky.Proofs.Dictionary.Entries
import Chomsky.Proofs.Grammar.Producers
import Chomsky.Proofs.Symbol.Members
import Mathlib.Data.List.Nodup
/-!
# An index is a set of productions

An index has an entry for each right side with producers and for no other, and no entry is
empty. So it can be expanded into its productions, each of them once, and two indices are taken
for equal exactly if they were made of the same productions, whatever their order and however
often they stood there.
-/
namespace Chomsky

/-! ## Lookups -/

/-- The left sides of the productions with a right side, each where it first comes. -/
def leftSides (ps : List Production) (rhs : Rhs) : List Symbol :=
  ((ps.filter (·.rhs = rhs)).map Production.lhs).eraseDups

/-- The left sides of a right side, if it has any. -/
def leftSides? (ps : List Production) (rhs : Rhs) : Option (List Symbol) :=
  if leftSides ps rhs = [] then none else some (leftSides ps rhs)

namespace Index

/-- No entry of the index is without producers. -/
structure IsTight (i : Index) : Prop where
  terminals : ∀ t, i.producersOfTerminal? t ≠ some ∅
  pairs : ∀ left right, i.producersOfPair? left right ≠ some ∅

theorem isTight_empty : (∅ : Index).IsTight :=
  ⟨fun _ => Option.some_ne_none _ |>.symm, fun _ _ => Option.some_ne_none _ |>.symm⟩

/-- A new entry has a producer, and an entry that gets one more still has the others. -/
theorem find?_addProducer_ne {κ : Type} [DecidableEq κ] {d : Dictionary κ SymbolSet}
    (h : ∀ k, d.find? k ≠ some ∅) (key : κ) (x : Symbol) (k : κ) :
    (addProducer d key x).find? k ≠ some ∅ := by
  rw [addProducer, Dictionary.find?_alter]
  split
  · intro hempty
    exact SymbolSet.ne_empty_of_mem (SymbolSet.mem_insert.2 (Or.inr rfl)) (Option.some.inj hempty)
  · exact h k

theorem IsTight.add {i : Index} (h : i.IsTight) (p : Production) : (i.add p).IsTight := by
  obtain ⟨x, rhs⟩ := p
  cases rhs with
  | terminal t => exact ⟨find?_addProducer_ne h.terminals t x, h.pairs⟩
  | pair left right =>
    have hpairs : ∀ pair, i.pairs.find? pair ≠ some ∅ := fun pair => h.pairs pair.1 pair.2
    exact ⟨h.terminals, fun l r => find?_addProducer_ne hpairs (left, right) x (l, r)⟩
  | empty => exact ⟨h.terminals, h.pairs⟩

theorem isTight_ofList (ps : List Production) : (ofList ps).IsTight := by
  have hfold : ∀ {i : Index}, i.IsTight → (ps.foldl Index.add i).IsTight := by
    induction ps with
    | nil => exact id
    | cons p ps ih => exact fun h => ih (h.add p)
  exact hfold isTight_empty

theorem toList_producers_ofList (ps : List Production) (rhs : Rhs) :
    ((ofList ps).producers rhs).toList = leftSides ps rhs := by
  rw [producers_ofList, SymbolSet.toList_ofList, leftSides]

/-- Where no entry is empty, a right side has an entry exactly if it has producers. -/
theorem map_toList_eq {found : Option SymbolSet} (h : found ≠ some ∅) :
    found.map SymbolSet.toList =
      if (found.getD ∅).toList = [] then none else some (found.getD ∅).toList := by
  cases found with
  | none => rfl
  | some s =>
    have hne : s.toList ≠ [] := mt SymbolSet.toList_eq_nil_iff.1 (mt (congrArg some) h)
    rw [Option.getD_some, if_neg hne, Option.map_some]

theorem producersOfTerminal?_ofList (ps : List Production) (t : Char) :
    ((ofList ps).producersOfTerminal? t).map SymbolSet.toList = leftSides? ps (.terminal t) := by
  rw [map_toList_eq ((isTight_ofList ps).terminals t), leftSides?, ← toList_producers_ofList]
  rfl

theorem producersOfPair?_ofList (ps : List Production) (left right : Symbol) :
    ((ofList ps).producersOfPair? left right).map SymbolSet.toList =
      leftSides? ps (.pair left right) := by
  rw [map_toList_eq ((isTight_ofList ps).pairs left right), leftSides?, ← toList_producers_ofList]
  rfl

/-! ## Equal indices -/

/-- Where no entry is empty, entries are taken for equal if the same symbols are producers. -/
theorem rel_sameMembers_iff {a b : Option SymbolSet} (ha : a ≠ some ∅) (hb : b ≠ some ∅) :
    Option.Rel (fun s t => SymbolSet.sameMembers s t = true) a b ↔
      ∀ x, x ∈ a.getD ∅ ↔ x ∈ b.getD ∅ := by
  have hmem : ∀ {s : SymbolSet}, some s ≠ some ∅ → ∃ x, x ∈ s := by
    intro s hs
    exact List.exists_mem_of_ne_nil _ (mt SymbolSet.toList_eq_nil_iff.1 (mt (congrArg some) hs))
  cases a <;> cases b
  · simp
  · obtain ⟨x, hx⟩ := hmem hb
    simpa using ⟨x, hx⟩
  · obtain ⟨x, hx⟩ := hmem ha
    simpa using ⟨x, hx⟩
  · simp [SymbolSet.sameMembers_iff]

/-- Two indices are taken for equal if all right sides have the same producers in both. -/
theorem same_iff {i j : Index} (hi : i.IsTight) (hj : j.IsTight) :
    i.same j = true ↔ ∀ rhs x, x ∈ i.producers rhs ↔ x ∈ j.producers rhs := by
  have hterminals : i.terminals.sameEntries SymbolSet.sameMembers j.terminals = true ↔
      ∀ t x, x ∈ i.producers (.terminal t) ↔ x ∈ j.producers (.terminal t) := by
    rw [Dictionary.sameEntries_iff]
    exact forall_congr' fun t => rel_sameMembers_iff (hi.terminals t) (hj.terminals t)
  have hpairs : i.pairs.sameEntries SymbolSet.sameMembers j.pairs = true ↔
      ∀ left right x, x ∈ i.producers (.pair left right) ↔ x ∈ j.producers (.pair left right) := by
    rw [Dictionary.sameEntries_iff, Prod.forall]
    exact forall₂_congr fun left right =>
      rel_sameMembers_iff (hi.pairs left right) (hj.pairs left right)
  rw [same, Bool.and_eq_true, Bool.and_eq_true, hterminals, hpairs, SymbolSet.sameMembers_iff]
  constructor
  · rintro ⟨⟨ht, hp⟩, he⟩ rhs
    cases rhs with
    | terminal t => exact ht t
    | pair left right => exact hp left right
    | empty => exact he
  · intro h
    exact ⟨⟨fun t => h (.terminal t), fun left right => h (.pair left right)⟩, h .empty⟩

theorem same_ofList_iff {ps qs : List Production} :
    (ofList ps).same (ofList qs) = true ↔ ∀ p, p ∈ ps ↔ p ∈ qs := by
  rw [same_iff (isTight_ofList ps) (isTight_ofList qs)]
  simp only [mem_producers_ofList]
  exact ⟨fun h p => h p.rhs p.lhs, fun h rhs x => h ⟨x, rhs⟩⟩

/-! ## Expanded indices -/

theorem mem_expand {s : SymbolSet} {rhs : Rhs} {p : Production} :
    p ∈ expand s rhs ↔ p.rhs = rhs ∧ p.lhs ∈ s := by
  obtain ⟨x, q⟩ := p
  rw [expand, List.mem_map]
  constructor
  · rintro ⟨y, hy, heq⟩
    obtain ⟨rfl, rfl⟩ := Production.mk.inj heq
    exact ⟨rfl, hy⟩
  · rintro ⟨rfl, hx⟩
    exact ⟨x, hx, rfl⟩

theorem nodup_expand (s : SymbolSet) (rhs : Rhs) : (expand s rhs).Nodup :=
  s.nodup.map fun _ _ heq => (Production.mk.inj heq).1

section
variable {κ : Type} [DecidableEq κ] {d : Dictionary κ SymbolSet} {f : κ → Rhs}

/-- The productions of a dictionary of producers, its keys standing for right sides. -/
theorem mem_flatMap_expand {p : Production} :
    p ∈ (d.entries.flatMap fun e => expand e.2 (f e.1)) ↔
      ∃ k, p.rhs = f k ∧ p.lhs ∈ (d.find? k).getD ∅ := by
  simp only [List.mem_flatMap, Prod.exists, mem_expand, Dictionary.mem_entries_iff]
  refine exists_congr fun k => ?_
  cases d.find? k <;> simp [and_comm]

omit [DecidableEq κ] in
theorem nodup_flatMap_expand (hf : Function.Injective f) :
    (d.entries.flatMap fun e => expand e.2 (f e.1)).Nodup := by
  rw [List.nodup_flatMap]
  refine ⟨fun e _ => nodup_expand e.2 _, (List.pairwise_map.1 d.nodup).imp ?_⟩
  intro e e' hne p hp hp'
  exact hne (hf ((mem_expand.1 hp).1.symm.trans (mem_expand.1 hp').1))

end

theorem productions_eq (i : Index) : i.productions =
    (i.terminals.entries.flatMap fun e => expand e.2 (.terminal e.1)) ++
    (i.pairs.entries.flatMap fun e => expand e.2 (.pair e.1.1 e.1.2)) ++
    expand i.nullable .empty := rfl

theorem mem_productions_iff {i : Index} {p : Production} :
    p ∈ i.productions ↔ p.lhs ∈ i.producers p.rhs := by
  rw [productions_eq, List.mem_append, List.mem_append, mem_flatMap_expand, mem_expand,
    mem_flatMap_expand (f := fun pair : Symbol × Symbol => .pair pair.1 pair.2)]
  cases p.rhs <;> simp [producers, producersOfTerminal?, producersOfPair?]

theorem nodup_productions (i : Index) : i.productions.Nodup := by
  let ofPair : Symbol × Symbol → Rhs := fun pair => .pair pair.1 pair.2
  have hterminals := nodup_flatMap_expand (d := i.terminals) fun _ _ => Rhs.terminal.inj
  have hpairs := nodup_flatMap_expand (d := i.pairs) (f := ofPair) fun _ _ h =>
    Prod.ext (Rhs.pair.inj h).1 (Rhs.pair.inj h).2
  rw [productions_eq, List.nodup_append', List.nodup_append']
  -- the three parts have right sides of different kinds
  refine ⟨⟨hterminals, hpairs, ?_⟩, nodup_expand i.nullable .empty, ?_⟩
  · intro p hterminal hpair
    obtain ⟨t, ht, -⟩ := mem_flatMap_expand.1 hterminal
    obtain ⟨pair, hp, -⟩ := (mem_flatMap_expand (f := ofPair)).1 hpair
    exact absurd (ht.symm.trans hp) (by simp [ofPair])
  · intro p hother hempty
    have he := (mem_expand.1 hempty).1
    rcases List.mem_append.1 hother with hterminal | hpair
    · obtain ⟨t, ht, -⟩ := mem_flatMap_expand.1 hterminal
      exact absurd (ht.symm.trans he) (by simp)
    · obtain ⟨pair, hp, -⟩ := (mem_flatMap_expand (f := ofPair)).1 hpair
      exact absurd (hp.symm.trans he) (by simp [ofPair])

/-- The index of a list expands to the productions of the list, each once, and an index of these
productions in any order is taken for equal to it. A lookup finds the left sides of a right side
in the order in which they first come, and nothing where there are none. Two lists have equal
indices if they have the same productions. -/
theorem is_production_set (ps : List Production) :
    (ofList ps).productions.Nodup ∧ (∀ p, p ∈ (ofList ps).productions ↔ p ∈ ps) ∧
    (∀ qs, qs.Perm (ofList ps).productions → (ofList qs).same (ofList ps) = true) ∧
    (∀ t, ((ofList ps).producersOfTerminal? t).map SymbolSet.toList =
      leftSides? ps (.terminal t)) ∧
    (∀ left right, ((ofList ps).producersOfPair? left right).map SymbolSet.toList =
      leftSides? ps (.pair left right)) ∧
    (ofList ps).nullable.toList = leftSides ps .empty ∧
    (∀ x, (ofList ps).derivesEmpty x = true ↔ x ∈ leftSides ps .empty) ∧
    ∀ qs, (ofList ps).same (ofList qs) = true ↔ ∀ p, p ∈ ps ↔ p ∈ qs := by
  have hmem : ∀ p, p ∈ (ofList ps).productions ↔ p ∈ ps := fun _ =>
    mem_productions_iff.trans mem_producers_ofList
  have hempty := toList_producers_ofList ps .empty
  refine ⟨nodup_productions _, hmem, fun qs hqs => ?_, producersOfTerminal?_ofList ps,
    producersOfPair?_ofList ps, hempty, fun x => ?_, fun qs => same_ofList_iff⟩
  · exact same_ofList_iff.2 fun p => hqs.mem_iff.trans (hmem p)
  · rw [← hempty]
    exact decide_eq_true_iff

/-- Productions that share right sides, one of them twice. -/
def sharedRules : List Production :=
  [⟨'S', .pair 'A' 'B'⟩, ⟨'T', .pair 'A' 'B'⟩, ⟨'A', .terminal 'a'⟩, ⟨'S', .pair 'A' 'B'⟩,
    ⟨'S', .empty⟩, ⟨'S', .terminal 'a'⟩]

/-- The five different productions in another order make an equal index, whose lookups find left
sides in another order. -/
theorem is_production_set_sharedRules : ∃ qs : List Production,
    qs.Perm (ofList sharedRules).productions ∧ qs.length = 5 ∧
      (ofList qs).same (ofList sharedRules) = true ∧
      ((ofList sharedRules).producersOfPair? 'A' 'B').map SymbolSet.toList = some ['S', 'T'] ∧
      ((ofList qs).producersOfPair? 'A' 'B').map SymbolSet.toList = some ['T', 'S'] ∧
      ((ofList sharedRules).producersOfPair? 'B' 'A').map SymbolSet.toList = none := by
  let qs := (ofList sharedRules).productions.reverse
  have hperm : qs.Perm (ofList sharedRules).productions := List.reverse_perm _
  obtain ⟨-, -, hsame, -, hpair, -⟩ := is_production_set sharedRules
  obtain ⟨-, -, -, -, hreversed, -⟩ := is_production_set qs
  refine ⟨qs, hperm, by decide +kernel, hsame qs hperm, ?_, ?_, ?_⟩
  · exact (hpair 'A' 'B').trans (by decide +kernel)
  · exact (hreversed 'A' 'B').trans (by decide +kernel)
  · exact (hpair 'B' 'A').trans (by decide +kernel)

end Index

end Chomsky
