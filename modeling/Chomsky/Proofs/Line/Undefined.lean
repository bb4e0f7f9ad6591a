import Chomsky.Line.Rule
import Chomsky.Proofs.Grammar.Idle
import Chomsky.Proofs.Symbol.Members
/-!
# What is said about undefined symbols

The faults name the symbols without rules: the start symbol first, then for each rule the symbols
that its pairs refer to, in the order in which they first come. Such a symbol has no derivation, so
nothing but a warning is called for: heights, verdicts and sentences are those of the grammar
without the productions that refer to symbols named.
-/
namespace Chomsky

/-- The symbol that is said to have no productions. -/
def Cause.undefinedSymbol? : Cause → Option Symbol
  | undefinedNonterminal x => some x
  | undefinedStart x => some x
  | _ => none

namespace Rule

/-- The symbols of the pairs of a rule that no rule defines, each where it first comes. -/
def undefinedIn (rules : List Rule) (r : Rule) : List Symbol :=
  (r.alternatives.flatMap Rhs.symbols).eraseDups.filter fun x => ∀ d ∈ rules, d.lhs ≠ x

def named (rules : List Rule) (start : Symbol) (grammar : Location) : List Symbol :=
  (undefined rules start grammar).filterMap fun fault => fault.cause.undefinedSymbol?

variable {rules : List Rule} {start x : Symbol} {grammar : Location}

theorem mem_definedSymbols : x ∈ definedSymbols rules ↔ ∃ r ∈ rules, r.lhs = x := by
  rw [definedSymbols, SymbolSet.mem_ofList, List.mem_map]

theorem undefinedSymbols_definedSymbols (rules : List Rule) (r : Rule) :
    undefinedSymbols (definedSymbols rules) r =
      (undefinedIn rules r).map fun x => ⟨r.location, .undefinedNonterminal x⟩ := by
  rw [undefinedSymbols, undefinedIn, symbols, SymbolSet.toList_ofList]
  congr 1
  apply List.filter_congr
  intro x _
  simp [mem_definedSymbols]

/-- The start symbol comes first if no rule defines it, and then the symbols of the rules. -/
theorem undefined_eq (rules : List Rule) (start : Symbol) (grammar : Location) :
    undefined rules start grammar =
      (if ∃ r ∈ rules, r.lhs = start then [] else [⟨grammar, .undefinedStart start⟩]) ++
      rules.flatMap fun r =>
        (undefinedIn rules r).map fun x => ⟨r.location, .undefinedNonterminal x⟩ := by
  rw [← funext (undefinedSymbols_definedSymbols rules)]
  simp only [undefined, undefinedStart, mem_definedSymbols]

theorem mem_undefinedIn {r : Rule} : x ∈ undefinedIn rules r ↔
    (∃ rhs ∈ r.alternatives, x ∈ rhs.symbols) ∧ ∀ d ∈ rules, d.lhs ≠ x := by
  simp [undefinedIn]

theorem named_eq (rules : List Rule) (start : Symbol) (grammar : Location) :
    named rules start grammar =
      (if ∃ r ∈ rules, r.lhs = start then [] else [start]) ++
        rules.flatMap (undefinedIn rules) := by
  rw [named, undefined_eq, List.filterMap_append, List.filterMap_flatMap]
  congr 1
  · split <;> rfl
  · simp [List.filterMap_map, Cause.undefinedSymbol?]

/-- The symbols named are those that no rule defines, if they are the start symbol or in a pair. -/
theorem mem_named : x ∈ named rules start grammar ↔
    (∀ d ∈ rules, d.lhs ≠ x) ∧
      (x = start ∨ ∃ r ∈ rules, ∃ rhs ∈ r.alternatives, x ∈ rhs.symbols) := by
  have hstart : x ∈ (if ∃ r ∈ rules, r.lhs = start then [] else [start]) ↔
      x = start ∧ ∀ d ∈ rules, d.lhs ≠ x := by
    split <;> grind
  rw [named_eq, List.mem_append, hstart, List.mem_flatMap]
  simp only [mem_undefinedIn]
  grind

/-- A symbol that no rule defines has no derivation, as a derivation begins with a rule for its
root. -/
theorem not_isProductive_of_forall_ne (h : ∀ d ∈ rules, d.lhs ≠ x) :
    ¬ (Grammar.ofRules rules).IsProductive x := by
  rintro ⟨t, rfl, ht⟩
  obtain ⟨r, hr, hp⟩ := List.mem_flatMap.1 ht.root_mem
  obtain ⟨rhs, -, heq⟩ := List.mem_map.1 hp
  exact h r hr (Production.mk.inj heq).1

/-- The faults name the start symbol, if no rule defines it, and then rule by rule the symbols of
pairs that no rule defines, each once and where it first comes. The grammar has the same heights,
verdicts and sentences without the productions that refer to symbols named. From a start symbol that
is named no string is derived and no sentence is returned. -/
theorem undefined_harmless (rules : List Rule) (start : Symbol) (grammar : Location) :
    undefined rules start grammar =
      (if ∃ r ∈ rules, r.lhs = start then [] else [⟨grammar, .undefinedStart start⟩]) ++
      (rules.flatMap fun r =>
        (undefinedIn rules r).map fun x => ⟨r.location, .undefinedNonterminal x⟩) ∧
    ((Grammar.ofRules rules).without (named rules start grammar)).heights =
      (Grammar.ofRules rules).heights ∧
    (∀ x s, recognizes ((Grammar.ofRules rules).without (named rules start grammar)).index x s =
      recognizes (Grammar.ofRules rules).index x s) ∧
    (∀ {σ : Type} (choose : Chooser σ) (x : Symbol) (location : Location) (s : σ),
      (Generator.ofGrammar ((Grammar.ofRules rules).without
          (named rules start grammar))).sentence choose x location s =
        (Generator.ofGrammar (Grammar.ofRules rules)).sentence choose x location s) ∧
    (start ∈ named rules start grammar →
      (∀ s, recognizes (Grammar.ofRules rules).index start s = false) ∧
      ∀ {σ : Type} (choose : Chooser σ) (location : Location) (s : σ),
        (Generator.ofGrammar (Grammar.ofRules rules)).sentence choose start location s =
          .error ⟨location, start⟩) := by
  have hnamed : ∀ x ∈ named rules start grammar, ¬ (Grammar.ofRules rules).IsProductive x :=
    fun x hx => not_isProductive_of_forall_ne (mem_named.1 hx).1
  refine ⟨undefined_eq rules start grammar, Grammar.heights_without hnamed,
    Grammar.recognizes_without hnamed, fun choose => Generator.sentence_without hnamed choose, ?_⟩
  intro hstart
  have hnone := hnamed start hstart
  exact ⟨Grammar.recognizes_eq_false hnone, fun _ _ => Generator.sentence_of_not_isProductive hnone⟩

/-- Rules that refer to `B` and `X`, which have none. -/
def patchyRules : List Rule :=
  [⟨'S', [.pair 'X' 'B', .pair 'B' 'A', .pair 'A' 'A'], ⟨default, 3⟩⟩,
    ⟨'A', [.pair 'A' 'X', .terminal 'a'], ⟨default, 4⟩⟩]

/-- From `Q`, which is no left side either, there is nothing. Without the productions that refer to
symbols named two productions are left, which lead to the same sentence with the same choices. -/
theorem undefined_harmless_patchyRules :
    undefined patchyRules 'Q' ⟨default, 3⟩ =
      [⟨⟨default, 3⟩, .undefinedStart 'Q'⟩, ⟨⟨default, 3⟩, .undefinedNonterminal 'X'⟩,
        ⟨⟨default, 3⟩, .undefinedNonterminal 'B'⟩, ⟨⟨default, 4⟩, .undefinedNonterminal 'X'⟩] ∧
      'Q' ∈ named patchyRules 'Q' ⟨default, 3⟩ ∧
      recognizes (Grammar.ofRules patchyRules).index 'Q' ['a', 'a'] = false ∧
      ((Grammar.ofRules patchyRules).without (named patchyRules 'Q' ⟨default, 3⟩)).productions =
        [⟨'S', .pair 'A' 'A'⟩, ⟨'A', .terminal 'a'⟩] ∧
      (Generator.ofGrammar (Grammar.ofRules patchyRules)).sentence WordSource.choose 'S' default
        ⟨[0, 0, 0], 0, 0⟩ = .ok (['a', 'a'], ⟨[], 0, 3⟩) := by
  obtain ⟨hfaults, -, -, hsentence, hstart⟩ :=
    undefined_harmless patchyRules 'Q' ⟨default, 3⟩
  have hQ : 'Q' ∈ named patchyRules 'Q' ⟨default, 3⟩ := by decide +kernel
  refine ⟨hfaults.trans (by decide +kernel), hQ, (hstart hQ).1 _, by decide +kernel, ?_⟩
  rw [← hsentence]
  decide +kernel

end Rule

end Chomsky
