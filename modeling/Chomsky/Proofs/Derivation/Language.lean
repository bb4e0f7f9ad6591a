import Chomsky.Proofs.Derivation.Derivable
import Mathlib.Computability.ContextFreeGrammar
/-!
# Derivation trees and rewriting

Productions in Chomsky normal form are the rules of a context-free grammar, which derives a
word by rewriting one nonterminal of a sentential form at a time. Rewriting in any order
reaches exactly the sentences of derivation trees, empty leaves included: from a sentential
form that rewrites to a word one reads off a tree for each of its nonterminals.
-/

/-- The sentential forms of a context-free grammar. -/
abbrev ContextFreeGrammar.Form {T : Type} (g : ContextFreeGrammar T) : Type :=
  List (Symbol T g.NT)

namespace Chomsky

def Production.toRule (p : Production) : ContextFreeRule Char Symbol :=
  ⟨p.lhs, match p.rhs with
    | .terminal t => [.terminal t]
    | .pair left right => [.nonterminal left, .nonterminal right]
    | .empty => []⟩

/-- The context-free grammar with these productions and this start symbol. -/
def contextFree (ps : List Production) (start : Symbol) : ContextFreeGrammar Char :=
  ⟨Symbol, start, (ps.map Production.toRule).toFinset⟩

variable {ps : List Production} {start : Symbol}

theorem mem_rules_contextFree {rule : ContextFreeRule Char Symbol} :
    rule ∈ (contextFree ps start).rules ↔ ∃ p ∈ ps, p.toRule = rule := by
  change rule ∈ (ps.map Production.toRule).toFinset ↔ _
  rw [List.mem_toFinset, List.mem_map]

theorem produces_of_mem {p : Production} (h : p ∈ ps) :
    (contextFree ps start).Produces [.nonterminal p.lhs] p.toRule.output :=
  ⟨p.toRule, mem_rules_contextFree.2 ⟨p, h, rfl⟩, ContextFreeRule.Rewrites.input_output⟩

/-- The root of a tree rewrites to its sentence, the left part first. -/
theorem derives_sentence {t : Tree} (h : ∀ p ∈ t.productions, p ∈ ps) :
    (contextFree ps start).Derives [.nonterminal t.root] (t.sentence.map .terminal) := by
  induction t with
  | leaf x c => exact (produces_of_mem (Tree.forall_productions_leaf.1 h)).single
  | hollow x => exact (produces_of_mem (Tree.forall_productions_hollow.1 h)).single
  | node x left right ihl ihr =>
    obtain ⟨hx, hleft, hright⟩ := Tree.forall_productions_node.1 h
    have hfirst := (ihl hleft).append_right [.nonterminal right.root]
    have hsecond := (ihr hright).append_left (left.sentence.map .terminal)
    rw [Tree.sentence, List.map_append]
    exact ((produces_of_mem hx).trans_derives hfirst).trans hsecond

/-- A sentential form spells a string if its terminals stand in the string as they are and its
nonterminals derive what is between them. -/
def Spells (ps : List Production) (start : Symbol) :
    (contextFree ps start).Form → List Char → Prop
  | [], s => s = []
  | .terminal c :: form, s => ∃ v, s = c :: v ∧ Spells ps start form v
  | .nonterminal y :: form, s =>
    ∃ u v, s = u ++ v ∧ Derivable {p | p ∈ ps} y u ∧ Spells ps start form v

theorem spells_terminals (s : List Char) : Spells ps start (s.map .terminal) s := by
  induction s with
  | nil => rfl
  | cons c s ih => exact ⟨s, rfl, ih⟩

theorem spells_append {f g : (contextFree ps start).Form} {s : List Char} :
    Spells ps start (f ++ g) s ↔
      ∃ u v, s = u ++ v ∧ Spells ps start f u ∧ Spells ps start g v := by
  induction f generalizing s with
  | nil => simp [Spells]
  | cons y f ih =>
    cases y with
    | terminal c =>
      simp only [List.cons_append, Spells, ih]
      constructor
      · rintro ⟨_, rfl, u, v, rfl, hf, hg⟩
        exact ⟨c :: u, v, rfl, ⟨u, rfl, hf⟩, hg⟩
      · rintro ⟨_, v, rfl, ⟨u, rfl, hf⟩, hg⟩
        exact ⟨u ++ v, rfl, u, v, rfl, hf, hg⟩
    | nonterminal y =>
      simp only [List.cons_append, Spells, ih]
      constructor
      · rintro ⟨a, _, rfl, ha, u, v, rfl, hf, hg⟩
        exact ⟨a ++ u, v, (List.append_assoc a u v).symm, ⟨a, u, rfl, ha, hf⟩, hg⟩
      · rintro ⟨_, v, rfl, ⟨a, u, rfl, ha, hf⟩, hg⟩
        exact ⟨a, u ++ v, List.append_assoc a u v, ha, u, v, rfl, hf, hg⟩

/-- What the right side of a production spells its left side derives. -/
theorem derivable_of_spells_output {p : Production} (hp : p ∈ ps) {s : List Char}
    (h : Spells ps start p.toRule.output s) : Derivable {p | p ∈ ps} p.lhs s := by
  obtain ⟨x, rhs⟩ := p
  cases rhs with
  | terminal c =>
    obtain ⟨_, rfl, rfl⟩ := h
    exact Derivable.terminal hp
  | pair l r =>
    obtain ⟨u, _, rfl, hl, v, _, rfl, hr, rfl⟩ := h
    rw [List.append_nil]
    exact Derivable.pair hp hl hr
  | empty =>
    obtain rfl : s = [] := h
    exact Derivable.empty hp

/-- A step of rewriting spells nothing new. -/
theorem Spells.of_produces {f g : (contextFree ps start).Form} {s : List Char}
    (hfg : (contextFree ps start).Produces f g) (h : Spells ps start g s) :
    Spells ps start f s := by
  obtain ⟨rule, hrule, hrw⟩ := hfg
  obtain ⟨before, behind, rfl, rfl⟩ := hrw.exists_parts
  obtain ⟨p, hp, rfl⟩ := mem_rules_contextFree.1 hrule
  obtain ⟨_, w, rfl, h, hw⟩ := spells_append.1 h
  obtain ⟨u, v, rfl, hu, hv⟩ := spells_append.1 h
  refine spells_append.2 ⟨u ++ v, w, rfl, spells_append.2 ⟨u, v, rfl, hu, ?_⟩, hw⟩
  exact ⟨v, [], (List.append_nil v).symm, derivable_of_spells_output hp hv, rfl⟩

/-- A sentential form spells every word that it rewrites to. -/
theorem spells_of_derives {f : (contextFree ps start).Form} {s : List Char}
    (h : (contextFree ps start).Derives f (s.map .terminal)) : Spells ps start f s := by
  induction h using Relation.ReflTransGen.head_induction_on with
  | refl => exact spells_terminals s
  | head hstep _ ih => exact ih.of_produces hstep

/-- The language of the grammar with these productions is what its start symbol derives. -/
theorem mem_language_contextFree {s : List Char} :
    s ∈ (contextFree ps start).language ↔ Derivable {p | p ∈ ps} start s := by
  rw [ContextFreeGrammar.mem_language_iff]
  constructor
  · intro h
    obtain ⟨u, _, rfl, hu, rfl⟩ := spells_of_derives h
    rw [List.append_nil]
    exact hu
  · rintro ⟨t, rfl, rfl, ht⟩
    exact derives_sentence ht

end Chomsky
