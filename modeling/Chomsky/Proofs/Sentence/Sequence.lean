import Chomsky.Proofs.Sentence.Agreement
import Chomsky.Proofs.Sentence.Finished
/-!
# Sentences in a row

Several sentences are drawn one after the other, each from the state of the chooser that the one
before left. The grammar alone decides whether there are as many as were asked for: all of them
if its start symbol has a derivation, and none otherwise. What they are made of are terminals of
the grammar.
-/
namespace Chomsky

theorem Tree.IsFor.exists_terminal {ps : List Production} {t : Tree} (ht : t.IsFor ps) {c : Char}
    (hc : c ∈ t.sentence) : ∃ x, ⟨x, .terminal c⟩ ∈ ps := by
  induction t with
  | leaf x d =>
    obtain rfl : c = d := by simpa [sentence] using hc
    exact ⟨x, isFor_leaf.1 ht⟩
  | hollow x => exact absurd hc List.not_mem_nil
  | node x left right ihl ihr =>
    obtain ⟨-, hleft, hright⟩ := isFor_node.1 ht
    rcases List.mem_append.1 hc with hc | hc
    · exact ihl hleft hc
    · exact ihr hright hc

namespace Generator
variable {σ : Type}

/-- The sentences that are drawn in a row, as many as asked for as long as there are any, and the
state of the chooser behind them. -/
def sentences (gen : Generator) (choose : Chooser σ) (start : Symbol) (location : Location) :
    Nat → σ → List (List Char) × σ
  | 0, s => ([], s)
  | amount + 1, s =>
    match gen.sentence choose start location s with
    | .ok (sentence, s') =>
      let others := gen.sentences choose start location amount s'
      (sentence :: others.1, others.2)
    | .error _ => ([], s)

section
variable {gen : Generator} {choose : Chooser σ} {start : Symbol} {location : Location}

theorem sentences_succ_of_ok {s s' : σ} {sentence : List Char}
    (h : gen.sentence choose start location s = .ok (sentence, s')) (amount : Nat) :
    gen.sentences choose start location (amount + 1) s =
      (sentence :: (gen.sentences choose start location amount s').1,
        (gen.sentences choose start location amount s').2) := by
  rw [sentences, h]

theorem sentences_succ_of_error {s : σ} {failure : Unproductive}
    (h : gen.sentence choose start location s = .error failure) (amount : Nat) :
    gen.sentences choose start location (amount + 1) s = ([], s) := by
  rw [sentences, h]

/-- A generator that fails names the start symbol and the location that it was given. -/
theorem eq_of_sentence_eq_error {s : σ} {failure : Unproductive}
    (h : gen.sentence choose start location s = .error failure) :
    failure = ⟨location, start⟩ := by
  unfold sentence at h
  split at h
  · exact absurd h (by simp)
  · exact (Except.error.inj h).symm

/-- What is drawn in a row was drawn from some state each. -/
theorem exists_sentence_of_mem_sentences {amount : Nat} {s : σ} {w : List Char}
    (h : w ∈ (gen.sentences choose start location amount s).1) :
    ∃ s₁ s₂, gen.sentence choose start location s₁ = .ok (w, s₂) := by
  induction amount generalizing s with
  | zero => exact absurd h List.not_mem_nil
  | succ amount ih =>
    cases hs : gen.sentence choose start location s with
    | error failure =>
      rw [sentences_succ_of_error hs] at h
      exact absurd h List.not_mem_nil
    | ok drawn =>
      rw [sentences_succ_of_ok hs] at h
      rcases List.mem_cons.1 h with rfl | hmem
      · exact ⟨s, drawn.2, hs⟩
      · exact ih hmem

end

variable {g : Grammar} {choose : Chooser σ} {start : Symbol} {location : Location}

theorem exists_sentence (choose : Chooser σ) (hstart : g.IsProductive start)
    (location : Location) (s : σ) :
    ∃ w s', (ofGrammar g).sentence choose start location s = .ok (w, s') := by
  obtain ⟨t, s', hd, -⟩ := exists_derivation? choose hstart s
  exact ⟨t.sentence, s', by rw [sentence, hd]⟩

theorem sentence_of_not_isProductive (hstart : ¬ g.IsProductive start) (s : σ) :
    (ofGrammar g).sentence choose start location s = .error ⟨location, start⟩ := by
  cases hs : (ofGrammar g).sentence choose start location s with
  | error failure => rw [eq_of_sentence_eq_error hs]
  | ok drawn =>
    obtain ⟨t, ht, -⟩ := exists_isGrowable_of_sentence hs
    exact absurd ⟨t, ht.1, ht.2.1⟩ hstart

theorem length_sentences (choose : Chooser σ) (hstart : g.IsProductive start)
    (location : Location) (amount : Nat) (s : σ) :
    ((ofGrammar g).sentences choose start location amount s).1.length = amount := by
  induction amount generalizing s with
  | zero => rfl
  | succ amount ih =>
    obtain ⟨w, s', hs⟩ := exists_sentence choose hstart location s
    rw [sentences_succ_of_ok hs, List.length_cons, ih]

/-- From a start symbol without a derivation there are none, and nothing is chosen. -/
theorem sentences_of_not_isProductive (hstart : ¬ g.IsProductive start) (amount : Nat) (s : σ) :
    (ofGrammar g).sentences choose start location amount s = ([], s) := by
  cases amount with
  | zero => rfl
  | succ amount => exact sentences_succ_of_error (sentence_of_not_isProductive hstart s) amount

theorem exists_terminal_of_mem_sentences {amount : Nat} {s : σ} {w : List Char}
    (hw : w ∈ ((ofGrammar g).sentences choose start location amount s).1) {c : Char}
    (hc : c ∈ w) : ∃ x, ⟨x, .terminal c⟩ ∈ g.productions := by
  obtain ⟨s₁, s₂, hs⟩ := exists_sentence_of_mem_sentences hw
  obtain ⟨t, ht, rfl⟩ := exists_isGrowable_of_sentence hs
  exact ht.2.1.exists_terminal hc

end Generator

end Chomsky
