import Chomsky.Proofs.Recognition.Verdict
import Chomsky.Proofs.Sentence.Grown
/-!
# Sentences and verdicts

The generator grows derivations in which any symbol may take an empty production; the
recognizer counts an empty production at the root only. So a sentence is always in the
context-free language of the grammar, and it is accepted if it also has a derivation of the
recognizer's kind. The two agree on a whole grammar if this is so for every tree that can be
grown, and certainly if no symbol of a pair has an empty production.
-/
namespace Chomsky

/-- The derivations of `g` from `start` that are low below the depth budget. -/
def Grammar.IsGrowable (g : Grammar) (start : Symbol) (t : Tree) : Prop :=
  t.root = start ∧ t.IsFor g.productions ∧ t.IsLowBelow g.heights 0

variable {g : Grammar} {start : Symbol}

theorem Grammar.IsGrowable.derivable {t : Tree} (ht : g.IsGrowable start t) :
    Derivable {p | p ∈ g.productions} start t.sentence := ⟨t, ht.1, rfl, ht.2.1⟩

/-- A sentence that is returned is the sentence of a growable tree. -/
theorem exists_isGrowable_of_sentence {σ : Type} {choose : Chooser σ} {location : Location}
    {s s' : σ} {sentence : List Char}
    (h : (Generator.ofGrammar g).sentence choose start location s = .ok (sentence, s')) :
    ∃ t, g.IsGrowable start t ∧ t.sentence = sentence := by
  unfold Generator.sentence at h
  cases hd : (Generator.ofGrammar g).derivation? choose start s with
  | none => simp [hd] at h
  | some grown =>
    obtain ⟨t, s₁⟩ := grown
    obtain ⟨v, -, hgrow⟩ := Option.bind_eq_some_iff.1 hd
    have heq : (t.sentence, s₁) = (sentence, s') := by simpa [hd] using h
    exact ⟨t, isLowBelow_of_grow hgrow, (Prod.mk.inj heq).1⟩

theorem exists_words_sentence (hbound : ∀ x, (g.rulesFor x).length < UInt32.size) {t : Tree}
    (ht : g.IsGrowable start t) (location : Location) :
    ∃ source source', (Generator.ofGrammar g).sentence WordSource.choose start location source =
      .ok (t.sentence, source') := by
  obtain ⟨rfl, hfor, hlow⟩ := ht
  obtain ⟨words, hwords⟩ := exists_words_sentence_of_isLowBelow hbound hfor hlow location
  exact ⟨_, _, hwords 0⟩

/-- A sentence that the generator returns is in the language of the grammar, and the recognizer
accepts it exactly when it has a derivation with an empty production at the root or none. It
accepts all sentences of a grammar exactly when all growable trees have such sentences, and
this is so where no symbol of a pair has an empty production. -/
theorem recognizes_sentence_iff (g : Grammar) (start : Symbol) :
    (∀ {σ : Type} (choose : Chooser σ) (location : Location) (s s' : σ) (sentence : List Char),
      (Generator.ofGrammar g).sentence choose start location s = .ok (sentence, s') →
      sentence ∈ (contextFree g.productions start).language ∧
      (recognizes g.index start sentence = true ↔
        Admits {p | p ∈ g.productions} start sentence) ∧
      ((∀ p ∈ g.productions, ∀ y ∈ p.rhs.symbols, ⟨y, .empty⟩ ∉ g.productions) →
        recognizes g.index start sentence = true)) ∧
    ((∀ x, (g.rulesFor x).length < UInt32.size) →
      ((∀ location source source' sentence,
          (Generator.ofGrammar g).sentence WordSource.choose start location source =
            .ok (sentence, source') → recognizes g.index start sentence = true) ↔
        ∀ t, g.IsGrowable start t → Admits {p | p ∈ g.productions} start t.sentence)) := by
  have hrec : ∀ sentence, recognizes g.index start sentence = true ↔
      Admits {p | p ∈ g.productions} start sentence := fun _ => recognizes_iff_admits
  constructor
  · intro σ choose location s s' sentence hok
    obtain ⟨t, ht, rfl⟩ := exists_isGrowable_of_sentence hok
    exact ⟨mem_language_contextFree.2 ht.derivable, hrec _,
      fun hpairs => (hrec _).2 (ht.derivable.admits hpairs)⟩
  · intro hbound
    constructor
    · intro hall t ht
      obtain ⟨source, source', hok⟩ := exists_words_sentence hbound ht default
      exact (hrec _).1 (hall _ _ _ _ hok)
    · intro hall location source source' sentence hok
      obtain ⟨t, ht, rfl⟩ := exists_isGrowable_of_sentence hok
      exact (hrec _).2 (hall t ht)

/-- A grammar whose pair may lose its first symbol. -/
def losingGrammar : Grammar :=
  ⟨[⟨'S', .pair 'A' 'B'⟩, ⟨'A', .empty⟩, ⟨'A', .terminal 'a'⟩, ⟨'B', .terminal 'b'⟩]⟩

/-- From the grammar whose pair may lose a symbol the generator returns `b`, which is in the
language and is not accepted; from the balanced grammar it returns `aabb`, which is. -/
theorem recognizes_sentence_losingGrammar :
    (Generator.ofGrammar losingGrammar).sentence WordSource.choose 'S' default
        ⟨[0, 0, 0], 0, 0⟩ = .ok (['b'], ⟨[], 0, 3⟩) ∧
      ['b'] ∈ (contextFree losingGrammar.productions 'S').language ∧
      ¬ Admits {p | p ∈ losingGrammar.productions} 'S' ['b'] ∧
      (∀ x, (losingGrammar.rulesFor x).length < UInt32.size) ∧
      (∃ t, losingGrammar.IsGrowable 'S' t ∧
        ¬ Admits {p | p ∈ losingGrammar.productions} 'S' t.sentence) ∧
      (Generator.ofGrammar ⟨balancedRules⟩).sentence WordSource.choose 'S' default
        ⟨[0xC0000000, 0, 0, 0, 0, 0, 0], 0, 0⟩ = .ok (['a', 'a', 'b', 'b'], ⟨[], 0, 7⟩) ∧
      (∀ p ∈ balancedRules, ∀ y ∈ p.rhs.symbols, ⟨y, .empty⟩ ∉ balancedRules) ∧
      recognizes (Grammar.index ⟨balancedRules⟩) 'S' ['a', 'a', 'b', 'b'] = true := by
  have hok : (Generator.ofGrammar losingGrammar).sentence WordSource.choose 'S' default
      ⟨[0, 0, 0], 0, 0⟩ = .ok (['b'], ⟨[], 0, 3⟩) := by decide +kernel
  have hreject : ¬ recognizes losingGrammar.index 'S' ['b'] = true := by decide +kernel
  have hbound : ∀ x, (losingGrammar.rulesFor x).length < UInt32.size := fun x =>
    Nat.lt_of_le_of_lt (List.length_filter_le _ _) (by decide)
  have hbalanced : (Generator.ofGrammar ⟨balancedRules⟩).sentence WordSource.choose 'S' default
      ⟨[0xC0000000, 0, 0, 0, 0, 0, 0], 0, 0⟩ = .ok (['a', 'a', 'b', 'b'], ⟨[], 0, 7⟩) := by
    decide +kernel
  have hpairs := balancedRules_pairs
  obtain ⟨hmem, hiff, -⟩ := (recognizes_sentence_iff losingGrammar 'S').1 _ _ _ _ _ hok
  have hall := (recognizes_sentence_iff losingGrammar 'S').2 hbound
  refine ⟨hok, hmem, fun h => hreject (hiff.2 h), hbound, ?_, hbalanced, hpairs,
    ((recognizes_sentence_iff ⟨balancedRules⟩ 'S').1 _ _ _ _ _ hbalanced).2.2 hpairs⟩
  by_contra hnone
  exact hreject (hall.2 (fun t ht => by_contra fun h => hnone ⟨t, ht, h⟩) _ _ _ _ hok)

end Chomsky
