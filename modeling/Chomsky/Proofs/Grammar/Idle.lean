import Chomsky.Proofs.Sentence.Sequence
/-!
# Idle productions

A production whose right side refers to a symbol without derivations is in no derivation. Leaving
such productions out changes nothing that a grammar is used for: they never give a height, so the
passes come to the same heights; no tree uses them, so the verdicts are the same; and they are never
candidates, so the same choices lead to the same sentences.
-/
namespace Chomsky

/-- The grammar without the productions whose right sides refer to one of the symbols. -/
def Grammar.without (g : Grammar) (xs : List Symbol) : Grammar :=
  ⟨g.productions.filter fun p => p.rhs.symbols.all (· ∉ xs)⟩

variable {g : Grammar} {xs : List Symbol}

theorem Grammar.mem_without {p : Production} :
    p ∈ (g.without xs).productions ↔ p ∈ g.productions ∧ ∀ y ∈ p.rhs.symbols, y ∉ xs := by
  simp [without]

/-! ## Heights -/

namespace Heights
variable {ps qs : List Production} {h : Heights}

/-- A right side that refers to a symbol without derivations has no height. -/
theorem Attained.height?_eq_none (ha : Attained ps h) {rhs : Rhs} {y : Symbol}
    (hy : y ∈ rhs.symbols) (hnone : ∀ t : Tree, t.IsFor ps → t.root ≠ y) :
    rhs.height? h = none := by
  have hfind : h.find? y = none := by
    rw [Option.eq_none_iff_forall_ne_some]
    intro v hv
    obtain ⟨t, hroot, ht, -⟩ := ha y v hv
    exact hnone t ht hroot
  cases rhs with
  | terminal _ | empty => simp [Rhs.symbols] at hy
  | pair l r =>
    simp only [Rhs.symbols, List.mem_cons, List.not_mem_nil, or_false] at hy
    rcases hy with rfl | rfl
    · simp [Rhs.height?, hfind]
    · simp [Rhs.height?, hfind]

/-- A pass may leave out productions that change nothing on the way. -/
theorem pass_filter {keep : Production → Bool} {P : Heights → Prop}
    (hstep : ∀ h, ∀ p ∈ ps, P h → P (relax h p))
    (hdrop : ∀ h, ∀ p ∈ ps, P h → keep p = false → relax h p = h) (h₀ : P h) :
    pass (ps.filter keep) h = pass ps h := by
  induction ps generalizing h with
  | nil => rfl
  | cons p ps ih =>
    have hrest := ih (h := relax h p) (fun h q hq => hstep h q (List.mem_cons_of_mem p hq))
      (fun h q hq => hdrop h q (List.mem_cons_of_mem p hq)) (hstep h p List.mem_cons_self h₀)
    have hcons : pass (p :: ps) h = pass ps (relax h p) := rfl
    rw [hcons, ← hrest]
    cases hkeep : keep p with
    | true => rw [List.filter_cons_of_pos hkeep]; rfl
    | false =>
      rw [List.filter_cons_of_neg (by simp [hkeep]),
        hdrop h p List.mem_cons_self h₀ hkeep]

/-- Passes that do the same on the way come to the same end. -/
theorem settle_congr {P : Heights → Prop} (hkeep : ∀ h, P h → P (pass ps h))
    (hpass : ∀ h, P h → pass qs h = pass ps h) (h₀ : P h) : settle qs h = settle ps h := by
  fun_induction settle ps h with
  | case1 h heq => rw [settle, if_pos ((hpass h h₀).trans heq)]
  | case2 h hne ih => rw [settle, hpass h h₀, if_neg hne, ih (hkeep h h₀)]

end Heights

/-! ## Grammars without idle productions -/

section
variable (hxs : ∀ x ∈ xs, ¬ g.IsProductive x)
include hxs

/-- On the way to the heights, a right side that refers to one of the symbols has none. -/
theorem Heights.Attained.height?_eq_none_of_dropped {h : Heights}
    (ha : h.Attained g.productions) {p : Production}
    (hp : p.rhs.symbols.all (· ∉ xs) = false) : p.rhs.height? h = none := by
  obtain ⟨y, hy, hmem⟩ : ∃ y ∈ p.rhs.symbols, y ∈ xs := by simpa using hp
  exact ha.height?_eq_none hy fun t ht hroot => hxs y hmem ⟨t, hroot, ht⟩

namespace Grammar

/-- The passes come to the same heights. -/
theorem heights_without : (g.without xs).heights = g.heights := by
  have hstep : ∀ h : Heights, ∀ p ∈ g.productions, h.Attained g.productions →
      (h.relax p).Attained g.productions := fun _ _ hp ha => ha.relax hp
  refine Heights.settle_congr (P := Heights.Attained g.productions)
    (fun h ha => Heights.pass_induction hstep ha) ?_ Heights.attained_empty
  intro h ha
  refine Heights.pass_filter hstep ?_ ha
  intro h p _ ha hp
  rw [Heights.relax, ha.height?_eq_none_of_dropped hxs hp]

theorem isFor_without {t : Tree} : t.IsFor (g.without xs).productions ↔ t.IsFor g.productions := by
  have hproductive : ∀ t : Tree, t.IsFor g.productions → t.root ∉ xs := by
    intro t ht hmem
    exact hxs t.root hmem ⟨t, rfl, ht⟩
  induction t with
  | leaf x c => simp [Tree.isFor_leaf, mem_without, Rhs.symbols]
  | hollow x => simp [Tree.isFor_hollow, mem_without, Rhs.symbols]
  | node x left right ihl ihr =>
    simp only [Tree.isFor_node, ihl, ihr, mem_without, Rhs.symbols, List.mem_cons,
      List.not_mem_nil, or_false, forall_eq_or_imp, forall_eq]
    constructor
    · intro h
      exact ⟨h.1.1, h.2⟩
    · intro h
      exact ⟨⟨h.1, hproductive left h.2.1, hproductive right h.2.2⟩, h.2⟩

theorem admits_without {x : Symbol} {s : List Char} :
    Admits {p | p ∈ (g.without xs).productions} x s ↔ Admits {p | p ∈ g.productions} x s := by
  have hproper : ∀ {ps : List Production} {t : Tree}, (∀ p ∈ t.productions,
      p ∈ proper {p | p ∈ ps}) ↔ t.IsFor ps ∧ ∀ p ∈ t.productions, p.rhs ≠ .empty := by
    intro ps t
    exact forall₂_and
  simp only [Admits, Derivable, hproper, isFor_without hxs]
  simp [mem_without, Rhs.symbols]

theorem recognizes_without (x : Symbol) (s : List Char) :
    recognizes (g.without xs).index x s = recognizes g.index x s := by
  rw [Bool.eq_iff_iff, index, index, recognizes_iff_admits, recognizes_iff_admits,
    admits_without hxs]

theorem candidates_without (x : Symbol) (depth : Nat) :
    candidates (g.without xs) g.heights x depth = candidates g g.heights x depth := by
  have ha := Heights.attained_heights g
  simp only [candidates, rulesFor, without, List.filter_map, List.filter_filter]
  congr 1
  apply List.filter_congr
  intro p _
  cases hp : p.rhs.symbols.all (· ∉ xs) with
  | true => simp
  | false => simp [mayTake, ha.height?_eq_none_of_dropped hxs hp]

end Grammar
end

theorem grow_congr {σ : Type} (choose : Chooser σ) {g' : Grammar} {h : Heights}
    (hc : ∀ x depth, candidates g' h x depth = candidates g h x depth) (x : Symbol) (depth : Nat)
    (s : σ) : grow choose g' h x depth s = grow choose g h x depth s := by
  induction x, depth using growth_induction g h generalizing s with
  | step x depth ih =>
    cases hcand : candidates g h x depth with
    | nil =>
      rw [grow_of_candidates_nil choose g h x depth hcand,
        grow_of_candidates_nil choose g' h x depth ((hc x depth).trans hcand)]
    | cons c cs =>
      rw [grow_eq_growFrom choose g h x depth hcand,
        grow_eq_growFrom choose g' h x depth ((hc x depth).trans hcand)]
      have hmem : (c :: cs).get (choose cs.length s).1 ∈ candidates g h x depth := by
        rw [hcand]
        exact List.get_mem _ _
      generalize (c :: cs).get (choose cs.length s).1 = rhs at hmem
      cases rhs with
      | terminal c => rfl
      | empty => rfl
      | pair l r => simp only [growFrom, (ih l r hmem).1, (ih l r hmem).2]

theorem Generator.sentence_without (hxs : ∀ x ∈ xs, ¬ g.IsProductive x) {σ : Type}
    (choose : Chooser σ) (x : Symbol) (location : Location) (s : σ) :
    (ofGrammar (g.without xs)).sentence choose x location s =
      (ofGrammar g).sentence choose x location s := by
  simp only [sentence, derivation?, ofGrammar, Grammar.heights_without hxs,
    grow_congr choose (Grammar.candidates_without hxs)]

theorem Grammar.recognizes_eq_false {x : Symbol} (hx : ¬ g.IsProductive x) (s : List Char) :
    recognizes g.index x s = false := by
  rw [Bool.eq_false_iff]
  intro h
  obtain ⟨t, hroot, -, ht⟩ := (recognizes_iff_admits.1 h).derivable
  exact hx ⟨t, hroot, ht⟩

end Chomsky
