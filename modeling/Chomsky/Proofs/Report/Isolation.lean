import Chomsky.Proofs.Report.FullSink
/-!
# Grammars without sentences

A grammar without sentences leaves nothing behind in a report on samples but its own lines: it
shows no sentences, and no choice is made for it, so the blocks behind it are shown as if it were
not there. The report is complete and then fails with the first such grammar, if any sentences
were asked for.
-/
namespace Chomsky

/-- The sentences are drawn one after the other, each in the state that the one before left. -/
inductive Generator.Draws {σ : Type} (gen : Generator) (choose : Chooser σ) (start : Symbol)
    (location : Location) : σ → List (List Char) → σ → Prop
  | nil (s : σ) : Draws gen choose start location s [] s
  | cons {s s' s'' : σ} {w : List Char} {ws : List (List Char)}
      (hw : gen.sentence choose start location s = .ok (w, s'))
      (hws : Draws gen choose start location s' ws s'') :
      Draws gen choose start location s (w :: ws) s''

/-- Blocks with the sentences that are shown for them: as many as asked for if there are any,
drawn in the state that the blocks in front left, and otherwise none, the state staying as it
is. -/
inductive Batch.Shows {σ : Type} (choose : Chooser σ) (start : Symbol) (amount : Nat) :
    σ → List (Block × List (List Char)) → σ → Prop
  | nil (s : σ) : Shows choose start amount s [] s
  | productive {s s' s'' : σ} {b : Block} {ws : List (List Char)}
      {rest : List (Block × List (List Char))} (hb : b.grammar.IsProductive start)
      (hws : (Generator.ofGrammar b.grammar).Draws choose start b.location s ws s')
      (hlength : ws.length = amount) (hrest : Shows choose start amount s' rest s'') :
      Shows choose start amount s ((b, ws) :: rest) s''
  | unproductive {s s' : σ} {b : Block} {rest : List (Block × List (List Char))}
      (hb : ¬ b.grammar.IsProductive start) (hrest : Shows choose start amount s rest s') :
      Shows choose start amount s ((b, []) :: rest) s'

theorem Generator.draws_sentences {σ : Type} (gen : Generator) (choose : Chooser σ)
    (start : Symbol) (location : Location) (amount : Nat) (s : σ) :
    gen.Draws choose start location s (gen.sentences choose start location amount s).1
      (gen.sentences choose start location amount s).2 := by
  induction amount generalizing s with
  | zero => exact .nil s
  | succ amount ih =>
    cases hs : gen.sentence choose start location s with
    | error failure =>
      rw [sentences_succ_of_error hs]
      exact .nil s
    | ok drawn =>
      rw [sentences_succ_of_ok hs]
      exact .cons hs (ih drawn.2)

/-! ## The grammar that is named -/

theorem Block.failure?_eq_some_iff {start : Symbol} {amount : Nat} {b : Block}
    {failure : Unproductive} : b.failure? start amount = some failure ↔
      0 < amount ∧ ¬ b.grammar.IsProductive start ∧ failure = ⟨b.location, start⟩ := by
  rw [failure?, Option.ite_none_left_eq_some, not_or, Option.some.injEq, and_assoc,
    Nat.pos_iff_ne_zero, @eq_comm _ failure]

namespace Batch

theorem failure?_eq_some_iff {start : Symbol} {amount : Nat} {batch : Batch}
    {failure : Unproductive} : batch.failure? start amount = some failure ↔
      0 < amount ∧ ∃ before b behind, batch = before ++ b :: behind ∧
        (∀ c ∈ before, c.grammar.IsProductive start) ∧ ¬ b.grammar.IsProductive start ∧
          failure = ⟨b.location, start⟩ := by
  rw [failure?, List.findSome?_eq_some_iff]
  constructor
  · rintro ⟨before, b, behind, hbatch, hb, hbefore⟩
    obtain ⟨hamount, hnone, hfailure⟩ := Block.failure?_eq_some_iff.1 hb
    refine ⟨hamount, before, b, behind, hbatch, fun c hc => ?_, hnone, hfailure⟩
    exact (Block.failure?_eq_none_iff.1 (hbefore c hc)).resolve_left (Nat.ne_of_gt hamount)
  · rintro ⟨hamount, before, b, behind, hbatch, hbefore, hnone, hfailure⟩
    exact ⟨before, b, behind, hbatch, Block.failure?_eq_some_iff.2 ⟨hamount, hnone, hfailure⟩,
      fun c hc => Block.failure?_eq_none_iff.2 (Or.inr (hbefore c hc))⟩

theorem outcome_eq_error_iff {start : Symbol} {amount : Nat} {batch : Batch}
    {fault : ReportFault} : ((batch.failure? start amount).elim (.ok ()) fun failure =>
        Except.error (ReportFault.unproductive failure)) = .error fault ↔
      0 < amount ∧ ∃ before b behind, batch = before ++ b :: behind ∧
        (∀ c ∈ before, c.grammar.IsProductive start) ∧ ¬ b.grammar.IsProductive start ∧
          fault = .unproductive ⟨b.location, start⟩ := by
  have hnamed : ((batch.failure? start amount).elim (.ok ()) fun failure =>
      Except.error (ReportFault.unproductive failure)) = .error fault ↔
        ∃ failure, batch.failure? start amount = some failure ∧
          .unproductive failure = fault := by
    cases batch.failure? start amount <;> simp
  rw [hnamed]
  constructor
  · rintro ⟨failure, hfailure, rfl⟩
    obtain ⟨hamount, before, b, behind, hbatch, hbefore, hb, rfl⟩ :=
      failure?_eq_some_iff.1 hfailure
    exact ⟨hamount, before, b, behind, hbatch, hbefore, hb, rfl⟩
  · rintro ⟨hamount, before, b, behind, hbatch, hbefore, hb, rfl⟩
    exact ⟨_, failure?_eq_some_iff.2 ⟨hamount, before, b, behind, hbatch, hbefore, hb, rfl⟩, rfl⟩

/-! ## Leaving blocks out -/

section
variable {σ : Type} (choose : Chooser σ) (start : Symbol) (amount : Nat)

theorem shows_sampled (batch : Batch) (s : σ) : Shows choose start amount s
    (sampled choose start amount batch s) (sampledSource choose start amount batch s) := by
  induction batch generalizing s with
  | nil => exact .nil s
  | cons b batch ih =>
    rw [sampled, sampledSource]
    by_cases hb : b.grammar.IsProductive start
    · exact .productive hb (Generator.draws_sentences _ choose start b.location amount s)
        (Generator.length_sentences choose hb b.location amount s) (ih _)
    · rw [Generator.sentences_of_not_isProductive hb]
      exact .unproductive hb (ih s)

open Classical in
/-- Without the unproductive blocks the others have the same sentences, and the chooser ends in
the same state. -/
theorem sampled_filter (batch : Batch) (s : σ) :
    sampled choose start amount (batch.filter fun b => b.grammar.IsProductive start) s =
        (sampled choose start amount batch s).filter
          (fun shown => shown.1.grammar.IsProductive start) ∧
      sampledSource choose start amount (batch.filter fun b => b.grammar.IsProductive start) s =
        sampledSource choose start amount batch s := by
  induction batch generalizing s with
  | nil => exact ⟨rfl, rfl⟩
  | cons b batch ih =>
    by_cases hb : b.grammar.IsProductive start
    · obtain ⟨hsampled, hsource⟩ :=
        ih ((Generator.ofGrammar b.grammar).sentences choose start b.location amount s).2
      rw [List.filter_cons_of_pos (by simpa using hb), sampled, sampled, sampledSource,
        sampledSource, List.filter_cons_of_pos (by simpa using hb), hsampled, hsource]
      exact ⟨rfl, rfl⟩
    · obtain ⟨hsampled, hsource⟩ := ih s
      rw [List.filter_cons_of_neg (by simpa using hb), sampled, sampledSource,
        List.filter_cons_of_neg (by simpa using hb), Generator.sentences_of_not_isProductive hb,
        hsampled, hsource]
      exact ⟨rfl, rfl⟩

end

open Classical in
/-- The report on samples shows every block in order, with as many sentences as asked for where
there are any, and it fails with the first grammar that has none if some are asked for. The
report on the productive blocks alone succeeds, shows them with the same sentences and leaves the
chooser in the same state. -/
theorem samples_isolated {σ : Type} (choose : Chooser σ) (start : Symbol) (amount : Nat)
    (batch : Batch) (source : σ) : ∃ shown result p p',
      report choose (.samples amount) start batch (.start none source) = (result, p) ∧
      shown.map Prod.fst = batch ∧ Shows choose start amount source shown p.source ∧
      p.sink.written = (String.ofList (shown.flatMap fun x => x.1.sampleText x.2)).toUTF8 ∧
      (∀ fault, result = .error fault ↔ 0 < amount ∧ ∃ before b behind,
        batch = before ++ b :: behind ∧ (∀ c ∈ before, c.grammar.IsProductive start) ∧
          ¬ b.grammar.IsProductive start ∧ fault = .unproductive ⟨b.location, start⟩) ∧
      report choose (.samples amount) start
        (batch.filter fun b => b.grammar.IsProductive start) (.start none source) =
          (.ok (), p') ∧
      p'.sink.written = (String.ofList
        ((shown.filter fun x => x.1.grammar.IsProductive start).flatMap
          fun x => x.1.sampleText x.2)).toUTF8 ∧
      p'.source = p.source := by
  let others : Batch := batch.filter fun b => b.grammar.IsProductive start
  obtain ⟨hsampled, hsource⟩ := sampled_filter choose start amount batch source
  obtain ⟨p, hp, hwritten, hend⟩ :=
    (Writing.writes_sampled choose start amount batch source).start_none
  obtain ⟨p', hp', hwritten', hend'⟩ :=
    (Writing.writes_sampled choose start amount others source).start_none
  have hreport : report choose (.samples amount) start batch (.start none source) = _ :=
    report_of_ok hp
  have hnone : others.failure? start amount = none := by
    refine failure?_eq_none_iff.2 (Or.inr fun b hb => ?_)
    exact of_decide_eq_true (List.mem_filter.1 hb).2
  rw [hnone] at hp'
  have hreport' : report choose (.samples amount) start others (.start none source) = _ :=
    report_of_ok hp'
  refine ⟨_, _, p, p', hreport, map_fst_sampled choose start amount batch source, ?_, hwritten, ?_,
    hreport', ?_, ?_⟩
  · rw [hend]
    exact shows_sampled choose start amount batch source
  · exact fun fault => outcome_eq_error_iff
  · rw [hwritten', hsampled]
  · rw [hend', hend, hsource]

end Batch

end Chomsky
