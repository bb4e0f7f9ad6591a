import Chomsky.Proofs.Report.SampleReport
/-!
# Reports on a full sink

A report writes one text, whatever sink it goes to: the choices that it makes do not depend on the
room that is left. So a sink with a limit holds the first bytes of what an unlimited one would
hold. The report fails because of the sink if there are more bytes than fit, also when it would
otherwise have named a grammar without sentences, and ends as it would without a limit if not.
-/
namespace Chomsky

variable {σ : Type} {choose : Chooser σ} {topic : Topic} {start : Symbol} {batch : Batch}

/-- What a report writes is a text that depends on the state of the chooser alone. -/
theorem Writing.exists_writes_report (choose : Chooser σ) (topic : Topic) (start : Symbol)
    (batch : Batch) (source : σ) : ∃ failure text source',
      Writes (Writing.report choose topic start batch) source failure text source' := by
  cases topic with
  | verdicts =>
    exact ⟨none, _, source, .bind (writes_batchVerdicts source start batch) (.pure none source)⟩
  | samples amount =>
    obtain ⟨source', hwrites⟩ := writes_samples choose start amount batch source
    exact ⟨_, _, source', hwrites⟩

theorem report_of_ok {p p' : Progress σ} {failure : Option Unproductive}
    (h : Writing.report choose topic start batch p = (.ok failure, p')) :
    report choose topic start batch p =
      (failure.elim (.ok ()) fun failure => .error (.unproductive failure), p') := by
  rw [report, h]
  cases failure <;> rfl

theorem report_of_error {p p' : Progress σ} {e : FileFailure}
    (h : Writing.report choose topic start batch p = (.error e, p')) :
    report choose topic start batch p = (.error (.unwritten e), p') := by
  rw [report, h]

/-- On a sink with a limit a report writes the first bytes of what it writes without one, as many
as fit. It fails because the sink is full if they are not all, and otherwise ends as it does
without a limit. -/
theorem report_of_limit (choose : Chooser σ) (topic : Topic) (start : Symbol) (batch : Batch)
    (source : σ) (limit : Nat) :
    let whole := report choose topic start batch (.start none source)
    let cut := report choose topic start batch (.start (some limit) source)
    cut.2.sink.written =
        whole.2.sink.written.extract 0 (min limit whole.2.sink.written.size) ∧
      cut.1 = if limit < whole.2.sink.written.size then .error (.unwritten .diskFull)
        else whole.1 := by
  intro whole cut
  obtain ⟨failure, text, source', hwrites⟩ :=
    Writing.exists_writes_report choose topic start batch source
  obtain ⟨p, hp, hwritten, -⟩ := hwrites.start_none
  obtain ⟨p', hp', hwritten'⟩ := hwrites.start_some limit
  have hwhole : whole = _ := report_of_ok hp
  rw [hwhole]
  dsimp only
  rw [hwritten]
  by_cases hlimit : limit < (String.ofList text).toUTF8.size
  · rw [if_pos hlimit] at hp' ⊢
    have hcut : cut = _ := report_of_error hp'
    rw [hcut]
    exact ⟨hwritten', rfl⟩
  · rw [if_neg hlimit] at hp' ⊢
    have hcut : cut = _ := report_of_ok hp'
    rw [hcut]
    exact ⟨hwritten', rfl⟩

end Chomsky
