import Chomsky.Proofs.Report.SampleReport
import Chomsky.Proofs.Run.FileWritten
import Chomsky.Run
/-!
# What a run does to the store

A run that has no report to write leaves the store as it was: the batch file cannot be read or
has faults, or the output cannot be made. Every other run changes one entry, or prints. The
report is made from what the batch file held before the output was made, so the output may be
the batch file. It is a text of the batch alone and complete in every case; that a grammar has no
sentences is complained about besides.
-/
namespace Chomsky

/-! ## The report of a run -/

namespace Options

/-- The report on a text that holds a batch. -/
noncomputable def reportText (o : Options) (text : List Char) (batch : Batch)
    (source : WordSource) : List Char :=
  match o.amount with
  | none => (Text.sections text).flatMap (Section.report o.start)
  | some amount =>
    (batch.sampled WordSource.choose o.start amount source).flatMap fun shown =>
      shown.1.sampleText shown.2

noncomputable def reportBytes (o : Options) (text : List Char) (batch : Batch)
    (source : WordSource) : ByteArray :=
  (String.ofList (o.reportText text batch source)).toUTF8

/-- The first grammar that has no sentences although some are asked for. -/
noncomputable def failure? (o : Options) (batch : Batch) : Option Unproductive :=
  o.amount.bind fun amount => Batch.failure? o.start amount batch

/-- What is written about a batch, and the grammar that is named, are those of the options. -/
theorem writes_report (o : Options) {file : Path} {text : List Char} {batch : Batch}
    (h : Batch.ofText file text = .ok batch) (source : WordSource) : ∃ source',
      Writing.Writes (Writing.report WordSource.choose o.topic o.start batch) source
        (o.failure? batch) (o.reportText text batch source) source' := by
  unfold topic failure? reportText
  cases o.amount with
  | none =>
    have hverdicts := Writing.writes_verdicts source (Batch.isOf_sections h).2 o.start
    rw [← List.append_nil (List.flatMap _ _)]
    exact ⟨source, .bind hverdicts (.pure none source)⟩
  | some amount => exact Writing.writes_samples WordSource.choose o.start amount batch source

/-- The report of a run is written as a whole, and fails only because of a grammar. -/
theorem report_eq (o : Options) {file : Path} {text : List Char} {batch : Batch}
    (h : Batch.ofText file text = .ok batch) (source : WordSource) : ∃ p,
      o.report batch source = (match o.failure? batch with
        | none => .ok ()
        | some failure => .error (.unproductive failure), p) ∧
      p.sink.written = o.reportBytes text batch source := by
  obtain ⟨source', hwrites⟩ := o.writes_report h source
  obtain ⟨p, hp, hwritten, -⟩ := hwrites.start_none
  refine ⟨p, ?_, hwritten⟩
  rw [report, Chomsky.report, hp]
  cases o.failure? batch <;> rfl

end Options

/-! ## Steps of a run -/

def Store.readText (s : Store) (p : Path) : Except FileFailure (List Char) := (s.read p).bind textOf

/-- The complaint behind the report on a batch, if there is one. -/
noncomputable def Options.complaints (o : Options) (batch : Batch) : List String :=
  (o.failure? batch).toList.map Unproductive.message

namespace Store
variable {s : Store} {o : Options} {text : List Char} {batch : Batch}

theorem bind_of_eq {α β : Type} {m : StateM Store α} {s s' : Store} {a : α} (h : m s = (a, s'))
    (f : α → StateM Store β) : (m >>= f) s = f a s' := by
  change f (m s).1 (m s).2 = _
  rw [h]

/-- A run reads the batch file, and only with a batch does anything to the store. -/
theorem run_eq (s : Store) (o : Options) (source : WordSource) : s.run o source =
    match s.readText o.file with
    | .error failure => (⟨[Fault.message ⟨.wholeFile o.file, .fileFailure failure⟩], []⟩, s)
    | .ok text =>
      let events := Batch.events o.file text o.start
      match Batch.ofText o.file text with
      | .error faults => (⟨faults.map Fault.message, events⟩, s)
      | .ok batch =>
        putReport Files.stored o source batch (events ++ [.batchRead batch.length o.file]) s := by
  have hread : Files.stored.read o.file s = (s.read o.file, s) := rfl
  rw [run, Chomsky.run, bind_of_eq hread, Batch.ofFile, readText]
  cases (s.read o.file).bind textOf with
  | error failure => rfl
  | ok text =>
    cases hbatch : Batch.ofText o.file text with
    | error faults => simp only [hbatch]; rfl
    | ok batch => simp only [hbatch]

/-! ## Runs without a report -/

theorem run_of_readText_eq_error {failure : FileFailure} (h : s.readText o.file = .error failure)
    (source : WordSource) :
    (s.run o source).1.complaints = [Fault.message ⟨.wholeFile o.file, .fileFailure failure⟩] ∧
      (s.run o source).2 = s := by
  simp [run_eq, h]

theorem run_of_ofText_eq_error {faults : List Fault} (htext : s.readText o.file = .ok text)
    (h : Batch.ofText o.file text = .error faults) (source : WordSource) :
    (s.run o source).1.complaints = faults.map Fault.message ∧ (s.run o source).2 = s := by
  simp [run_eq, htext, h]

/-! ## Putting out a report -/

theorem exists_run_eq_putReport (htext : s.readText o.file = .ok text)
    (h : Batch.ofText o.file text = .ok batch) (source : WordSource) :
    ∃ events, s.run o source = putReport Files.stored o source batch events s := by
  simp only [run_eq, htext, h]
  exact ⟨_, rfl⟩

theorem putReport_of_target_eq_error {failure : FileFailure} (hfile : o.printsReport = false)
    (h : s.target o.output = .error failure) (source : WordSource) (batch : Batch)
    (events : List Event) : putReport Files.stored o source batch events s =
      (⟨[outputComplaint o.output failure], events⟩, s) := by
  have hwrite : Files.stored.write o.output ByteArray.empty s = (.error failure, s) := by
    simp only [Files.stored, writeState, write_eq_error h]
  simp only [putReport, hfile, Bool.false_eq_true, if_false]
  rw [bind_of_eq hwrite]
  rfl

theorem putReport_of_printsReport (hdash : o.printsReport = true) {source : WordSource}
    {batch : Batch} {result : Except ReportFault Unit} {p : Progress WordSource}
    (hreport : o.report batch source = (result, p)) (events : List Event) :
    putReport Files.stored o source batch events s =
      (outcomeOfReport o (events ++ p.events.toList) result (.ok ()),
        s.print p.sink.written) := by
  simp only [putReport, hdash, if_true, hreport]
  rfl

theorem putReport_of_target_eq_ok (hfile : o.printsReport = false) {place : Place}
    (h : s.target o.output = .ok place) {source : WordSource}
    {batch : Batch} {result : Except ReportFault Unit} {p : Progress WordSource}
    (hreport : o.report batch source = (result, p)) (events : List Event) :
    putReport Files.stored o source batch events s =
      (outcomeOfReport o (events ++ p.events.toList) result (.ok ()),
        s.withFile place p.sink.written) := by
  have hwrite : Files.stored.write o.output ByteArray.empty s =
      (.ok (), s.withFile place ByteArray.empty) := by
    simp only [Files.stored, writeState, write_eq_ok h]
  have hagain : Files.stored.write o.output p.sink.written (s.withFile place ByteArray.empty) =
      (.ok (), s.withFile place p.sink.written) := by
    simp only [Files.stored, writeState, write_eq_ok (target_withFile h), withFile_withFile]
  simp only [putReport, hfile, Bool.false_eq_true, if_false, hreport]
  rw [bind_of_eq hwrite]
  exact bind_of_eq hagain _

theorem complaints_outcomeOfReport (o : Options) (events : List Event) (batch : Batch) :
    (outcomeOfReport o events (match o.failure? batch with
        | none => .ok ()
        | some failure => .error (.unproductive failure)) (.ok ())).complaints =
      o.complaints batch := by
  rw [Options.complaints]
  cases o.failure? batch <;> rfl

/-! ## Runs with a report -/

section
variable (htext : s.readText o.file = .ok text) (h : Batch.ofText o.file text = .ok batch)
  (source : WordSource)
include htext h

theorem run_of_printsReport (hdash : o.printsReport = true) :
    (s.run o source).1.complaints = o.complaints batch ∧
      (s.run o source).2 = s.print (o.reportBytes text batch source) := by
  obtain ⟨events, hrun⟩ := exists_run_eq_putReport htext h source
  obtain ⟨p, hreport, hwritten⟩ := o.report_eq h source
  rw [hrun, putReport_of_printsReport hdash hreport, hwritten]
  exact ⟨complaints_outcomeOfReport o _ batch, rfl⟩

theorem run_of_target_eq_error (hfile : o.printsReport = false) {failure : FileFailure}
    (htarget : s.target o.output = .error failure) :
    (s.run o source).1.complaints =
        ["Could not create " ++ o.output.text ++ ": " ++ failure.text] ∧
      (s.run o source).2 = s := by
  obtain ⟨events, hrun⟩ := exists_run_eq_putReport htext h source
  rw [hrun, putReport_of_target_eq_error hfile htarget]
  exact ⟨rfl, rfl⟩

theorem run_of_target_eq_ok (hfile : o.printsReport = false) {place : Place}
    (htarget : s.target o.output = .ok place) :
    (s.run o source).1.complaints = o.complaints batch ∧
      (s.run o source).2 = s.withFile place (o.reportBytes text batch source) := by
  obtain ⟨events, hrun⟩ := exists_run_eq_putReport htext h source
  obtain ⟨p, hreport, hwritten⟩ := o.report_eq h source
  rw [hrun, putReport_of_target_eq_ok hfile htarget hreport, hwritten]
  exact ⟨complaints_outcomeOfReport o _ batch, rfl⟩

end

/-- A run changes the store only to put out a report. Without a batch it complains about the file
or about all faults of its text in order, and if the output cannot be made about that alone; the
store is the same in each case. With a batch and an output the whole report is printed or is
what the output holds, and nothing else is different. -/
theorem run_intact_or_reported (s : Store) (o : Options) (source : WordSource) :
    (∀ failure, s.readText o.file = .error failure →
      (s.run o source).1.complaints = [Fault.message ⟨.wholeFile o.file, .fileFailure failure⟩] ∧
        (s.run o source).2 = s) ∧
    ∀ text, s.readText o.file = .ok text →
      (∀ faults, Batch.ofText o.file text = .error faults → faults ≠ [] ∧
        (s.run o source).1.complaints = faults.map Fault.message ∧ (s.run o source).2 = s) ∧
      ∀ batch, Batch.ofText o.file text = .ok batch →
        (o.printsReport = true → (s.run o source).1.complaints = o.complaints batch ∧
          (s.run o source).2 = { s with printed := s.printed ++ o.reportBytes text batch source }) ∧
        (o.printsReport = false →
          (∀ failure, s.target o.output = .error failure →
            (s.run o source).1.complaints =
                ["Could not create " ++ o.output.text ++ ": " ++ failure.text] ∧
              (s.run o source).2 = s) ∧
          ∀ place, s.target o.output = .ok place →
            (s.run o source).1.complaints = o.complaints batch ∧
              s.SameBut (s.run o source).2 place ∧
              (s.run o source).2.entries.find? place =
                some (.file (o.reportBytes text batch source)) ∧
              (s.run o source).2.read o.output = .ok (o.reportBytes text batch source)) := by
  refine ⟨fun failure hread => run_of_readText_eq_error hread source, ?_⟩
  intro text htext
  refine ⟨?_, ?_⟩
  · intro faults h
    exact ⟨Batch.ne_nil_of_ofText_eq_error h, run_of_ofText_eq_error htext h source⟩
  · intro batch h
    refine ⟨run_of_printsReport htext h source, ?_⟩
    intro hfile
    refine ⟨fun failure htarget => run_of_target_eq_error htext h source hfile htarget, ?_⟩
    intro place htarget
    obtain ⟨hcomplaints, hstore⟩ := run_of_target_eq_ok htext h source hfile htarget
    rw [hstore]
    exact ⟨hcomplaints, s.sameBut_withFile place _, s.find?_withFile place _,
      read_withFile htarget⟩

/-- A batch of one grammar, which has no sentences. -/
def loopingBatch : List Char := "1\n\nS -> SS\n\n1\na\n".toList

/-- The block of that grammar. -/
def loopingBlock : Block where
  rules := [⟨'S', [.pair 'S' 'S'], ⟨⟨['b']⟩, 3⟩⟩]
  source := ["S -> SS".toList]
  strings := [['a']]
  location := ⟨⟨['b']⟩, 3⟩

theorem not_isProductive_loopingBlock : ¬ loopingBlock.grammar.IsProductive 'S' := by
  intro hstart
  obtain ⟨w, source, hw⟩ :=
    Generator.exists_sentence WordSource.choose hstart loopingBlock.location default
  have hnone : (Generator.ofGrammar loopingBlock.grammar).sentence WordSource.choose 'S'
      loopingBlock.location default = .error ⟨loopingBlock.location, 'S'⟩ := by decide +kernel
  simp [hnone] at hw

/-- Where a sentence is asked for, the grammar is complained about. -/
theorem complaints_loopingBlock :
    Options.complaints ⟨⟨['b']⟩, ⟨['b']⟩, 'S', some 1⟩ [loopingBlock] =
      ["\x1b[31;49;1m[b:3]\x1b[39;49;1m  `S` does not derive any finite sentence\x1b[0m"] := by
  have hfailure : loopingBlock.failure? 'S' 1 = some ⟨loopingBlock.location, 'S'⟩ :=
    if_neg (by simpa using not_isProductive_loopingBlock)
  rw [Options.complaints, Options.failure?, Option.bind_some, Batch.failure?,
    List.findSome?_cons, hfailure]
  decide +kernel

/-- A working directory with a batch `b`, a text `x` that is none, and a file `z` without text. -/
def workplace : Store where
  home := [['w']]
  entries := ((((∅ : Dictionary Place Entry).set [['w']] .directory).set [['w'], ['b']]
    (.file (String.ofList loopingBatch).toUTF8)).set [['w'], ['x']]
    (.file (String.ofList ['?']).toUTF8)).set [['w'], ['z']] (.file ⟨#[0xff]⟩)
  printed := .empty

/-- Faulty batch files leave the batch that the report would replace, and so does an output that
is a directory. A report may be printed, and it may replace the batch that it is about even if
there is a complaint. -/
theorem run_intact_or_reported_workplace :
    (workplace.readText ⟨['z']⟩ = .error .invalidText ∧
      (workplace.run ⟨⟨['z']⟩, ⟨['b']⟩, 'S', none⟩ default).1.complaints =
        ["\x1b[31;49;1m[z]\x1b[39;49;1m  File error: stream did not contain valid UTF-8\x1b[0m"] ∧
      (workplace.run ⟨⟨['z']⟩, ⟨['b']⟩, 'S', none⟩ default).2 = workplace) ∧
    (Batch.ofText ⟨['x']⟩ ['?'] = .error [⟨⟨⟨['x']⟩, 1⟩, .invalidCount ['?']⟩] ∧
      (workplace.run ⟨⟨['x']⟩, ⟨['b']⟩, 'S', none⟩ default).1.complaints =
        ["\x1b[31;49;1m[x:1]\x1b[39;49;1m  `?` is not a valid count\x1b[0m"] ∧
      (workplace.run ⟨⟨['x']⟩, ⟨['b']⟩, 'S', none⟩ default).2 = workplace) ∧
    ∃ batch, Batch.ofText ⟨['b']⟩ loopingBatch = .ok batch ∧
      (workplace.target ⟨['.']⟩ = .error .isADirectory ∧
        (workplace.run ⟨⟨['b']⟩, ⟨['.']⟩, 'S', none⟩ default).1.complaints =
          ["Could not create .: Is a directory (os error 21)"] ∧
        (workplace.run ⟨⟨['b']⟩, ⟨['.']⟩, 'S', none⟩ default).2 = workplace) ∧
      (workplace.run ⟨⟨['b']⟩, ⟨['-']⟩, 'S', none⟩ default).2 = { workplace with
        printed := workplace.printed ++
          Options.reportBytes ⟨⟨['b']⟩, ⟨['-']⟩, 'S', none⟩ loopingBatch batch default } ∧
      workplace.target ⟨['b']⟩ = .ok [['w'], ['b']] ∧
      (workplace.run ⟨⟨['b']⟩, ⟨['b']⟩, 'S', some 1⟩ default).1.complaints =
        ["\x1b[31;49;1m[b:3]\x1b[39;49;1m  `S` does not derive any finite sentence\x1b[0m"] ∧
      workplace.SameBut (workplace.run ⟨⟨['b']⟩, ⟨['b']⟩, 'S', some 1⟩ default).2
        [['w'], ['b']] ∧
      (workplace.run ⟨⟨['b']⟩, ⟨['b']⟩, 'S', some 1⟩ default).2.read ⟨['b']⟩ =
        .ok "S -> SS\n\n\n".toUTF8 := by
  have hz : workplace.readText ⟨['z']⟩ = .error .invalidText := by decide +kernel
  have hx : workplace.readText ⟨['x']⟩ = .ok ['?'] := by decide +kernel
  have hfaults : Batch.ofText ⟨['x']⟩ ['?'] = .error [⟨⟨⟨['x']⟩, 1⟩, .invalidCount ['?']⟩] := by
    decide +kernel
  have hb : workplace.readText ⟨['b']⟩ = .ok loopingBatch := by decide +kernel
  have hbatch : Batch.ofText ⟨['b']⟩ loopingBatch = .ok [loopingBlock] := by decide +kernel
  have hdirectory : workplace.target ⟨['.']⟩ = .error .isADirectory := by decide +kernel
  have hplace : workplace.target ⟨['b']⟩ = .ok [['w'], ['b']] := by decide +kernel
  have hreport : Options.reportText ⟨⟨['b']⟩, ⟨['b']⟩, 'S', some 1⟩ loopingBatch [loopingBlock]
      default = "S -> SS\n\n\n".toList := by decide +kernel
  refine ⟨⟨hz, ?_⟩, ⟨hfaults, ?_⟩, [loopingBlock], hbatch, ?_⟩
  · obtain ⟨hnamed, hsame⟩ :=
      (run_intact_or_reported workplace ⟨⟨['z']⟩, ⟨['b']⟩, 'S', none⟩ default).1 _ hz
    exact ⟨hnamed.trans (by decide +kernel), hsame⟩
  · obtain ⟨-, hnamed, hsame⟩ :=
      ((run_intact_or_reported workplace ⟨⟨['x']⟩, ⟨['b']⟩, 'S', none⟩ default).2 _ hx).1 _ hfaults
    exact ⟨hnamed.trans (by decide +kernel), hsame⟩
  · obtain ⟨-, hunwritable⟩ := ((run_intact_or_reported workplace
      ⟨⟨['b']⟩, ⟨['.']⟩, 'S', none⟩ default).2 _ hb).2 _ hbatch
    obtain ⟨hprinted, -⟩ := ((run_intact_or_reported workplace
      ⟨⟨['b']⟩, ⟨['-']⟩, 'S', none⟩ default).2 _ hb).2 _ hbatch
    obtain ⟨-, hwritten⟩ := ((run_intact_or_reported workplace
      ⟨⟨['b']⟩, ⟨['b']⟩, 'S', some 1⟩ default).2 _ hb).2 _ hbatch
    obtain ⟨huncreated, hunchanged⟩ := (hunwritable (by decide +kernel)).1 _ hdirectory
    obtain ⟨hnamed, hsame, -, hread⟩ := (hwritten (by decide +kernel)).2 _ hplace
    refine ⟨⟨hdirectory, huncreated.trans (by decide +kernel), hunchanged⟩,
      (hprinted (by decide +kernel)).2, hplace, hnamed.trans complaints_loopingBlock, hsame, ?_⟩
    rw [hread, Options.reportBytes, hreport]
    rfl

end Store

end Chomsky
