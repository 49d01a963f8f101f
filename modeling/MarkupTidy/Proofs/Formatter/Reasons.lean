import MarkupTidy.Proofs.Formatter.Snapshot
import MarkupTidy.Proofs.Formatter.Starting
import MarkupTidy.Proofs.Options.LongNumbers
import MarkupTidy.Proofs.Reports

/-!
Why a document was not formatted. Each request that comes to nothing met an obstacle: its document
could not be read, no engine was found or none started, the engine failed, its output was held back,
or the document did not take it. The messages of the outcome end with what is told about it. That is
a text, but where an engine ends with errors or warnings and its report says nothing.
-/
namespace MarkupTidy

theorem ne_empty_append {s : String} (h : s ≠ "") (t : String) : s ++ t ≠ "" :=
  fun hempty => h (String.append_eq_empty_iff.1 hempty).1

/-- A failure of the formatting has a text, unless it is stated with an empty one. -/
theorem Fault.message_ne_empty {fault : Fault} (h : fault.isFormatting = true)
    (hstated : ∀ text, fault ≠ .stated text) : fault.message ≠ "" := by
  have hthree : ∀ {s : String}, s ≠ "" → ∀ t u v, s ++ t ++ u ++ v ≠ "" := fun h t u v =>
    ne_empty_append (ne_empty_append (ne_empty_append h t) u) v
  cases fault with
  | stated text => exact absurd rfl (hstated text)
  | launch executable reason | override source reason | settings source reason
  | process executable code diagnostics =>
    exact hthree (by decide) _ _ _
  | timeout executable limit => exact ne_empty_append (hthree (by decide) _ _ _) _
  | unsupported key value => exact hthree (hthree (by decide) _ _ _) _ _ _
  | _ => cases h

/-- What can stand between a document and a new text. -/
inductive Obstacle
  | unreadable (fault : Fault)
  | noEngine
  | failure (fault : Fault)
  /-- The output of a run is held back. -/
  | held (execution : Execution) (hindrance : Formatter.Hindrance)
  | unwritable (execution : Execution) (refused : Refused)

namespace Obstacle

open Formatter

def status : Obstacle → FormatStatus
  | .held _ _ => .blocked
  | _ => .failed

def execution? : Obstacle → Option Execution
  | .held execution _ | .unwritable execution _ => some execution
  | _ => none

/-- What the user is told about it. Of errors and warnings this is the first line of the report. -/
def told : Obstacle → List String
  | .unreadable fault => [s!"cannot read document: {fault.message}"]
  | .noEngine => [Host.notFoundWarning]
  | .failure fault => [fault.message]
  | .held _ .noOutput => ["tidy produced no output"]
  | .held execution _ =>
    if execution.hasDiagnostics then [Report.firstMessage execution.diagnostics] else []
  | .unwritable _ refused => [s!"cannot write document: {refused.message}"]

/-- An output is held back for errors or warnings, and the report says nothing of them. -/
def IsUnreported : Obstacle → Prop
  | .held execution hindrance => hindrance ≠ .noOutput ∧ execution.hasDiagnostics = false
  | _ => False

/-- The outcome is that of a request which met the obstacle, perhaps after warnings. -/
structure Explains (obstacle : Obstacle) (outcome : Outcome) : Prop where
  status : outcome.status = obstacle.status
  execution : outcome.execution = obstacle.execution?
  messages : ∃ warnings, outcome.messages = warnings ++ obstacle.told

end Obstacle

/-! What the parts of a request tell when they end it. -/

namespace Formatter

theorem settleFault_eq_ok {messages : List String} {fault : Fault} {outcome : Outcome}
    (h : (settleFault messages fault).value = .ok outcome) :
    fault.isFormatting = true ∧ outcome = .failed (messages ++ [fault.message]) := by
  unfold settleFault at h
  split at h
  · next hformatting =>
    cases h
    exact ⟨hformatting, rfl⟩
  · cases h

theorem ofSettled_eq_settled {result : Except Fault Outcome} {outcome : Outcome}
    (h : Begun.ofSettled result = .settled outcome) : result = .ok outcome := by
  cases result with
  | ok other =>
    cases h
    rfl
  | error fault => cases h

theorem readDocument_unreadable {host : Host} {document : Document} {message : String}
    (h : (readDocument host document).value = .ok (.error message)) :
    ∃ fault, document.text host = .error fault ∧
      message = s!"cannot read document: {fault.message}" := by
  unfold readDocument at h
  cases htext : document.text host with
  | ok text =>
    rw [htext] at h
    cases h
  | error fault =>
    rw [htext] at h
    simp only at h
    split at h <;> cases h
    exact ⟨fault, rfl, rfl⟩

theorem prepareBy_unreadable {settings : Settings} {read : Except Fault (Except String String)}
    {lookup : Lookup} {found : Except Fault Resolved} {message : String}
    (h : prepareBy settings read lookup found = .unreadable message) :
    read = .ok (.error message) := by
  unfold prepareBy at h
  split at h
  · cases h
  · cases h
    rfl
  · split at h
    · cases h
    · split at h
      · cases h
      · cases h
      · split at h <;> cases h

theorem prepareBy_missing {settings : Settings} {read : Except Fault (Except String String)}
    {lookup : Lookup} {found : Except Fault Resolved} {messages : List String}
    (h : prepareBy settings read lookup found = .missing messages) :
    lookup.path = none ∧ messages = lookup.warnings := by
  unfold prepareBy at h
  split at h
  · cases h
  · cases h
  · split at h
    · cases h
    · split at h
      · next hnone =>
        cases h
        exact ⟨hnone, rfl⟩
      · cases h
      · split at h <;> cases h

/-- Where no engine is found, the last warning says so. -/
theorem warnings_findEngine {host : Host} {configured : Option String}
    (h : (host.findEngine configured).value.path = none) :
    ∃ warnings, (host.findEngine configured).value.warnings =
      warnings ++ [Host.notFoundWarning] := by
  have hstandard : ∀ warnings, (host.findStandard warnings).path = none →
      (host.findStandard warnings).warnings = warnings ++ [Host.notFoundWarning] := by
    intro warnings hnone
    unfold Host.findStandard at hnone ⊢
    cases hwhich : host.which Host.standardEngine with
    | none => rfl
    | some path =>
      rw [hwhich] at hnone
      cases hnone
  unfold Host.findEngine at h ⊢
  split at h
  · exact ⟨[], hstandard [] h⟩
  · next path hpath =>
    split at h
    · cases h
    · next hrunnable =>
      rw [if_neg hrunnable]
      exact ⟨[Host.missingWarning], hstandard [Host.missingWarning] h⟩

/-- What keeps an engine from being launched is not stated by anyone. -/
theorem launch_not_stated {host : Host} {executable : String} {options : OptionMap}
    {text : String} {fault : Fault}
    (h : (Runner.launch host (some executable) options text).value = .error fault)
    (stated : String) : fault ≠ .stated stated := by
  rintro rfl
  by_cases hname : executable = ""
  · subst hname
    cases h
  · rw [value_launch host hname] at h
    cases harguments : options.withFixed.arguments with
    | error fault =>
      rw [harguments] at h
      cases h
      rcases OptionMap.argumentsOf_eq_error harguments with hlong | ⟨key, value, hvalue⟩
      · cases hlong
      · cases hvalue
    | ok arguments =>
      have hstart : Runner.startWith host executable arguments text = .error (.stated stated) := by
        rw [harguments] at h
        exact h
      unfold Runner.startWith at hstart
      split at hstart
      · cases hstart
      · split at hstart <;> cases hstart

theorem conclude_not_stated {launched : Launched} {limit : Option Binary64} {fault : Fault}
    (h : (Runner.conclude launched limit).value = .error fault) (stated : String) :
    fault ≠ .stated stated := by
  rintro rfl
  have hclassify : ∀ run, (Runner.classify launched run).value ≠ .error (.stated stated) := by
    intro run hrun
    unfold Runner.classify at hrun
    cases hstatus : Status.ofExitCode? run.exitCode <;> simp [hstatus] at hrun
  unfold Runner.conclude at h
  split at h
  · split at h
    · cases h
    · exact hclassify _ h
  · exact hclassify _ h
  · split at h <;> cases h
  · cases h

/-- An output is held back for errors, for warnings, or because it is empty. -/
theorem saysExactly_of_hindrance {settings : Settings} {execution : Execution}
    {hindrance : Hindrance} (h : hindrance? settings execution = some hindrance)
    (houtput : hindrance ≠ .noOutput) :
    (execution.saysExactly .error || execution.saysExactly .warning) = true := by
  unfold hindrance? at h
  split at h
  · next herror => rw [herror, Bool.true_or]
  · split at h
    · next hwarning => rw [(Bool.and_eq_true_iff.1 hwarning).2, Bool.or_true]
    · split at h <;> cases h
      exact absurd rfl houtput

/-- The messages about a run whose output is held back end with the reason. -/
theorem told_held {settings : Settings} {execution : Execution} {hindrance : Hindrance}
    (h : hindrance? settings execution = some hindrance) :
    ∃ report, reportMessages execution ++ hindranceMessages hindrance =
      report ++ (Obstacle.held execution hindrance).told := by
  by_cases houtput : hindrance = .noOutput
  · subst houtput
    exact ⟨reportMessages execution, rfl⟩
  · have hsays := saysExactly_of_hindrance h houtput
    refine ⟨[], ?_⟩
    rw [reportMessages, hsays, Bool.and_true]
    cases hindrance with
    | noOutput => exact absurd rfl houtput
    | error | warning => exact List.append_nil _

end Formatter

theorem Begun.eq_settled {begun : Begun} {outcome : Outcome}
    (h : begun.stage = .settled (.ok outcome)) : begun = .settled outcome := by
  cases begun with
  | settled other =>
    cases h
    rfl
  | raised fault | running job => cases h

theorem Begun.eq_running {begun : Begun} {job : Job} (h : begun.stage = .running job) :
    begun = .running job := by
  cases begun with
  | running other =>
    cases h
    rfl
  | settled outcome | raised fault => cases h

namespace Bench

/-- In the course of the events, after the earlier ones, a format request begins on a document. -/
def BeginsOn (first : Bench) (events : List BenchEvent) (id : Nat) (before : List BenchEvent)
    (document : Document) : Prop :=
  ∃ useResult after, events = before ++ .desk (.resume useResult) :: after ∧
    (first.run before).desk.IsToBegin id document

/-- In the course of the events, after the earlier ones, a format request takes what its engine
gave for a document. -/
def FinishesOn (first : Bench) (events : List BenchEvent) (id : Nat) (before : List BenchEvent)
    (document : Document) (job : Job) : Prop :=
  ∃ useResult after, events = before ++ .desk (.resume useResult) :: after ∧
    (first.run before).desk.IsToFinish id document job

/-- A format request meets an obstacle in the course of the events. -/
inductive Meets (first : Bench) (edition : Edition) (events : List BenchEvent) (id : Nat) :
    Obstacle → Prop
  | reading {before : List BenchEvent} {document : Document} {fault : Fault}
      (hturn : first.BeginsOn events id before document)
      (hread : document.text (first.run before).desk.host = .error fault) :
      Meets first edition events id (.unreadable fault)
  | looking {before : List BenchEvent} {document : Document} {host : Host}
      (hturn : first.BeginsOn events id before document) (hmet : first.Met before host)
      (hnone : (host.findEngine (presentEdition edition before).settings.executable).value.path =
        none) : Meets first edition events id .noEngine
  | launching {before : List BenchEvent} {document : Document} {executable text : String}
      {options : OptionMap} {messages : List String} {fault : Fault}
      (hturn : first.BeginsOn events id before document)
      (hprepared : Formatter.PreparedBy (first.Met before)
        (presentEdition edition before).settings (first.run before).desk.host
        (first.run before).desk.formatter.resolver document
        (.ready executable options messages text))
      (hlaunch : (Runner.launch (first.run before).desk.host (some executable) options
        text).value = .error fault)
      (hformatting : fault.isFormatting = true) : Meets first edition events id (.failure fault)
  | running {before : List BenchEvent} {document : Document} {job : Job} {fault : Fault}
      (hturn : first.FinishesOn events id before document job)
      (hrun : (Runner.conclude job.launched (job.settings.timeout.map Subtype.val)).value =
        .error fault)
      (hformatting : fault.isFormatting = true) : Meets first edition events id (.failure fault)
  | judging {before : List BenchEvent} {document : Document} {job : Job} {execution : Execution}
      {hindrance : Formatter.Hindrance} (hturn : first.FinishesOn events id before document job)
      (hrun : (Runner.conclude job.launched (job.settings.timeout.map Subtype.val)).value =
        .ok execution)
      (hheld : Formatter.hindrance? job.settings execution = some hindrance) :
      Meets first edition events id (.held execution hindrance)
  | writing {before : List BenchEvent} {document : Document} {job : Job} {execution : Execution}
      {refused : Refused} (hturn : first.FinishesOn events id before document job)
      (hrun : (Runner.conclude job.launched (job.settings.timeout.map Subtype.val)).value =
        .ok execution)
      (hfree : Formatter.hindrance? job.settings execution = none)
      (hwrite : (document.setText (first.run before).desk.host execution.output).1 =
        .error (.refused refused)) : Meets first edition events id (.unwritable execution refused)

section Meets

open Formatter

variable {first : Bench} {edition : Edition} {events : List BenchEvent} {id : Nat}
  {obstacle : Obstacle} {outcome : Outcome}

/-- Of an obstacle that was met something is told, unless a report says nothing of it. -/
theorem Meets.told_iff (h : first.Meets edition events id obstacle) :
    (∃ message ∈ obstacle.told, message ≠ "") ↔ ¬ obstacle.IsUnreported := by
  cases h with
  | reading hturn hread =>
    exact iff_of_true ⟨_, List.mem_singleton_self _, ne_empty_append (by decide) _⟩ not_false
  | looking hturn hmet hnone =>
    exact iff_of_true ⟨_, List.mem_singleton_self _, by decide⟩ not_false
  | launching hturn hprepared hlaunch hformatting =>
    exact iff_of_true ⟨_, List.mem_singleton_self _,
      Fault.message_ne_empty hformatting (launch_not_stated hlaunch)⟩ not_false
  | running hturn hrun hformatting =>
    exact iff_of_true ⟨_, List.mem_singleton_self _,
      Fault.message_ne_empty hformatting (conclude_not_stated hrun)⟩ not_false
  | writing hturn hrun hfree hwrite =>
    exact iff_of_true ⟨_, List.mem_singleton_self _, ne_empty_append (by decide) _⟩ not_false
  | @judging _ _ _ execution hindrance hturn hrun hheld =>
    cases hindrance with
    | noOutput =>
      exact iff_of_true ⟨_, List.mem_singleton_self _, by decide⟩
        fun hunreported => hunreported.1 rfl
    | error | warning =>
      simp only [Obstacle.told, Obstacle.IsUnreported]
      cases hdiagnostics : execution.hasDiagnostics with
      | false => simp
      | true =>
        have hinformational : Report.isInformational execution.diagnostics = false := by
          simpa [Execution.hasDiagnostics] using hdiagnostics
        simp [Report.firstMessage_ne_empty hinformational]

/-- A request that is over when it has begun met an obstacle, if there was anything to do. -/
theorem meets_of_begins (h : first.BeginsAs edition events id (.settled outcome))
    (hstatus : outcome.status ≠ .skipped) :
    ∃ obstacle, first.Meets edition events id obstacle ∧ obstacle.Explains outcome := by
  obtain ⟨before, useResult, after, document, prepared, hevents, hto, hprepared, hbegun⟩ := h
  have hturn : first.BeginsOn events id before document := ⟨useResult, after, hevents, hto⟩
  have hby := hprepared
  obtain ⟨lookup, found, hlooks, -, hprepare⟩ := hby
  cases prepared with
  | raised fault => cases hbegun
  | empty =>
    cases hbegun
    exact absurd rfl hstatus
  | unreadable message =>
    cases hbegun
    obtain ⟨fault, hread, rfl⟩ := readDocument_unreadable (prepareBy_unreadable hprepare.symm)
    exact ⟨.unreadable fault, .reading hturn hread, rfl, rfl, [], rfl⟩
  | missing messages =>
    cases hbegun
    obtain ⟨hnone, rfl⟩ := prepareBy_missing hprepare.symm
    obtain ⟨host, hmet, rfl | ⟨hfound, rfl⟩⟩ := hlooks
    · exact ⟨.noEngine, .looking hturn hmet hnone, rfl, rfl, warnings_findEngine hnone⟩
    · rw [Lookup.found, hnone] at hfound
      cases hfound
  | ready executable options messages text =>
    rw [Prepared.format] at hbegun
    cases hlaunch : (Runner.launch (first.run before).desk.host (some executable) options
        text).value with
    | ok launched =>
      rw [hlaunch] at hbegun
      cases hbegun
    | error fault =>
      rw [hlaunch] at hbegun
      obtain ⟨hformatting, rfl⟩ := settleFault_eq_ok (ofSettled_eq_settled hbegun.symm)
      exact ⟨.failure fault, .launching hturn hprepared hlaunch hformatting, rfl, rfl, messages,
        rfl⟩

/-- A request that took what its engine gave met an obstacle, if its document has no new text. -/
theorem meets_of_finishes {job : Job} (h : first.FinishesAs events id job (.ok outcome))
    (hstatus : outcome.status ≠ .formatted) :
    ∃ obstacle, first.Meets edition events id obstacle ∧ obstacle.Explains outcome := by
  obtain ⟨before, useResult, after, document, hevents, hto, hresult⟩ := h
  have hturn : first.FinishesOn events id before document job := ⟨useResult, after, hevents, hto⟩
  simp only [finishRequest, Logged.value_bind] at hresult
  cases hrun : (Runner.conclude job.launched (job.settings.timeout.map Subtype.val)).value with
  | error fault =>
    rw [hrun] at hresult
    obtain ⟨hformatting, rfl⟩ := settleFault_eq_ok hresult.symm
    exact ⟨.failure fault, .running hturn hrun hformatting, rfl, rfl, job.messages, rfl⟩
  | ok execution =>
    simp only [hrun, Formatter.settle] at hresult
    cases hhindrance : hindrance? job.settings execution with
    | some hindrance =>
      rw [hhindrance] at hresult
      cases hresult
      obtain ⟨report, htold⟩ := told_held hhindrance
      exact ⟨.held execution hindrance, .judging hturn hrun hhindrance, rfl, rfl,
        job.messages ++ report, by rw [List.append_assoc, htold, List.append_assoc]⟩
    | none =>
      simp only [hhindrance, Formatter.apply] at hresult
      cases hset : document.setText (first.run before).desk.host execution.output with
      | mk result changed =>
        rw [hset] at hresult
        cases result with
        | ok done =>
          cases hresult
          exact absurd rfl hstatus
        | error fault =>
          cases fault with
          | refused refused =>
            cases hresult
            exact ⟨.unwritable execution refused,
              .writing hturn hrun hhindrance (by rw [hset]), rfl, rfl,
              job.messages ++ reportMessages execution, rfl⟩
          | _ => cases hresult

end Meets

/-- Whatever happens on a bench, and in which order: a format request that returns with its document
blocked or failed met an obstacle. The outcome is the one for this obstacle, and its messages end
with what is told about it; this is a text unless the output of a run was held back for errors or
warnings of which its report says nothing. -/
theorem unformatted_tells_why (host : Host) (edition : Edition) (workspace : Option Path)
    (documents : List (String × Document)) (events : List BenchEvent) (id : Nat) (r : Request)
    (outcome : Outcome)
    (hfound : ((start host edition workspace documents).run events).desk.requests[id]? = some r)
    (hreturned : r.stage = .returned (.ok outcome))
    (hstatus : outcome.status = .blocked ∨ outcome.status = .failed) :
    ∃ obstacle, (start host edition workspace documents).Meets edition events id obstacle ∧
      obstacle.Explains outcome ∧
      ((∃ message ∈ obstacle.told, message ≠ "") ↔ ¬ obstacle.IsUnreported) := by
  have hsettled := settled_run host edition workspace documents events
  have hstage := hsettled.requests id r hfound
  rw [hreturned] at hstage
  have hmeets : ∃ obstacle,
      (start host edition workspace documents).Meets edition events id obstacle ∧
        obstacle.Explains outcome := by
    cases hstage with
    | givesWay hstopped => rcases hstatus with h | h <;> cases h
    | atOnce hbegins hresult =>
      have hbegun := Begun.eq_settled hresult
      rw [hbegun] at hbegins
      exact meets_of_begins hbegins (by rcases hstatus with h | h <;> rw [h] <;> decide)
    | byJob hbegins hfinishes =>
      exact meets_of_finishes hfinishes (by rcases hstatus with h | h <;> rw [h] <;> decide)
  obtain ⟨obstacle, hmet, hexplains⟩ := hmeets
  exact ⟨obstacle, hmet, hexplains, hmet.told_iff⟩

/-- The events of a format request that has a bench for itself. -/
def oneRequest (name : String) : List BenchEvent :=
  [.desk (.issue name), .desk (.resume true), .desk (.engineEnds 0), .desk (.resume true),
    .desk (.resume true)]

/-- A request that has a bench for itself returns what formatting the document from beginning to end
gives. -/
theorem returned_alone (host : Host) (edition : Edition) (workspace : Option Path)
    (name : String) (document : Document) :
    ∃ r, ((start host edition workspace [(name, document)]).run
        (oneRequest name)).desk.requests[0]? = some r ∧
      r.stage = .returned
        ((Formatter.ofSettings edition workspace).format host document).value.1.1 := by
  simp only [Formatter.format, Logged.value_bind]
  cases hbegin : ((Formatter.ofSettings edition workspace).beginRequest host document).value with
  | mk begun f =>
    -- a request that is over when it has begun returns in its second turn, others in their third
    cases begun <;>
      simp [oneRequest, run, step, Desk.step, start, Desk.ofFormatter, Desk.issue, Desk.resume,
        Desk.resumeRequest, Desk.beginWork, hbegin, Desk.settle, Desk.setStage, Desk.updateRequest,
        Desk.makeDue, Desk.engineEnds, Desk.returnResult, Desk.finishWork, List.lookup_cons_self]

/-- A host whose one engine ends with errors and writes this report. -/
def refusingHost (report : Text.Utf8.Octets) : Host where
  tree := ⟨[(["t"], .file ⟨[], 0o755, some fun _ _ => .ends ⟨[], report, 2⟩⟩)]⟩
  directory := []
  searchPath := ""

/-- Settings that name the engine. -/
def naming : Edition := ⟨0, { executable := some "/t", fileSearch := false }⟩

section Refusing

variable (report : Text.Utf8.Octets)

theorem stat_refusing : (refusingHost report).stat "/t" =
    .ok (["t"], .file ⟨[], 0o755, some fun _ _ => .ends ⟨[], report, 2⟩⟩) := by
  have hplain : IsPlainName "t" := by decide
  exact hplain.stat_eq rfl nofun

theorem isRunnable_refusing :
    File.isRunnable ⟨[], 0o755, some fun _ _ => .ends ⟨[], report, 2⟩⟩ = true := by
  simp [File.isRunnable, File.ownerBit]

theorem provides_refusing :
    (refusingHost report).Provides "/t" fun _ _ => .ends ⟨[], report, 2⟩ :=
  Host.provides_program (by decide) (by decide)
    (Host.program_of_stat (stat_refusing report) (isRunnable_refusing report)) rfl rfl

theorem findEngine_refusing :
    ((refusingHost report).findEngine (some "/t")).value = ⟨some "/t", []⟩ := by
  have hopen := ((refusingHost report).isExecutable_iff "/t").2
    ⟨_, _, stat_refusing report, isRunnable_refusing report⟩
  have hnamed : (some "/t").filter (fun path => !path.isEmpty) = some "/t" := by decide
  simp only [Host.findEngine, hnamed, hopen, if_true, Logged.value_pure]

/-- The paragraph is blocked, and the report is all that is told. -/
theorem format_refusing :
    ((Formatter.ofSettings naming none).format (refusingHost report)
        (.buffer "<p>" none false)).value.1.1 =
      .ok ⟨.blocked, some (.ofRun ⟨[], report, 2⟩),
        Formatter.reportMessages (.ofRun ⟨[], report, 2⟩)⟩ := by
  have hfound : ((Formatter.ofSettings naming none).findEngine (refusingHost report)).value =
      (⟨some "/t", []⟩, { Formatter.ofSettings naming none with
        lookup := some ⟨some "/t", []⟩ }) := by
    show (((refusingHost report).findEngine (some "/t")).value,
      ({ Formatter.ofSettings naming none with
        lookup := some ((refusingHost report).findEngine (some "/t")).value } : Formatter)) = _
    rw [findEngine_refusing]
  have hbuilt : (((Formatter.ofSettings naming none).findEngine
      (refusingHost report)).value.2.buildOptions (refusingHost report) "<p>" none).value.1 =
        .ok (.empty, []) := by
    rw [hfound]
    rfl
  have hgives : OptionMap.empty.Gives OptionMap.fixedWords := ⟨rfl, by decide⟩
  have hstarts := Formatter.starts_of_takes (provides_refusing report) hgives rfl "<p>"
  have hformat := Formatter.format_of_starts (by decide) (by rw [hfound]) hbuilt hstarts
  rw [hformat, hfound,
    Formatter.finishRequest_known _ _ _ ⟨[], report, 2⟩ rfl (Or.inr (Or.inr rfl))]
  show Except.ok (Outcome.mk _ _ _) = _
  simp [Formatter.hindranceMessages]

end Refusing

/-- What the engine of a host wrote as its report. -/
def complaint : Text.Utf8.Octets := Text.Utf8.encode "\nError: no\n".toList

theorem ofRun_complaint :
    Execution.ofRun ⟨[], complaint, 2⟩ = ⟨"", "\nError: no\n", some 2⟩ := by
  decide +kernel

theorem reportMessages_complaint :
    Formatter.reportMessages ⟨"", "\nError: no\n", some 2⟩ = ["Error: no"] := by
  decide +kernel

/-- A request on a bench for itself is blocked for the errors of its engine, and their report says
why. -/
theorem unformatted_tells_why_complaint :
    ∃ r, ((start (refusingHost complaint) naming none
        [("d", .buffer "<p>" none false)]).run (oneRequest "d")).desk.requests[0]? = some r ∧
      r.stage = .returned (.ok ⟨.blocked, some ⟨"", "\nError: no\n", some 2⟩, ["Error: no"]⟩) ∧
      ∃ obstacle, (start (refusingHost complaint) naming none
          [("d", .buffer "<p>" none false)]).Meets naming (oneRequest "d") 0 obstacle ∧
        obstacle.Explains ⟨.blocked, some ⟨"", "\nError: no\n", some 2⟩, ["Error: no"]⟩ ∧
        ((∃ message ∈ obstacle.told, message ≠ "") ↔ ¬ obstacle.IsUnreported) := by
  obtain ⟨r, hfound, hreturned⟩ := returned_alone (refusingHost complaint) naming none "d"
    (.buffer "<p>" none false)
  rw [format_refusing, ofRun_complaint, reportMessages_complaint] at hreturned
  exact ⟨r, hfound, hreturned, unformatted_tells_why _ naming none _ _ 0 r _ hfound hreturned
    (Or.inl rfl)⟩

/-- Where an engine ends with errors and writes nothing, a paragraph is blocked and nothing is
told. -/
theorem silent_error_not_told :
    ((Formatter.ofSettings naming none).format (refusingHost [])
        (.buffer "<p>" none false)).value.1.1 = .ok ⟨.blocked, some ⟨"", "", some 2⟩, []⟩ := by
  have hrun : Execution.ofRun ⟨[], [], 2⟩ = ⟨"", "", some 2⟩ := by decide +kernel
  have hnothing : Formatter.reportMessages ⟨"", "", some 2⟩ = [] := by decide +kernel
  rw [format_refusing, hrun, hnothing]

end Bench

end MarkupTidy
