import MarkupTidy.Proofs.Formatter.Prepared

/-!
Requests that have something to tell already when they begin. It stands in front of all that they
tell of themselves, and makes no other difference to them.
-/
namespace MarkupTidy

/-- The outcome, with something told in front. -/
def Outcome.telling (told : List String) (outcome : Outcome) : Outcome :=
  { outcome with messages := told ++ outcome.messages }

def LintReport.telling (told : List String) (report : LintReport) : LintReport :=
  { report with messages := told ++ report.messages }

/-- The job, with something to tell in front. -/
def Job.telling (told : List String) (job : Job) : Job :=
  { job with messages := told ++ job.messages }

def LintJob.telling (told : List String) (job : LintJob) : LintJob :=
  { job with messages := told ++ job.messages }

def Begun.telling (told : List String) : Begun → Begun
  | .settled outcome => .settled (outcome.telling told)
  | .raised fault => .raised fault
  | .running job => .running (job.telling told)

def LintStage.telling (told : List String) : LintStage → LintStage
  | .running job => .running (job.telling told)
  | .returned result => .returned (result.map (LintReport.telling told))

theorem eq_ok_of_map {α β : Type} {f : α → β} {result : Except Fault α} {value : β}
    (h : result.map f = .ok value) : ∃ own, result = .ok own ∧ value = f own := by
  cases result with
  | error fault => cases h
  | ok own =>
    cases h
    exact ⟨own, rfl, rfl⟩

namespace Formatter

/-- A result and a changed document, with something told in front. -/
def Finished.telling (told : List String) (finished : Finished) : Finished :=
  (finished.1.map (Outcome.telling told), finished.2)

/-- The preparation, with something to tell in front if it came to the search for an engine. -/
def Prepared.telling (told : List String) : Prepared → Prepared
  | .missing messages => .missing (told ++ messages)
  | .ready executable options messages text => .ready executable options (told ++ messages) text
  | prepared => prepared

/-- The preparation had a text to go on with. -/
def Prepared.HasGoneOn : Prepared → Prop
  | .unreadable _ | .empty => False
  | _ => True

section Telling

variable (told messages : List String)

theorem settleFault_telling (fault : Fault) :
    (settleFault (told ++ messages) fault).value =
      (settleFault messages fault).value.map (Outcome.telling told) := by
  unfold settleFault
  split
  · show Except.ok (Outcome.failed _) = .ok (Outcome.telling told (.failed _))
    rw [Outcome.failed, Outcome.failed, Outcome.telling, List.append_assoc]
  · rfl

theorem ofSettled_telling (result : Except Fault Outcome) :
    Begun.ofSettled (result.map (Outcome.telling told)) = (Begun.ofSettled result).telling told := by
  cases result <;> rfl

theorem apply_telling (host : Host) (job : Job) (document : Document) (execution : Execution) :
    (apply host (job.telling told) document execution (told ++ messages)).value =
      Finished.telling told (apply host job document execution messages).value := by
  unfold apply
  generalize document.setText host execution.output = given
  obtain ⟨result, changed⟩ := given
  cases result with
  | ok _ => simp [Finished.telling, Outcome.telling, Job.telling, Except.map]
  | error fault =>
    cases fault with
    | refused refused => simp [Finished.telling, Outcome.telling, Except.map]
    | _ => rfl

/-- What a format request has to tell while its engine runs stands in front of its result. -/
theorem finishRequest_telling (host : Host) (job : Job) (document : Document) :
    (finishRequest host (job.telling told) document).value =
      Finished.telling told (finishRequest host job document).value := by
  have hjob : (job.telling told).launched = job.launched ∧
      (job.telling told).settings = job.settings := ⟨rfl, rfl⟩
  simp only [finishRequest, Logged.value_bind, hjob.1, hjob.2]
  cases (Runner.conclude job.launched (job.settings.timeout.map Subtype.val)).value with
  | error fault => exact Prod.ext (settleFault_telling told job.messages fault) rfl
  | ok execution =>
    have hmessages : (job.telling told).messages ++ reportMessages execution =
        told ++ (job.messages ++ reportMessages execution) := List.append_assoc ..
    simp only [settle, hjob.2, hmessages]
    cases hindrance? job.settings execution with
    | some hindrance => simp [Finished.telling, Outcome.telling, Except.map]
    | none => exact apply_telling told _ host job document execution

theorem lintReport_telling (collected : Except Fault String) :
    (lintReport (told ++ messages) collected).value =
      (lintReport messages collected).value.map (LintReport.telling told) := by
  cases collected with
  | error fault =>
    simp only [lintReport]
    split
    · show Except.ok (failedReport _) = .ok (LintReport.telling told (failedReport _))
      rw [failedReport, failedReport, LintReport.telling, List.append_assoc]
    · rfl
  | ok report =>
    simp only [lintReport, Logged.value_pure]
    cases Diagnostic.parse report <;> rfl

end Telling

end Formatter

/-- What a lint request has to tell stands in front of what it returns. -/
theorem LintStage.result_telling (told : List String) (stage : LintStage) :
    (stage.telling told).result = stage.result.map (LintReport.telling told) := by
  cases stage with
  | returned result => rfl
  | running job => exact Formatter.lintReport_telling told job.messages _

namespace Formatter

section Prepared

variable {host : Host} {settings : Settings} {told : List String}

/-- The warnings of a search are told in front of all others, and not where it did not come to a
search. -/
theorem prepareBy_telling (settings : Settings) (read : Except Fault (Except String String))
    (path : Option String) (told : List String) (found : Except Fault Resolved) :
    prepareBy settings read ⟨path, told⟩ found =
      (prepareBy settings read ⟨path, []⟩ found).telling told := by
  rcases read with fault | message | text
  · rfl
  · rfl
  · simp only [prepareBy]
    split
    · rfl
    · cases path with
      | none => simp [Prepared.telling]
      | some executable =>
        cases found with
        | error fault => rfl
        | ok resolved =>
          simp only
          cases DerivedOptions.derive text resolved.options settings <;> rfl

theorem hasGoneOn_prepareBy {text : String} (htext : text ≠ "") (lookup : Lookup)
    (found : Except Fault Resolved) :
    (prepareBy settings (.ok (.ok text)) lookup found).HasGoneOn := by
  have hfull : text.isEmpty = false := by simpa using htext
  simp only [prepareBy, hfull]
  cases lookup.path with
  | none => trivial
  | some executable =>
    cases found with
    | error fault => trivial
    | ok resolved =>
      simp only
      cases DerivedOptions.derive text resolved.options settings <;> trivial

theorem Prepared.format_telling {prepared : Prepared} (h : prepared.HasGoneOn) :
    (prepared.telling told).format host settings =
      (prepared.format host settings).telling told := by
  cases prepared with
  | unreadable message | empty => cases h
  | raised fault | missing messages => rfl
  | ready executable options messages text =>
    simp only [Prepared.telling, Prepared.format]
    cases (Runner.launch host (some executable) options text).value with
    | ok launched => rfl
    | error fault =>
      simp only [settleFault_telling, ofSettled_telling]

theorem Prepared.lint_telling {prepared : Prepared} (h : prepared.HasGoneOn) :
    (prepared.telling told).lint host settings = (prepared.lint host settings).telling told := by
  cases prepared with
  | unreadable message | empty => cases h
  | raised fault | missing messages => rfl
  | ready executable options messages text =>
    simp only [Prepared.telling, Prepared.lint]
    cases (Runner.launch host (some executable) (Runner.forReport options) text).value with
    | ok launched => rfl
    | error fault => simp only [lintReport_telling, LintStage.telling]

end Prepared

end Formatter

end MarkupTidy
