import MarkupTidy.Formatter.Basic

/-!
What a request does to its document. It only gives the document a text when the run of its engine
is applied; the document and the host are as they were otherwise. No request says of itself that it
was superseded.
-/
namespace MarkupTidy

/-- What a request that has begun came to without its engine. -/
def Begun.result? : Begun → Option (Except Fault Outcome)
  | .settled outcome => some (.ok outcome)
  | .raised fault => some (.error fault)
  | .running _ => none

namespace Formatter

/-- The run whose output a finishing request gives its document. -/
def applied? (job : Job) : Option Execution :=
  match (Runner.conclude job.launched (job.settings.timeout.map Subtype.val)).value with
  | .error _ => none
  | .ok execution =>
    match hindrance? job.settings execution with
    | some _ => none
    | none => some execution

/-- The document and the host when a request has finished. -/
def changedBy (host : Host) (job : Job) (document : Document) : Document.Changed :=
  match applied? job with
  | some execution => (document.setText host execution.output).2
  | none => ⟨host, document⟩

theorem changed_apply (host : Host) (job : Job) (document : Document) (execution : Execution)
    (messages : List String) :
    (apply host job document execution messages).value.2 =
      (document.setText host execution.output).2 := by
  unfold apply
  generalize document.setText host execution.output = given
  obtain ⟨result, changed⟩ := given
  cases result with
  | ok _ => rfl
  | error fault => cases fault <;> rfl

theorem changed_finishRequest (host : Host) (job : Job) (document : Document) :
    (finishRequest host job document).value.2 = changedBy host job document := by
  unfold changedBy applied?
  simp only [finishRequest, Logged.value_bind]
  cases (Runner.conclude job.launched (job.settings.timeout.map Subtype.val)).value with
  | error fault => rfl
  | ok execution =>
    cases hhindrance : hindrance? job.settings execution with
    | some hindrance => simp only [settle, hhindrance]; rfl
    | none => simp only [settle, hhindrance, changed_apply]

/-- The request did not give up for a newer one. -/
def StaysInPlace (result : Except Fault Outcome) : Prop :=
  ∀ outcome, result = .ok outcome → outcome.status ≠ .superseded

theorem StaysInPlace.error (fault : Fault) : StaysInPlace (.error fault) := by
  intro outcome h
  cases h

theorem StaysInPlace.ok {outcome : Outcome} (h : outcome.status ≠ .superseded) :
    StaysInPlace (.ok outcome) := by
  rintro _ ⟨⟩
  exact h

theorem staysInPlace_settleFault (messages : List String) (fault : Fault) :
    StaysInPlace (settleFault messages fault).value := by
  unfold settleFault
  split
  · exact StaysInPlace.ok (by simp [Outcome.failed])
  · exact StaysInPlace.error fault

theorem staysInPlace_apply (host : Host) (job : Job) (document : Document)
    (execution : Execution) (messages : List String) :
    StaysInPlace (apply host job document execution messages).value.1 := by
  unfold apply
  generalize document.setText host execution.output = given
  obtain ⟨result, changed⟩ := given
  cases result with
  | ok _ => exact StaysInPlace.ok (by simp)
  | error fault =>
    cases fault with
    | refused refused => exact StaysInPlace.ok (by simp)
    | _ => exact StaysInPlace.error _

theorem staysInPlace_finishRequest (host : Host) (job : Job) (document : Document) :
    StaysInPlace (finishRequest host job document).value.1 := by
  simp only [finishRequest, Logged.value_bind]
  cases (Runner.conclude job.launched (job.settings.timeout.map Subtype.val)).value with
  | error fault => exact staysInPlace_settleFault job.messages fault
  | ok execution =>
    cases hhindrance : hindrance? job.settings execution with
    | some hindrance =>
      simp only [settle, hhindrance]
      exact StaysInPlace.ok (by simp)
    | none =>
      simp only [settle, hhindrance]
      exact staysInPlace_apply host job document execution _

theorem result?_ofSettled (result : Except Fault Outcome) :
    (Begun.ofSettled result).result? = some result := by
  cases result <;> rfl

/-- A request that is over when it has begun did not give up for a newer one. -/
def EndsInPlace (begun : Begun) : Prop := ∀ result ∈ begun.result?, StaysInPlace result

theorem EndsInPlace.settled {outcome : Outcome} (h : outcome.status ≠ .superseded) :
    EndsInPlace (.settled outcome) := by
  rintro _ ⟨⟩
  exact StaysInPlace.ok h

theorem EndsInPlace.raised (fault : Fault) : EndsInPlace (.raised fault) := by
  rintro _ ⟨⟩
  exact StaysInPlace.error fault

theorem EndsInPlace.running (job : Job) : EndsInPlace (.running job) := by
  intro result h
  cases h

theorem endsInPlace_launchJob (host : Host) (f : Formatter) (executable : String)
    (options : OptionMap) (text : String) (messages : List String) :
    EndsInPlace (launchJob host f executable options text messages).value := by
  simp only [launchJob, Logged.value_bind]
  cases (Runner.launch host (some executable) options text).value with
  | ok launched => exact EndsInPlace.running _
  | error fault =>
    intro result hresult
    simp only [Logged.value_bind, Logged.value_pure, result?_ofSettled] at hresult
    cases hresult
    exact staysInPlace_settleFault messages fault

theorem endsInPlace_beginText (host : Host) (f : Formatter) (text : String)
    (path : Option Path) : EndsInPlace (f.beginText host text path).value.1 := by
  simp only [beginText, Logged.value_bind]
  cases (f.findEngine host).value.1.path with
  | none => exact EndsInPlace.settled (by simp [Outcome.failed])
  | some executable =>
    simp only [Logged.value_bind]
    generalize ((f.findEngine host).value.2.buildOptions host text path).value = built
    obtain ⟨result, f'⟩ := built
    cases result with
    | error fault => exact EndsInPlace.raised fault
    | ok pair => exact endsInPlace_launchJob host f' executable pair.1 text _

theorem endsInPlace_beginRequest (host : Host) (f : Formatter) (document : Document) :
    EndsInPlace (f.beginRequest host document).value.1 := by
  simp only [beginRequest, Logged.value_bind]
  rcases (readDocument host document).value with fault | message | text
  · exact EndsInPlace.raised fault
  · exact EndsInPlace.settled (by simp [Outcome.failed])
  · simp only
    split
    · exact EndsInPlace.settled (by simp)
    · exact endsInPlace_beginText host f text document.path?

end Formatter

end MarkupTidy
