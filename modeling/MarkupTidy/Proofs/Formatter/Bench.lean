import MarkupTidy.Proofs.Formatter.Prepared
import MarkupTidy.Proofs.Formatter.Steps

/-!
A desk with lint requests beside its format requests, on files that change. All of them use the one
formatter: a request that begins reads it and leaves something in it, a refresh replaces its
settings, and nothing else has to do with it.
-/
namespace MarkupTidy

structure Bench where
  desk : Desk
  /-- The lint requests that have begun, in the order in which they began. -/
  lints : List LintStage

inductive BenchEvent
  | desk (event : DeskEvent)
  | change (host : Host)
  /-- A lint request for a document begins. -/
  | lint (document : String)
  /-- The engine of a lint request ends, or its time is over. -/
  | lintEnds (request : Nat)
  /-- The caller of a lint request gives up. -/
  | lintStops (request : Nat)

/-- The settings that an event hands over. -/
def BenchEvent.refresh? : BenchEvent → Option Edition
  | .desk (.refresh edition) => some edition
  | _ => none

theorem BenchEvent.refresh?_eq_some {event : BenchEvent} {edition : Edition}
    (h : event.refresh? = some edition) : event = .desk (.refresh edition) := by
  unfold refresh? at h
  split at h <;> cases h
  rfl

namespace Bench

def start (host : Host) (edition : Edition) (workspace : Option Path)
    (documents : List (String × Document)) : Bench :=
  ⟨.ofFormatter host (.ofSettings edition workspace) documents, []⟩

def lint (b : Bench) (name : String) : Bench :=
  match b.desk.documents.lookup name with
  | none => b
  | some document =>
    let (stage, formatter) := (b.desk.formatter.beginLint b.desk.host document).value
    ⟨{ b.desk with formatter }, b.lints ++ [stage]⟩

/-- A lint request that waits for its engine returns. -/
def returnLint (b : Bench) (n : Nat) (result : LintJob → Except Fault LintReport) : Bench :=
  match b.lints[n]? with
  | some (.running job) => { b with lints := b.lints.set n (.returned (result job)) }
  | _ => b

def step (b : Bench) : BenchEvent → Bench
  | .desk event => { b with desk := b.desk.step event }
  | .change host => { b with desk := { b.desk with host } }
  | .lint document => b.lint document
  | .lintEnds request => b.returnLint request fun job => (Formatter.finishLint job).value
  | .lintStops request => b.returnLint request fun _ => .error .cancelled

/-- The bench after some events. -/
def run (b : Bench) (events : List BenchEvent) : Bench := events.foldl step b

theorem run_concat (b : Bench) (events : List BenchEvent) (event : BenchEvent) :
    b.run (events ++ [event]) = (b.run events).step event := by
  simp [run]

theorem run_append_cons (b : Bench) (before after : List BenchEvent) (event : BenchEvent) :
    b.run (before ++ event :: after) = ((b.run before).step event).run after := by
  simp [run]

end Bench

namespace Desk

/-- It is the turn of request `id`, which is to begin on a document. -/
def IsToBegin (desk : Desk) (id : Nat) (document : Document) : Prop :=
  desk.due.head? = some id ∧ ∃ r, desk.requests[id]? = some r ∧ r.stage = .issued ∧
    r.isStopped = false ∧ desk.documents.lookup r.document = some document

/-- It is the turn of request `id`, which is to take what its engine gave for a document. -/
def IsToFinish (desk : Desk) (id : Nat) (document : Document) (job : Job) : Prop :=
  desk.due.head? = some id ∧ ∃ r, desk.requests[id]? = some r ∧ r.stage = .ended job ∧
    desk.documents.lookup r.document = some document

theorem IsToBegin.unique {desk : Desk} {id id' : Nat} {document document' : Document}
    (h : desk.IsToBegin id document) (h' : desk.IsToBegin id' document') :
    id = id' ∧ document = document' := by
  obtain ⟨hturn, r, hfound, -, -, hdocument⟩ := h
  obtain ⟨hturn', r', hfound', -, -, hdocument'⟩ := h'
  cases hturn.symm.trans hturn'
  cases hfound.symm.trans hfound'
  exact ⟨rfl, Option.some.inj (hdocument.symm.trans hdocument')⟩

section IsToBegin

variable {desk : Desk} {id : Nat} {document : Document}

theorem IsToBegin.resume_eq (h : desk.IsToBegin id document) (useResult : Bool) :
    ∃ r rest, desk.requests[id]? = some r ∧
      desk.resume useResult = { desk with due := rest }.beginWork id document := by
  obtain ⟨hturn, r, hfound, hstage, hstopped, hdocument⟩ := h
  obtain ⟨rest, hdue⟩ := List.head?_eq_some_iff.1 hturn
  have hwhich : desk.turn useResult r = .begins document := by
    simp only [turn, hstage, hstopped, hdocument]
  exact ⟨r, rest, hfound, by rw [resume_turn hdue hfound, hwhich]⟩

theorem IsToBegin.formatter_resume (h : desk.IsToBegin id document) (useResult : Bool) :
    (desk.resume useResult).formatter =
      (desk.formatter.beginRequest desk.host document).value.2 := by
  obtain ⟨r, rest, hfound, hresume⟩ := h.resume_eq useResult
  have htaken : ({ desk with due := rest } : Desk).requests[id]? = some r := hfound
  rw [hresume]
  exact (beginWork_spec htaken document).2.2

/-- A request that begins goes on to the stage to which its beginning leads. -/
theorem IsToBegin.get_resume (h : desk.IsToBegin id document) (useResult : Bool) :
    ∃ r, (desk.resume useResult).requests[id]? = some r ∧
      r.stage = (desk.formatter.beginRequest desk.host document).value.1.stage := by
  obtain ⟨r, rest, hfound, hresume⟩ := h.resume_eq useResult
  have htaken : ({ desk with due := rest } : Desk).requests[id]? = some r := hfound
  have hlt : id < desk.requests.length := (List.getElem?_eq_some_iff.mp hfound).1
  refine ⟨{ r with stage := (desk.formatter.beginRequest desk.host document).value.1.stage },
    ?_, rfl⟩
  rw [hresume, (beginWork_spec htaken document).1]
  exact List.getElem?_set_self hlt

end IsToBegin

def withFormatter (desk : Desk) (formatter : Formatter) : Desk := { desk with formatter }

section WithFormatter

variable (desk : Desk) (formatter : Formatter)

theorem stop_withFormatter (id : Nat) :
    (desk.withFormatter formatter).stop id = (desk.stop id).withFormatter formatter := by
  unfold stop
  simp only [withFormatter]
  split
  · rfl
  · split
    · rfl
    · split <;> rfl

theorem cleared_withFormatter (key : DocumentKey) :
    (desk.withFormatter formatter).cleared key = (desk.cleared key).withFormatter formatter := by
  have hinFlight : (desk.withFormatter formatter).inFlight = desk.inFlight := rfl
  unfold cleared
  rw [hinFlight]
  cases desk.inFlight.lookup key with
  | none => rfl
  | some earlier => exact stop_withFormatter desk formatter earlier

theorem issue_withFormatter (name : String) :
    (desk.withFormatter formatter).issue name = (desk.issue name).withFormatter formatter := by
  have hdocuments : (desk.withFormatter formatter).documents = desk.documents := rfl
  rw [issue_eq, issue_eq, hdocuments]
  cases desk.documents.lookup name with
  | none => rfl
  | some document =>
    simp only [cleared_withFormatter]
    rfl

theorem resume_withFormatter (useResult : Bool)
    (hbegins : ∀ id document, ¬ desk.IsToBegin id document) :
    (desk.withFormatter formatter).resume useResult =
      (desk.resume useResult).withFormatter formatter := by
  cases hdue : desk.due with
  | nil => simp [resume, withFormatter, hdue]
  | cons id rest =>
    cases hfound : desk.requests[id]? with
    | none => simp [resume, withFormatter, hdue, hfound]
    | some r =>
      have hdue' : (desk.withFormatter formatter).due = id :: rest := hdue
      have hfound' : (desk.withFormatter formatter).requests[id]? = some r := hfound
      have hturn : (desk.withFormatter formatter).turn useResult r = desk.turn useResult r := rfl
      have hspec := turn_spec desk useResult r
      rw [resume_turn hdue hfound, resume_turn hdue' hfound', hturn]
      cases hwhich : desk.turn useResult r with
      | begins document =>
        rw [hwhich] at hspec
        exact absurd ⟨by rw [hdue]; rfl, r, hfound, hspec⟩ (hbegins id document)
      | _ => rfl

/-- A step has nothing to do with the formatter, unless a request begins or the settings are
refreshed. -/
theorem step_withFormatter (event : DeskEvent)
    (hbegins : ∀ useResult, event = .resume useResult → ∀ id document,
      ¬ desk.IsToBegin id document)
    (hrefresh : ∀ edition, event ≠ .refresh edition) :
    (desk.withFormatter formatter).step event = (desk.step event).withFormatter formatter := by
  cases event with
  | issue name => exact issue_withFormatter desk formatter name
  | resume useResult => exact resume_withFormatter desk formatter useResult (hbegins _ rfl)
  | engineEnds id =>
    simp only [step, engineEnds, withFormatter]
    split <;> rfl
  | abandon id =>
    simp only [step, abandon, stop_withFormatter]
    simp only [withFormatter]
    split <;> rfl
  | refresh edition => exact absurd rfl (hrefresh edition)
  | edit name text =>
    simp only [step, edit, withFormatter]
    split <;> rfl

end WithFormatter

end Desk

namespace Bench

def withFormatter (b : Bench) (formatter : Formatter) : Bench :=
  { b with desk := b.desk.withFormatter formatter }

/-- In this step a request begins. -/
def Begins (b : Bench) : BenchEvent → Prop
  | .desk (.resume _) => ∃ id document, b.desk.IsToBegin id document
  | .lint name => (b.desk.documents.lookup name).isSome = true
  | _ => False

/-- In the course of the events no request begins. -/
def Quiet (b : Bench) : List BenchEvent → Prop
  | [] => True
  | event :: events => ¬ b.Begins event ∧ (b.step event).Quiet events

/-- A step in which no request begins and which does not refresh the settings has nothing to do
with the formatter. -/
theorem step_withFormatter {b : Bench} {event : BenchEvent} (hbegins : ¬ b.Begins event)
    (hrefresh : event.refresh? = none) (formatter : Formatter) :
    (b.withFormatter formatter).step event = (b.step event).withFormatter formatter := by
  cases event with
  | desk event =>
    have hdesk := Desk.step_withFormatter b.desk formatter event
      (fun useResult hevent id document hto => hbegins (by rw [hevent]; exact ⟨id, document, hto⟩))
      (fun edition hevent => by rw [hevent] at hrefresh; cases hrefresh)
    simp only [step, withFormatter, hdesk]
  | change host => rfl
  | lint name =>
    cases hname : b.desk.documents.lookup name with
    | none => simp only [step, lint, withFormatter, Desk.withFormatter, hname]
    | some document => exact absurd (by simp [Begins, hname]) hbegins
  | lintEnds n | lintStops n =>
    simp only [step, returnLint, withFormatter]
    split <;> rfl

theorem formatter_step {b : Bench} {event : BenchEvent} (hbegins : ¬ b.Begins event)
    (hrefresh : event.refresh? = none) : (b.step event).desk.formatter = b.desk.formatter :=
  congrArg (fun b => b.desk.formatter) (step_withFormatter hbegins hrefresh b.desk.formatter)

/-- Events among which no request begins come to the same, whatever the formatter is, but for the
formatter itself. -/
theorem run_withFormatter {events : List BenchEvent} {b : Bench} (hquiet : b.Quiet events)
    (formatter : Formatter) :
    ∃ formatter', (b.withFormatter formatter).run events =
      (b.run events).withFormatter formatter' := by
  induction events generalizing b formatter with
  | nil => exact ⟨formatter, rfl⟩
  | cons event events ih =>
    obtain ⟨hbegins, hrest⟩ := hquiet
    cases hrefresh : event.refresh? with
    | none =>
      obtain ⟨formatter', hrun⟩ := ih hrest formatter
      refine ⟨formatter', ?_⟩
      show ((b.withFormatter formatter).step event).run events = _
      rw [step_withFormatter hbegins hrefresh, hrun]
      rfl
    | some edition =>
      obtain ⟨formatter', hrun⟩ := ih hrest (formatter.refresh edition)
      refine ⟨formatter', ?_⟩
      obtain rfl := BenchEvent.refresh?_eq_some hrefresh
      exact hrun

end Bench

end MarkupTidy
