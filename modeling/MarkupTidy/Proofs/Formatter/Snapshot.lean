import MarkupTidy.Proofs.Formatter.Bench
import Mathlib.Data.List.Induction

/-!
The settings that a request goes by. What the formatter holds was found by its present settings
since they were taken over, so a request that begins has its engine, its options and its warnings by
these settings alone; what it still needs when its engine has ended it takes along. So refreshes
change nothing for a request that has begun, and one that begins afterwards meets nothing of what
was found before.
-/
namespace MarkupTidy.Bench

/-- The settings of the last refresh. -/
def presentEdition (edition : Edition) (events : List BenchEvent) : Edition :=
  events.foldl (fun edition event => event.refresh?.getD edition) edition

/-- The host was there at some time since the last refresh. -/
def Met (first : Bench) (events : List BenchEvent) (host : Host) : Prop :=
  ∃ before after, events = before ++ after ∧ (∀ event ∈ after, event.refresh? = none) ∧
    (first.run before).desk.host = host

/-- In the course of the events a format request begins, by the settings of that moment. -/
def BeginsAs (first : Bench) (edition : Edition) (events : List BenchEvent) (id : Nat)
    (begun : Begun) : Prop :=
  ∃ before useResult after document prepared,
    events = before ++ .desk (.resume useResult) :: after ∧
    (first.run before).desk.IsToBegin id document ∧
    Formatter.PreparedBy (first.Met before) (presentEdition edition before).settings
      (first.run before).desk.host (first.run before).desk.formatter.resolver document prepared ∧
    begun = prepared.format (first.run before).desk.host (presentEdition edition before).settings

/-- In the course of the events a format request takes what its engine gave. -/
def FinishesAs (first : Bench) (events : List BenchEvent) (id : Nat) (job : Job)
    (result : Except Fault Outcome) : Prop :=
  ∃ before useResult after document, events = before ++ .desk (.resume useResult) :: after ∧
    (first.run before).desk.IsToFinish id document job ∧
    result = (Formatter.finishRequest (first.run before).desk.host job document).value.1

/-- In the course of the events a lint request begins, by the settings of that moment. -/
def LintBeginsAs (first : Bench) (edition : Edition) (events : List BenchEvent) (n : Nat)
    (stage : LintStage) : Prop :=
  ∃ before name after document prepared, events = before ++ .lint name :: after ∧
    (first.run before).lints.length = n ∧
    (first.run before).desk.documents.lookup name = some document ∧
    Formatter.PreparedBy (first.Met before) (presentEdition edition before).settings
      (first.run before).desk.host (first.run before).desk.formatter.resolver document prepared ∧
    stage = prepared.lint (first.run before).desk.host (presentEdition edition before).settings

/-- How a format request comes to its result. -/
inductive ComesTo (first : Bench) (edition : Edition) (events : List BenchEvent) (id : Nat)
    (isStopped : Bool) : Except Fault Outcome → Prop
  | givesWay (hstopped : isStopped = true) : ComesTo first edition events id isStopped
      (.ok .superseded)
  | givenUp (habandon : .desk (.abandon id) ∈ events) : ComesTo first edition events id isStopped
      (.error .cancelled)
  | atOnce {begun : Begun} {result : Except Fault Outcome}
      (hbegins : first.BeginsAs edition events id begun) (hresult : begun.stage = .settled result) :
      ComesTo first edition events id isStopped result
  | byJob {job : Job} {result : Except Fault Outcome}
      (hbegins : first.BeginsAs edition events id (.running job))
      (hfinishes : first.FinishesAs events id job result) :
      ComesTo first edition events id isStopped result

/-- What holds of a format request at its stage. -/
def StageBy (first : Bench) (edition : Edition) (events : List BenchEvent) (id : Nat)
    (isStopped : Bool) : Stage → Prop
  | .issued => True
  | .running job => first.BeginsAs edition events id (.running job)
  | .ended job => first.BeginsAs edition events id (.running job)
  | .settled result => first.ComesTo edition events id isStopped result
  | .returned result => first.ComesTo edition events id isStopped result

/-- What becomes of a lint request with a job in the course of events. -/
def LintGoesOn (events : List BenchEvent) (n : Nat) (job : LintJob) (stage : LintStage) : Prop :=
  stage = .running job ∨ stage = .returned (Formatter.finishLint job).value ∨
    .lintStops n ∈ events ∧ stage = .returned (.error .cancelled)

/-- What holds of a lint request at its stage. -/
def LintBy (first : Bench) (edition : Edition) (events : List BenchEvent) (n : Nat)
    (stage : LintStage) : Prop :=
  first.LintBeginsAs edition events n stage ∨
    ∃ job, first.LintBeginsAs edition events n (.running job) ∧ LintGoesOn events n job stage

section History

variable {first : Bench} {edition : Edition} {events : List BenchEvent} {event : BenchEvent}
  {id n : Nat}

theorem presentEdition_concat (edition : Edition) (events : List BenchEvent)
    (event : BenchEvent) : presentEdition edition (events ++ [event]) =
      event.refresh?.getD (presentEdition edition events) := by
  simp [presentEdition]

theorem Met.last (first : Bench) (events : List BenchEvent) :
    first.Met events (first.run events).desk.host :=
  ⟨events, [], by simp, fun _ hevent => (List.not_mem_nil hevent).elim, rfl⟩

theorem Met.concat {host : Host} (h : first.Met events host) (hrefresh : event.refresh? = none) :
    first.Met (events ++ [event]) host := by
  obtain ⟨before, after, rfl, hafter, hhost⟩ := h
  refine ⟨before, after ++ [event], by simp, fun other hother => ?_, hhost⟩
  rcases List.mem_append.1 hother with hold | hlast
  · exact hafter other hold
  · rw [List.mem_singleton.1 hlast, hrefresh]

theorem BeginsAs.concat {begun : Begun} (h : first.BeginsAs edition events id begun) :
    first.BeginsAs edition (events ++ [event]) id begun := by
  obtain ⟨before, useResult, after, document, prepared, rfl, hrest⟩ := h
  exact ⟨before, useResult, after ++ [event], document, prepared, by simp, hrest⟩

theorem FinishesAs.concat {job : Job} {result : Except Fault Outcome}
    (h : first.FinishesAs events id job result) :
    first.FinishesAs (events ++ [event]) id job result := by
  obtain ⟨before, useResult, after, document, rfl, hrest⟩ := h
  exact ⟨before, useResult, after ++ [event], document, by simp, hrest⟩

theorem LintBeginsAs.concat {stage : LintStage} (h : first.LintBeginsAs edition events n stage) :
    first.LintBeginsAs edition (events ++ [event]) n stage := by
  obtain ⟨before, name, after, document, prepared, rfl, hrest⟩ := h
  exact ⟨before, name, after ++ [event], document, prepared, by simp, hrest⟩

theorem ComesTo.concat {isStopped : Bool} {result : Except Fault Outcome}
    (h : first.ComesTo edition events id isStopped result) {isStopped' : Bool}
    (hstopped : isStopped = true → isStopped' = true) :
    first.ComesTo edition (events ++ [event]) id isStopped' result := by
  cases h with
  | givesWay hbefore => exact .givesWay (hstopped hbefore)
  | givenUp habandon => exact .givenUp (List.mem_append_left _ habandon)
  | atOnce hbegins hresult => exact .atOnce hbegins.concat hresult
  | byJob hbegins hfinishes => exact .byJob hbegins.concat hfinishes.concat

theorem StageBy.concat {isStopped : Bool} {stage : Stage}
    (h : first.StageBy edition events id isStopped stage) {isStopped' : Bool}
    (hstopped : isStopped = true → isStopped' = true) :
    first.StageBy edition (events ++ [event]) id isStopped' stage := by
  cases stage with
  | issued => trivial
  | running job | ended job => exact BeginsAs.concat h
  | settled result | returned result => exact ComesTo.concat h hstopped

theorem StageBy.of_begins {begun : Begun} (h : first.BeginsAs edition events id begun)
    (isStopped : Bool) : first.StageBy edition events id isStopped begun.stage := by
  cases begun with
  | settled outcome | raised fault => exact .atOnce h rfl
  | running job => exact h

theorem LintGoesOn.concat {job : LintJob} {stage : LintStage} (h : LintGoesOn events n job stage) :
    LintGoesOn (events ++ [event]) n job stage :=
  h.imp_right (Or.imp_right (And.imp_left (List.mem_append_left _)))

theorem LintBy.concat {stage : LintStage} (h : first.LintBy edition events n stage) :
    first.LintBy edition (events ++ [event]) n stage := by
  rcases h with hbegins | ⟨job, hbegins, hgoes⟩
  · exact Or.inl hbegins.concat
  · exact Or.inr ⟨job, hbegins.concat, hgoes.concat⟩

end History

/-- What holds of a bench after some events. -/
structure Settled (first : Bench) (edition : Edition) (events : List BenchEvent) : Prop where
  orderly : Desk.Orderly (first.run events).desk
  current : Formatter.IsCurrent (first.Met events) (presentEdition edition events)
    (first.run events).desk.formatter
  abandoned : ∀ (id : Nat) (r : Request), (first.run events).desk.requests[id]? = some r →
    r.isAbandoned = true → .desk (.abandon id) ∈ events
  requests : ∀ (id : Nat) (r : Request), (first.run events).desk.requests[id]? = some r →
    first.StageBy edition events id r.isStopped r.stage
  lints : ∀ (n : Nat) (stage : LintStage), (first.run events).lints[n]? = some stage →
    first.LintBy edition events n stage

theorem isStopped_stopped {r : Request} (h : r.isStopped = true) :
    (Desk.stopped r).isStopped = true := by
  unfold Desk.stopped
  split
  · exact h
  · rfl

section Step

variable {first : Bench} {edition : Edition} {events : List BenchEvent}

theorem orderly_step {b : Bench} (h : Desk.Orderly b.desk) (event : BenchEvent) :
    Desk.Orderly (b.step event).desk := by
  cases event with
  | desk event => exact h.step event
  | change host => exact h.rest ⟨rfl, rfl, rfl, fun _ hname => hname⟩
  | lint name =>
    simp only [step, lint]
    split
    · exact h
    · exact h.rest ⟨rfl, rfl, rfl, fun _ hname => hname⟩
  | lintEnds n | lintStops n =>
    simp only [step, returnLint]
    split <;> exact h

/-- A request that begins leaves in the formatter what it found. -/
theorem leaves_step {b : Bench} {event : BenchEvent} (h : b.Begins event) :
    ∃ path, Formatter.Leaves b.desk.host b.desk.formatter path (b.step event).desk.formatter := by
  cases event with
  | desk event =>
    cases event with
    | resume useResult =>
      obtain ⟨id, document, hto⟩ := h
      refine ⟨document.path?, ?_⟩
      show Formatter.Leaves _ _ _ (b.desk.resume useResult).formatter
      rw [hto.formatter_resume]
      exact (Formatter.beginRequest_prepare ..).2
    | _ => cases h
  | lint name =>
    obtain ⟨document, hname⟩ := Option.isSome_iff_exists.1 h
    refine ⟨document.path?, ?_⟩
    simp only [step, lint, hname]
    exact (Formatter.beginLint_prepare ..).2
  | _ => cases h

theorem Settled.current_step (h : first.Settled edition events) (event : BenchEvent) :
    Formatter.IsCurrent (first.Met (events ++ [event])) (presentEdition edition (events ++ [event]))
      ((first.run events).step event).desk.formatter := by
  rw [presentEdition_concat]
  cases hrefresh : event.refresh? with
  | some later =>
    rw [BenchEvent.refresh?_eq_some hrefresh]
    exact Formatter.isCurrent_refresh _ _ later
  | none =>
    have hmet : ∀ host, first.Met events host → first.Met (events ++ [event]) host :=
      fun _ hmet => hmet.concat hrefresh
    refine Formatter.IsCurrent.mono ?_ hmet
    by_cases hbegins : (first.run events).Begins event
    · obtain ⟨path, hleaves⟩ := leaves_step hbegins
      exact h.current.leaves (Met.last first events) hleaves
    · rw [formatter_step hbegins hrefresh]
      exact h.current

theorem Settled.begins (h : first.Settled edition events) {useResult : Bool} {id : Nat}
    {document : Document} (hto : (first.run events).desk.IsToBegin id document) :
    first.BeginsAs edition (events ++ [.desk (.resume useResult)]) id
      ((first.run events).desk.formatter.beginRequest (first.run events).desk.host
        document).value.1 := by
  refine ⟨events, useResult, [], document, _, rfl, hto,
    h.current.prepare (Met.last first events) document, ?_⟩
  rw [(Formatter.beginRequest_prepare ..).1, h.current.settings]

theorem Settled.lintBegins (h : first.Settled edition events) {name : String}
    {document : Document} (hname : (first.run events).desk.documents.lookup name = some document) :
    first.LintBeginsAs edition (events ++ [.lint name]) (first.run events).lints.length
      ((first.run events).desk.formatter.beginLint (first.run events).desk.host
        document).value.1 := by
  refine ⟨events, name, [], document, _, rfl, rfl, hname,
    h.current.prepare (Met.last first events) document, ?_⟩
  rw [(Formatter.beginLint_prepare ..).1, h.current.settings]

theorem Settled.moves (h : first.Settled edition events) {event : DeskEvent} {id : Nat}
    {r r' : Request} (hr : (first.run events).desk.requests[id]? = some r)
    (hmoves : (first.run events).desk.Moves id r event r') :
    first.StageBy edition (events ++ [.desk event]) id r'.isStopped r'.stage := by
  have hbefore := h.requests id r hr
  have hlast : .desk event ∈ events ++ [BenchEvent.desk event] := by simp
  cases hmoves with
  | begins hturn hstage hstopped hdocument =>
    exact .of_begins (h.begins ⟨hturn, r, hr, hstage, hstopped, hdocument⟩) _
  | finishes hturn hstage hdocument =>
    rw [hstage] at hbefore
    exact .byJob (BeginsAs.concat hbefore)
      ⟨events, _, [], _, rfl, ⟨hturn, r, hr, hstage, hdocument⟩, rfl⟩
  | stops hturn hstopped hover =>
    show first.ComesTo edition _ id r.isStopped r.stoppedResult
    unfold Request.stoppedResult
    split
    · next habandoned =>
      exact .givenUp (List.mem_append_left _ (h.abandoned id r hr habandoned))
    · exact .givesWay hstopped
  | returns hturn hstage | ends hstage =>
    rw [hstage] at hbefore
    exact StageBy.concat hbefore fun hstopped => hstopped
  | loses hstage => exact .givenUp hlast
  | gives =>
    show first.StageBy edition _ id (Desk.stopped r).isStopped (Desk.stopped r).stage
    rw [Desk.stage_stopped]
    exact hbefore.concat isStopped_stopped

/-- A format request after a step is as it was, perhaps told to stop; or it is new; or it is the
one that was moved. -/
theorem get_step {b : Bench} (h : Desk.Orderly b.desk) {event : BenchEvent} {id : Nat}
    {r : Request} (hr : (b.step event).desk.requests[id]? = some r) :
    (∃ old, b.desk.requests[id]? = some old ∧ (r = old ∨ r = Desk.stopped old)) ∨
    (b.desk.requests[id]? = none ∧ r.stage = .issued ∧ r.isAbandoned = false) ∨
    ∃ deskEvent old, event = .desk deskEvent ∧ b.desk.requests[id]? = some old ∧
      b.desk.Moves id old deskEvent r := by
  cases event with
  | desk event =>
    rcases h.get_step hr with ⟨old, hold, hsame | ⟨htold, -⟩ | hmoves⟩ | ⟨rfl, hnew⟩
    · exact Or.inl ⟨old, hold, Or.inl hsame⟩
    · exact Or.inl ⟨old, hold, Or.inr htold⟩
    · exact Or.inr (Or.inr ⟨event, old, rfl, hold, hmoves⟩)
    · exact Or.inr (Or.inl ⟨List.getElem?_eq_none (Nat.le_refl _), hnew⟩)
  | change host => exact Or.inl ⟨r, hr, Or.inl rfl⟩
  | lint name =>
    simp only [step, lint] at hr
    split at hr <;> exact Or.inl ⟨r, hr, Or.inl rfl⟩
  | lintEnds n | lintStops n =>
    simp only [step, returnLint] at hr
    split at hr <;> exact Or.inl ⟨r, hr, Or.inl rfl⟩

theorem Settled.stage_step (h : first.Settled edition events) {event : BenchEvent} {id : Nat}
    {r : Request} (hr : ((first.run events).step event).desk.requests[id]? = some r) :
    first.StageBy edition (events ++ [event]) id r.isStopped r.stage := by
  rcases get_step h.orderly hr with ⟨old, hold, rfl | rfl⟩ | ⟨-, hissued, -⟩ |
    ⟨deskEvent, old, rfl, hold, hmoves⟩
  · exact (h.requests id r hold).concat fun hstopped => hstopped
  · rw [Desk.stage_stopped]
    exact (h.requests id old hold).concat isStopped_stopped
  · rw [hissued]
    trivial
  · exact h.moves hold hmoves

theorem isAbandoned_stopped (r : Request) : (Desk.stopped r).isAbandoned = r.isAbandoned := by
  unfold Desk.stopped
  split <;> rfl

theorem Settled.abandoned_step (h : first.Settled edition events) {event : BenchEvent} {id : Nat}
    {r : Request} (hr : ((first.run events).step event).desk.requests[id]? = some r)
    (habandoned : r.isAbandoned = true) : .desk (.abandon id) ∈ events ++ [event] := by
  have hold : ∀ old, (first.run events).desk.requests[id]? = some old →
      old.isAbandoned = true → .desk (.abandon id) ∈ events ++ [event] := fun old hfound hbefore =>
    List.mem_append_left _ (h.abandoned id old hfound hbefore)
  rcases get_step h.orderly hr with ⟨old, hfound, rfl | rfl⟩ | ⟨-, -, hnew⟩ |
    ⟨deskEvent, old, rfl, hfound, hmoves⟩
  · exact hold r hfound habandoned
  · rw [isAbandoned_stopped] at habandoned
    exact hold old hfound habandoned
  · rw [hnew] at habandoned
    cases habandoned
  · cases hmoves with
    | gives => simp
    | _ => exact hold old hfound habandoned

theorem get_returnLint {b : Bench} {m n : Nat} {result : LintJob → Except Fault LintReport}
    {stage : LintStage} (h : (b.returnLint m result).lints[n]? = some stage) :
    b.lints[n]? = some stage ∨
      n = m ∧ ∃ job, b.lints[m]? = some (.running job) ∧ stage = .returned (result job) := by
  unfold returnLint at h
  split at h
  · next job hjob =>
    by_cases hm : m = n
    · subst hm
      have hlt : m < b.lints.length := (List.getElem?_eq_some_iff.mp hjob).1
      rw [List.getElem?_set_self hlt, Option.some.injEq] at h
      exact Or.inr ⟨rfl, job, hjob, h.symm⟩
    · rw [List.getElem?_set_ne hm] at h
      exact Or.inl h
  · exact Or.inl h

/-- A lint request after a step is as it was, or has begun in it, or has returned in it. -/
theorem get_lint_step {b : Bench} {event : BenchEvent} {n : Nat} {stage : LintStage}
    (h : (b.step event).lints[n]? = some stage) :
    b.lints[n]? = some stage ∨
    (b.lints[n]? = none ∧ ∃ name document, event = .lint name ∧ n = b.lints.length ∧
      b.desk.documents.lookup name = some document ∧
      stage = (b.desk.formatter.beginLint b.desk.host document).value.1) ∨
    ∃ job, b.lints[n]? = some (.running job) ∧
      (stage = .returned (Formatter.finishLint job).value ∨
        event = .lintStops n ∧ stage = .returned (.error .cancelled)) := by
  cases event with
  | desk event => exact Or.inl h
  | change host => exact Or.inl h
  | lint name =>
    simp only [step, lint] at h
    split at h
    · exact Or.inl h
    · next document hname =>
      rcases Nat.lt_or_ge n b.lints.length with hlt | hge
      · rw [List.getElem?_append_left hlt] at h
        exact Or.inl h
      · rw [List.getElem?_append_right hge, List.getElem?_singleton] at h
        split at h <;> cases h
        exact Or.inr (Or.inl ⟨List.getElem?_eq_none hge, name, document, rfl, by omega, hname, rfl⟩)
  | lintEnds m =>
    rcases get_returnLint h with hold | ⟨rfl, job, hjob, rfl⟩
    · exact Or.inl hold
    · exact Or.inr (Or.inr ⟨job, hjob, Or.inl rfl⟩)
  | lintStops m =>
    rcases get_returnLint h with hold | ⟨rfl, job, hjob, rfl⟩
    · exact Or.inl hold
    · exact Or.inr (Or.inr ⟨job, hjob, Or.inr ⟨rfl, rfl⟩⟩)

/-- A lint request that returns in a step goes by its job. -/
theorem LintGoesOn.returns {events : List BenchEvent} {event : BenchEvent} {n : Nat} {job : LintJob}
    {stage : LintStage} (h : stage = .returned (Formatter.finishLint job).value ∨
      event = .lintStops n ∧ stage = .returned (.error .cancelled)) :
    LintGoesOn (events ++ [event]) n job stage := by
  rcases h with hends | ⟨rfl, hstops⟩
  · exact Or.inr (Or.inl hends)
  · exact Or.inr (Or.inr ⟨by simp, hstops⟩)

/-- A lint request that waits for its engine has begun to do so. -/
theorem LintBy.running {n : Nat} {job : LintJob}
    (h : first.LintBy edition events n (.running job)) :
    first.LintBeginsAs edition events n (.running job) := by
  rcases h with hbegins | ⟨other, hbegins, hsame | hends | ⟨-, hstops⟩⟩
  · exact hbegins
  · rwa [hsame]
  · cases hends
  · cases hstops

theorem Settled.lint_step (h : first.Settled edition events) {event : BenchEvent} {n : Nat}
    {stage : LintStage} (hstage : ((first.run events).step event).lints[n]? = some stage) :
    first.LintBy edition (events ++ [event]) n stage := by
  rcases get_lint_step hstage with hold | ⟨-, name, document, rfl, rfl, hname, rfl⟩ |
    ⟨job, hjob, hreturns⟩
  · exact (h.lints n stage hold).concat
  · exact Or.inl (h.lintBegins hname)
  · exact Or.inr ⟨job, (h.lints n _ hjob).running.concat, .returns hreturns⟩

theorem Settled.step (h : first.Settled edition events) (event : BenchEvent) :
    first.Settled edition (events ++ [event]) := by
  constructor <;> rw [run_concat]
  · exact orderly_step h.orderly event
  · exact h.current_step event
  · exact fun id r hr => h.abandoned_step hr
  · exact fun id r hr => h.stage_step hr
  · exact fun n stage hstage => h.lint_step hstage

end Step

theorem settled_run (host : Host) (edition : Edition) (workspace : Option Path)
    (documents : List (String × Document)) (events : List BenchEvent) :
    (start host edition workspace documents).Settled edition events := by
  induction events using List.reverseRecOn with
  | nil =>
    constructor
    · exact Desk.orderly_ofFormatter host _ documents
    · exact Formatter.isCurrent_refresh _ (.ofSettings edition workspace) edition
    all_goals
      intro n entry hentry
      cases hentry
  | append_singleton events event ih => exact ih.step event

/-- How a format request with a job comes to its result in the course of more events. -/
inductive EndsBy (b : Bench) (more : List BenchEvent) (id : Nat) (job : Job) (isStopped : Bool) :
    Except Fault Outcome → Prop
  | givesWay (hstopped : isStopped = true) : EndsBy b more id job isStopped (.ok .superseded)
  | givenUp (hwhy : isStopped = true ∨ .desk (.abandon id) ∈ more) :
      EndsBy b more id job isStopped (.error .cancelled)
  | finishes {result : Except Fault Outcome} (hfinishes : b.FinishesAs more id job result) :
      EndsBy b more id job isStopped result

/-- What becomes of a format request with a job in the course of more events. -/
def GoesOn (b : Bench) (more : List BenchEvent) (id : Nat) (job : Job) (isStopped : Bool) :
    Stage → Prop
  | .issued => False
  | .running other => other = job
  | .ended other => other = job
  | .settled result => b.EndsBy more id job isStopped result
  | .returned result => b.EndsBy more id job isStopped result

section Later

variable {b : Bench} {more : List BenchEvent} {event : BenchEvent} {id n : Nat} {job : Job}

theorem EndsBy.concat {isStopped isStopped' : Bool} {result : Except Fault Outcome}
    (h : b.EndsBy more id job isStopped result) (hstopped : isStopped = true → isStopped' = true) :
    b.EndsBy (more ++ [event]) id job isStopped' result := by
  cases h with
  | givesWay hbefore => exact .givesWay (hstopped hbefore)
  | givenUp hwhy => exact .givenUp (hwhy.imp hstopped (List.mem_append_left _))
  | finishes hfinishes => exact .finishes hfinishes.concat

theorem GoesOn.concat {isStopped isStopped' : Bool} {stage : Stage}
    (h : b.GoesOn more id job isStopped stage) (hstopped : isStopped = true → isStopped' = true) :
    b.GoesOn (more ++ [event]) id job isStopped' stage := by
  cases stage with
  | issued | running other | ended other => exact h
  | settled result | returned result => exact EndsBy.concat h hstopped

theorem GoesOn.moves {event : DeskEvent} {r r' : Request}
    (h : b.GoesOn more id job r.isStopped r.stage)
    (hr : (b.run more).desk.requests[id]? = some r)
    (hmoves : (b.run more).desk.Moves id r event r') :
    b.GoesOn (more ++ [.desk event]) id job r'.isStopped r'.stage := by
  cases hmoves with
  | begins hturn hstage =>
    rw [hstage] at h
    cases h
  | finishes hturn hstage hdocument =>
    rw [hstage] at h
    cases h
    exact .finishes ⟨more, _, [], _, rfl, ⟨hturn, r, hr, hstage, hdocument⟩, rfl⟩
  | stops hturn hstopped hover =>
    show b.EndsBy _ id job r.isStopped r.stoppedResult
    unfold Request.stoppedResult
    split
    · exact .givenUp (Or.inl hstopped)
    · exact .givesWay hstopped
  | returns hturn hstage | ends hstage =>
    rw [hstage] at h
    exact GoesOn.concat h fun hstopped => hstopped
  | loses hstage => exact .givenUp (Or.inr (by simp))
  | gives =>
    show b.GoesOn _ id job (Desk.stopped r).isStopped (Desk.stopped r).stage
    rw [Desk.stage_stopped]
    exact h.concat isStopped_stopped

theorem orderly_run {b : Bench} (h : Desk.Orderly b.desk) (events : List BenchEvent) :
    Desk.Orderly (b.run events).desk := by
  induction events generalizing b with
  | nil => exact h
  | cons event events ih => exact ih (orderly_step h event)

/-- A format request stays on the desk. -/
theorem stays_step (h : Desk.Orderly b.desk) (event : BenchEvent) {r : Request}
    (hr : b.desk.requests[id]? = some r) :
    ∃ r', (b.step event).desk.requests[id]? = some r' := by
  cases event with
  | desk event =>
    obtain ⟨r', hr', -⟩ := h.step_keeps event hr
    exact ⟨r', hr'⟩
  | change host => exact ⟨r, hr⟩
  | lint name =>
    simp only [step, lint]
    split <;> exact ⟨r, hr⟩
  | lintEnds n | lintStops n =>
    simp only [step, returnLint]
    split <;> exact ⟨r, hr⟩

/-- A format request that has begun with a job goes by this job, whatever else happens. -/
theorem goesOn_run (h : Desk.Orderly b.desk) {r : Request} (hr : b.desk.requests[id]? = some r)
    (hjob : r.stage = .running job ∨ r.stage = .ended job) (more : List BenchEvent) :
    ∃ r', (b.run more).desk.requests[id]? = some r' ∧
      b.GoesOn more id job r'.isStopped r'.stage := by
  induction more using List.reverseRecOn with
  | nil =>
    refine ⟨r, hr, ?_⟩
    rcases hjob with hstage | hstage <;> rw [hstage] <;> rfl
  | append_singleton more event ih =>
    obtain ⟨old, hold, hgoes⟩ := ih
    rw [run_concat]
    have horderly := orderly_run h more
    obtain ⟨r', hr'⟩ := stays_step horderly event hold
    refine ⟨r', hr', ?_⟩
    rcases get_step horderly hr' with ⟨found, hfound, hsame⟩ | ⟨hnone, -⟩ |
      ⟨deskEvent, found, rfl, hfound, hmoves⟩
    · cases hold.symm.trans hfound
      rcases hsame with rfl | rfl
      · exact hgoes.concat fun hstopped => hstopped
      · rw [Desk.stage_stopped]
        exact hgoes.concat isStopped_stopped
    · cases hnone.symm.trans hold
    · cases hold.symm.trans hfound
      exact hgoes.moves hfound hmoves

/-- A lint request stays on the bench. -/
theorem lint_stays_step {stage : LintStage} (h : b.lints[n]? = some stage) (event : BenchEvent) :
    ∃ stage', (b.step event).lints[n]? = some stage' := by
  have hlt : n < b.lints.length := (List.getElem?_eq_some_iff.mp h).1
  have hlonger : b.lints.length ≤ (b.step event).lints.length := by
    cases event with
    | desk event | change host => exact Nat.le_refl _
    | lint name =>
      simp only [step, lint]
      split <;> simp
    | lintEnds m | lintStops m =>
      simp only [step, returnLint]
      split <;> simp
  exact ⟨_, List.getElem?_eq_getElem (Nat.lt_of_lt_of_le hlt hlonger)⟩

/-- A lint request that has begun with a job goes by this job, whatever else happens. -/
theorem lint_goesOn_run {job : LintJob} (h : b.lints[n]? = some (.running job))
    (more : List BenchEvent) :
    ∃ stage, (b.run more).lints[n]? = some stage ∧ LintGoesOn more n job stage := by
  induction more using List.reverseRecOn with
  | nil => exact ⟨.running job, h, Or.inl rfl⟩
  | append_singleton more event ih =>
    obtain ⟨old, hold, hgoes⟩ := ih
    rw [run_concat]
    obtain ⟨stage, hstage⟩ := lint_stays_step hold event
    refine ⟨stage, hstage, ?_⟩
    rcases get_lint_step hstage with hsame | ⟨hnone, -⟩ | ⟨found, hfound, hreturns⟩
    · cases hold.symm.trans hsame
      exact hgoes.concat
    · cases hnone.symm.trans hold
    · cases hold.symm.trans hfound
      rcases hgoes with hsame | hends | ⟨-, hstops⟩
      · cases hsame
        exact .returns hreturns
      · cases hends
      · cases hstops

/-- A format request that has a result returns with it, or its caller gives up. -/
theorem result_run (h : Desk.Orderly b.desk) {r : Request} (hr : b.desk.requests[id]? = some r)
    {result : Except Fault Outcome} (hresult : r.stage.result? = some result)
    (more : List BenchEvent) :
    ∃ r', (b.run more).desk.requests[id]? = some r' ∧
      (r'.stage.result? = some result ∨ r'.stage.result? = some (.error .cancelled)) := by
  induction more using List.reverseRecOn with
  | nil => exact ⟨r, hr, Or.inl hresult⟩
  | append_singleton more event ih =>
    obtain ⟨old, hold, hbefore⟩ := ih
    rw [run_concat]
    have horderly := orderly_run h more
    obtain ⟨r', hr'⟩ := stays_step horderly event hold
    refine ⟨r', hr', ?_⟩
    rcases get_step horderly hr' with ⟨found, hfound, hsame⟩ | ⟨hnone, -⟩ |
      ⟨deskEvent, found, rfl, hfound, hmoves⟩
    · cases hold.symm.trans hfound
      rcases hsame with rfl | rfl
      · exact hbefore
      · rwa [Desk.stage_stopped]
    · cases hnone.symm.trans hold
    · cases hold.symm.trans hfound
      rcases hbefore with hsame | hcancelled
      · exact hmoves.result? hsame
      · exact Or.inr (or_self_iff.1 (hmoves.result? hcancelled))

/-- A lint request that has returned stays so. -/
theorem lint_returned_run {result : Except Fault LintReport}
    (h : b.lints[n]? = some (.returned result)) (more : List BenchEvent) :
    (b.run more).lints[n]? = some (.returned result) := by
  induction more using List.reverseRecOn with
  | nil => exact h
  | append_singleton more event ih =>
    rw [run_concat]
    obtain ⟨stage, hstage⟩ := lint_stays_step ih event
    rcases get_lint_step hstage with hsame | ⟨hnone, -⟩ | ⟨job, hjob, -⟩
    · rw [hstage, ← hsame, ih]
    · cases hnone.symm.trans ih
    · cases hjob.symm.trans ih

end Later

/-- A refresh changes nothing but the formatter, as long as no request begins. -/
theorem run_refresh {b : Bench} {events : List BenchEvent} (hquiet : b.Quiet events)
    (later : Edition) : ∃ formatter,
      (b.step (.desk (.refresh later))).run events = (b.run events).withFormatter formatter :=
  run_withFormatter hquiet (b.desk.formatter.refresh later)

/-- Whatever happens on a bench, and in which order: a format request that has begun did so by the
settings of that moment and what was found under them since they were taken over, and comes to its
result at once, or by what it took along then, or gives way, or is given up; so does a lint request.
One whose engine runs goes by what it took along whatever else happens, refreshes too; and up to the
next beginning a refresh changes nothing but the formatter. -/
theorem one_snapshot_each (host : Host) (edition : Edition) (workspace : Option Path)
    (documents : List (String × Document)) (events : List BenchEvent) :
    let first := start host edition workspace documents
    let b := first.run events
    ((∀ (id : Nat) (r : Request), b.desk.requests[id]? = some r →
        first.StageBy edition events id r.isStopped r.stage) ∧
      ∀ (n : Nat) (stage : LintStage), b.lints[n]? = some stage →
        first.LintBy edition events n stage) ∧
    (∀ more : List BenchEvent,
      (∀ (id : Nat) (r : Request) (job : Job), b.desk.requests[id]? = some r →
        r.stage = .running job ∨ r.stage = .ended job →
        ∃ r', (b.run more).desk.requests[id]? = some r' ∧
          b.GoesOn more id job r'.isStopped r'.stage) ∧
      ∀ (n : Nat) (job : LintJob), b.lints[n]? = some (.running job) →
        ∃ stage, (b.run more).lints[n]? = some stage ∧ LintGoesOn more n job stage) ∧
    ∀ (later : Edition) (more : List BenchEvent), b.Quiet more →
      ∃ formatter, (b.step (.desk (.refresh later))).run more =
        (b.run more).withFormatter formatter := by
  intro first b
  have hsettled : first.Settled edition events := settled_run host edition workspace documents events
  refine ⟨⟨hsettled.requests, hsettled.lints⟩, fun more => ⟨?_, ?_⟩, fun later more => ?_⟩
  · exact fun id r job hr hjob => goesOn_run hsettled.orderly hr hjob more
  · exact fun n job hjob => lint_goesOn_run hjob more
  · exact fun hquiet => run_refresh hquiet later

end MarkupTidy.Bench
