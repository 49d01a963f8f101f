import MarkupTidy.Proofs.Formatter.Supersession

/-!
Who reads and who writes documents at the desk, step after step. A run is followed with the list of
its reads and writes, in order: one that was given up is never among the writes, and no older
request writes behind a newer one of the same document.
-/
namespace MarkupTidy.Desk

/-- What a request does with the text of its document. -/
inductive Action
  | reads (request : Nat)
  | writes (request : Nat)
  deriving DecidableEq

/-- What a turn does with the text of the document: a request reads it when it begins, and gives
it another one when it finishes with a run that is applied. -/
def Turn.action? (id : Nat) : Turn → Option Action
  | .begins _ => some (.reads id)
  | .finishes _ job => (Formatter.applied? job).map fun _ => .writes id
  | _ => none

/-- What a step does with the text of a document for a request. -/
def action? (desk : Desk) : DeskEvent → Option Action
  | .resume useResult =>
    match desk.due with
    | [] => none
    | id :: _ =>
      match desk.requests[id]? with
      | some r => (desk.turn useResult r).action? id
      | none => none
  | _ => none

/-- The reads and writes of a run. -/
def actions : Desk → List DeskEvent → List Action
  | _, [] => []
  | desk, event :: events => (desk.action? event).toList ++ (desk.step event).actions events

theorem action?_eq_some {desk : Desk} {event : DeskEvent} {action : Action}
    (h : desk.action? event = some action) :
    ∃ useResult id rest r, event = .resume useResult ∧ desk.due = id :: rest ∧
      desk.requests[id]? = some r ∧ (desk.turn useResult r).action? id = some action := by
  cases event with
  | resume useResult =>
    cases hdue : desk.due with
    | nil => simp [action?, hdue] at h
    | cons id rest =>
      cases hfound : desk.requests[id]? with
      | none => simp [action?, hdue, hfound] at h
      | some r =>
        simp only [action?, hdue, hfound] at h
        exact ⟨useResult, id, rest, r, rfl, rfl, hfound, h⟩
  | _ => simp [action?] at h

theorem Turn.action?_eq_reads {turn : Turn} {id j : Nat}
    (h : turn.action? id = some (.reads j)) : j = id ∧ ∃ document, turn = .begins document := by
  cases turn with
  | begins document =>
    cases h
    exact ⟨rfl, document, rfl⟩
  | finishes document job => cases hrun : Formatter.applied? job <;> simp [action?, hrun] at h
  | _ => simp [action?] at h

theorem Turn.action?_eq_writes {turn : Turn} {id i : Nat}
    (h : turn.action? id = some (.writes i)) :
    i = id ∧ ∃ document job, turn = .finishes document job := by
  cases turn with
  | finishes document job =>
    cases hrun : Formatter.applied? job with
    | none => simp [action?, hrun] at h
    | some execution =>
      simp only [action?, hrun, Option.map_some, Option.some.injEq, Action.writes.injEq] at h
      exact ⟨h.symm, document, job, rfl⟩
  | _ => simp [action?] at h

/-- A step for the request at the head of the queue. -/
theorem step_resume {desk : Desk} {useResult : Bool} {id : Nat} {rest : List Nat} {r : Request}
    (hdue : desk.due = id :: rest) (hfound : desk.requests[id]? = some r) :
    desk.step (.resume useResult) =
      match desk.turn useResult r with
      | .begins document => { desk with due := rest }.beginWork id document
      | .finishes document job => { desk with due := rest }.finishWork id r.document document job
      | .stops => { desk with due := rest }.settle id r.stoppedResult
      | .returns result => { desk with due := rest }.returnResult id r result
      | .waits => { desk with due := rest } := by
  show desk.resume useResult = _
  unfold resume
  simp only [hdue, hfound, resumeRequest_eq]
  rfl

/-- A turn that uses a document uses the one of the request. -/
theorem turn_finishes {desk : Desk} {useResult : Bool} {r : Request} {document : Document}
    {job : Job} (h : desk.turn useResult r = .finishes document job) :
    r.stage = .ended job ∧ desk.documents.lookup r.document = some document := by
  unfold turn at h
  generalize desk.documents.lookup r.document = found at h ⊢
  cases hstage : r.stage <;> cases hstopped : r.isStopped <;> cases found <;>
    cases useResult <;> simp_all

/-- Two requests for one document. -/
def SameKey (desk : Desk) (i j : Nat) : Prop :=
  ∃ r r', desk.requests[i]? = some r ∧ desk.requests[j]? = some r' ∧ r.key = r'.key

/-- What a step keeps of a request. -/
structure Keeps (r r' : Request) : Prop where
  key : r'.key = r.key
  issued : r'.stage = .issued → r.stage = .issued
  ended : r.stage.isOver → r'.stage.isOver ∧ (r'.stage.IsSuperseded → r.stage.IsSuperseded)

theorem Keeps.refl (r : Request) : Keeps r r := ⟨rfl, id, fun h => ⟨h, id⟩⟩

theorem Advances.keeps {desk desk' : Desk} {id : Nat} {r r' : Request}
    (h : Advances desk desk' id r r') {i : Nat} {old : Request}
    (hold : desk.requests[i]? = some old) :
    ∃ new, desk'.requests[i]? = some new ∧ Keeps old new := by
  by_cases hid : i = id
  · subst hid
    rw [h.found] at hold
    cases hold
    exact ⟨r', h.get_self, h.key, h.issued, h.ended⟩
  · exact ⟨old, by rw [h.get_other hid, hold], Keeps.refl old⟩

theorem Orderly.issue_keeps {desk : Desk} (h : Orderly desk) (name : String) {i : Nat}
    {old : Request} (hold : desk.requests[i]? = some old) :
    ∃ new, (desk.issue name).requests[i]? = some new ∧ Keeps old new := by
  rw [issue_eq]
  cases desk.documents.lookup name with
  | none => exact ⟨old, hold, Keeps.refl old⟩
  | some document =>
    rcases h.cleared_cases (keyOf name document) with ⟨-, hsame⟩ | ⟨id, told, -, -, ha⟩
    · simp only [hsame]
      exact ⟨old, get_enter hold, Keeps.refl old⟩
    · obtain ⟨new, hnew, hkeeps⟩ := ha.keeps hold
      exact ⟨new, get_enter hnew, hkeeps⟩

theorem Orderly.step_keeps {desk : Desk} (h : Orderly desk) (event : DeskEvent) {i : Nat}
    {old : Request} (hold : desk.requests[i]? = some old) :
    ∃ new, (desk.step event).requests[i]? = some new ∧ Keeps old new := by
  rcases h.step_cases event with hrests | ⟨id, r, r', ha, -⟩ | ⟨name, rfl⟩
  · exact ⟨old, by rw [hrests.requests, hold], Keeps.refl old⟩
  · exact ha.keeps hold
  · exact h.issue_keeps name hold

/-- What holds of the reads and writes so far. -/
structure History (desk : Desk) (past : List Action) : Prop where
  reads : ∀ id, .reads id ∈ past → ∃ r, desk.requests[id]? = some r ∧ r.stage ≠ .issued
  writes : ∀ id, .writes id ∈ past →
    ∃ r, desk.requests[id]? = some r ∧ r.stage.isOver ∧ ¬ r.stage.IsSuperseded
  order : past.Pairwise fun first second =>
    ∀ i j, first = .reads j → second = .writes i → i < j → ¬ desk.SameKey i j

/-- Requests that had been issued before a step have one key only if they had one then. -/
theorem Orderly.sameKey_before {desk : Desk} (h : Orderly desk) (event : DeskEvent) {i j : Nat}
    {r r' : Request} (hr : desk.requests[i]? = some r) (hr' : desk.requests[j]? = some r')
    (hsame : (desk.step event).SameKey i j) : r.key = r'.key := by
  obtain ⟨first, second, hfirst, hsecond, hkey⟩ := hsame
  obtain ⟨first', hfirst', hkeeps⟩ := h.step_keeps event hr
  obtain ⟨second', hsecond', hkeeps'⟩ := h.step_keeps event hr'
  rw [hfirst] at hfirst'
  rw [hsecond] at hsecond'
  cases hfirst'
  cases hsecond'
  rw [← hkeeps.key, hkey, hkeeps'.key]

/-- Whatever a step does, it does not change what holds of the reads and writes before it. -/
theorem History.step {desk : Desk} {past : List Action} (h : History desk past)
    (ho : Orderly desk) (event : DeskEvent) : History (desk.step event) past := by
  refine ⟨?_, ?_, ?_⟩
  · intro id hid
    obtain ⟨r, hr, hbegun⟩ := h.reads id hid
    obtain ⟨r', hr', hkeeps⟩ := ho.step_keeps event hr
    exact ⟨r', hr', fun hissued => hbegun (hkeeps.issued hissued)⟩
  · intro id hid
    obtain ⟨r, hr, hover, hplace⟩ := h.writes id hid
    obtain ⟨r', hr', hkeeps⟩ := ho.step_keeps event hr
    exact ⟨r', hr', (hkeeps.ended hover).1, fun hway => hplace ((hkeeps.ended hover).2 hway)⟩
  · refine h.order.imp_of_mem ?_
    rintro first second hfirst hsecond horder i j rfl rfl hij hsame
    obtain ⟨r, hr, -⟩ := h.writes i hsecond
    obtain ⟨r', hr', -⟩ := h.reads j hfirst
    exact horder i j rfl rfl hij ⟨r, r', hr, hr', ho.sameKey_before event hr hr' hsame⟩

theorem get_setStage {desk : Desk} {id : Nat} {r : Request} (h : desk.requests[id]? = some r)
    (stage : Stage) : (desk.setStage id stage).requests[id]? = some { r with stage } := by
  simp [setStage, updateRequest, h]

/-- A request that has begun is no longer about to. -/
theorem get_beginWork {desk : Desk} {id : Nat} {r : Request} (h : desk.requests[id]? = some r)
    (document : Document) :
    ∃ r', (desk.beginWork id document).requests[id]? = some r' ∧ r'.stage ≠ .issued := by
  unfold beginWork
  generalize (desk.formatter.beginRequest desk.host document).value = begun
  obtain ⟨begun, formatter⟩ := begun
  cases begun with
  | settled outcome => exact ⟨_, get_setStage h (.settled (.ok outcome)), by simp⟩
  | raised fault => exact ⟨_, get_setStage h (.settled (.error fault)), by simp⟩
  | running job => exact ⟨_, get_setStage h (.running job), by simp⟩

/-- A request that has finished was not given up. -/
theorem get_finishWork {desk : Desk} {id : Nat} {r : Request} (h : desk.requests[id]? = some r)
    (name : String) (document : Document) (job : Job) :
    ∃ r', (desk.finishWork id name document job).requests[id]? = some r' ∧ r'.stage.isOver ∧
      ¬ r'.stage.IsSuperseded := by
  have hplace := Formatter.staysInPlace_finishRequest desk.host job document
  refine ⟨_, get_setStage h (.settled _), rfl, ?_⟩
  rintro ⟨outcome, hresult, hstatus⟩
  simp only [Stage.result?, Option.some.injEq] at hresult
  exact hplace outcome hresult hstatus

theorem get_step_reads {desk : Desk} {event : DeskEvent} {j : Nat}
    (h : desk.action? event = some (.reads j)) :
    ∃ r, (desk.step event).requests[j]? = some r ∧ r.stage ≠ .issued := by
  obtain ⟨useResult, id, rest, r, rfl, hdue, hfound, hturn⟩ := action?_eq_some h
  obtain ⟨rfl, document, hbegins⟩ := Turn.action?_eq_reads hturn
  have htaken : ({ desk with due := rest } : Desk).requests[j]? = some r := hfound
  rw [step_resume hdue hfound, hbegins]
  exact get_beginWork htaken document

/-- A request writes when it has yet to take what its engine gave, and is over afterwards. -/
theorem get_step_writes {desk : Desk} {event : DeskEvent} {i : Nat}
    (h : desk.action? event = some (.writes i)) :
    (∃ r job, desk.requests[i]? = some r ∧ r.stage = .ended job) ∧
    ∃ r, (desk.step event).requests[i]? = some r ∧ r.stage.isOver ∧ ¬ r.stage.IsSuperseded := by
  obtain ⟨useResult, id, rest, r, rfl, hdue, hfound, hturn⟩ := action?_eq_some h
  obtain ⟨rfl, document, job, hfinishes⟩ := Turn.action?_eq_writes hturn
  refine ⟨⟨r, job, hfound, (turn_finishes hfinishes).1⟩, ?_⟩
  have htaken : ({ desk with due := rest } : Desk).requests[i]? = some r := hfound
  rw [step_resume hdue hfound, hfinishes]
  exact get_finishWork htaken r.document document job

theorem History.reads_step {desk : Desk} {past : List Action} (h : History desk past)
    (ho : Orderly desk) {event : DeskEvent} {j : Nat}
    (haction : desk.action? event = some (.reads j)) :
    History (desk.step event) (past ++ [.reads j]) := by
  obtain ⟨reads, writes, order⟩ := h.step ho event
  refine ⟨?_, ?_, ?_⟩
  · intro id hid
    rcases List.mem_append.mp hid with hpast | hnow
    · exact reads id hpast
    · cases List.mem_singleton.mp hnow
      exact get_step_reads haction
  · intro id hid
    rcases List.mem_append.mp hid with hpast | hnow
    · exact writes id hpast
    · cases List.mem_singleton.mp hnow
  · rw [List.pairwise_append]
    refine ⟨order, List.pairwise_singleton _ _, ?_⟩
    intro first _ second hsecond i k _ hwrites
    rw [List.mem_singleton.mp hsecond] at hwrites
    cases hwrites

/-- A request that writes was not overtaken by one that has read. -/
theorem History.writes_step {desk : Desk} {past : List Action} (h : History desk past)
    (ho : Orderly desk) {event : DeskEvent} {i : Nat}
    (haction : desk.action? event = some (.writes i)) :
    History (desk.step event) (past ++ [.writes i]) := by
  obtain ⟨reads, writes, order⟩ := h.step ho event
  obtain ⟨⟨r, job, hr, hended⟩, hover⟩ := get_step_writes haction
  refine ⟨?_, ?_, ?_⟩
  · intro id hid
    rcases List.mem_append.mp hid with hpast | hnow
    · exact reads id hpast
    · cases List.mem_singleton.mp hnow
  · intro id hid
    rcases List.mem_append.mp hid with hpast | hnow
    · exact writes id hpast
    · cases List.mem_singleton.mp hnow
      exact hover
  · rw [List.pairwise_append]
    refine ⟨order, List.pairwise_singleton _ _, ?_⟩
    intro first hfirst second hsecond i' j hreads hwrites hij hsame
    rw [List.mem_singleton.mp hsecond] at hwrites
    cases hwrites
    rw [hreads] at hfirst
    obtain ⟨r', hr', hbegun⟩ := h.reads j hfirst
    have hkey := ho.sameKey_before event hr hr' hsame
    rcases ho.overtaken i j r r' hij hr hr' hkey with hdone | ⟨-, hissued, -⟩
    · rw [hended] at hdone
      cases hdone
    · exact hbegun hissued

theorem History.step_action {desk : Desk} {past : List Action} (h : History desk past)
    (ho : Orderly desk) (event : DeskEvent) :
    History (desk.step event) (past ++ (desk.action? event).toList) := by
  cases haction : desk.action? event with
  | none => simpa using h.step ho event
  | some action =>
    cases action with
    | reads j => exact h.reads_step ho haction
    | writes i => exact h.writes_step ho haction

theorem orderly_run {desk : Desk} (h : Orderly desk) (events : List DeskEvent) :
    Orderly (desk.run events) := by
  induction events generalizing desk with
  | nil => exact h
  | cons event events ih => exact ih (h.step event)

theorem succeeded_run {desk : Desk} (h : Succeeded desk) (ho : Orderly desk)
    (events : List DeskEvent) : Succeeded (desk.run events) := by
  induction events generalizing desk with
  | nil => exact h
  | cons event events ih => exact ih (h.step ho event) (ho.step event)

theorem history_run {desk : Desk} {past : List Action} (h : History desk past)
    (ho : Orderly desk) (events : List DeskEvent) :
    History (desk.run events) (past ++ desk.actions events) := by
  induction events generalizing desk past with
  | nil => simpa [actions, run] using h
  | cons event events ih =>
    rw [actions, ← List.append_assoc]
    exact ih (h.step_action ho event) (ho.step event)

/-- Beginning a request changes neither the host nor a document. -/
theorem beginWork_untouched (desk : Desk) (id : Nat) (document : Document) :
    (desk.beginWork id document).host = desk.host ∧
      (desk.beginWork id document).documents = desk.documents := by
  unfold beginWork
  generalize (desk.formatter.beginRequest desk.host document).value = begun
  obtain ⟨begun, formatter⟩ := begun
  cases begun <;> exact ⟨rfl, rfl⟩

/-- Finishing a request without applying a run changes neither the host nor a document. -/
theorem finishWork_untouched {desk : Desk} {name : String} {document : Document} {job : Job}
    (id : Nat) (hdocument : desk.documents.lookup name = some document)
    (happlied : Formatter.applied? job = none) :
    (desk.finishWork id name document job).host = desk.host ∧
      (desk.finishWork id name document job).documents = desk.documents := by
  have hchanged : (Formatter.finishRequest desk.host job document).value.2 =
      ⟨desk.host, document⟩ := by
    rw [Formatter.changed_finishRequest, Formatter.changedBy, happlied]
  unfold finishWork
  revert hchanged
  generalize (Formatter.finishRequest desk.host job document).value = finished
  intro hchanged
  obtain ⟨result, changed⟩ := finished
  cases hchanged
  exact ⟨rfl, Pairs.set_of_lookup hdocument⟩

theorem stop_untouched (desk : Desk) (id : Nat) :
    (desk.stop id).host = desk.host ∧ (desk.stop id).documents = desk.documents := by
  refine ⟨?_, documents_stop desk id⟩
  unfold stop
  split
  · rfl
  · split
    · rfl
    · simp only
      split <;> rfl

theorem issue_untouched (desk : Desk) (name : String) :
    (desk.issue name).host = desk.host ∧ (desk.issue name).documents = desk.documents := by
  rw [issue_eq]
  cases desk.documents.lookup name with
  | none => exact ⟨rfl, rfl⟩
  | some document =>
    have hcleared : (desk.cleared (keyOf name document)).host = desk.host := by
      unfold cleared
      split
      · exact (stop_untouched desk _).1
      · rfl
    exact ⟨hcleared, documents_cleared desk _⟩

/-- A step that is neither a write nor an edit changes neither the host nor a document. -/
theorem step_untouched (desk : Desk) (event : DeskEvent)
    (hwrites : ∀ id, desk.action? event ≠ some (.writes id))
    (hedit : ∀ name text, event ≠ .edit name text) :
    (desk.step event).host = desk.host ∧ (desk.step event).documents = desk.documents := by
  cases event with
  | issue name => exact issue_untouched desk name
  | resume useResult =>
    cases hdue : desk.due with
    | nil => simp only [step, resume, hdue, and_self]
    | cons id rest =>
      cases hfound : desk.requests[id]? with
      | none => simp only [step, resume, hdue, hfound, and_self]
      | some r =>
        rw [step_resume hdue hfound]
        cases hturn : desk.turn useResult r with
        | begins document => exact beginWork_untouched _ id document
        | finishes document job =>
          refine finishWork_untouched id (turn_finishes hturn).2 ?_
          cases happlied : Formatter.applied? job with
          | none => rfl
          | some execution =>
            have haction := hwrites id
            simp [action?, hdue, hfound, hturn, Turn.action?, happlied] at haction
        | _ => exact ⟨rfl, rfl⟩
  | engineEnds id =>
    simp only [step, engineEnds]
    split <;> exact ⟨rfl, rfl⟩
  | abandon id =>
    simp only [step, abandon]
    split
    · exact ⟨rfl, rfl⟩
    · exact stop_untouched desk id
    · exact ⟨rfl, rfl⟩
  | refresh edition => exact ⟨rfl, rfl⟩
  | edit name text => exact absurd rfl (hedit name text)

/-- Whatever happens at a desk, and in which order: a request that was given up never wrote, and
there is a newer one with its key; no request writes after a newer one with its key has read; and
but for edits nothing else touches the host or a document. -/
theorem newest_request_prevails (host : Host) (formatter : Formatter)
    (documents : List (String × Document)) (events : List DeskEvent) :
    let start := ofFormatter host formatter documents
    let desk := start.run events
    (∀ (id : Nat) (r : Request), desk.requests[id]? = some r → r.stage.IsSuperseded →
      .writes id ∉ start.actions events ∧
        ∃ (later : Nat) (r' : Request), id < later ∧ desk.requests[later]? = some r' ∧
          r'.key = r.key) ∧
    ((start.actions events).Pairwise fun first second =>
      ∀ i j, first = .reads j → second = .writes i → i < j → ¬ desk.SameKey i j) ∧
    ∀ before event after, events = before ++ event :: after →
      (∀ id, (start.run before).action? event ≠ some (.writes id)) →
      (∀ name text, event ≠ .edit name text) →
      (start.run (before ++ [event])).host = (start.run before).host ∧
        (start.run (before ++ [event])).documents = (start.run before).documents := by
  intro start desk
  have horderly : Orderly start := orderly_ofFormatter host formatter documents
  have hfirst : Succeeded start := by
    intro id r hr
    cases hr
  have hempty : History start [] := by
    refine ⟨?_, ?_, List.Pairwise.nil⟩
    · intro id hid
      cases hid
    · intro id hid
      cases hid
  have hhistory : History desk (start.actions events) := by
    simpa using history_run hempty horderly events
  refine ⟨?_, hhistory.order, ?_⟩
  · intro id r hr hway
    refine ⟨?_, succeeded_run hfirst horderly events id r hr (Or.inr hway)⟩
    intro hwrote
    obtain ⟨r', hr', -, hplace⟩ := hhistory.writes id hwrote
    rw [hr] at hr'
    cases hr'
    exact hplace hway
  · intro before event after _ hwrites hedit
    have hlast : start.run (before ++ [event]) = (start.run before).step event := by
      simp [run]
    rw [hlast]
    exact step_untouched _ event hwrites hedit

end MarkupTidy.Desk
