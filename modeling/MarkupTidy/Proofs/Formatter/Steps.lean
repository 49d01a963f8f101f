import MarkupTidy.Proofs.Formatter.Writes

/-!
What a step at the desk does to the one request that it moves. A request begins, takes what its
engine gave, stops, or returns when it is its turn; its engine ends, or its caller gives up, where
it stands. Only a request that returns leaves the table of those in flight.
-/
namespace MarkupTidy

/-- How far a request is that has begun. -/
def Begun.stage : Begun → Stage
  | .settled outcome => .settled (.ok outcome)
  | .raised fault => .settled (.error fault)
  | .running job => .running job

def Stage.isReturned : Stage → Bool
  | .returned _ => true
  | _ => false

theorem Stage.isOver_of_isReturned {stage : Stage} (h : stage.isReturned = true) :
    stage.isOver = true := by
  cases stage <;> first | rfl | cases h

theorem Begun.isReturned_stage (begun : Begun) : begun.stage.isReturned = false := by
  cases begun <;> rfl

namespace Desk

/-- What a step makes of request `id`, which is `r` before and `r'` after. -/
inductive Moves (desk : Desk) (id : Nat) (r : Request) : DeskEvent → Request → Prop
  | begins {useResult : Bool} {document : Document} (hturn : desk.due.head? = some id)
      (hstage : r.stage = .issued) (hstopped : r.isStopped = false)
      (hdocument : desk.documents.lookup r.document = some document) :
      Moves desk id r (.resume useResult)
        { r with stage := (desk.formatter.beginRequest desk.host document).value.1.stage }
  | finishes {useResult : Bool} {document : Document} {job : Job}
      (hturn : desk.due.head? = some id) (hstage : r.stage = .ended job)
      (hdocument : desk.documents.lookup r.document = some document) :
      Moves desk id r (.resume useResult)
        { r with stage := .settled (Formatter.finishRequest desk.host job document).value.1 }
  | stops {useResult : Bool} (hturn : desk.due.head? = some id) (hstopped : r.isStopped = true)
      (hover : r.stage.isOver = false) :
      Moves desk id r (.resume useResult) { r with stage := .settled r.stoppedResult }
  | returns {useResult : Bool} {result : Except Fault Outcome} (hturn : desk.due.head? = some id)
      (hstage : r.stage = .settled result) :
      Moves desk id r (.resume useResult) { r with stage := .returned result }
  | ends {job : Job} (hstage : r.stage = .running job) :
      Moves desk id r (.engineEnds id) { r with stage := .ended job }
  | loses {result : Except Fault Outcome} (hstage : r.stage = .settled result) :
      Moves desk id r (.abandon id) { r with stage := .settled (.error .cancelled) }
  | gives : Moves desk id r (.abandon id) { stopped r with isAbandoned := true }

/-- The table without the entry of a request. -/
def leave (inFlight : List (DocumentKey × Nat)) (key : DocumentKey) (id : Nat) :
    List (DocumentKey × Nat) :=
  inFlight.filter fun entry => !(entry.1 == key && entry.2 == id)

/-- The step moves request `id` and no other; only if it returns does it leave the table. -/
structure MovesOne (desk desk' : Desk) (event : DeskEvent) (id : Nat) (r r' : Request) : Prop where
  found : desk.requests[id]? = some r
  moves : Moves desk id r event r'
  requests : desk'.requests = desk.requests.set id r'
  inFlight : desk'.inFlight =
    if r'.stage.isReturned && !r.stage.isReturned then leave desk.inFlight r.key id
    else desk.inFlight

section Moves

variable {desk : Desk} {id : Nat} {r r' : Request} {event : DeskEvent}

theorem stage_stopped (r : Request) : (stopped r).stage = r.stage := by
  unfold stopped
  split <;> rfl

theorem key_stopped (r : Request) : (stopped r).key = r.key := by
  unfold stopped
  split <;> rfl

theorem Moves.key (h : Moves desk id r event r') : r'.key = r.key := by
  cases h with
  | gives => exact key_stopped r
  | _ => rfl

/-- A request that has returned stays so. -/
theorem Moves.isReturned (h : Moves desk id r event r') (hreturned : r.stage.isReturned = true) :
    r'.stage.isReturned = true := by
  cases h with
  | gives => rwa [show ({ stopped r with isAbandoned := true } : Request).stage = r.stage from
      stage_stopped r]
  | stops hturn hstopped hover =>
    rw [Stage.isOver_of_isReturned hreturned] at hover
    cases hover
  | begins hturn hstage | finishes hturn hstage | returns hturn hstage | ends hstage
  | loses hstage =>
    rw [hstage] at hreturned
    cases hreturned

/-- Only its caller tells a request to stop that moves. -/
theorem Moves.isStopped (h : Moves desk id r event r') :
    r'.isStopped = r.isStopped ∨ event = .abandon id := by
  cases h with
  | gives => exact Or.inr rfl
  | _ => exact Or.inl rfl

/-- A request that returns in a step has its turn in it. -/
theorem Moves.returns_turn (h : Moves desk id r event r') (hbefore : r.stage.isReturned = false)
    (hafter : r'.stage.isReturned = true) :
    (∃ useResult, event = .resume useResult) ∧ desk.due.head? = some id := by
  cases h with
  | returns hturn hstage => exact ⟨⟨_, rfl⟩, hturn⟩
  | begins hturn hstage hstopped hdocument =>
    rw [Begun.isReturned_stage] at hafter
    cases hafter
  | gives =>
    have hstage : ({ stopped r with isAbandoned := true } : Request).stage = r.stage :=
      stage_stopped r
    rw [hstage, hbefore] at hafter
    cases hafter
  | _ => cases hafter

/-- A result stays, unless the caller gives up before it is told. -/
theorem Moves.result? (h : Moves desk id r event r') {result : Except Fault Outcome}
    (hresult : r.stage.result? = some result) :
    r'.stage.result? = some result ∨ r'.stage.result? = some (.error .cancelled) := by
  cases h with
  | loses hstage => exact Or.inr rfl
  | returns hturn hstage =>
    rw [hstage] at hresult
    exact Or.inl hresult
  | gives =>
    refine Or.inl ?_
    show (stopped r).stage.result? = _
    rw [stage_stopped, hresult]
  | begins hturn hstage | finishes hturn hstage | ends hstage =>
    rw [hstage] at hresult
    cases hresult
  | stops hturn hstopped hover =>
    cases hstage : r.stage <;> rw [hstage] at hresult hover <;> cases hresult <;> cases hover

end Moves

/-- What a turn uses is what the request has. -/
theorem turn_spec (desk : Desk) (useResult : Bool) (r : Request) :
    match desk.turn useResult r with
    | .begins document => r.stage = .issued ∧ r.isStopped = false ∧
        desk.documents.lookup r.document = some document
    | .finishes document job => r.stage = .ended job ∧
        desk.documents.lookup r.document = some document
    | .stops => r.isStopped = true ∧ r.stage.isOver = false
    | .returns result => r.stage = .settled result
    | .waits => True := by
  unfold turn
  generalize desk.documents.lookup r.document = found
  cases hstage : r.stage <;> cases hstopped : r.isStopped <;> cases found <;> cases useResult <;>
    simp [Stage.isOver]

/-- The request at the head of the queue takes its turn. -/
theorem resume_turn {desk : Desk} {id : Nat} {rest : List Nat} {r : Request}
    (hdue : desk.due = id :: rest) (hfound : desk.requests[id]? = some r) (useResult : Bool) :
    desk.resume useResult =
      match desk.turn useResult r with
      | .begins document => { desk with due := rest }.beginWork id document
      | .finishes document job => { desk with due := rest }.finishWork id r.document document job
      | .stops => { desk with due := rest }.settle id r.stoppedResult
      | .returns result => { desk with due := rest }.returnResult id r result
      | .waits => { desk with due := rest } :=
  step_resume hdue hfound

theorem requests_setStage {desk : Desk} {id : Nat} {r : Request}
    (h : desk.requests[id]? = some r) (stage : Stage) :
    (desk.setStage id stage).requests = desk.requests.set id { r with stage } :=
  modify_eq_set h _

theorem beginWork_spec {desk : Desk} {id : Nat} {r : Request} (h : desk.requests[id]? = some r)
    (document : Document) :
    (desk.beginWork id document).requests = desk.requests.set id
        { r with stage := (desk.formatter.beginRequest desk.host document).value.1.stage } ∧
      (desk.beginWork id document).inFlight = desk.inFlight ∧
      (desk.beginWork id document).formatter =
        (desk.formatter.beginRequest desk.host document).value.2 := by
  unfold beginWork
  generalize (desk.formatter.beginRequest desk.host document).value = begun
  obtain ⟨begun, formatter⟩ := begun
  cases begun <;> exact ⟨requests_setStage h _, rfl, rfl⟩

theorem resume_moves (desk : Desk) (useResult : Bool) :
    (desk.resume useResult).requests = desk.requests ∧
        (desk.resume useResult).inFlight = desk.inFlight ∨
      ∃ id r r', MovesOne desk (desk.resume useResult) (.resume useResult) id r r' := by
  cases hdue : desk.due with
  | nil => simp [resume, hdue]
  | cons id rest =>
    cases hfound : desk.requests[id]? with
    | none => simp [resume, hdue, hfound]
    | some r =>
      have hturn : desk.due.head? = some id := by rw [hdue]; rfl
      have htaken : ({ desk with due := rest } : Desk).requests[id]? = some r := hfound
      have hspec := turn_spec desk useResult r
      rw [resume_turn hdue hfound]
      cases hwhich : desk.turn useResult r with
      | begins document =>
        rw [hwhich] at hspec
        obtain ⟨hstage, hstopped, hdocument⟩ := hspec
        obtain ⟨hrequests, hinFlight, -⟩ := beginWork_spec htaken document
        exact Or.inr ⟨id, r, _, hfound, .begins hturn hstage hstopped hdocument, hrequests, by
          rw [Begun.isReturned_stage]
          exact hinFlight⟩
      | finishes document job =>
        rw [hwhich] at hspec
        exact Or.inr ⟨id, r, _, hfound, .finishes hturn hspec.1 hspec.2,
          requests_setStage htaken _, rfl⟩
      | stops =>
        rw [hwhich] at hspec
        exact Or.inr ⟨id, r, _, hfound, .stops hturn hspec.1 hspec.2,
          requests_setStage htaken _, rfl⟩
      | returns result =>
        rw [hwhich] at hspec
        refine Or.inr ⟨id, r, _, hfound, .returns hturn hspec, requests_setStage htaken _, ?_⟩
        rw [hspec]
        rfl
      | waits => exact Or.inl ⟨rfl, rfl⟩

theorem engineEnds_moves (desk : Desk) (id : Nat) :
    (desk.engineEnds id).requests = desk.requests ∧
        (desk.engineEnds id).inFlight = desk.inFlight ∨
      ∃ r r', MovesOne desk (desk.engineEnds id) (.engineEnds id) id r r' := by
  unfold engineEnds
  split
  case h_1 hfound => exact Or.inr ⟨_, _, hfound, .ends rfl, requests_setStage hfound _, rfl⟩
  case h_2 => exact Or.inl ⟨rfl, rfl⟩

theorem inFlight_stop (desk : Desk) (id : Nat) : (desk.stop id).inFlight = desk.inFlight := by
  unfold stop
  split
  · rfl
  · split
    · rfl
    · simp only
      split <;> rfl

theorem abandon_moves (desk : Desk) (id : Nat) :
    (desk.abandon id).requests = desk.requests ∧ (desk.abandon id).inFlight = desk.inFlight ∨
      ∃ r r', MovesOne desk (desk.abandon id) (.abandon id) id r r' := by
  unfold abandon
  split
  case h_1 hfound => exact Or.inr ⟨_, _, hfound, .loses rfl, requests_setStage hfound _, rfl⟩
  case h_2 r _ hfound =>
    have hstop := (stop_advances hfound).requests
    have hthere : (desk.stop id).requests[id]? = some (stopped r) := (stop_advances hfound).get_self
    have hstage : ({ stopped r with isAbandoned := true } : Request).stage = r.stage :=
      stage_stopped r
    refine Or.inr ⟨r, _, hfound, .gives, ?_, ?_⟩
    · show ((desk.stop id).requests.modify id _) = _
      rw [modify_eq_set hthere, hstop, List.set_set]
    · rw [hstage, Bool.and_not_self]
      exact inFlight_stop desk id
  case h_3 => exact Or.inl ⟨rfl, rfl⟩

/-- A step issues a request, or leaves the requests and the table as they are, or moves one
request. -/
theorem step_moves (desk : Desk) (event : DeskEvent) :
    (∃ name, event = .issue name) ∨
    ((desk.step event).requests = desk.requests ∧ (desk.step event).inFlight = desk.inFlight) ∨
    ∃ id r r', MovesOne desk (desk.step event) event id r r' := by
  cases event with
  | issue name => exact Or.inl ⟨name, rfl⟩
  | resume useResult => exact Or.inr (resume_moves desk useResult)
  | engineEnds id => exact Or.inr ((engineEnds_moves desk id).imp_right fun h => ⟨id, h⟩)
  | abandon id => exact Or.inr ((abandon_moves desk id).imp_right fun h => ⟨id, h⟩)
  | refresh edition => exact Or.inr (Or.inl ⟨rfl, rfl⟩)
  | edit name text =>
    refine Or.inr (Or.inl ?_)
    simp only [step, edit]
    split <;> exact ⟨rfl, rfl⟩

section MovesOne

variable {desk desk' : Desk} {event : DeskEvent} {id : Nat} {r r' : Request}

theorem MovesOne.lt (h : MovesOne desk desk' event id r r') : id < desk.requests.length :=
  (List.getElem?_eq_some_iff.mp h.found).1

theorem MovesOne.get_self (h : MovesOne desk desk' event id r r') :
    desk'.requests[id]? = some r' := by
  rw [h.requests, List.getElem?_set_self h.lt]

theorem MovesOne.get_other (h : MovesOne desk desk' event id r r') {i : Nat} (hi : i ≠ id) :
    desk'.requests[i]? = desk.requests[i]? := by
  rw [h.requests, List.getElem?_set_ne (Ne.symm hi)]

/-- A request other than the one that moves is as it was. -/
theorem MovesOne.get_cases (h : MovesOne desk desk' event id r r') {i : Nat} {found : Request}
    (hi : desk'.requests[i]? = some found) :
    i = id ∧ found = r' ∨ i ≠ id ∧ desk.requests[i]? = some found := by
  by_cases hid : i = id
  · subst hid
    rw [h.get_self] at hi
    cases hi
    exact Or.inl ⟨rfl, rfl⟩
  · rw [h.get_other hid] at hi
    exact Or.inr ⟨hid, hi⟩

end MovesOne

/-- After a request was issued for a document, each of the others is as it was, or was told to stop
for having its key. -/
theorem Orderly.get_issue {desk : Desk} (h : Orderly desk) {name : String} {i : Nat}
    {r : Request} (hr : (desk.issue name).requests[i]? = some r) :
    (∃ old, desk.requests[i]? = some old ∧ (r = old ∨ r = stopped old ∧
      ∃ document, desk.documents.lookup name = some document ∧ keyOf name document = old.key)) ∨
    ∃ document, desk.documents.lookup name = some document ∧ i = desk.requests.length ∧
      r = ⟨name, keyOf name document, .issued, false, false⟩ := by
  rw [issue_eq] at hr
  cases hname : desk.documents.lookup name with
  | none =>
    rw [hname] at hr
    exact Or.inl ⟨r, hr, Or.inl rfl⟩
  | some document =>
    rw [hname] at hr
    rcases get_enter_cases hr with hcleared | ⟨hlast, rfl⟩
    · rcases h.cleared_cases (keyOf name document) with ⟨-, hsame⟩ | ⟨id, told, -, hkey, ha⟩
      · rw [hsame] at hcleared
        exact Or.inl ⟨r, hcleared, Or.inl rfl⟩
      · rcases ha.get_cases hcleared with ⟨rfl, rfl⟩ | ⟨-, hold⟩
        · exact Or.inl ⟨told, ha.found, Or.inr ⟨rfl, document, rfl, hkey.symm⟩⟩
        · exact Or.inl ⟨r, hold, Or.inl rfl⟩
    · rw [h.length_cleared] at hlast
      exact Or.inr ⟨document, rfl, hlast, rfl⟩

/-- A request after a step is as it was; or was told to stop for a new one with its key; or is the
one that moved; or is new. -/
theorem Orderly.get_step {desk : Desk} (h : Orderly desk) {event : DeskEvent} {i : Nat}
    {r' : Request} (hr' : (desk.step event).requests[i]? = some r') :
    (∃ r, desk.requests[i]? = some r ∧ (r' = r ∨
      (r' = stopped r ∧ ∃ name document, event = .issue name ∧
        desk.documents.lookup name = some document ∧ keyOf name document = r.key) ∨
      desk.Moves i r event r')) ∨
    i = desk.requests.length ∧ r'.stage = .issued ∧ r'.isAbandoned = false := by
  rcases step_moves desk event with ⟨name, rfl⟩ | ⟨hrequests, -⟩ | ⟨moved, found, found', hm⟩
  · rcases h.get_issue hr' with ⟨r, hr, hsame | ⟨htold, document, hname, hkey⟩⟩ |
      ⟨document, -, hlast, rfl⟩
    · exact Or.inl ⟨r, hr, Or.inl hsame⟩
    · exact Or.inl ⟨r, hr, Or.inr (Or.inl ⟨htold, name, document, rfl, hname, hkey⟩)⟩
    · exact Or.inr ⟨hlast, rfl, rfl⟩
  · rw [hrequests] at hr'
    exact Or.inl ⟨r', hr', Or.inl rfl⟩
  · rcases hm.get_cases hr' with ⟨rfl, rfl⟩ | ⟨-, hold⟩
    · exact Or.inl ⟨found, hm.found, Or.inr (Or.inr hm.moves)⟩
    · exact Or.inl ⟨r', hold, Or.inl rfl⟩

end Desk

end MarkupTidy
