import MarkupTidy.Formatter.Desk
import MarkupTidy.Proofs.Formatter.Request

/-!
What a step at the desk does to its requests. A step leaves the requests alone, passes over one
that has nothing to do, advances one to another stage, tells one to stop, or adds one; each is
described by how the queue of requests that are to resume changes with it.
-/
namespace MarkupTidy

/-- The result that a request has come to. -/
def Stage.result? : Stage → Option (Except Fault Outcome)
  | .settled result => some result
  | .returned result => some result
  | _ => none

/-- The request was given up for a newer one. -/
def Stage.IsSuperseded (stage : Stage) : Prop :=
  ∃ outcome, stage.result? = some (.ok outcome) ∧ outcome.status = .superseded

/-- The request has something to do when it resumes. -/
def Request.isDue (r : Request) : Bool :=
  match r.stage with
  | .issued => true
  | .running _ => r.isStopped
  | .ended _ => true
  | .settled _ => true
  | .returned _ => false

/-- The request has given way to a newer one, or was told to. -/
def Request.GivesWay (r : Request) : Prop :=
  r.isStopped = true ∧ r.isAbandoned = false ∨ r.stage.IsSuperseded

namespace Desk

/-- In the queue, `i` stands before every `j`. -/
def Before (i j : Nat) (due : List Nat) : Prop := ∀ pre post, due = pre ++ j :: post → i ∈ pre

theorem Before.head {i j : Nat} {rest : List Nat} (h : Before i j (j :: rest)) : False := by
  simpa using h [] rest rfl

theorem Before.tail {i j k : Nat} {rest : List Nat} (h : Before i j (k :: rest)) (hk : k ≠ i) :
    Before i j rest := by
  intro pre post heq
  have hmem := h (k :: pre) post (by rw [heq]; rfl)
  rcases List.mem_cons.mp hmem with rfl | hmem
  · exact absurd rfl hk
  · exact hmem

theorem Before.append {i j k : Nat} {due : List Nat} (h : Before i j due)
    (hk : k ≠ j ∨ i ∈ due) : Before i j (due ++ [k]) := by
  intro pre post heq
  rcases List.append_eq_append_iff.mp heq with ⟨middle, hpre, hpost⟩ | ⟨middle, hdue, hpost⟩
  · cases middle with
    | nil =>
      simp only [List.append_nil] at hpre
      simp only [List.nil_append, List.cons.injEq] at hpost
      rcases hk with hk | hmem
      · exact absurd hpost.1 hk
      · rwa [hpre]
    | cons first more => simp at hpost
  · cases middle with
    | nil =>
      simp only [List.nil_append, List.cons.injEq] at hpost
      simp only [List.append_nil] at hdue
      rcases hk with hk | hmem
      · exact absurd hpost.1.symm hk
      · rwa [← hdue]
    | cons first more =>
      simp only [List.cons_append, List.cons.injEq] at hpost
      obtain ⟨rfl, -⟩ := hpost
      exact h pre more hdue

theorem Before.fresh {i j : Nat} {due : List Nat} (hi : i ∈ due) (hj : j ∉ due) :
    Before i j (due ++ [j]) := by
  have hnone : Before i j due := by
    intro pre post heq
    exact absurd (by simp [heq]) hj
  exact hnone.append (Or.inr hi)

/-- Request `id` goes on: `r` becomes `r'`. Either the request was told something where it stands,
or it was its turn, and it left the head of the queue. -/
structure Advances (desk desk' : Desk) (id : Nat) (r r' : Request) : Prop where
  found : desk.requests[id]? = some r
  requests : desk'.requests = desk.requests.set id r'
  document : r'.document = r.document
  key : r'.key = r.key
  documents : ∀ name, (desk.documents.lookup name).isSome → (desk'.documents.lookup name).isSome
  inFlight : desk'.inFlight = desk.inFlight ∨ r'.stage.isOver ∧
    desk'.inFlight = desk.inFlight.filter fun entry => !(entry.1 == r.key && entry.2 == id)
  due : (desk'.due = desk.due ∨ desk'.due = desk.due ++ [id]) ∧
      (r.stage = .issued → r'.stage = .issued) ∨
    ∃ rest, desk.due = id :: rest ∧ (desk'.due = rest ∨ desk'.due = rest ++ [id]) ∧
      (r.isStopped → r'.stage.isOver)
  awaits : r'.isDue → id ∈ desk'.due ∨ r.isDue ∧ desk'.due = desk.due
  stopped : r.isStopped → r'.isStopped
  issued : r'.stage = .issued → r.stage = .issued
  ended : r.stage.isOver → r'.stage.isOver ∧ (r'.stage.IsSuperseded → r.stage.IsSuperseded)

theorem modify_eq_set {requests : List Request} {id : Nat} {r : Request}
    (h : requests[id]? = some r) (f : Request → Request) :
    requests.modify id f = requests.set id (f r) := by
  apply List.ext_getElem?
  intro i
  rw [List.getElem?_modify, List.getElem?_set']
  by_cases hi : id = i
  · subst hi
    simp [h]
  · simp [hi]

theorem set_found {requests : List Request} {id : Nat} {r : Request}
    (h : requests[id]? = some r) : requests.set id r = requests := by
  obtain ⟨hid, rfl⟩ := List.getElem?_eq_some_iff.mp h
  exact List.set_getElem_self hid

/-- What telling a request to stop makes of it. -/
def stopped (r : Request) : Request := if r.stage.isOver then r else { r with isStopped := true }

theorem stop_advances {desk : Desk} {id : Nat} {r : Request} (h : desk.requests[id]? = some r) :
    Advances desk (desk.stop id) id r (stopped r) := by
  obtain ⟨name, key, stage, isStopped, isAbandoned⟩ := r
  have hmodify := modify_eq_set h
  have hsame := set_found h
  cases stage <;> cases isStopped <;>
    constructor <;>
    simp_all [stop, stopped, Stage.isOver, updateRequest, makeDue, Request.isDue]

/-- What the request whose turn it is does. -/
inductive Turn
  | begins (document : Document)
  | finishes (document : Document) (job : Job)
  | stops
  | returns (result : Except Fault Outcome)
  | waits

def turn (desk : Desk) (useResult : Bool) (r : Request) : Turn :=
  match r.stage, r.isStopped, desk.documents.lookup r.document with
  | .settled result, _, _ => .returns result
  | .returned _, _, _ => .waits
  | .ended job, true, some document => if useResult then .finishes document job else .stops
  | _, true, _ => .stops
  | .issued, false, some document => .begins document
  | .ended job, false, some document => .finishes document job
  | _, false, _ => .waits

theorem resumeRequest_eq (desk : Desk) (useResult : Bool) (id : Nat) (r : Request) :
    desk.resumeRequest useResult id r =
      match desk.turn useResult r with
      | .begins document => desk.beginWork id document
      | .finishes document job => desk.finishWork id r.document document job
      | .stops => desk.settle id r.stoppedResult
      | .returns result => desk.returnResult id r result
      | .waits => desk := by
  unfold resumeRequest turn
  cases r.stage <;> cases r.isStopped <;> cases desk.documents.lookup r.document <;>
    cases useResult <;> rfl

/-- What a turn asks of the request. -/
def Turn.Suits (r : Request) : Turn → Prop
  | .begins _ => r.stage = .issued ∧ r.isStopped = false
  | .finishes _ job => r.stage = .ended job
  | .stops => r.isStopped = true ∧ r.stage.isOver = false
  | .returns result => r.stage = .settled result
  | .waits => r.isDue = false

theorem turn_suits (desk : Desk) (useResult : Bool) (r : Request)
    (h : (desk.documents.lookup r.document).isSome) : (desk.turn useResult r).Suits r := by
  obtain ⟨document, hdocument⟩ := Option.isSome_iff_exists.mp h
  unfold turn
  cases hstage : r.stage <;> cases hstopped : r.isStopped <;> cases useResult <;>
    simp [hdocument, Turn.Suits, Request.isDue, hstage, hstopped, Stage.isOver]

/-- The desk as it is when the request at the head of the queue has been taken from it, but for the
documents and what else the request has changed in passing. -/
structure Hands (desk desk' : Desk) (id : Nat) (r : Request) : Prop where
  found : desk.requests[id]? = some r
  due : desk.due = id :: desk'.due
  requests : desk'.requests = desk.requests
  inFlight : desk'.inFlight = desk.inFlight
  documents : ∀ name, (desk.documents.lookup name).isSome → (desk'.documents.lookup name).isSome

theorem Hands.settle {desk desk' : Desk} {id : Nat} {r : Request} (h : Hands desk desk' id r)
    (hover : r.stage.isOver = false) (result : Except Fault Outcome) :
    Advances desk (desk'.settle id result) id r { r with stage := .settled result } := by
  refine ⟨h.found, ?_, rfl, rfl, h.documents, Or.inl h.inFlight, ?_, ?_, fun hr => hr,
    ?_, ?_⟩
  · rw [← modify_eq_set h.found fun r => { r with stage := .settled result }, ← h.requests]
    rfl
  · exact Or.inr ⟨desk'.due, h.due, Or.inr rfl, fun _ => rfl⟩
  · intro _
    exact Or.inl (List.mem_append_right desk'.due (List.mem_singleton_self id))
  · intro hstage
    cases hstage
  · intro hr
    rw [hover] at hr
    cases hr

/-- A request goes on, and does not give way unless it was told to. -/
def Proceeds (desk desk' : Desk) (id : Nat) : Prop :=
  ∃ r r', Advances desk desk' id r r' ∧ (r'.GivesWay → r.GivesWay)

theorem Hands.settle_inPlace {desk desk' : Desk} {id : Nat} {r : Request}
    (h : Hands desk desk' id r) (hover : r.stage.isOver = false)
    {result : Except Fault Outcome} (hplace : Formatter.StaysInPlace result) :
    Proceeds desk (desk'.settle id result) id := by
  refine ⟨r, _, h.settle hover result, ?_⟩
  rintro (hstopped | ⟨outcome, hresult, hstatus⟩)
  · exact Or.inl hstopped
  · cases hresult
    exact absurd hstatus (hplace outcome rfl)

theorem Hands.stops {desk desk' : Desk} {id : Nat} {r : Request} (h : Hands desk desk' id r)
    (hstopped : r.isStopped = true) (hover : r.stage.isOver = false) :
    Proceeds desk (desk'.settle id r.stoppedResult) id := by
  refine ⟨r, _, h.settle hover r.stoppedResult, ?_⟩
  rintro (hstill | ⟨outcome, hresult, hstatus⟩)
  · exact Or.inl hstill
  · simp only [Stage.result?, Option.some.injEq] at hresult
    cases habandoned : r.isAbandoned with
    | true => simp [Request.stoppedResult, habandoned] at hresult
    | false => exact Or.inl ⟨hstopped, habandoned⟩

theorem Hands.begins {desk desk' : Desk} {id : Nat} {r : Request} (h : Hands desk desk' id r)
    (hstage : r.stage = .issued) (hstopped : r.isStopped = false) (document : Document) :
    Proceeds desk (desk'.beginWork id document) id := by
  have hplace := Formatter.endsInPlace_beginRequest desk'.host desk'.formatter document
  have hover : r.stage.isOver = false := by rw [hstage]; rfl
  unfold beginWork
  revert hplace
  generalize (desk'.formatter.beginRequest desk'.host document).value = begun
  intro hplace
  obtain ⟨begun, formatter⟩ := begun
  have hhands : Hands desk { desk' with formatter } id r :=
    ⟨h.found, h.due, h.requests, h.inFlight, h.documents⟩
  cases begun with
  | settled outcome => exact hhands.settle_inPlace hover (hplace _ rfl)
  | raised fault => exact hhands.settle_inPlace hover (hplace _ rfl)
  | running job =>
    refine ⟨r, { r with stage := .running job }, ⟨h.found, ?_, rfl, rfl, h.documents,
      Or.inl h.inFlight, Or.inr ⟨desk'.due, h.due, Or.inl rfl, ?_⟩, ?_, fun hr => hr, ?_, ?_⟩, ?_⟩
    · rw [← modify_eq_set h.found fun r => { r with stage := .running job }, ← h.requests]
      rfl
    · intro hr
      simp [hstopped] at hr
    · intro hr
      simp [Request.isDue, hstopped] at hr
    · intro hr
      cases hr
    · intro hr
      simp [hover] at hr
    · rintro (hr | ⟨outcome, hr, -⟩)
      · exact Or.inl hr
      · cases hr

theorem Hands.finishes {desk desk' : Desk} {id : Nat} {r : Request} (h : Hands desk desk' id r)
    {job : Job} (hstage : r.stage = .ended job) (document : Document) :
    Proceeds desk (desk'.finishWork id r.document document job) id := by
  have hplace := Formatter.staysInPlace_finishRequest desk'.host job document
  have hover : r.stage.isOver = false := by rw [hstage]; rfl
  unfold finishWork
  revert hplace
  generalize (Formatter.finishRequest desk'.host job document).value = finished
  intro hplace
  obtain ⟨result, changed⟩ := finished
  have hhands : Hands desk { desk' with
      host := changed.host
      documents := Pairs.set r.document changed.document desk'.documents } id r := by
    refine ⟨h.found, h.due, h.requests, h.inFlight, ?_⟩
    intro name hname
    have hkept := h.documents name hname
    rw [Pairs.lookup_set]
    split
    · rfl
    · exact hkept
  exact hhands.settle_inPlace hover hplace

theorem Hands.returns {desk desk' : Desk} {id : Nat} {r : Request} (h : Hands desk desk' id r)
    {result : Except Fault Outcome} (hstage : r.stage = .settled result) :
    Proceeds desk (desk'.returnResult id r result) id := by
  refine ⟨r, { r with stage := .returned result }, ⟨h.found, ?_, rfl, rfl, h.documents,
    Or.inr ⟨rfl, ?_⟩, Or.inr ⟨desk'.due, h.due, Or.inl rfl, fun _ => rfl⟩, ?_, fun hr => hr, ?_,
    ?_⟩, ?_⟩
  · rw [← modify_eq_set h.found fun r => { r with stage := .returned result }, ← h.requests]
    rfl
  · rw [← h.inFlight]
    rfl
  · intro hr
    cases hr
  · intro hr
    cases hr
  · intro _
    refine ⟨rfl, ?_⟩
    rintro ⟨outcome, hr, hstatus⟩
    exact ⟨outcome, by rw [hstage]; exact hr, hstatus⟩
  · rintro (hr | ⟨outcome, hr, hstatus⟩)
    · exact Or.inl hr
    · exact Or.inr ⟨outcome, by rw [hstage]; exact hr, hstatus⟩

theorem Hands.waits {desk desk' : Desk} {id : Nat} {r : Request} (h : Hands desk desk' id r)
    (hidle : r.isDue = false) : Proceeds desk desk' id := by
  refine ⟨r, r, ⟨h.found, ?_, rfl, rfl, h.documents, Or.inl h.inFlight,
    Or.inr ⟨desk'.due, h.due, Or.inl rfl, ?_⟩, ?_, fun hr => hr, fun hr => hr, fun hr => ⟨hr, ?_⟩⟩,
    ?_⟩
  · rw [set_found h.found, h.requests]
  · intro hr
    revert hidle
    cases hstage : r.stage <;> simp [Request.isDue, Stage.isOver, hstage, hr]
  · intro hr
    rw [hidle] at hr
    cases hr
  · exact fun hr => hr
  · exact fun hr => hr

/-- When every document of a request is on the desk, and the queue holds requests only, one of them
proceeds if one is due. -/
theorem resume_cases (desk : Desk) (useResult : Bool)
    (hknown : ∀ r ∈ desk.requests, (desk.documents.lookup r.document).isSome)
    (hlisted : ∀ id ∈ desk.due, id < desk.requests.length) :
    desk.resume useResult = desk ∨
      ∃ id rest, desk.due = id :: rest ∧ Proceeds desk (desk.resume useResult) id := by
  unfold resume
  cases hdue : desk.due with
  | nil => exact Or.inl rfl
  | cons id rest =>
    refine Or.inr ⟨id, rest, rfl, ?_⟩
    have hid : id < desk.requests.length := hlisted id (by simp [hdue])
    have hfound : desk.requests[id]? = some desk.requests[id] := List.getElem?_eq_getElem hid
    generalize desk.requests[id] = r at hfound
    have hhands : Hands desk { desk with due := rest } id r :=
      ⟨hfound, hdue, rfl, rfl, fun _ hname => hname⟩
    have hsuits := turn_suits { desk with due := rest } useResult r
      (hknown r (List.mem_of_getElem? hfound))
    simp only [hfound, resumeRequest_eq]
    cases hturn : turn { desk with due := rest } useResult r with
    | begins document =>
      rw [hturn] at hsuits
      exact hhands.begins hsuits.1 hsuits.2 document
    | finishes document job =>
      rw [hturn] at hsuits
      exact hhands.finishes hsuits document
    | stops =>
      rw [hturn] at hsuits
      exact hhands.stops hsuits.1 hsuits.2
    | returns result =>
      rw [hturn] at hsuits
      exact hhands.returns hsuits
    | waits =>
      rw [hturn] at hsuits
      exact hhands.waits hsuits

theorem engineEnds_cases (desk : Desk) (id : Nat) :
    desk.engineEnds id = desk ∨ Proceeds desk (desk.engineEnds id) id := by
  unfold engineEnds
  split
  case h_2 => exact Or.inl rfl
  case h_1 name key job isAbandoned hfound =>
    refine Or.inr ⟨_, ⟨name, key, .ended job, false, isAbandoned⟩, ⟨hfound, ?_, rfl, rfl,
      fun _ hname => hname, Or.inl rfl, Or.inl ⟨Or.inr rfl, ?_⟩, ?_, fun hr => hr, ?_, ?_⟩, ?_⟩
    · exact modify_eq_set hfound _
    · intro hr
      cases hr
    · intro _
      exact Or.inl (List.mem_append_right desk.due (List.mem_singleton_self id))
    · intro hr
      cases hr
    · intro hr
      cases hr
    · rintro (⟨hr, -⟩ | ⟨outcome, hr, -⟩) <;> cases hr

theorem stopped_isSuperseded {r : Request} :
    (stopped r).stage.IsSuperseded ↔ r.stage.IsSuperseded := by
  unfold stopped
  split <;> rfl

theorem abandon_settled {desk : Desk} {id : Nat} {r : Request} {result : Except Fault Outcome}
    (hfound : desk.requests[id]? = some r) (hstage : r.stage = .settled result) :
    Proceeds desk (desk.setStage id (.settled (.error .cancelled))) id := by
  refine ⟨r, { r with stage := .settled (.error .cancelled) }, ⟨hfound, modify_eq_set hfound _, rfl,
    rfl, fun _ hname => hname, Or.inl rfl, Or.inl ⟨Or.inl rfl, ?_⟩, ?_, fun hr => hr, ?_, ?_⟩, ?_⟩
  · intro hr
    rw [hstage] at hr
    cases hr
  · intro _
    exact Or.inr ⟨by simp [Request.isDue, hstage], rfl⟩
  · intro hr
    cases hr
  · refine fun _ => ⟨rfl, ?_⟩
    rintro ⟨outcome, hr, -⟩
    cases hr
  · rintro (hr | ⟨outcome, hr, -⟩)
    · exact Or.inl hr
    · cases hr

theorem abandon_told {desk : Desk} {id : Nat} {r : Request}
    (hfound : desk.requests[id]? = some r) :
    Proceeds desk ((desk.stop id).updateRequest id fun r => { r with isAbandoned := true })
      id := by
  obtain ⟨_, hset, hdocument, hkey, hdocuments, hinFlight, hdue, hawaits, hstopped, hissued, hover⟩ :=
    stop_advances hfound
  have hthere : (desk.stop id).requests[id]? = some (stopped r) := by
    have hid := (List.getElem?_eq_some_iff.mp hfound).1
    rw [hset, List.getElem?_set_self hid]
  refine ⟨r, { stopped r with isAbandoned := true }, ⟨hfound, ?_, hdocument, hkey, hdocuments,
    hinFlight, hdue, hawaits, hstopped, hissued, hover⟩, ?_⟩
  · show ((desk.stop id).requests.modify id _) = _
    rw [modify_eq_set hthere, hset, List.set_set]
  · rintro (⟨-, hr⟩ | hr)
    · cases hr
    · exact Or.inr (stopped_isSuperseded.mp hr)

theorem abandon_cases (desk : Desk) (id : Nat) :
    desk.abandon id = desk ∨ Proceeds desk (desk.abandon id) id := by
  unfold abandon
  split
  case h_1 hfound => exact Or.inr (abandon_settled hfound rfl)
  case h_2 r _ hfound => exact Or.inr (abandon_told hfound)
  case h_3 => exact Or.inl rfl

end Desk

end MarkupTidy
