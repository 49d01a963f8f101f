import MarkupTidy.Proofs.Formatter.Steps

/-!
The table of requests in flight. It holds, for each key, the request that was issued last for the
key, until this request returns; so it is empty when all have returned. A request takes no entry
away but its own, and is told to stop only by its caller or for a newer request with its key.
-/
namespace MarkupTidy.Desk

/-- The request was issued last of all for a key, and has not returned. -/
def IsNewest (desk : Desk) (key : DocumentKey) (id : Nat) : Prop :=
  ∃ r, desk.requests[id]? = some r ∧ r.key = key ∧ r.stage.isReturned = false ∧
    ∀ (later : Nat) (r' : Request), id < later → desk.requests[later]? = some r' → r'.key ≠ key

/-- What holds of the table between any two steps. -/
structure Tabled (desk : Desk) : Prop where
  keys : (desk.inFlight.map Prod.fst).Nodup
  newest : ∀ key id, desk.inFlight.lookup key = some id ↔ desk.IsNewest key id

theorem tabled_ofFormatter (host : Host) (formatter : Formatter)
    (documents : List (String × Document)) : Tabled (ofFormatter host formatter documents) := by
  constructor
  · exact List.nodup_nil
  · intro key id
    simp [ofFormatter, IsNewest]

theorem Tabled.of_same {desk desk' : Desk} (h : Tabled desk)
    (hrequests : desk'.requests = desk.requests) (hinFlight : desk'.inFlight = desk.inFlight) :
    Tabled desk' := by
  obtain ⟨keys, newest⟩ := h
  unfold IsNewest at newest
  constructor
  · rwa [hinFlight]
  · unfold IsNewest
    rwa [hinFlight, hrequests]

section Change

variable {desk desk' : Desk} {id : Nat} {r r' : Request}

/-- A request that changes keeps its key, so that another one is newest only if it was before. -/
theorem isNewest_set (hfound : desk.requests[id]? = some r)
    (hset : desk'.requests = desk.requests.set id r') (hkey : r'.key = r.key)
    (hreturned : r.stage.isReturned = true → r'.stage.isReturned = true) (key : DocumentKey)
    (i : Nat) :
    desk'.IsNewest key i ↔ desk.IsNewest key i ∧ (i = id → r'.stage.isReturned = false) := by
  have hlt : id < desk.requests.length := (List.getElem?_eq_some_iff.mp hfound).1
  have hself : desk'.requests[id]? = some r' := by rw [hset, List.getElem?_set_self hlt]
  have hother : ∀ {j : Nat}, j ≠ id → desk'.requests[j]? = desk.requests[j]? := by
    intro j hj
    rw [hset, List.getElem?_set_ne (Ne.symm hj)]
  have hlater : (∀ (later : Nat) (found : Request), i < later →
      desk'.requests[later]? = some found → found.key ≠ key) ↔
      ∀ (later : Nat) (found : Request), i < later →
        desk.requests[later]? = some found → found.key ≠ key := by
    refine forall_congr' fun later => ?_
    by_cases hid : later = id
    · subst hid
      simp [hself, hfound, hkey]
    · rw [hother hid]
  unfold IsNewest
  by_cases hid : i = id
  · subst hid
    simp only [hself, hfound, Option.some.injEq, exists_eq_left', hkey, hlater, forall_const]
    cases hbefore : r.stage.isReturned with
    | false => simp [and_comm, and_left_comm]
    | true => simp [hreturned hbefore]
  · simp only [hother hid, hlater, hid, false_imp_iff, and_true]

theorem lookup_leave {inFlight : List (DocumentKey × Nat)}
    (hkeys : (inFlight.map Prod.fst).Nodup) (own key : DocumentKey) (id i : Nat) :
    (leave inFlight own id).lookup key = some i ↔
      inFlight.lookup key = some i ∧ ¬ (key = own ∧ i = id) := by
  rw [leave, Pairs.lookup_filter _ hkeys, Option.filter_eq_some_iff]
  by_cases hkey : key = own <;> simp [hkey]

theorem Tabled.moves {event : DeskEvent} (h : Tabled desk)
    (hm : MovesOne desk desk' event id r r') : Tabled desk' := by
  have hinFlight := hm.inFlight
  constructor
  · rw [hinFlight]
    split
    · exact (List.filter_sublist.map Prod.fst).nodup h.keys
    · exact h.keys
  · intro key i
    have hown : desk.inFlight.lookup key = some i → i = id → key = r.key ∧
        r.stage.isReturned = false := by
      rintro hlookup rfl
      obtain ⟨found, hfound, hkey, hreturned, -⟩ := (h.newest key i).1 hlookup
      rw [hm.found] at hfound
      cases hfound
      exact ⟨hkey.symm, hreturned⟩
    rw [isNewest_set hm.found hm.requests hm.moves.key hm.moves.isReturned, ← h.newest, hinFlight]
    cases hafter : r'.stage.isReturned with
    | false => simp
    | true =>
      cases hbefore : r.stage.isReturned with
      | false =>
        -- The request returns, and leaves the table if its entry is still there.
        simp only [Bool.not_false, Bool.and_self, if_true, lookup_leave h.keys, Bool.true_eq_false]
        exact and_congr_right fun hlookup =>
          ⟨fun hnot hid => hnot ⟨(hown hlookup hid).1, hid⟩, fun hnot hboth => hnot hboth.2⟩
      | true =>
        -- A request that has returned is not in the table.
        simp only [Bool.not_true, Bool.and_false, Bool.false_eq_true, if_false, Bool.true_eq_false]
        refine ⟨fun hlookup => ⟨hlookup, fun hid => ?_⟩, And.left⟩
        rw [(hown hlookup hid).2] at hbefore
        cases hbefore

end Change

/-- Telling a request to stop does not change the table. -/
theorem inFlight_cleared (desk : Desk) (key : DocumentKey) :
    (desk.cleared key).inFlight = desk.inFlight := by
  unfold Desk.cleared
  split
  · exact inFlight_stop desk _
  · rfl

theorem Tabled.cleared {desk : Desk} (h : Tabled desk) (ho : Orderly desk) (key : DocumentKey) :
    Tabled (desk.cleared key) := by
  rcases ho.cleared_cases key with ⟨-, hsame⟩ | ⟨id, told, -, -, ha⟩
  · rwa [hsame]
  · have hstage : (stopped told).stage = told.stage := stage_stopped told
    constructor
    · rw [inFlight_cleared]
      exact h.keys
    · intro other i
      rw [inFlight_cleared, h.newest,
        isNewest_set ha.found ha.requests ha.key fun hreturned => by rwa [hstage]]
      refine ⟨fun hnewest => ⟨hnewest, ?_⟩, And.left⟩
      rintro rfl
      obtain ⟨found, hfound, -, hreturned, -⟩ := hnewest
      rw [ha.found] at hfound
      cases hfound
      rwa [hstage]

/-- A new request takes the place of the one that was in flight for its key. -/
theorem Orderly.lookup_issue {desk : Desk} (h : Orderly desk) {name : String}
    {document : Document} (hname : desk.documents.lookup name = some document)
    (key : DocumentKey) :
    (desk.issue name).inFlight.lookup key =
      if key = keyOf name document then some desk.requests.length
      else desk.inFlight.lookup key := by
  simp only [issue_eq, hname]
  show (Pairs.set _ _ _).lookup key = _
  rw [Pairs.lookup_set, inFlight_cleared, h.length_cleared]

/-- A new request stands behind all others. -/
theorem Orderly.requests_issue {desk : Desk} (h : Orderly desk) {name : String}
    {document : Document} (hname : desk.documents.lookup name = some document) :
    (desk.issue name).requests.length = desk.requests.length + 1 ∧
      (desk.issue name).requests[desk.requests.length]? =
        some ⟨name, keyOf name document, .issued, false, false⟩ := by
  have hlength := h.length_cleared (keyOf name document)
  simp only [issue_eq, hname]
  rw [← hlength]
  exact ⟨List.length_append, List.getElem?_concat_length⟩

/-- A new request is the newest for its key. -/
theorem isNewest_enter (desk : Desk) (name : String) (own key : DocumentKey) (i : Nat) :
    (desk.enter name own).IsNewest key i ↔
      if key = own then i = desk.requests.length else desk.IsNewest key i := by
  have hnew : (desk.enter name own).requests[desk.requests.length]? =
      some ⟨name, own, .issued, false, false⟩ := List.getElem?_concat_length
  split
  · next hkey =>
    subst hkey
    constructor
    · rintro ⟨r, hr, -, -, hnone⟩
      rcases get_enter_cases hr with hold | ⟨hlast, -⟩
      · exact absurd rfl (hnone _ _ (List.getElem?_eq_some_iff.mp hold).1 hnew)
      · exact hlast
    · rintro rfl
      refine ⟨_, hnew, rfl, rfl, fun later r hlater hr => ?_⟩
      rcases get_enter_cases hr with hold | ⟨hlast, -⟩
      · have := (List.getElem?_eq_some_iff.mp hold).1
        omega
      · omega
  · next hkey =>
    constructor
    · rintro ⟨r, hr, hsame, hreturned, hnone⟩
      rcases get_enter_cases hr with hold | ⟨-, rfl⟩
      · exact ⟨r, hold, hsame, hreturned, fun later r' hlater hr' =>
          hnone later r' hlater (get_enter hr')⟩
      · exact absurd hsame.symm hkey
    · rintro ⟨r, hr, hsame, hreturned, hnone⟩
      refine ⟨r, get_enter hr, hsame, hreturned, fun later r' hlater hr' => ?_⟩
      rcases get_enter_cases hr' with hold | ⟨-, rfl⟩
      · exact hnone later r' hlater hold
      · exact fun hown => hkey hown.symm

theorem Tabled.enter {desk : Desk} (h : Tabled desk) (name : String) (key : DocumentKey) :
    Tabled (desk.enter name key) := by
  constructor
  · exact Pairs.nodup_set h.keys
  · intro other i
    rw [isNewest_enter, ← h.newest]
    show (Pairs.set key desk.requests.length desk.inFlight).lookup other = some i ↔ _
    rw [Pairs.lookup_set]
    split
    · rw [Option.some.injEq, eq_comm]
    · rfl

theorem Tabled.step {desk : Desk} (h : Tabled desk) (ho : Orderly desk) (event : DeskEvent) :
    Tabled (desk.step event) := by
  rcases step_moves desk event with ⟨name, rfl⟩ | ⟨hrequests, hinFlight⟩ | ⟨id, r, r', hm⟩
  · show Tabled (desk.issue name)
    rw [issue_eq]
    cases desk.documents.lookup name with
    | none => exact h
    | some document => exact (h.cleared ho _).enter name _
  · exact h.of_same hrequests hinFlight
  · exact h.moves hm

theorem tabled_run {desk : Desk} (h : Tabled desk) (ho : Orderly desk)
    (events : List DeskEvent) : Tabled (desk.run events) := by
  induction events generalizing desk with
  | nil => exact h
  | cons event events ih => exact ih (h.step ho event) (ho.step event)

/-- An entry is replaced by that of a newer request for its key, or its own request returns. -/
theorem Tabled.entry_goes {desk : Desk} (h : Tabled desk) (ho : Orderly desk) {event : DeskEvent}
    {key : DocumentKey} {id : Nat} (hthere : desk.inFlight.lookup key = some id)
    (hgone : (desk.step event).inFlight.lookup key ≠ some id) :
    (∃ name document, event = .issue name ∧ desk.documents.lookup name = some document ∧
      keyOf name document = key ∧
      (desk.step event).inFlight.lookup key = some desk.requests.length) ∨
    (∃ useResult, event = .resume useResult) ∧ desk.due.head? = some id ∧
      ∃ r, (desk.step event).requests[id]? = some r ∧ r.stage.isReturned = true := by
  rcases step_moves desk event with ⟨name, rfl⟩ | ⟨-, hinFlight⟩ | ⟨moved, r, r', hm⟩
  · have hstep : desk.step (.issue name) = desk.issue name := rfl
    rw [hstep] at hgone ⊢
    cases hname : desk.documents.lookup name with
    | none =>
      rw [issue_eq, hname] at hgone
      exact absurd hthere hgone
    | some document =>
      rw [ho.lookup_issue hname] at hgone ⊢
      by_cases hkey : key = keyOf name document
      · exact Or.inl ⟨name, document, rfl, hname, hkey.symm, if_pos hkey⟩
      · rw [if_neg hkey] at hgone
        exact absurd hthere hgone
  · rw [hinFlight] at hgone
    exact absurd hthere hgone
  · have hinFlight := hm.inFlight
    split at hinFlight
    · next hreturns =>
      obtain ⟨hafter, hbefore⟩ := Bool.and_eq_true_iff.1 hreturns
      rw [hinFlight, Ne, lookup_leave h.keys] at hgone
      obtain ⟨rfl, rfl⟩ := Classical.not_not.1 fun hother => hgone ⟨hthere, hother⟩
      obtain ⟨hresume, hturn⟩ := hm.moves.returns_turn (by simpa using hbefore) hafter
      exact Or.inr ⟨hresume, hturn, r', hm.get_self, hafter⟩
    · rw [hinFlight] at hgone
      exact absurd hthere hgone

/-- A request is told to stop by its caller, or for a newer request with its key. -/
theorem Orderly.told_to_stop {desk : Desk} (h : Orderly desk) {event : DeskEvent} {i : Nat}
    {r r' : Request} (hr : desk.requests[i]? = some r)
    (hr' : (desk.step event).requests[i]? = some r') (hbefore : r.isStopped = false)
    (hafter : r'.isStopped = true) :
    event = .abandon i ∨ ∃ name document, event = .issue name ∧
      desk.documents.lookup name = some document ∧ keyOf name document = r.key := by
  rcases h.get_step hr' with ⟨old, hold, hsame⟩ | ⟨hlast, -⟩
  · rw [hr] at hold
    cases hold
    rcases hsame with rfl | ⟨-, hissue⟩ | hmoves
    · rw [hbefore] at hafter
      cases hafter
    · exact Or.inr hissue
    · rcases hmoves.isStopped with hsame | habandon
      · rw [hsame, hbefore] at hafter
        cases hafter
      · exact Or.inl habandon
  · have := (List.getElem?_eq_some_iff.mp hr).1
    omega

/-- Of the requests with one key at most one is neither over nor told to stop. -/
theorem Orderly.one_goes_on {desk : Desk} (h : Orderly desk) {i j : Nat} {r r' : Request}
    (hr : desk.requests[i]? = some r) (hr' : desk.requests[j]? = some r') (hkey : r.key = r'.key)
    (hi : r.stage.isOver = false ∧ r.isStopped = false)
    (hj : r'.stage.isOver = false ∧ r'.isStopped = false) : i = j := by
  have hfirst := h.current i r hr hi.1 hi.2
  have hsecond := h.current j r' hr' hj.1 hj.2
  rw [hkey, hsecond] at hfirst
  exact (Option.some.inj hfirst).symm

/-- When all requests have returned, the table is empty. -/
theorem Tabled.empty {desk : Desk} (h : Tabled desk)
    (hall : ∀ r ∈ desk.requests, r.stage.isReturned = true) : desk.inFlight = [] := by
  cases hentries : desk.inFlight with
  | nil => rfl
  | cons entry rest =>
    have hlookup : desk.inFlight.lookup entry.1 = some entry.2 := by
      rw [hentries, List.lookup_cons_self]
    obtain ⟨r, hr, -, hreturned, -⟩ := (h.newest entry.1 entry.2).1 hlookup
    rw [hall r (List.mem_of_getElem? hr)] at hreturned
    cases hreturned

/-- Whatever happens at a desk, and in which order: the table has one entry for each key whose
newest request has not returned, and it names this request; a request that is issued comes behind
all others and gets the entry of its key; an entry goes only for a newer request with its key or
when its own request returns; at most one request for a key is neither over nor told to stop;
requests with other keys tell none to stop; and when all have returned, the table is empty. -/
theorem in_flight_newest (host : Host) (formatter : Formatter)
    (documents : List (String × Document)) (events : List DeskEvent) :
    let desk := (ofFormatter host formatter documents).run events
    ((desk.inFlight.map Prod.fst).Nodup ∧
      ∀ key id, desk.inFlight.lookup key = some id ↔ desk.IsNewest key id) ∧
    (∀ name document, desk.documents.lookup name = some document →
      (desk.step (.issue name)).requests.length = desk.requests.length + 1 ∧
      (desk.step (.issue name)).requests[desk.requests.length]? =
        some ⟨name, keyOf name document, .issued, false, false⟩ ∧
      ∀ key, (desk.step (.issue name)).inFlight.lookup key =
        if key = keyOf name document then some desk.requests.length
        else desk.inFlight.lookup key) ∧
    (∀ event key id, desk.inFlight.lookup key = some id →
      (desk.step event).inFlight.lookup key ≠ some id →
      (∃ name document, event = .issue name ∧ desk.documents.lookup name = some document ∧
        keyOf name document = key ∧
        (desk.step event).inFlight.lookup key = some desk.requests.length) ∨
      (∃ useResult, event = .resume useResult) ∧ desk.due.head? = some id ∧
        ∃ r, (desk.step event).requests[id]? = some r ∧ r.stage.isReturned = true) ∧
    (∀ (i j : Nat) (r r' : Request), desk.requests[i]? = some r → desk.requests[j]? = some r' →
      r.key = r'.key → r.stage.isOver = false ∧ r.isStopped = false →
      r'.stage.isOver = false ∧ r'.isStopped = false → i = j) ∧
    (∀ event (i : Nat) (r r' : Request), desk.requests[i]? = some r →
      (desk.step event).requests[i]? = some r' → r.isStopped = false → r'.isStopped = true →
      event = .abandon i ∨ ∃ name document, event = .issue name ∧
        desk.documents.lookup name = some document ∧ keyOf name document = r.key) ∧
    ((∀ r ∈ desk.requests, r.stage.isReturned = true) → desk.inFlight = []) := by
  intro desk
  have horderly : Orderly desk := orderly_run (orderly_ofFormatter host formatter documents) events
  have htabled : Tabled desk := tabled_run (tabled_ofFormatter host formatter documents)
    (orderly_ofFormatter host formatter documents) events
  refine ⟨⟨htabled.keys, htabled.newest⟩, ?_, ?_, ?_, ?_, htabled.empty⟩
  · intro name document hname
    obtain ⟨hlength, hlast⟩ := horderly.requests_issue hname
    exact ⟨hlength, hlast, horderly.lookup_issue hname⟩
  · exact fun event key id => htabled.entry_goes horderly
  · exact fun i j r r' => horderly.one_goes_on
  · exact fun event i r r' => horderly.told_to_stop

/-- A desk with two empty documents. -/
def idleDesk : Desk :=
  ofFormatter { tree := .empty, directory := [], searchPath := "" } (.ofSettings ⟨0, {}⟩ none)
    [("d", .buffer "" none false), ("e", .buffer "" none false)]

/-- A second request for a document gets the entry of the first, and no entry is left when all have
returned. -/
theorem in_flight_newest_twice :
    (idleDesk.run [.issue "d", .issue "e", .issue "d"]).inFlight.lookup (.named "d") = some 2 ∧
    (idleDesk.run [.issue "d", .issue "e", .issue "d"]).inFlight.lookup (.named "e") = some 1 ∧
    (idleDesk.run ([.issue "d", .issue "e", .issue "d"] ++
      List.replicate 6 (.resume false))).inFlight = [] := by
  obtain ⟨-, hissue, -⟩ := in_flight_newest idleDesk.host idleDesk.formatter idleDesk.documents
    [.issue "d", .issue "e"]
  obtain ⟨-, -, hlookup⟩ := hissue "d" (.buffer "" none false) rfl
  obtain ⟨-, -, -, -, -, hempty⟩ := in_flight_newest idleDesk.host idleDesk.formatter
    idleDesk.documents ([.issue "d", .issue "e", .issue "d"] ++ List.replicate 6 (.resume false))
  exact ⟨hlookup (.named "d"), hlookup (.named "e"), hempty (by decide)⟩

end MarkupTidy.Desk
