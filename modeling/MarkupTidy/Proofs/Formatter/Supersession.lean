import MarkupTidy.Proofs.Formatter.Schedule

/-!
A newer request for a document overtakes an older one. Of the requests with one key, all but the
last are over or were told to stop, and one that was told to stop resumes before the newer one
reads the document. So an older request never writes after a newer one has read, and a request is
given up only for a newer one.
-/
namespace MarkupTidy.Desk

/-- What holds of the requests between any two steps. -/
structure Orderly (desk : Desk) : Prop where
  known : ∀ r ∈ desk.requests, (desk.documents.lookup r.document).isSome
  listed : ∀ id ∈ desk.due, id < desk.requests.length
  entered : ∀ entry ∈ desk.inFlight, ∃ r, desk.requests[entry.2]? = some r ∧ r.key = entry.1
  current : ∀ (id : Nat) (r : Request), desk.requests[id]? = some r →
    r.stage.isOver = false → r.isStopped = false → desk.inFlight.lookup r.key = some id
  awaits : ∀ (id : Nat) (r : Request), desk.requests[id]? = some r → r.isDue → id ∈ desk.due
  overtaken : ∀ (i j : Nat) (r r' : Request), i < j → desk.requests[i]? = some r →
    desk.requests[j]? = some r' → r.key = r'.key →
    r.stage.isOver ∨ r.isStopped ∧ r'.stage = .issued ∧ Before i j desk.due

theorem orderly_ofFormatter (host : Host) (formatter : Formatter)
    (documents : List (String × Document)) : Orderly (ofFormatter host formatter documents) := by
  constructor <;> simp [ofFormatter]

/-- The desk differs in nothing that the order of its requests depends on. -/
structure Rests (desk desk' : Desk) : Prop where
  requests : desk'.requests = desk.requests
  inFlight : desk'.inFlight = desk.inFlight
  due : desk'.due = desk.due
  documents : ∀ name, (desk.documents.lookup name).isSome → (desk'.documents.lookup name).isSome

theorem Rests.of_eq {desk desk' : Desk} (h : desk' = desk) : Rests desk desk' := by
  subst h
  exact ⟨rfl, rfl, rfl, fun _ hname => hname⟩

theorem Orderly.rest {desk desk' : Desk} (h : Orderly desk) (hrests : Rests desk desk') :
    Orderly desk' := by
  obtain ⟨known, listed, entered, current, awaits, overtaken⟩ := h
  obtain ⟨hrequests, hinFlight, hdue, hdocuments⟩ := hrests
  refine ⟨?_, ?_, ?_, ?_, ?_, ?_⟩ <;> rw [hrequests]
  · exact fun r hr => hdocuments r.document (known r hr)
  · rwa [hdue]
  · rwa [hinFlight]
  · rwa [hinFlight]
  · rwa [hdue]
  · rwa [hdue]

section Advance

variable {desk desk' : Desk} {id : Nat} {r r' : Request}

theorem Advances.lt (h : Advances desk desk' id r r') : id < desk.requests.length :=
  (List.getElem?_eq_some_iff.mp h.found).1

theorem Advances.get_self (h : Advances desk desk' id r r') : desk'.requests[id]? = some r' := by
  rw [h.requests, List.getElem?_set_self h.lt]

theorem Advances.get_other (h : Advances desk desk' id r r') {i : Nat} (hi : i ≠ id) :
    desk'.requests[i]? = desk.requests[i]? := by
  rw [h.requests, List.getElem?_set_ne (Ne.symm hi)]

theorem Advances.length (h : Advances desk desk' id r r') :
    desk'.requests.length = desk.requests.length := by
  rw [h.requests, List.length_set]

/-- A request other than the one that goes on is as it was. -/
theorem Advances.get_cases (h : Advances desk desk' id r r') {i : Nat} {found : Request}
    (hi : desk'.requests[i]? = some found) :
    i = id ∧ found = r' ∨ i ≠ id ∧ desk.requests[i]? = some found := by
  by_cases hid : i = id
  · subst hid
    rw [h.get_self] at hi
    cases hi
    exact Or.inl ⟨rfl, rfl⟩
  · rw [h.get_other hid] at hi
    exact Or.inr ⟨hid, hi⟩

theorem Advances.mem_due (h : Advances desk desk' id r r') {i : Nat} (hi : i ∈ desk'.due) :
    i ∈ desk.due ∨ i = id := by
  rcases h.due with ⟨hdue | hdue, -⟩ | ⟨rest, hold, hdue | hdue, -⟩ <;> rw [hdue] at hi
  · exact Or.inl hi
  · simpa using hi
  · rw [hold]
    exact Or.inl (List.mem_cons_of_mem id hi)
  · rw [hold]
    rcases List.mem_append.mp hi with hrest | hself
    · exact Or.inl (List.mem_cons_of_mem id hrest)
    · exact Or.inr (List.mem_singleton.mp hself)

theorem Advances.keeps_due (h : Advances desk desk' id r r') {i : Nat} (hi : i ∈ desk.due)
    (hne : i ≠ id) : i ∈ desk'.due := by
  rcases h.due with ⟨hdue | hdue, -⟩ | ⟨rest, hold, hdue | hdue, -⟩ <;> rw [hdue]
  · exact hi
  · exact List.mem_append_left [id] hi
  · rw [hold] at hi
    exact List.mem_of_ne_of_mem hne hi
  · rw [hold] at hi
    exact List.mem_append_left [id] (List.mem_of_ne_of_mem hne hi)

/-- Who stands before whom changes for the request alone that goes on, and for it only at its
turn. -/
theorem Advances.keeps_before (h : Advances desk desk' id r r') {i j : Nat} (hi : i ∈ desk.due)
    (hbefore : Before i j desk.due)
    (hstays : i ≠ id ∨ r.isStopped = true ∧ r'.stage.isOver = false) :
    Before i j desk'.due := by
  rcases h.due with ⟨hdue | hdue, -⟩ | ⟨rest, hold, hdue, hturn⟩
  · rwa [hdue]
  · rw [hdue]
    exact hbefore.append (Or.inr hi)
  · have hne : i ≠ id := by
      rcases hstays with hne | ⟨hstopped, hover⟩
      · exact hne
      · rw [hturn hstopped] at hover
        cases hover
    rw [hold] at hi hbefore
    have hrest : Before i j rest := hbefore.tail (Ne.symm hne)
    rcases hdue with hdue | hdue <;> rw [hdue]
    · exact hrest
    · exact hrest.append (Or.inr (List.mem_of_ne_of_mem hne hi))

/-- A request behind another one that is due does not begin. -/
theorem Advances.stays_issued (h : Advances desk desk' id r r') {i : Nat}
    (hissued : r.stage = .issued) (hbefore : Before i id desk.due) : r'.stage = .issued := by
  rcases h.due with ⟨-, hsame⟩ | ⟨rest, hold, -, -⟩
  · exact hsame hissued
  · rw [hold] at hbefore
    exact absurd hbefore Before.head

end Advance

theorem lookup_filter {entries : List (DocumentKey × Nat)} {key : DocumentKey} {id : Nat}
    {keep : DocumentKey × Nat → Bool} (hfound : entries.lookup key = some id)
    (hkeep : keep (key, id) = true) : (entries.filter keep).lookup key = some id := by
  obtain ⟨before, after, rfl, hfresh⟩ := List.lookup_eq_some_iff.mp hfound
  rw [List.lookup_eq_some_iff]
  refine ⟨before.filter keep, after.filter keep, by simp [hkeep], ?_⟩
  intro entry hentry
  exact hfresh entry (List.mem_filter.mp hentry).1

/-- A request that was told to stop and is not over is to resume. -/
theorem Orderly.mem_due {desk : Desk} (h : Orderly desk) {i : Nat} {r : Request}
    (hr : desk.requests[i]? = some r) (hstopped : r.isStopped = true)
    (hover : r.stage.isOver = false) : i ∈ desk.due := by
  refine h.awaits i r hr ?_
  cases hstage : r.stage <;> simp_all [Request.isDue, Stage.isOver]

section Preservation

variable {desk desk' : Desk} {id : Nat} {r r' : Request}

theorem Advances.over_before (ha : Advances desk desk' id r r') (hover : r'.stage.isOver = false) :
    r.stage.isOver = false := by
  cases hr : r.stage.isOver with
  | false => rfl
  | true =>
    rw [(ha.ended hr).1] at hover
    cases hover

theorem Advances.stopped_before (ha : Advances desk desk' id r r')
    (hstopped : r'.isStopped = false) : r.isStopped = false := by
  cases hr : r.isStopped with
  | false => rfl
  | true =>
    rw [ha.stopped hr] at hstopped
    cases hstopped

theorem Orderly.advance_known (h : Orderly desk) (ha : Advances desk desk' id r r') :
    ∀ r ∈ desk'.requests, (desk'.documents.lookup r.document).isSome := by
  intro found hfound
  obtain ⟨i, hi⟩ := List.getElem?_of_mem hfound
  apply ha.documents
  rcases ha.get_cases hi with ⟨-, rfl⟩ | ⟨-, hold⟩
  · rw [ha.document]
    exact h.known r (List.mem_of_getElem? ha.found)
  · exact h.known found (List.mem_of_getElem? hold)

theorem Orderly.advance_entered (h : Orderly desk) (ha : Advances desk desk' id r r') :
    ∀ entry ∈ desk'.inFlight, ∃ r, desk'.requests[entry.2]? = some r ∧ r.key = entry.1 := by
  intro entry hentry
  have hold : entry ∈ desk.inFlight := by
    rcases ha.inFlight with hsame | ⟨-, hfiltered⟩
    · rwa [hsame] at hentry
    · rw [hfiltered] at hentry
      exact (List.mem_filter.mp hentry).1
  obtain ⟨found, hfound, hkey⟩ := h.entered entry hold
  by_cases hid : entry.2 = id
  · rw [hid, ha.found] at hfound
    cases hfound
    exact ⟨r', by rw [hid]; exact ha.get_self, by rw [ha.key, hkey]⟩
  · exact ⟨found, by rw [ha.get_other hid, hfound], hkey⟩

theorem Orderly.advance_current (h : Orderly desk) (ha : Advances desk desk' id r r')
    (i : Nat) (found : Request) (hfound : desk'.requests[i]? = some found)
    (hover : found.stage.isOver = false) (hstopped : found.isStopped = false) :
    desk'.inFlight.lookup found.key = some i := by
  rcases ha.get_cases hfound with ⟨rfl, rfl⟩ | ⟨hne, hold⟩
  · have hcurrent := h.current i r ha.found (ha.over_before hover) (ha.stopped_before hstopped)
    rcases ha.inFlight with hsame | ⟨hreturned, -⟩
    · rwa [hsame, ha.key]
    · rw [hreturned] at hover
      cases hover
  · have hcurrent := h.current i found hold hover hstopped
    rcases ha.inFlight with hsame | ⟨-, hfiltered⟩
    · rwa [hsame]
    · rw [hfiltered]
      exact lookup_filter hcurrent (by simp [hne])

theorem Orderly.advance_awaits (h : Orderly desk) (ha : Advances desk desk' id r r')
    (i : Nat) (found : Request) (hfound : desk'.requests[i]? = some found)
    (hdue : found.isDue) : i ∈ desk'.due := by
  rcases ha.get_cases hfound with ⟨rfl, rfl⟩ | ⟨hne, hold⟩
  · rcases ha.awaits hdue with hthere | ⟨hbefore, hsame⟩
    · exact hthere
    · rw [hsame]
      exact h.awaits i r ha.found hbefore
  · exact ha.keeps_due (h.awaits i found hold hdue) hne

/-- A request that was overtaken stays so, whichever of the two goes on. -/
theorem Orderly.advance_overtaken (h : Orderly desk) (ha : Advances desk desk' id r r')
    (i j : Nat) (earlier later : Request) (hij : i < j) (hi : desk'.requests[i]? = some earlier)
    (hj : desk'.requests[j]? = some later) (hkey : earlier.key = later.key) :
    earlier.stage.isOver ∨
      earlier.isStopped ∧ later.stage = .issued ∧ Before i j desk'.due := by
  cases hover : earlier.stage.isOver with
  | true => exact Or.inl rfl
  | false =>
    refine Or.inr ?_
    rcases ha.get_cases hi with ⟨rfl, rfl⟩ | ⟨hine, hiold⟩
    · rw [ha.get_other (show j ≠ i by omega)] at hj
      rw [ha.key] at hkey
      have hbefore := ha.over_before hover
      rcases h.overtaken i j r later hij ha.found hj hkey with hr | ⟨hstopped, hissued, hqueue⟩
      · rw [hbefore] at hr
        cases hr
      · exact ⟨ha.stopped hstopped, hissued, ha.keeps_before
          (h.mem_due ha.found hstopped hbefore) hqueue (Or.inr ⟨hstopped, hover⟩)⟩
    · rcases ha.get_cases hj with ⟨rfl, rfl⟩ | ⟨-, hjold⟩
      · rw [ha.key] at hkey
        rcases h.overtaken i j earlier r hij hiold ha.found hkey with
          hr | ⟨hstopped, hissued, hqueue⟩
        · rw [hover] at hr
          cases hr
        · exact ⟨hstopped, ha.stays_issued hissued hqueue, ha.keeps_before
            (h.mem_due hiold hstopped hover) hqueue (Or.inl hine)⟩
      · rcases h.overtaken i j earlier later hij hiold hjold hkey with
          hr | ⟨hstopped, hissued, hqueue⟩
        · rw [hover] at hr
          cases hr
        · exact ⟨hstopped, hissued, ha.keeps_before
            (h.mem_due hiold hstopped hover) hqueue (Or.inl hine)⟩

theorem Orderly.advance (h : Orderly desk) (ha : Advances desk desk' id r r') :
    Orderly desk' := by
  refine ⟨h.advance_known ha, ?_, h.advance_entered ha, h.advance_current ha,
    h.advance_awaits ha, h.advance_overtaken ha⟩
  intro i hi
  rw [ha.length]
  rcases ha.mem_due hi with hold | rfl
  · exact h.listed i hold
  · exact ha.lt

end Preservation

/-- A request that gives way has a newer one with its key. -/
def Succeeded (desk : Desk) : Prop :=
  ∀ (id : Nat) (r : Request), desk.requests[id]? = some r → r.GivesWay →
    ∃ (later : Nat) (r' : Request), id < later ∧ desk.requests[later]? = some r' ∧
      r'.key = r.key

theorem Succeeded.proceed {desk desk' : Desk} {id : Nat} (h : Succeeded desk)
    (hp : Proceeds desk desk' id) : Succeeded desk' := by
  obtain ⟨r, r', ha, hgives⟩ := hp
  intro i found hfound hway
  have hold : ∃ old, desk.requests[i]? = some old ∧ old.key = found.key ∧ old.GivesWay := by
    rcases ha.get_cases hfound with ⟨rfl, rfl⟩ | ⟨-, hold⟩
    · exact ⟨r, ha.found, ha.key.symm, hgives hway⟩
    · exact ⟨found, hold, rfl, hway⟩
  obtain ⟨old, hold, hkey, hway⟩ := hold
  obtain ⟨later, newer, hlater, hnewer, hsame⟩ := h i old hold hway
  by_cases hid : later = id
  · subst hid
    rw [ha.found] at hnewer
    cases hnewer
    exact ⟨later, r', hlater, ha.get_self, by rw [ha.key, hsame, hkey]⟩
  · exact ⟨later, newer, hlater, by rw [ha.get_other hid, hnewer], by rw [hsame, hkey]⟩

/-- The desk when the request in flight for a key was told to stop. -/
def cleared (desk : Desk) (key : DocumentKey) : Desk :=
  match desk.inFlight.lookup key with
  | some earlier => desk.stop earlier
  | none => desk

/-- A new request joins the others. -/
def enter (desk : Desk) (name : String) (key : DocumentKey) : Desk :=
  { desk with
    requests := desk.requests ++ [⟨name, key, .issued, false, false⟩]
    inFlight := Pairs.set key desk.requests.length desk.inFlight
    due := desk.due ++ [desk.requests.length] }

theorem issue_eq (desk : Desk) (name : String) :
    desk.issue name =
      match desk.documents.lookup name with
      | none => desk
      | some document => (desk.cleared (keyOf name document)).enter name (keyOf name document) :=
  rfl

theorem documents_stop (desk : Desk) (id : Nat) : (desk.stop id).documents = desk.documents := by
  unfold stop
  split
  · rfl
  · split
    · rfl
    · simp only
      split <;> rfl

theorem documents_cleared (desk : Desk) (key : DocumentKey) :
    (desk.cleared key).documents = desk.documents := by
  unfold cleared
  split
  · exact documents_stop desk _
  · rfl

theorem Orderly.cleared_cases {desk : Desk} (h : Orderly desk) (key : DocumentKey) :
    desk.inFlight.lookup key = none ∧ desk.cleared key = desk ∨
      ∃ id r, desk.inFlight.lookup key = some id ∧ r.key = key ∧
        Advances desk (desk.cleared key) id r (stopped r) := by
  unfold cleared
  cases hfound : desk.inFlight.lookup key with
  | none => exact Or.inl ⟨rfl, rfl⟩
  | some id =>
    obtain ⟨before, after, hentries, -⟩ := List.lookup_eq_some_iff.mp hfound
    obtain ⟨r, hr, hkey⟩ := h.entered (key, id) (by simp [hentries])
    exact Or.inr ⟨id, r, rfl, hkey, stop_advances hr⟩

theorem Orderly.cleared {desk : Desk} (h : Orderly desk) (key : DocumentKey) :
    Orderly (desk.cleared key) := by
  rcases h.cleared_cases key with ⟨-, hsame⟩ | ⟨id, r, -, -, ha⟩
  · rwa [hsame]
  · exact h.advance ha

theorem stopped_over_or_stopped (r : Request) :
    (stopped r).stage.isOver ∨ (stopped r).isStopped := by
  unfold stopped
  split
  · exact Or.inl ‹_›
  · exact Or.inr rfl

/-- When the request in flight was told to stop, none with its key goes on. -/
theorem Orderly.cleared_ends {desk : Desk} (h : Orderly desk) {key : DocumentKey} {i : Nat}
    {r : Request} (hr : (desk.cleared key).requests[i]? = some r) (hkey : r.key = key) :
    r.stage.isOver ∨ r.isStopped := by
  have hcurrent : ∀ {old : Request}, desk.requests[i]? = some old → old.key = key →
      old.stage.isOver ∨ old.isStopped ∨ desk.inFlight.lookup key = some i := by
    intro old hold hsame
    cases hover : old.stage.isOver with
    | true => exact Or.inl rfl
    | false =>
      cases hstopped : old.isStopped with
      | true => exact Or.inr (Or.inl rfl)
      | false =>
        rw [← hsame]
        exact Or.inr (Or.inr (h.current i old hold hover hstopped))
  rcases h.cleared_cases key with ⟨hnone, hsame⟩ | ⟨id, told, hfound, htold, ha⟩
  · rw [hsame] at hr
    rcases hcurrent hr hkey with hover | hstopped | hthere
    · exact Or.inl hover
    · exact Or.inr hstopped
    · rw [hnone] at hthere
      cases hthere
  · rcases ha.get_cases hr with ⟨-, rfl⟩ | ⟨hne, hold⟩
    · exact stopped_over_or_stopped told
    · rcases hcurrent hold hkey with hover | hstopped | hthere
      · exact Or.inl hover
      · exact Or.inr hstopped
      · rw [hfound] at hthere
        cases hthere
        exact absurd rfl hne

theorem get_enter_cases {desk : Desk} {name : String} {key : DocumentKey} {i : Nat} {r : Request}
    (h : (desk.enter name key).requests[i]? = some r) :
    desk.requests[i]? = some r ∨
      i = desk.requests.length ∧ r = ⟨name, key, .issued, false, false⟩ := by
  have hget : (desk.requests ++ [⟨name, key, .issued, false, false⟩])[i]? = some r := h
  rcases Nat.lt_trichotomy i desk.requests.length with hlt | rfl | hgt
  · rw [List.getElem?_append_left hlt] at hget
    exact Or.inl hget
  · rw [List.getElem?_concat_length] at hget
    cases hget
    exact Or.inr ⟨rfl, rfl⟩
  · rw [List.getElem?_eq_none (by simp; omega)] at hget
    cases hget

theorem get_enter {desk : Desk} {name : String} {key : DocumentKey} {i : Nat} {r : Request}
    (h : desk.requests[i]? = some r) : (desk.enter name key).requests[i]? = some r := by
  have hlt := (List.getElem?_eq_some_iff.mp h).1
  show (desk.requests ++ [_])[i]? = some r
  rw [List.getElem?_append_left hlt, h]

section Enter

variable {desk : Desk} {name : String} {key : DocumentKey}

theorem Orderly.enter_listed (h : Orderly desk) :
    ∀ id ∈ (desk.enter name key).due, id < (desk.enter name key).requests.length := by
  intro id hid
  have hlength : (desk.enter name key).requests.length = desk.requests.length + 1 :=
    List.length_append
  rcases List.mem_append.mp hid with hold | hnew
  · have hlt := h.listed id hold
    omega
  · rw [List.mem_singleton.mp hnew]
    omega

/-- Once those with its key are over or told to stop, a new request is the current one. -/
theorem Orderly.enter_current (h : Orderly desk)
    (hends : ∀ (i : Nat) (r : Request), desk.requests[i]? = some r → r.key = key →
      r.stage.isOver ∨ r.isStopped) {i : Nat} {r : Request}
    (hr : (desk.enter name key).requests[i]? = some r) (hover : r.stage.isOver = false)
    (hstopped : r.isStopped = false) :
    (desk.enter name key).inFlight.lookup r.key = some i := by
  show (Pairs.set key desk.requests.length desk.inFlight).lookup r.key = some i
  rw [Pairs.lookup_set]
  rcases get_enter_cases hr with hold | ⟨rfl, rfl⟩
  · rw [if_neg]
    · exact h.current i r hold hover hstopped
    · intro hkey
      rcases hends i r hold hkey with hr | hr
      · rw [hr] at hover
        cases hover
      · rw [hr] at hstopped
        cases hstopped
  · exact if_pos rfl

/-- A new request comes behind all those with its key that have yet to stop. -/
theorem Orderly.enter_overtaken (h : Orderly desk)
    (hends : ∀ (i : Nat) (r : Request), desk.requests[i]? = some r → r.key = key →
      r.stage.isOver ∨ r.isStopped) {i j : Nat} {earlier later : Request} (hij : i < j)
    (hi : (desk.enter name key).requests[i]? = some earlier)
    (hj : (desk.enter name key).requests[j]? = some later) (hkey : earlier.key = later.key) :
    earlier.stage.isOver ∨ earlier.isStopped ∧ later.stage = .issued ∧
      Before i j (desk.enter name key).due := by
  have hfresh : desk.requests.length ∉ desk.due :=
    fun hmem => Nat.lt_irrefl _ (h.listed _ hmem)
  have hlater := get_enter_cases hj
  rcases get_enter_cases hi with hiold | ⟨rfl, rfl⟩
  · cases hover : earlier.stage.isOver with
    | true => exact Or.inl rfl
    | false =>
      refine Or.inr ?_
      rcases hlater with hjold | ⟨rfl, rfl⟩
      · rcases h.overtaken i j earlier later hij hiold hjold hkey with
          hr | ⟨hstopped, hissued, hqueue⟩
        · rw [hover] at hr
          cases hr
        · exact ⟨hstopped, hissued, hqueue.append (Or.inr (h.mem_due hiold hstopped hover))⟩
      · rcases hends i earlier hiold hkey with hr | hstopped
        · rw [hover] at hr
          cases hr
        · exact ⟨hstopped, rfl, Before.fresh (h.mem_due hiold hstopped hover) hfresh⟩
  · rcases hlater with hjold | ⟨rfl, -⟩
    · have hlt := (List.getElem?_eq_some_iff.mp hjold).1
      omega
    · omega

theorem Orderly.enter (h : Orderly desk) (hname : (desk.documents.lookup name).isSome)
    (hends : ∀ (i : Nat) (r : Request), desk.requests[i]? = some r → r.key = key →
      r.stage.isOver ∨ r.isStopped) :
    Orderly (desk.enter name key) := by
  refine ⟨?_, h.enter_listed, ?_, fun i r => h.enter_current hends, ?_,
    fun i j earlier later => h.enter_overtaken hends⟩
  · intro r hr
    rcases List.mem_append.mp hr with hold | hnew
    · exact h.known r hold
    · rw [List.mem_singleton.mp hnew]
      exact hname
  · intro entry hentry
    have hcases : entry ∈ desk.inFlight ∨ entry = (key, desk.requests.length) :=
      Pairs.mem_set hentry
    rcases hcases with hold | rfl
    · obtain ⟨r, hr, hkey⟩ := h.entered entry hold
      exact ⟨r, get_enter hr, hkey⟩
    · exact ⟨_, List.getElem?_concat_length, rfl⟩
  · intro i r hr hdue
    rcases get_enter_cases hr with hold | ⟨rfl, -⟩
    · exact List.mem_append_left _ (h.awaits i r hold hdue)
    · exact List.mem_append_right desk.due (List.mem_singleton_self _)

end Enter

theorem Orderly.issue {desk : Desk} (h : Orderly desk) (name : String) :
    Orderly (desk.issue name) := by
  rw [issue_eq]
  cases hname : desk.documents.lookup name with
  | none => exact h
  | some document =>
    refine (h.cleared (keyOf name document)).enter ?_ fun i r hr hkey => h.cleared_ends hr hkey
    rw [documents_cleared, hname]
    rfl

theorem Orderly.length_cleared {desk : Desk} (h : Orderly desk) (key : DocumentKey) :
    (desk.cleared key).requests.length = desk.requests.length := by
  rcases h.cleared_cases key with ⟨-, hsame⟩ | ⟨id, r, -, -, ha⟩
  · rw [hsame]
  · exact ha.length

/-- Only a request with the key begins to give way. -/
theorem Orderly.cleared_found {desk : Desk} (h : Orderly desk) {key : DocumentKey} {i : Nat}
    {r : Request} (hr : (desk.cleared key).requests[i]? = some r) :
    ∃ old, desk.requests[i]? = some old ∧ old.key = r.key ∧
      (r.GivesWay → old.GivesWay ∨ r.key = key) := by
  rcases h.cleared_cases key with ⟨-, hsame⟩ | ⟨id, told, -, htold, ha⟩
  · rw [hsame] at hr
    exact ⟨r, hr, rfl, Or.inl⟩
  · rcases ha.get_cases hr with ⟨rfl, rfl⟩ | ⟨-, hr⟩
    · exact ⟨told, ha.found, ha.key.symm, fun _ => Or.inr (by rw [ha.key, htold])⟩
    · exact ⟨r, hr, rfl, Or.inl⟩

theorem Succeeded.enter {desk : Desk} (h : Succeeded desk) (ho : Orderly desk) (name : String)
    (key : DocumentKey) : Succeeded ((desk.cleared key).enter name key) := by
  have hlength := ho.length_cleared key
  have hnew : ((desk.cleared key).enter name key).requests[desk.requests.length]? =
      some ⟨name, key, .issued, false, false⟩ := by
    rw [← hlength]
    exact List.getElem?_concat_length
  intro i r hr hway
  rcases get_enter_cases hr with hr | ⟨-, rfl⟩
  · obtain ⟨old, hfound, hkey, hgives⟩ := ho.cleared_found hr
    rcases hgives hway with hway | hsame
    · obtain ⟨later, newer, hlater, hnewer, hnewerKey⟩ := h i old hfound hway
      have hthere := (List.getElem?_eq_some_iff.mp hnewer).1
      have hlast : later < (desk.cleared key).requests.length := by omega
      have hget := List.getElem?_eq_getElem hlast
      obtain ⟨old', hold', hkey', -⟩ := ho.cleared_found hget
      rw [hnewer] at hold'
      cases hold'
      exact ⟨later, _, hlater, get_enter hget, by rw [← hkey', hnewerKey, hkey]⟩
    · exact ⟨_, _, (List.getElem?_eq_some_iff.mp hfound).1, hnew, hsame.symm⟩
  · rcases hway with ⟨hstopped, -⟩ | ⟨outcome, hresult, -⟩
    · cases hstopped
    · cases hresult

theorem Succeeded.issue {desk : Desk} (h : Succeeded desk) (ho : Orderly desk) (name : String) :
    Succeeded (desk.issue name) := by
  rw [issue_eq]
  cases desk.documents.lookup name with
  | none => exact h
  | some document => exact h.enter ho name (keyOf name document)

theorem edit_rests (desk : Desk) (name text : String) : Rests desk (desk.edit name text) := by
  unfold edit
  cases desk.documents.lookup name with
  | none => exact ⟨rfl, rfl, rfl, fun _ h => h⟩
  | some document =>
    refine ⟨rfl, rfl, rfl, ?_⟩
    intro other hother
    simp only [Pairs.lookup_set]
    split
    · rfl
    · exact hother

/-- Every step leaves the requests alone, lets one of them proceed, or issues one. -/
theorem Orderly.step_cases {desk : Desk} (h : Orderly desk) (event : DeskEvent) :
    Rests desk (desk.step event) ∨ (∃ id, Proceeds desk (desk.step event) id) ∨
      ∃ name, event = .issue name := by
  cases event with
  | issue name => exact Or.inr (Or.inr ⟨name, rfl⟩)
  | resume useResult =>
    rcases resume_cases desk useResult h.known h.listed with heq | ⟨id, -, -, hp⟩
    · exact Or.inl (.of_eq heq)
    · exact Or.inr (Or.inl ⟨id, hp⟩)
  | engineEnds id =>
    rcases engineEnds_cases desk id with heq | hp
    · exact Or.inl (.of_eq heq)
    · exact Or.inr (Or.inl ⟨id, hp⟩)
  | abandon id =>
    rcases abandon_cases desk id with heq | hp
    · exact Or.inl (.of_eq heq)
    · exact Or.inr (Or.inl ⟨id, hp⟩)
  | refresh edition => exact Or.inl ⟨rfl, rfl, rfl, fun _ hname => hname⟩
  | edit name text => exact Or.inl (edit_rests desk name text)

theorem Orderly.step {desk : Desk} (h : Orderly desk) (event : DeskEvent) :
    Orderly (desk.step event) := by
  rcases h.step_cases event with hrests | ⟨id, r, r', ha, -⟩ | ⟨name, rfl⟩
  · exact h.rest hrests
  · exact h.advance ha
  · exact h.issue name

theorem Succeeded.step {desk : Desk} (h : Succeeded desk) (ho : Orderly desk)
    (event : DeskEvent) : Succeeded (desk.step event) := by
  rcases ho.step_cases event with hrests | ⟨id, hp⟩ | ⟨name, rfl⟩
  · unfold Succeeded
    rwa [hrests.requests]
  · exact h.proceed hp
  · exact h.issue ho name

end MarkupTidy.Desk
