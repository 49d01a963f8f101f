import MarkupTidy.Proofs.Resolver.Cache

/-!
A resolver shared by callers. A call goes on in sections: it looks into what is kept, finds options
on the files of a moment, and keeps what it found if the settings are still the ones it began with.
Between the sections of one call those of others run, settings are refreshed and files change. A
refresh begins a period; a call is stale if it answers with what was read before its own period.
What a refresh forgets can come back through a call that found options before it under the same
settings, and in no other way.
-/
namespace MarkupTidy.Resolver

/-- How far a call has come. From its first section on it holds the settings of that section, and
what it found with the period in which it was read. -/
inductive Stage
  | begun
  | looked (edition : Edition)
  | found (edition : Edition) (resolved : Resolved) (readIn : Nat)
  | answered (edition : Edition) (resolved : Resolved) (readIn : Nat)
  | raised

structure Call where
  directory : Option Path
  /-- The period in which it began. -/
  begunIn : Nat
  stage : Stage

/-- What was read before a call's period is stale in its answer. -/
def Call.IsStale (call : Call) : Prop :=
  ∃ edition resolved readIn, call.stage = .answered edition resolved readIn ∧
    readIn < call.begunIn

/-- A resolver on the files of a host, with the calls in the order in which they began. -/
structure Shared where
  host : Host
  resolver : Resolver
  /-- The number of refreshes. -/
  period : Nat
  /-- The periods in which what is kept was read. -/
  keptIn : List (Option Path × Nat)
  calls : List Call

namespace Shared

open Override

inductive Event
  | change (host : Host)
  | refresh (edition : Edition)
  | begin (document : Option Path)
  /-- The next section of a call, which is named by its number. -/
  | advance (n : Nat)

def start (host : Host) (edition : Edition) (workspace : Option Path) : Shared :=
  ⟨host, ofSettings edition workspace, 0, [], []⟩

/-- What the next section makes of a call. What is kept without its period counts as the oldest. -/
def next (s : Shared) (call : Call) : Stage :=
  match call.stage with
  | .begun =>
    match s.resolver.look call.directory with
    | (some resolved, edition) =>
      .answered edition resolved ((s.keptIn.lookup call.directory).getD 0)
    | (none, edition) => .looked edition
  | .looked edition =>
    match (Resolved.find s.host edition.settings call.directory).value with
    | .ok resolved => .found edition resolved s.period
    | .error _ => .raised
  | .found edition resolved readIn => .answered edition resolved readIn
  | stage => stage

/-- What the next section of a call keeps. -/
def store (s : Shared) (call : Call) : Shared :=
  match call.stage with
  | .found edition resolved readIn =>
    { s with
      resolver := s.resolver.keep edition call.directory resolved
      keptIn :=
        if s.resolver.edition.identity = edition.identity then
          Pairs.set call.directory readIn s.keptIn
        else s.keptIn }
  | _ => s

def begin (s : Shared) (document : Option Path) : Shared :=
  match s.resolver.directoryFor s.host document with
  | .ok directory => { s with calls := s.calls ++ [⟨directory, s.period, .begun⟩] }
  | .error _ => s

def advance (s : Shared) (n : Nat) : Shared :=
  match s.calls[n]? with
  | some call => { s.store call with calls := s.calls.set n { call with stage := s.next call } }
  | none => s

def step (s : Shared) : Event → Shared
  | .change host => { s with host }
  | .refresh edition =>
    { s with resolver := s.resolver.refresh edition, period := s.period + 1, keptIn := [] }
  | .begin document => s.begin document
  | .advance n => s.advance n

def run (s : Shared) (events : List Event) : Shared := events.foldl step s

/-- No call that has found options under these settings is still to keep them. -/
def IsClear (s : Shared) (edition : Edition) : Prop :=
  ∀ call ∈ s.calls, ∀ old resolved readIn, call.stage = .found old resolved readIn →
    old.identity ≠ edition.identity

/-- Every refresh among the events comes when the resolver is clear for it. -/
def ClearThroughout (s : Shared) : List Event → Prop
  | [] => True
  | event :: rest =>
    (∀ edition, event = .refresh edition → s.IsClear edition) ∧ (s.step event).ClearThroughout rest

/-- The next section of the call that began last. -/
theorem advance_last {s : Shared} {calls : List Call} {call : Call}
    (h : s.calls = calls ++ [call]) :
    s.advance calls.length =
      { s.store call with calls := calls ++ [{ call with stage := s.next call }] } := by
  have hcall : s.calls[calls.length]? = some call := by rw [h, List.getElem?_concat_length]
  simp only [advance, hcall]
  rw [h, List.set_append_right _ _ (Nat.le_refl _), Nat.sub_self, List.set_cons_zero]

theorem begin_ok {s : Shared} {document directory : Option Path}
    (h : s.resolver.directoryFor s.host document = .ok directory) :
    s.begin document = { s with calls := s.calls ++ [⟨directory, s.period, .begun⟩] } := by
  simp only [begin, h]

/-- A call whose sections follow each other at once is one of the undivided calls. -/
theorem advance_alone {s : Shared} {document directory : Option Path}
    (hdirectory : s.resolver.directoryFor s.host document = .ok directory) :
    let t := (((s.begin document).advance s.calls.length).advance s.calls.length).advance
      s.calls.length
    t.resolver = (s.resolver.optionsFor s.host document).value.2 ∧
      match (s.resolver.optionsFor s.host document).value.1 with
      | .ok resolved => ∃ readIn, t.calls =
          s.calls ++ [⟨directory, s.period, .answered s.resolver.edition resolved readIn⟩]
      | .error _ => t.calls = s.calls ++ [⟨directory, s.period, .raised⟩] := by
  intro t
  have hlook := advance_last (s := s.begin document) (congrArg calls (begin_ok hdirectory))
  have hfind := advance_last (s := (s.begin document).advance s.calls.length)
    (congrArg calls hlook)
  have hkeep : t = _ := advance_last (congrArg calls hfind)
  rw [value_optionsFor hdirectory, hkeep, hfind, hlook, begin_ok hdirectory]
  cases hkept : s.resolver.kept.lookup directory with
  | some resolved => simp [next, store, look, hkept]
  | none =>
    cases hfound : (Resolved.find s.host s.resolver.edition.settings directory).value with
    | error fault => simp [next, store, look, hkept, hfound, settings]
    | ok resolved => simp [next, store, look, hkept, hfound, settings]

/-! What one step leaves and what it changes. -/

theorem resolver_store (s : Shared) (call : Call) :
    (s.store call).resolver.edition = s.resolver.edition ∧
      (s.store call).resolver.workspace = s.resolver.workspace := by
  unfold store
  split
  · simp only [keep]
    split <;> exact ⟨rfl, rfl⟩
  · exact ⟨rfl, rfl⟩

theorem period_store (s : Shared) (call : Call) : (s.store call).period = s.period := by
  unfold store
  split <;> rfl

theorem workspace_step (s : Shared) (event : Event) :
    (s.step event).resolver.workspace = s.resolver.workspace := by
  cases event with
  | begin document =>
    simp only [step, begin]
    split <;> rfl
  | advance n =>
    simp only [step, advance]
    split
    · exact (resolver_store s _).2
    · rfl
  | _ => rfl

theorem period_le_step (s : Shared) (event : Event) : s.period ≤ (s.step event).period := by
  cases event with
  | change host => exact Nat.le_refl _
  | refresh edition => exact Nat.le_succ _
  | begin document =>
    simp only [step, begin]
    split <;> exact Nat.le_refl _
  | advance n =>
    simp only [step, advance]
    split
    · exact Nat.le_of_eq (period_store s _).symm
    · exact Nat.le_refl _

/-- After a step a call is as it was, has begun, or has come one section further. -/
theorem mem_calls_step {s : Shared} {event : Event} {call : Call}
    (h : call ∈ (s.step event).calls) :
    call ∈ s.calls ∨
    (∃ host document, s.resolver.directoryFor host document = .ok call.directory ∧
      call.begunIn = s.period ∧ call.stage = .begun ∧ (s.step event).period = s.period) ∨
    ∃ old ∈ s.calls, call = { old with stage := s.next old } ∧
      (s.step event).period = s.period := by
  cases event with
  | change host => exact Or.inl h
  | refresh edition => exact Or.inl h
  | begin document =>
    simp only [step, begin] at h ⊢
    cases hdirectory : s.resolver.directoryFor s.host document with
    | error fault =>
      rw [hdirectory] at h
      exact Or.inl h
    | ok directory =>
      simp only [hdirectory, List.mem_append, List.mem_singleton] at h ⊢
      rcases h with h | rfl
      · exact Or.inl h
      · exact Or.inr (Or.inl ⟨s.host, document, hdirectory, rfl, rfl, trivial⟩)
  | advance n =>
    simp only [step, advance] at h ⊢
    cases hcall : s.calls[n]? with
    | none =>
      rw [hcall] at h
      exact Or.inl h
    | some old =>
      simp only [hcall] at h ⊢
      rcases List.mem_or_eq_of_mem_set h with h | rfl
      · exact Or.inl h
      · exact Or.inr (Or.inr ⟨old, List.mem_of_getElem? hcall, rfl, period_store s old⟩)

/-- What a section makes of a call that has found options: it had looked, and finds them now. -/
theorem looked_of_next {s : Shared} {call : Call} {edition : Edition} {resolved : Resolved}
    {readIn : Nat} (h : s.next call = .found edition resolved readIn) :
    call.stage = .looked edition ∧ readIn = s.period := by
  unfold next at h
  cases hstage : call.stage with
  | begun =>
    simp only [hstage] at h
    split at h <;> cases h
  | looked old =>
    simp only [hstage] at h
    split at h <;> cases h
    exact ⟨rfl, rfl⟩
  | _ => simp [hstage] at h

/-- A section that gives an answer takes it from what is kept, or from what the call has found. -/
theorem source_of_next {s : Shared} {call : Call} {edition : Edition} {resolved : Resolved}
    {readIn : Nat} (h : s.next call = .answered edition resolved readIn) :
    (s.resolver.kept.lookup call.directory = some resolved ∧
      readIn = (s.keptIn.lookup call.directory).getD 0) ∨
    call.stage = .found edition resolved readIn ∨ call.stage = .answered edition resolved readIn := by
  unfold next at h
  cases hstage : call.stage with
  | begun =>
    simp only [hstage, look] at h
    split at h <;> cases h
    rename_i hlook
    exact Or.inl ⟨congrArg Prod.fst hlook, rfl⟩
  | looked old =>
    simp only [hstage] at h
    split at h <;> cases h
  | found old found foundIn =>
    simp only [hstage, Stage.answered.injEq] at h
    obtain ⟨rfl, rfl, rfl⟩ := h
    exact Or.inr (Or.inl rfl)
  | answered old found foundIn =>
    simp only [hstage] at h
    exact Or.inr (Or.inr h)
  | raised => simp [hstage] at h

/-! Every call belongs to a document, and reads in its own period or later. -/

structure Fits (s : Shared) (call : Call) : Prop where
  document : ∃ host document, s.resolver.directoryFor host document = .ok call.directory
  begunIn : call.begunIn ≤ s.period
  readIn : ∀ edition resolved readIn, call.stage = .found edition resolved readIn →
    call.begunIn ≤ readIn ∧ readIn ≤ s.period

theorem Fits.mono {s s' : Shared} {call : Call} (h : s.Fits call)
    (hworkspace : s'.resolver.workspace = s.resolver.workspace) (hperiod : s.period ≤ s'.period) :
    s'.Fits call := by
  obtain ⟨⟨host, document, hdirectory⟩, hbegun, hread⟩ := h
  refine ⟨⟨host, document, ?_⟩, Nat.le_trans hbegun hperiod, fun edition resolved readIn hstage => ?_⟩
  · rw [← hdirectory]
    simp only [directoryFor, hworkspace]
  · have hread := hread edition resolved readIn hstage
    exact ⟨hread.1, Nat.le_trans hread.2 hperiod⟩

theorem Fits.step {s : Shared} (h : ∀ call ∈ s.calls, s.Fits call) (event : Event) :
    ∀ call ∈ (s.step event).calls, (s.step event).Fits call := by
  intro call hcall
  have hworkspace := workspace_step s event
  rcases mem_calls_step hcall with hold | ⟨host, document, hdirectory, hbegun, hstage, hperiod⟩ |
    ⟨old, hold, rfl, hperiod⟩
  · exact (h call hold).mono hworkspace (period_le_step s event)
  · have hfits : s.Fits call := ⟨⟨host, document, hdirectory⟩, Nat.le_of_eq hbegun, by simp [hstage]⟩
    exact hfits.mono hworkspace (Nat.le_of_eq hperiod.symm)
  · have hfits : s.Fits { old with stage := s.next old } := by
      refine ⟨(h old hold).document, (h old hold).begunIn, fun edition resolved readIn hstage => ?_⟩
      obtain ⟨-, rfl⟩ := looked_of_next hstage
      exact ⟨(h old hold).begunIn, Nat.le_refl _⟩
    exact hfits.mono hworkspace (Nat.le_of_eq hperiod.symm)

theorem Fits.run {s : Shared} (h : ∀ call ∈ s.calls, s.Fits call) (events : List Event) :
    ∀ call ∈ (s.run events).calls, (s.run events).Fits call := by
  induction events generalizing s with
  | nil => exact h
  | cons event rest ih => exact ih (Fits.step h event)

/-! From a refresh on that came when the resolver was clear for it. -/

/-- All that is kept was read in the present period, calls that are still to keep something read it
in this period too, and no call that began in one of the periods `since` has a stale answer. -/
structure Fresh (s : Shared) (since : Nat) : Prop where
  kept : ∀ directory, Option.Rel (fun _ readIn => readIn = s.period)
    (s.resolver.kept.lookup directory) (s.keptIn.lookup directory)
  found : ∀ call ∈ s.calls, ∀ edition resolved readIn,
    call.stage = .found edition resolved readIn →
    edition.identity = s.resolver.edition.identity → readIn = s.period
  answered : ∀ call ∈ s.calls, since ≤ call.begunIn → ¬ call.IsStale

theorem Fresh.refresh {s : Shared} {since : Nat} {edition : Edition}
    (hclear : s.IsClear edition)
    (hanswered : ∀ call ∈ s.calls, since ≤ call.begunIn → ¬ call.IsStale) :
    (s.step (.refresh edition)).Fresh since where
  kept _ := .none
  found call hcall old resolved readIn hstage hsame :=
    absurd hsame (hclear call hcall old resolved readIn hstage)
  answered := hanswered

theorem Fresh.store {s : Shared} {since : Nat} (h : s.Fresh since) {call : Call}
    (hcall : call ∈ s.calls) (directory : Option Path) :
    Option.Rel (fun _ readIn => readIn = s.period)
      ((s.store call).resolver.kept.lookup directory) ((s.store call).keptIn.lookup directory) := by
  unfold Shared.store
  cases hstage : call.stage with
  | found edition resolved readIn =>
    simp only [keep]
    split
    · -- Under the present settings a call that has found something read it in this period.
      rename_i hsame
      simp only [Pairs.lookup_set]
      split
      · exact .some (h.found call hcall edition resolved readIn hstage hsame.symm)
      · exact h.kept directory
    · exact h.kept directory
  | _ => exact h.kept directory

/-- A section of a call gives no stale answer. -/
theorem Fresh.next {s : Shared} {since : Nat} (h : s.Fresh since) {call : Call}
    (hcall : call ∈ s.calls) (hfits : s.Fits call) (hsince : since ≤ call.begunIn) :
    ¬ Call.IsStale { call with stage := s.next call } := by
  rintro ⟨edition, resolved, readIn, hstage, hstale⟩
  simp only at hstage hstale
  rcases source_of_next hstage with ⟨hkept, hreadIn⟩ | hfound | hanswered
  · have hrel := h.kept call.directory
    rw [hkept] at hrel
    cases hkeptIn : s.keptIn.lookup call.directory with
    | none => simp [hkeptIn] at hrel
    | some keptIn =>
      rw [hkeptIn, Option.rel_some_some] at hrel
      have hbegun := hfits.begunIn
      simp only [hkeptIn, Option.getD_some] at hreadIn
      omega
  · have hread := hfits.readIn _ _ _ hfound
    omega
  · exact h.answered call hcall hsince ⟨edition, resolved, readIn, hanswered, hstale⟩

theorem Fresh.step {s : Shared} {since : Nat} (h : s.Fresh since)
    (hfits : ∀ call ∈ s.calls, s.Fits call) {event : Event}
    (hclear : ∀ edition, event = .refresh edition → s.IsClear edition) :
    (s.step event).Fresh since := by
  cases event with
  | change host => exact ⟨h.kept, h.found, h.answered⟩
  | refresh edition => exact Fresh.refresh (hclear edition rfl) h.answered
  | begin document =>
    simp only [Shared.step, begin]
    split
    · refine ⟨h.kept, ?_, ?_⟩
      · intro call hcall edition resolved readIn hstage
        rcases List.mem_append.mp hcall with hcall | hcall
        · exact h.found call hcall edition resolved readIn hstage
        · cases List.mem_singleton.mp hcall
          cases hstage
      · intro call hcall hsince
        rcases List.mem_append.mp hcall with hcall | hcall
        · exact h.answered call hcall hsince
        · cases List.mem_singleton.mp hcall
          rintro ⟨edition, resolved, readIn, hstage, -⟩
          cases hstage
    · exact h
  | advance n =>
    simp only [Shared.step, advance]
    split
    · rename_i call hn
      have hcall := List.mem_of_getElem? hn
      have hperiod := period_store s call
      refine ⟨?_, ?_, ?_⟩
      · intro directory
        rw [hperiod]
        exact h.store hcall directory
      · intro other hother edition resolved readIn hstage hsame
        rw [(resolver_store s call).1] at hsame
        rw [hperiod]
        rcases List.mem_or_eq_of_mem_set hother with hother | rfl
        · exact h.found other hother edition resolved readIn hstage hsame
        · exact (looked_of_next hstage).2
      · intro other hother hsince
        rcases List.mem_or_eq_of_mem_set hother with hother | rfl
        · exact h.answered other hother hsince
        · exact h.next hcall (hfits call hcall) hsince
    · exact h

theorem Fresh.run {s : Shared} {since : Nat} (h : s.Fresh since)
    (hfits : ∀ call ∈ s.calls, s.Fits call) (events : List Event)
    (hclear : s.ClearThroughout events) : (s.run events).Fresh since := by
  induction events generalizing s with
  | nil => exact h
  | cons event rest ih => exact ih (h.step hfits hclear.1) (Fits.step hfits event) hclear.2

/-! What a call that comes too late brings back. -/

/-- A call that has found options under the present settings keeps them with their period. -/
theorem kept_of_found {s : Shared} {n : Nat} {call : Call} {edition : Edition}
    {resolved : Resolved} {readIn : Nat} (hcall : s.calls[n]? = some call)
    (hstage : call.stage = .found edition resolved readIn)
    (hsame : s.resolver.edition.identity = edition.identity) :
    (s.advance n).resolver.kept.lookup call.directory = some resolved ∧
      (s.advance n).keptIn.lookup call.directory = some readIn ∧
      (s.advance n).period = s.period := by
  simp only [advance, hcall, store, hstage, keep, hsame, if_true, Pairs.lookup_set, and_self]

/-- A call for a directory for which something is kept answers with it. -/
theorem answered_of_kept {s : Shared} {document directory : Option Path} {resolved : Resolved}
    {readIn : Nat} (hdirectory : s.resolver.directoryFor s.host document = .ok directory)
    (hkept : s.resolver.kept.lookup directory = some resolved)
    (hkeptIn : s.keptIn.lookup directory = some readIn) :
    ⟨directory, s.period, .answered s.resolver.edition resolved readIn⟩ ∈
      ((s.begin document).advance s.calls.length).calls := by
  rw [begin_ok hdirectory, advance_last rfl]
  simp [next, look, hkept, hkeptIn]

/-- A call that has found options under the settings of a refresh brings them back after it. -/
theorem stale_of_found {s : Shared} {call : Call} {old edition : Edition} {resolved : Resolved}
    {readIn : Nat} (hcall : call ∈ s.calls) (hfits : s.Fits call)
    (hstage : call.stage = .found old resolved readIn)
    (hsame : old.identity = edition.identity) :
    ∃ after, (s.step (.refresh edition)).ClearThroughout after ∧
      ∃ late ∈ ((s.step (.refresh edition)).run after).calls,
        s.period < late.begunIn ∧ late.IsStale := by
  obtain ⟨n, hn⟩ := List.getElem?_of_mem hcall
  obtain ⟨⟨host, document, hdirectory⟩, -, hread⟩ := hfits
  have hreadIn := (hread old resolved readIn hstage).2
  let refreshed := s.step (.refresh edition)
  let kept := refreshed.advance n
  obtain ⟨hkept, hkeptIn, hperiod⟩ := kept_of_found (s := refreshed) hn hstage hsame.symm
  have hworkspace : kept.resolver.workspace = s.resolver.workspace :=
    workspace_step refreshed (.advance n)
  have hbegin : kept.resolver.directoryFor host document = .ok call.directory := by
    rw [← hdirectory]
    simp only [directoryFor, hworkspace]
  refine ⟨[.advance n, .change host, .begin document, .advance kept.calls.length], ?_, _,
    answered_of_kept (s := { kept with host }) hbegin hkept hkeptIn, ?_, ?_⟩
  · simp [ClearThroughout]
  · show s.period < kept.period
    rw [hperiod]
    exact Nat.lt_succ_self _
  · refine ⟨_, _, _, rfl, ?_⟩
    show readIn < kept.period
    rw [hperiod]
    exact Nat.lt_succ_of_le hreadIn

/-- A refresh keeps what was read before it from all later calls, as long as the refreshes behind it
are clear, exactly if no call has found options under the same settings and is still to keep
them. -/
theorem refresh_forgets_iff_clear (host : Host) (edition : Edition) (workspace : Option Path)
    (before : List Event) (renewed : Edition) :
    let s := (start host edition workspace).run before
    (∀ after, (s.step (.refresh renewed)).ClearThroughout after →
      ∀ call ∈ ((s.step (.refresh renewed)).run after).calls,
        s.period < call.begunIn → ¬ call.IsStale) ↔
    s.IsClear renewed := by
  intro s
  have hfits : ∀ call ∈ s.calls, s.Fits call :=
    Fits.run (s := start host edition workspace) (by simp [start]) before
  constructor
  · intro h call hcall old resolved readIn hstage hsame
    obtain ⟨after, hafter, late, hlate, hlater, hstale⟩ :=
      stale_of_found hcall (hfits call hcall) hstage hsame
    exact h after hafter late hlate hlater hstale
  · intro hclear after hafter call hcall hlater
    have hanswered : ∀ call ∈ s.calls, s.period + 1 ≤ call.begunIn → ¬ call.IsStale := by
      intro call hcall hbegun
      have := (hfits call hcall).begunIn
      omega
    have hfresh : (s.step (.refresh renewed)).Fresh (s.period + 1) := .refresh hclear hanswered
    exact (hfresh.run (Fits.step hfits _) after hafter).answered call hcall hlater

/-- A refresh with the settings in use, between the sections of a call, lets the next call answer
with what the file held before. -/
theorem same_settings_bring_back :
    ¬ Holds (optionsHost []) ⟨.root, [".htmlTidy"]⟩ .empty ∧
    ⟨some ⟨.root, []⟩, 1, .answered ⟨0, {}⟩ ⟨.empty, some ⟨.root, [".htmlTidy"]⟩, []⟩ 0⟩ ∈
      ((start (optionsHost [0x7B, 0x7D]) ⟨0, {}⟩ none).run
        [.begin (some ⟨.root, ["a.html"]⟩), .advance 0, .advance 0, .change (optionsHost []),
          .refresh ⟨0, {}⟩, .advance 0, .begin (some ⟨.root, ["a.html"]⟩), .advance 1]).calls := by
  refine ⟨optionsHost.not_holds_nothing .empty, ?_⟩
  simp [run, step, start, begin, directoryFor_page, advance, next, store, look, keep, ofSettings,
    optionsHost.find_empty, refresh, Pairs.set]

end Shared

end MarkupTidy.Resolver
