import MarkupTidy.Proofs.Resolver.Interleaving
import Mathlib.Data.List.Induction

/-!
Where the options in a shared resolver come from. Whatever is kept was found by a call for the
directory under which it is kept, and by the settings that are present as long as it is kept: a
refresh forgets everything, and what is found under other settings is not kept behind it, however
late the call comes. So a call answers with what was found under the settings that it met first.
-/
namespace MarkupTidy.Resolver.Shared

/-- In the course of the events a call searches a directory under these settings, and finds. -/
def Finds (first : Shared) (events : List Event) (made : Edition) (directory : Option Path)
    (resolved : Resolved) : Prop :=
  ∃ before n after call, events = before ++ .advance n :: after ∧
    (first.run before).calls[n]? = some call ∧ call.directory = directory ∧
    call.stage = .looked made ∧
    (Resolved.find (first.run before).host made.settings directory).value = .ok resolved

/-- In the course of the events call `n` has its first section, and meets these settings. -/
def Meets (first : Shared) (events : List Event) (n : Nat) (edition : Edition) : Prop :=
  ∃ before after call, events = before ++ .advance n :: after ∧
    (first.run before).calls[n]? = some call ∧ call.stage = .begun ∧
    (first.run before).resolver.edition = edition

/-- The settings that are handed over, at the start and by refreshes. -/
def editions (edition : Edition) (events : List Event) : List Edition :=
  edition :: events.filterMap fun event => match event with
    | .refresh edition => some edition
    | _ => none

/-- Two of the settings handed over are one object. They are the same settings then, if no object
is handed over with settings that have changed. -/
def OneObject (handed : List Edition) (a b : Edition) : Prop :=
  a ∈ handed ∧ b ∈ handed ∧ a.identity = b.identity ∧
    ((∀ x ∈ handed, ∀ y ∈ handed, x.identity = y.identity → x = y) → a = b)

theorem OneObject.of_identity {handed : List Edition} {a b : Edition} (ha : a ∈ handed)
    (hb : b ∈ handed) (h : a.identity = b.identity) : OneObject handed a b :=
  ⟨ha, hb, h, fun hobjects => hobjects a ha b hb h⟩

theorem run_concat (first : Shared) (events : List Event) (event : Event) :
    first.run (events ++ [event]) = (first.run events).step event := by
  simp [run]

section History

variable {first : Shared} {events : List Event} {event : Event}

theorem Finds.concat {made : Edition} {directory : Option Path} {resolved : Resolved}
    (h : first.Finds events made directory resolved) :
    first.Finds (events ++ [event]) made directory resolved := by
  obtain ⟨before, n, after, call, rfl, hrest⟩ := h
  exact ⟨before, n, after ++ [event], call, by simp, hrest⟩

theorem Meets.concat {n : Nat} {edition : Edition} (h : first.Meets events n edition) :
    first.Meets (events ++ [event]) n edition := by
  obtain ⟨before, after, call, rfl, hrest⟩ := h
  exact ⟨before, after ++ [event], call, by simp, hrest⟩

/-- A section that has just come finds something. -/
theorem Finds.last {n : Nat} {call : Call} {made : Edition} {resolved : Resolved}
    (hcall : (first.run events).calls[n]? = some call) (hstage : call.stage = .looked made)
    (hfind : (Resolved.find (first.run events).host made.settings call.directory).value =
      .ok resolved) :
    first.Finds (events ++ [.advance n]) made call.directory resolved :=
  ⟨events, n, [], call, rfl, hcall, rfl, hstage, hfind⟩

theorem Meets.last {n : Nat} {call : Call}
    (hcall : (first.run events).calls[n]? = some call) (hstage : call.stage = .begun) :
    first.Meets (events ++ [.advance n]) n (first.run events).resolver.edition :=
  ⟨events, [], call, rfl, hcall, hstage, rfl⟩

end History

theorem edition_step (s : Shared) (event : Event) :
    (s.step event).resolver.edition = s.resolver.edition ∨
      event = .refresh (s.step event).resolver.edition := by
  cases event with
  | change host => exact Or.inl rfl
  | refresh edition => exact Or.inr rfl
  | begin document =>
    refine Or.inl ?_
    simp only [step, begin]
    split <;> rfl
  | advance n =>
    refine Or.inl ?_
    simp only [step, advance]
    split
    · exact (resolver_store s _).1
    · rfl

theorem editions_append (edition : Edition) (events more : List Event) :
    ∀ handed ∈ editions edition events, handed ∈ editions edition (events ++ more) := by
  intro handed hhanded
  simp only [editions, List.filterMap_append, List.mem_cons, List.mem_append] at hhanded ⊢
  exact hhanded.imp_right Or.inl

/-- The present settings are among those handed over. -/
theorem edition_mem_editions (host : Host) (edition : Edition) (workspace : Option Path)
    (events : List Event) :
    ((start host edition workspace).run events).resolver.edition ∈ editions edition events := by
  induction events using List.reverseRecOn with
  | nil => exact List.mem_cons_self
  | append_singleton events event ih =>
    rw [run_concat]
    rcases edition_step ((start host edition workspace).run events) event with hsame | hrefresh
    · rw [hsame]
      exact editions_append edition events [event] _ ih
    · refine List.mem_cons_of_mem _ (List.mem_filterMap.2 ⟨event, by simp, ?_⟩)
      rw [hrefresh]
      rfl

/-- A call after a step is one that was there before, has begun, or has had its next section. -/
theorem get_calls_step {s : Shared} {event : Event} {n : Nat} {call : Call}
    (h : (s.step event).calls[n]? = some call) :
    s.calls[n]? = some call ∨ call.stage = .begun ∨
      event = .advance n ∧ ∃ old, s.calls[n]? = some old ∧
        call = { old with stage := s.next old } := by
  cases event with
  | change host => exact Or.inl h
  | refresh edition => exact Or.inl h
  | begin document =>
    simp only [step, begin] at h
    split at h
    · rcases Nat.lt_or_ge n s.calls.length with hlt | hge
      · rw [List.getElem?_append_left hlt] at h
        exact Or.inl h
      · rw [List.getElem?_append_right hge, List.getElem?_singleton] at h
        split at h <;> cases h
        exact Or.inr (Or.inl rfl)
    · exact Or.inl h
  | advance m =>
    simp only [step, advance] at h
    split at h
    · next old hold =>
      simp only [List.getElem?_set'] at h
      by_cases hm : m = n
      · subst hm
        simp only [hold, if_true, Option.map_eq_map, Option.map_some, Function.const_apply,
          Option.some.injEq] at h
        exact Or.inr (Or.inr ⟨rfl, old, hold, h.symm⟩)
      · rw [if_neg hm] at h
        exact Or.inl h
    · exact Or.inl h

/-- What a call has met and found so far. -/
def IsTraced (first : Shared) (events : List Event) (n : Nat) (call : Call) : Prop :=
  match call.stage with
  | .looked edition => first.Meets events n edition
  | .found edition resolved _ =>
    first.Meets events n edition ∧ first.Finds events edition call.directory resolved
  | .answered edition resolved _ =>
    first.Meets events n edition ∧ ∃ made, made.identity = edition.identity ∧
      first.Finds events made call.directory resolved
  | _ => True

/-- What holds of a resolver after some events. -/
structure Traced (first : Shared) (events : List Event) : Prop where
  kept : ∀ entry ∈ (first.run events).resolver.kept, ∃ made,
    made.identity = (first.run events).resolver.edition.identity ∧
      first.Finds events made entry.1 entry.2
  calls : ∀ (n : Nat) (call : Call), (first.run events).calls[n]? = some call →
    first.IsTraced events n call

theorem IsTraced.concat {first : Shared} {events : List Event} {n : Nat} {call : Call}
    (h : first.IsTraced events n call) (event : Event) :
    first.IsTraced (events ++ [event]) n call := by
  unfold IsTraced at h ⊢
  split at h
  · exact h.concat
  · exact ⟨h.1.concat, h.2.concat⟩
  · obtain ⟨hmeets, made, hsame, hfinds⟩ := h
    exact ⟨hmeets.concat, made, hsame, hfinds.concat⟩
  · trivial

theorem Traced.next {first : Shared} {events : List Event} (h : first.Traced events) {n : Nat}
    {call : Call} (hcall : (first.run events).calls[n]? = some call) :
    first.IsTraced (events ++ [.advance n]) n
      { call with stage := (first.run events).next call } := by
  have htraced := (h.calls n call hcall).concat (.advance n)
  unfold Shared.next
  cases hstage : call.stage with
  | begun =>
    simp only [look]
    cases hkept : (first.run events).resolver.kept.lookup call.directory with
    | none => exact Meets.last hcall hstage
    | some resolved =>
      obtain ⟨made, hsame, hfinds⟩ := h.kept (call.directory, resolved) (Pairs.mem_of_lookup hkept)
      exact ⟨Meets.last hcall hstage, made, hsame, hfinds.concat⟩
  | looked edition =>
    simp only [IsTraced, hstage] at htraced
    simp only
    split
    · next resolved hfind =>
      have hfinds : first.Finds (events ++ [.advance n]) edition call.directory resolved :=
        .last hcall hstage hfind
      exact ⟨htraced, hfinds⟩
    · trivial
  | found edition resolved readIn =>
    simp only [IsTraced, hstage] at htraced
    exact ⟨htraced.1, edition, rfl, htraced.2⟩
  | answered edition resolved readIn =>
    simp only [IsTraced, hstage] at htraced
    exact htraced
  | raised => trivial

/-- Nothing is kept that was found under other settings than the present ones. -/
theorem Traced.store {first : Shared} {events : List Event} (h : first.Traced events) {n : Nat}
    {call : Call} (hcall : (first.run events).calls[n]? = some call)
    {entry : Option Path × Resolved}
    (hentry : entry ∈ ((first.run events).store call).resolver.kept) :
    ∃ made, made.identity = (first.run events).resolver.edition.identity ∧
      first.Finds events made entry.1 entry.2 := by
  have htraced := h.calls n call hcall
  unfold Shared.store at hentry
  cases hstage : call.stage with
  | found edition resolved readIn =>
    simp only [hstage, keep] at hentry
    split at hentry
    · next hsame =>
      rcases Pairs.mem_set hentry with hold | rfl
      · exact h.kept entry hold
      · simp only [IsTraced, hstage] at htraced
        exact ⟨edition, hsame.symm, htraced.2⟩
    · exact h.kept entry hentry
  | _ =>
    simp only [hstage] at hentry
    exact h.kept entry hentry

theorem Traced.kept_step {first : Shared} {events : List Event} (h : first.Traced events)
    (event : Event) {entry : Option Path × Resolved}
    (hentry : entry ∈ ((first.run events).step event).resolver.kept) :
    ∃ made, made.identity = ((first.run events).step event).resolver.edition.identity ∧
      first.Finds events made entry.1 entry.2 := by
  cases event with
  | change host => exact h.kept entry hentry
  | refresh edition => cases hentry
  | begin document =>
    simp only [step, begin] at hentry ⊢
    split at hentry <;> exact h.kept entry hentry
  | advance n =>
    simp only [step, advance] at hentry ⊢
    split at hentry
    · next call hcall =>
      rw [(resolver_store _ call).1]
      exact h.store hcall hentry
    · exact h.kept entry hentry

theorem Traced.step {first : Shared} {events : List Event} (h : first.Traced events)
    (event : Event) : first.Traced (events ++ [event]) := by
  constructor
  · intro entry hentry
    rw [run_concat] at hentry ⊢
    obtain ⟨made, hsame, hfinds⟩ := h.kept_step event hentry
    exact ⟨made, hsame, hfinds.concat⟩
  · intro n call hcall
    rw [run_concat] at hcall
    rcases get_calls_step hcall with hold | hbegun | ⟨rfl, old, hold, rfl⟩
    · exact (h.calls n call hold).concat event
    · simp [IsTraced, hbegun]
    · exact h.next hold

theorem traced_run (host : Host) (edition : Edition) (workspace : Option Path)
    (events : List Event) : (start host edition workspace).Traced events := by
  induction events using List.reverseRecOn with
  | nil => exact ⟨fun _ hentry => (List.not_mem_nil hentry).elim, fun _ _ hcall => nomatch hcall⟩
  | append_singleton events event ih => exact ih.step event

theorem Meets.mem_editions {host : Host} {edition met : Edition} {workspace : Option Path}
    {events : List Event} {n : Nat} (h : (start host edition workspace).Meets events n met) :
    met ∈ editions edition events := by
  obtain ⟨before, after, call, rfl, -, -, rfl⟩ := h
  exact editions_append edition before _ _ (edition_mem_editions host edition workspace before)

theorem Finds.mem_editions {host : Host} {edition made : Edition} {workspace : Option Path}
    {events : List Event} {directory : Option Path} {resolved : Resolved}
    (h : (start host edition workspace).Finds events made directory resolved) :
    made ∈ editions edition events := by
  obtain ⟨before, n, after, call, rfl, hcall, -, hstage, -⟩ := h
  have htraced := (traced_run host edition workspace before).calls n call hcall
  simp only [IsTraced, hstage] at htraced
  exact editions_append edition before _ _ htraced.mem_editions

/-- In every interleaving of calls, refreshes and changes of the files, each entry that is kept was
found for its own directory under the present settings object, and each call that returns answers
with what was found for its directory under the settings object that its first section met. -/
theorem kept_under_present_settings (host : Host) (edition : Edition) (workspace : Option Path)
    (events : List Event) :
    let first := start host edition workspace
    let s := first.run events
    (∀ entry ∈ s.resolver.kept, ∃ made,
      OneObject (editions edition events) made s.resolver.edition ∧
        first.Finds events made entry.1 entry.2) ∧
    ∀ (n : Nat) (call : Call) (met : Edition) (resolved : Resolved) (readIn : Nat),
      s.calls[n]? = some call → call.stage = .answered met resolved readIn →
      first.Meets events n met ∧ ∃ made, OneObject (editions edition events) made met ∧
        first.Finds events made call.directory resolved := by
  intro first s
  have htraced : first.Traced events := traced_run host edition workspace events
  constructor
  · intro entry hentry
    obtain ⟨made, hsame, hfinds⟩ := htraced.kept entry hentry
    exact ⟨made, .of_identity hfinds.mem_editions
      (edition_mem_editions host edition workspace events) hsame, hfinds⟩
  · intro n call met resolved readIn hcall hstage
    have hanswer := htraced.calls n call hcall
    simp only [IsTraced, hstage] at hanswer
    obtain ⟨hmeets, made, hsame, hfinds⟩ := hanswer
    exact ⟨hmeets, made, .of_identity hfinds.mem_editions hmeets.mem_editions hsame, hfinds⟩

end MarkupTidy.Resolver.Shared
