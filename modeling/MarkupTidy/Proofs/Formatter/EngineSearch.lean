import MarkupTidy.Proofs.Formatter.KnownEngine
import MarkupTidy.Proofs.Formatter.Reasons

/-!
When the engine is looked for. The first request after a refresh that has a text to go on with looks
for it; all requests up to the next refresh go by what it found, whatever becomes of the files
meanwhile. The warnings of the search are told by this first request, and by the later ones only if
there is no engine to use.
-/
namespace MarkupTidy.Bench

/-- In this step a request begins that has a text, so that it needs an engine. -/
def NeedsEngine (b : Bench) : BenchEvent → Prop
  | .desk (.resume _) => ∃ id document, b.desk.IsToBegin id document ∧
      document.HasText b.desk.host
  | .lint name => ∃ document, b.desk.documents.lookup name = some document ∧
      document.HasText b.desk.host
  | _ => False

/-- What a search for the engine finds after some events, by the settings of the last refresh. -/
def searchAfter (first : Bench) (edition : Edition) (events : List BenchEvent) : Lookup :=
  ((first.run events).desk.host.findEngine
    (presentEdition edition events).settings.executable).value

/-- Since the last refresh no request needed an engine. -/
def Unneeded (first : Bench) (events : List BenchEvent) : Prop :=
  ∀ before event after, events = before ++ event :: after →
    (∀ later ∈ after, later.refresh? = none) → ¬ (first.run before).NeedsEngine event

/-- The first request since the last refresh that needed an engine began after the earlier
events. -/
def FirstNeed (first : Bench) (events earlier : List BenchEvent) : Prop :=
  ∃ event after, events = earlier ++ event :: after ∧ (first.run earlier).NeedsEngine event ∧
    (∀ later ∈ after, later.refresh? = none) ∧ first.Unneeded earlier

/-- The search that a request goes by which begins after some events, and what it tells of the
warnings. -/
inductive GoesBy (first : Bench) (edition : Edition) (events : List BenchEvent) :
    Lookup → List String → Prop
  | itself (hnone : first.Unneeded events) : GoesBy first edition events
      (first.searchAfter edition events) (first.searchAfter edition events).warnings
  | again {earlier : List BenchEvent} (hfirst : first.FirstNeed events earlier) :
      GoesBy first edition events (first.searchAfter edition earlier)
        (first.searchAfter edition earlier).toldAgain

/-- What the formatter holds is what the first search found since the last refresh. -/
def Sought (first : Bench) (edition : Edition) (events : List BenchEvent) : Option Lookup → Prop
  | none => first.Unneeded events
  | some lookup => ∃ earlier, first.FirstNeed events earlier ∧
      lookup = first.searchAfter edition earlier

section Search

variable {first : Bench} {edition : Edition} {events earlier : List BenchEvent}
  {event : BenchEvent}

theorem unneeded_concat : first.Unneeded (events ++ [event]) ↔
    ¬ (first.run events).NeedsEngine event ∧
      (event.refresh? = none → first.Unneeded events) := by
  constructor
  · intro h
    refine ⟨h events event [] rfl fun _ hlater => (List.not_mem_nil hlater).elim,
      fun hrefresh before other after hevents hafter => ?_⟩
    refine h before other (after ++ [event]) (by simp [hevents]) fun later hlater => ?_
    rcases List.mem_append.1 hlater with hold | hlast
    · exact hafter later hold
    · rw [List.mem_singleton.1 hlast, hrefresh]
  · rintro ⟨hlast, hbefore⟩ before other after hevents hafter
    rcases List.eq_nil_or_concat after with rfl | ⟨after, last, rfl⟩
    · obtain ⟨rfl, hsame⟩ := List.append_inj' hevents rfl
      cases hsame
      exact hlast
    · have hsplit : events ++ [event] = (before ++ other :: after) ++ [last] := by
        simpa using hevents
      obtain ⟨rfl, hsame⟩ := List.append_inj' hsplit rfl
      cases hsame
      exact hbefore (hafter event (by simp)) before other after rfl
        fun later hlater => hafter later (by simp [hlater])

theorem FirstNeed.concat (h : first.FirstNeed events earlier) (hrefresh : event.refresh? = none) :
    first.FirstNeed (events ++ [event]) earlier := by
  obtain ⟨needing, after, rfl, hneeds, hafter, hnone⟩ := h
  refine ⟨needing, after ++ [event], by simp, hneeds, fun later hlater => ?_, hnone⟩
  rcases List.mem_append.1 hlater with hold | hlast
  · exact hafter later hold
  · rw [List.mem_singleton.1 hlast, hrefresh]

theorem NeedsEngine.begins {b : Bench} (h : b.NeedsEngine event) : b.Begins event := by
  cases event with
  | desk event =>
    cases event with
    | resume useResult =>
      obtain ⟨id, document, hto, -⟩ := h
      exact ⟨id, document, hto⟩
    | _ => cases h
  | lint name =>
    obtain ⟨document, hname, -⟩ := h
    exact Option.isSome_iff_exists.2 ⟨document, hname⟩
  | _ => cases h

/-- A step in which no settings are taken over looks for the engine if a request needs it, and
otherwise leaves what was found as it is. -/
theorem lookup_step {b : Bench} (hrefresh : event.refresh? = none) :
    b.NeedsEngine event ∧ (b.step event).desk.formatter.lookup =
        (b.desk.formatter.findEngine b.desk.host).value.2.lookup ∨
      ¬ b.NeedsEngine event ∧ (b.step event).desk.formatter.lookup = b.desk.formatter.lookup := by
  by_cases hbegins : b.Begins event
  · cases event with
    | desk event =>
      cases event with
      | resume useResult =>
        obtain ⟨id, document, hto⟩ := hbegins
        have hformatter : (b.step (.desk (.resume useResult))).desk.formatter =
            (b.desk.formatter.beginRequest b.desk.host document).value.2 :=
          hto.formatter_resume useResult
        rw [hformatter]
        refine Formatter.lookup_beginRequest.imp (And.imp_left fun htext => ?_)
          (And.imp_left fun htext => ?_)
        · exact ⟨id, document, hto, htext⟩
        · rintro ⟨id', document', hto', htext'⟩
          obtain ⟨-, rfl⟩ := hto.unique hto'
          exact htext htext'
      | _ => cases hbegins
    | lint name =>
      obtain ⟨document, hname⟩ := Option.isSome_iff_exists.1 hbegins
      -- a lint request leaves the formatter as a format request for the document would
      have hformatter : (b.step (.lint name)).desk.formatter =
          (b.desk.formatter.beginRequest b.desk.host document).value.2 := by
        rw [← Formatter.formatter_beginLint]
        simp only [step, lint, hname]
      rw [hformatter]
      refine Formatter.lookup_beginRequest.imp (And.imp_left fun htext => ?_)
        (And.imp_left fun htext => ?_)
      · exact ⟨document, hname, htext⟩
      · rintro ⟨document', hname', htext'⟩
        cases hname.symm.trans hname'
        exact htext htext'
    | _ => cases hbegins
  · exact Or.inr ⟨fun hneeds => hbegins hneeds.begins,
      congrArg Formatter.lookup (formatter_step hbegins hrefresh)⟩

/-- What the formatter holds is kept by a step as what the first search found. -/
theorem sought_step (h : first.Settled edition events)
    (hsought : first.Sought edition events (first.run events).desk.formatter.lookup) :
    first.Sought edition (events ++ [event])
      ((first.run events).step event).desk.formatter.lookup := by
  cases hrefresh : event.refresh? with
  | some later =>
    obtain rfl := BenchEvent.refresh?_eq_some hrefresh
    refine unneeded_concat.2 ⟨nofun, fun hnone => ?_⟩
    cases hnone
  | none =>
    -- what was found before stays; if nothing was, a request that needs an engine is the first one
    cases hlookup : (first.run events).desk.formatter.lookup with
    | none =>
      rw [hlookup] at hsought
      rcases lookup_step hrefresh with ⟨hneeds, hafter⟩ | ⟨hnot, hafter⟩
      · rw [hafter, Formatter.findEngine_first hlookup, h.current.settings]
        exact ⟨events, ⟨event, [], rfl, hneeds, fun _ hlater => (List.not_mem_nil hlater).elim,
          hsought⟩, rfl⟩
      · rw [hafter, hlookup]
        exact unneeded_concat.2 ⟨hnot, fun _ => hsought⟩
    | some lookup =>
      rw [hlookup] at hsought
      have hkept : ((first.run events).step event).desk.formatter.lookup = some lookup := by
        rcases lookup_step hrefresh with ⟨-, hafter⟩ | ⟨-, hafter⟩
        · rw [hafter, Formatter.findEngine_again hlookup, hlookup]
        · rw [hafter, hlookup]
      obtain ⟨earlier, hfirst, hsame⟩ := hsought
      rw [hkept]
      exact ⟨earlier, hfirst.concat hrefresh, hsame⟩

end Search

/-- Whatever happens, the formatter holds what the first search found since the last refresh. -/
theorem sought_run (host : Host) (edition : Edition) (workspace : Option Path)
    (documents : List (String × Document)) (events : List BenchEvent) :
    let first := start host edition workspace documents
    first.Sought edition events (first.run events).desk.formatter.lookup := by
  intro first
  induction events using List.reverseRecOn with
  | nil =>
    rintro before event after hevents
    simp at hevents
  | append_singleton events event ih =>
    rw [run_concat]
    exact sought_step (settled_run host edition workspace documents events) ih

/-- What a request finds that begins after some events, and what it tells of the warnings. -/
theorem Sought.goesBy {first : Bench} {edition : Edition} {events : List BenchEvent}
    (h : first.Sought edition events (first.run events).desk.formatter.lookup)
    (hsettings : (first.run events).desk.formatter.settings =
      (presentEdition edition events).settings) :
    ∃ lookup told, first.GoesBy edition events lookup told ∧
      ((first.run events).desk.formatter.findEngine (first.run events).desk.host).value.1 =
        ⟨lookup.path, told⟩ := by
  cases hlookup : (first.run events).desk.formatter.lookup with
  | none =>
    rw [hlookup] at h
    refine ⟨_, _, .itself h, ?_⟩
    rw [Formatter.findEngine_first hlookup, hsettings]
    rfl
  | some lookup =>
    rw [hlookup] at h
    obtain ⟨earlier, hfirst, rfl⟩ := h
    refine ⟨_, _, .again hfirst, ?_⟩
    rw [Formatter.findEngine_again hlookup]

/-- How a format request begins that knows its engine. -/
def beginsBy (b : Bench) (path : Option String) (document : Document) : Begun :=
  ((b.desk.formatter.knowing path).beginRequest b.desk.host document).value.1

def lintsBy (b : Bench) (path : Option String) (document : Document) : LintStage :=
  ((b.desk.formatter.knowing path).beginLint b.desk.host document).value.1

/-- What a format request that has begun gives in the course of the events, but for what it has to
tell in front. -/
inductive Gives (first : Bench) (events : List BenchEvent) (id : Nat) (told : List String) :
    Begun → Outcome → Prop
  | atOnce {own : Outcome} : Gives first events id told (.settled own) own
  | byJob {later : List BenchEvent} {document : Document} {job : Job} {own : Outcome}
      (hturn : first.FinishesOn events id later document (job.telling told))
      (hown : (Formatter.finishRequest (first.run later).desk.host job document).value.1 =
        .ok own) : Gives first events id told (.running job) own

/-- In the course of the events, after the earlier ones, a lint request begins on a document. -/
def LintBeginsOn (first : Bench) (events : List BenchEvent) (n : Nat) (before : List BenchEvent)
    (document : Document) : Prop :=
  ∃ name after, events = before ++ .lint name :: after ∧ (first.run before).lints.length = n ∧
    (first.run before).desk.documents.lookup name = some document

section Requests

variable {first : Bench} {edition : Edition} {events : List BenchEvent} {id n : Nat}

/-- What is told when a format request begins. -/
theorem format_goesBy (h : first.Settled edition events)
    (hsought : first.Sought edition events (first.run events).desk.formatter.lookup)
    {document : Document} (hto : (first.run events).desk.IsToBegin id document)
    (htext : document.HasText (first.run events).desk.host) (useResult : Bool) :
    ∃ lookup told r, first.GoesBy edition events lookup told ∧
      ((first.run events).step (.desk (.resume useResult))).desk.requests[id]? = some r ∧
      r.stage = (((first.run events).beginsBy lookup.path document).telling told).stage ∧
      ∀ job, r.stage = .running job → lookup.path = some job.launched.executable := by
  obtain ⟨lookup, told, hgoes, hfound⟩ := hsought.goesBy h.current.settings
  obtain ⟨r, hr, hstage⟩ := hto.get_resume useResult
  refine ⟨lookup, told, r, hgoes, hr, ?_, fun job hjob => ?_⟩
  · rw [hstage, Formatter.beginRequest_telling htext, hfound]
    rfl
  · rw [hstage] at hjob
    have hruns := Formatter.executable_beginRequest (Begun.eq_running hjob)
    rwa [hfound] at hruns

theorem lint_goesBy (h : first.Settled edition events)
    (hsought : first.Sought edition events (first.run events).desk.formatter.lookup)
    {name : String} {document : Document}
    (hname : (first.run events).desk.documents.lookup name = some document)
    (htext : document.HasText (first.run events).desk.host) :
    ∃ lookup told stage, first.GoesBy edition events lookup told ∧
      ((first.run events).step (.lint name)).lints[(first.run events).lints.length]? = some stage ∧
      stage = ((first.run events).lintsBy lookup.path document).telling told ∧
      ∀ job, stage = .running job → lookup.path = some job.launched.executable := by
  obtain ⟨lookup, told, hgoes, hfound⟩ := hsought.goesBy h.current.settings
  have hbegins := Formatter.beginLint_telling (f := (first.run events).desk.formatter) htext
  rw [hfound] at hbegins
  refine ⟨lookup, told, _, hgoes, ?_, hbegins, fun job hjob => ?_⟩
  · simp only [step, lint, hname]
    exact List.getElem?_concat_length
  · have hruns := Formatter.executable_beginLint hjob
    rwa [hfound] at hruns

/-- A format request that returns an outcome of its own has begun. -/
theorem begins_of_returned (h : first.Settled edition events) {r : Request} {outcome : Outcome}
    (hfound : (first.run events).desk.requests[id]? = some r)
    (hreturned : r.stage = .returned (.ok outcome)) (hown : outcome.status ≠ .superseded) :
    ∃ before document, first.BeginsOn events id before document := by
  have hstage := h.requests id r hfound
  rw [hreturned] at hstage
  cases hstage with
  | givesWay hstopped => exact absurd rfl hown
  | atOnce hbegins hresult | byJob hbegins hfinishes =>
    obtain ⟨before, useResult, after, document, prepared, hevents, hto, -⟩ := hbegins
    exact ⟨before, document, useResult, after, hevents, hto⟩

/-- What a format request tells that returns an outcome of its own after it has begun. -/
theorem returned_telling {b : Bench} (horderly : Desk.Orderly b.desk) {more : List BenchEvent}
    {begun : Begun} {told : List String} {r r' : Request} {outcome : Outcome}
    (hbegun : b.desk.requests[id]? = some r) (hstage : r.stage = (begun.telling told).stage)
    (hfound : (b.run more).desk.requests[id]? = some r')
    (hreturned : r'.stage = .returned (.ok outcome)) (hown : outcome.status ≠ .superseded) :
    ∃ own, b.Gives more id told begun own ∧ outcome = own.telling told := by
  have hover : ∀ {result}, r.stage.result? = some result → result = .ok outcome := by
    intro result hresult
    obtain ⟨last, hlast, hresult'⟩ := result_run horderly hbegun hresult more
    cases hfound.symm.trans hlast
    rw [hreturned] at hresult'
    rcases hresult' with hsame | hcancelled
    · exact (Option.some.inj hsame).symm
    · cases hcancelled
  cases begun with
  | settled own =>
    have hsame : Except.ok (own.telling told) = .ok outcome := hover (by rw [hstage]; rfl)
    cases hsame
    exact ⟨own, .atOnce, rfl⟩
  | raised fault =>
    have hsame : Except.error fault = .ok outcome := hover (by rw [hstage]; rfl)
    cases hsame
  | running job =>
    obtain ⟨last, hlast, hgoes⟩ := goesOn_run horderly hbegun (Or.inl hstage) more
    cases hfound.symm.trans hlast
    rw [hreturned] at hgoes
    cases hgoes with
    | givesWay hstopped => exact absurd rfl hown
    | finishes hfinishes =>
      obtain ⟨later, useResult, after, document, hmore, hto, hresult⟩ := hfinishes
      have hturn : b.FinishesOn more id later document (job.telling told) :=
        ⟨useResult, after, hmore, hto⟩
      rw [Formatter.finishRequest_telling] at hresult
      obtain ⟨own, hquiet, htelling⟩ := eq_ok_of_map hresult.symm
      exact ⟨own, .byJob hturn hquiet, htelling⟩

/-- What is given after some events is given in the course of all of them. -/
theorem Gives.after {before more : List BenchEvent} {event : BenchEvent} {told : List String}
    {begun : Begun} {own : Outcome}
    (h : ((first.run before).step event).Gives more id told begun own) :
    first.Gives (before ++ event :: more) id told begun own := by
  cases h with
  | atOnce => exact .atOnce
  | @byJob later document job own hturn hown =>
    obtain ⟨useResult, after, rfl, hto⟩ := hturn
    rw [← run_append_cons] at hto hown
    exact .byJob ⟨useResult, after, by simp, hto⟩ hown

/-- What a lint request tells that returns a report. -/
theorem lint_telling {b : Bench} {more : List BenchEvent} {stage : LintStage}
    {told : List String} {report : LintReport} (hbegun : b.lints[n]? = some (stage.telling told))
    (hfound : (b.run more).lints[n]? = some (.returned (.ok report))) :
    ∃ own, stage.result = .ok own ∧ report = own.telling told := by
  have hresult : (stage.telling told).result = .ok report := by
    cases hstage : stage.telling told with
    | returned result =>
      rw [hstage] at hbegun
      cases hfound.symm.trans (lint_returned_run hbegun more)
      rfl
    | running job =>
      rw [hstage] at hbegun
      obtain ⟨last, hlast, hgoes⟩ := lint_goesOn_run hbegun more
      cases hfound.symm.trans hlast
      rcases hgoes with hruns | hends | ⟨-, hstops⟩
      · cases hruns
      · exact (LintStage.returned.inj hends).symm
      · cases hstops
  rw [LintStage.result_telling] at hresult
  exact eq_ok_of_map hresult

/-- Each lint request has begun. -/
theorem begins_of_lint (h : first.Settled edition events) {stage : LintStage}
    (hfound : (first.run events).lints[n]? = some stage) :
    ∃ before document, first.LintBeginsOn events n before document := by
  rcases h.lints n stage hfound with hbegins | ⟨job, hbegins, -⟩ <;>
    obtain ⟨before, name, after, document, prepared, hevents, hlength, hname, -⟩ := hbegins <;>
    exact ⟨before, document, name, after, hevents, hlength, hname⟩

end Requests

/-- Whatever happens on a bench, and in which order: a request that has a text begins by the engine
that was found when the first such request began since the last refresh. If it is this first one, it
has all warnings of the search to tell, and otherwise only those of a search that found nothing. A
format request that returns an outcome of its own, and a lint request that returns a report, tells
these in front of what it tells itself; but for them it returns what it would with an engine that
was known before. -/
theorem engine_sought_once (host : Host) (edition : Edition) (workspace : Option Path)
    (documents : List (String × Document)) (events : List BenchEvent) :
    let first := start host edition workspace documents
    let b := first.run events
    ((∀ id document useResult, b.desk.IsToBegin id document → document.HasText b.desk.host →
        ∃ lookup told r, first.GoesBy edition events lookup told ∧
          (b.step (.desk (.resume useResult))).desk.requests[id]? = some r ∧
          r.stage = ((b.beginsBy lookup.path document).telling told).stage ∧
          ∀ job, r.stage = .running job → lookup.path = some job.launched.executable) ∧
      ∀ name document, b.desk.documents.lookup name = some document →
        document.HasText b.desk.host →
        ∃ lookup told stage, first.GoesBy edition events lookup told ∧
          (b.step (.lint name)).lints[b.lints.length]? = some stage ∧
          stage = (b.lintsBy lookup.path document).telling told ∧
          ∀ job, stage = .running job → lookup.path = some job.launched.executable) ∧
    (∀ (id : Nat) (r : Request) (outcome : Outcome), b.desk.requests[id]? = some r →
      r.stage = .returned (.ok outcome) → outcome.status ≠ .superseded →
      ∃ before document, first.BeginsOn events id before document ∧
        (document.HasText (first.run before).desk.host →
          ∃ lookup told own, first.GoesBy edition before lookup told ∧
            first.Gives events id told ((first.run before).beginsBy lookup.path document) own ∧
            outcome = own.telling told)) ∧
    ∀ (n : Nat) (report : LintReport), b.lints[n]? = some (.returned (.ok report)) →
      ∃ before document, first.LintBeginsOn events n before document ∧
        (document.HasText (first.run before).desk.host →
          ∃ lookup told own, first.GoesBy edition before lookup told ∧
            ((first.run before).lintsBy lookup.path document).result = .ok own ∧
            report = own.telling told) := by
  intro first b
  have hsettled : ∀ events, first.Settled edition events :=
    settled_run host edition workspace documents
  have hsought : ∀ events, first.Sought edition events (first.run events).desk.formatter.lookup :=
    sought_run host edition workspace documents
  refine ⟨⟨fun id document useResult hto htext => ?_, fun name document hname htext => ?_⟩,
    fun id r outcome hfound hreturned hown => ?_, fun n report hfound => ?_⟩
  · exact format_goesBy (hsettled events) (hsought events) hto htext useResult
  · exact lint_goesBy (hsettled events) (hsought events) hname htext
  · obtain ⟨before, document, hbegins⟩ :=
      begins_of_returned (hsettled events) hfound hreturned hown
    refine ⟨before, document, hbegins, fun htext => ?_⟩
    obtain ⟨useResult, after, hevents, hto⟩ := hbegins
    obtain ⟨lookup, told, begun, hgoes, hbegun, hstage, -⟩ :=
      format_goesBy (hsettled before) (hsought before) hto htext useResult
    have horderly := orderly_step (hsettled before).orderly (.desk (.resume useResult))
    have hlast : (((first.run before).step (.desk (.resume useResult))).run
        after).desk.requests[id]? = some r := by
      rw [← run_append_cons, ← hevents]
      exact hfound
    obtain ⟨own, hgives, htelling⟩ :=
      returned_telling horderly hbegun hstage hlast hreturned hown
    refine ⟨lookup, told, own, hgoes, ?_, htelling⟩
    rw [hevents]
    exact hgives.after
  · obtain ⟨before, document, hbegins⟩ := begins_of_lint (hsettled events) hfound
    refine ⟨before, document, hbegins, fun htext => ?_⟩
    obtain ⟨name, after, hevents, hlength, hname⟩ := hbegins
    obtain ⟨lookup, told, stage, hgoes, hbegun, rfl, -⟩ :=
      lint_goesBy (hsettled before) (hsought before) hname htext
    have hlast : (((first.run before).step (.lint name)).run after).lints[n]? =
        some (.returned (.ok report)) := by
      rw [← run_append_cons, ← hevents]
      exact hfound
    rw [hlength] at hbegun
    obtain ⟨own, hown, htelling⟩ := lint_telling hbegun hlast
    exact ⟨lookup, told, own, hgoes, hown, htelling⟩

end MarkupTidy.Bench
