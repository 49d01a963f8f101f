import MarkupTidy.Proofs.Resolver.Uncached

/-!
A resolver over the course of its work. Its files change, its settings are refreshed, and it is
asked for the options of documents, in any order. What it keeps for a directory is what a search
found on the files that the first call for the directory met, of those that returned since the last
refresh, so that each later call answers what this one did.
-/
namespace MarkupTidy.Resolver

inductive Event
  | change (host : Host)
  | refresh (edition : Edition)
  | call (document : Option Path)

/-- A resolver at work on the files of a host, with the calls that returned since the last refresh,
the first one first: the directory of each and the files that it met. -/
structure Work where
  host : Host
  resolver : Resolver
  returned : List (Option Path × Host)

namespace Work

def start (host : Host) (edition : Edition) (workspace : Option Path) : Work :=
  ⟨host, ofSettings edition workspace, []⟩

/-- The directory of a call and the files that it meets, if the call returns. -/
def returnOf? (w : Work) (document : Option Path) : Option (Option Path × Host) :=
  match w.resolver.directoryFor w.host document,
    (w.resolver.optionsFor w.host document).value.1 with
  | .ok directory, .ok _ => some (directory, w.host)
  | _, _ => none

def call (w : Work) (document : Option Path) : Work where
  host := w.host
  resolver := (w.resolver.optionsFor w.host document).value.2
  returned := w.returned ++ (w.returnOf? document).toList

def step (w : Work) : Event → Work
  | .change host => { w with host }
  | .refresh edition => ⟨w.host, w.resolver.refresh edition, []⟩
  | .call document => w.call document

def run (w : Work) (events : List Event) : Work := events.foldl step w

/-- The files that the first call for a directory met. Where none has returned it is the next one. -/
def met (w : Work) (directory : Option Path) : Host := (w.returned.lookup directory).getD w.host

/-- What is kept is what a search finds on the files that the first call for the directory met. -/
def KeepsFirst (w : Work) : Prop :=
  ∀ directory, Option.Rel
    (fun resolved host => (Resolved.find host w.resolver.settings directory).value = .ok resolved)
    (w.resolver.kept.lookup directory) (w.returned.lookup directory)

end Work

/-- The settings of the last refresh. -/
def lastEdition (edition : Edition) (events : List Event) : Edition :=
  events.foldl (fun edition event => match event with
    | .refresh edition => edition
    | _ => edition) edition

theorem keep_present (r : Resolver) (directory : Option Path) (resolved : Resolved) :
    r.keep r.edition directory resolved =
      { r with kept := Pairs.set directory resolved r.kept } := by
  simp [keep]

/-- A call that raises leaves what is kept as it is. -/
theorem optionsFor_raises {host : Host} {r : Resolver} {document : Option Path} {fault : Fault}
    (h : (r.optionsFor host document).value.1 = .error fault) :
    (r.optionsFor host document).value.2 = r := by
  cases hdirectory : r.directoryFor host document with
  | error fault => simp only [optionsFor, hdirectory, Logged.value_pure]
  | ok directory =>
    rw [value_optionsFor hdirectory] at h ⊢
    cases hkept : r.kept.lookup directory with
    | some resolved => rfl
    | none =>
      simp only [hkept] at h ⊢
      cases hfind : (Resolved.find host r.settings directory).value with
      | error fault => rfl
      | ok resolved => simp [hfind] at h

/-- A call that returns takes what is kept, or keeps what it found. -/
theorem optionsFor_returns {host : Host} {r : Resolver} {document directory : Option Path}
    {resolved : Resolved} (hdirectory : r.directoryFor host document = .ok directory)
    (h : (r.optionsFor host document).value.1 = .ok resolved) :
    (r.kept.lookup directory = some resolved ∧ (r.optionsFor host document).value.2 = r) ∨
    (r.kept.lookup directory = none ∧
      (Resolved.find host r.settings directory).value = .ok resolved ∧
      (r.optionsFor host document).value.2 =
        { r with kept := Pairs.set directory resolved r.kept }) := by
  rw [value_optionsFor hdirectory] at h ⊢
  cases hkept : r.kept.lookup directory with
  | some old =>
    simp only [hkept, Except.ok.injEq] at h
    exact Or.inl ⟨congrArg some h, rfl⟩
  | none =>
    simp only [hkept] at h ⊢
    cases hfind : (Resolved.find host r.settings directory).value with
    | error fault => simp [hfind] at h
    | ok found =>
      simp only [hfind, Except.ok.injEq] at h ⊢
      exact Or.inr ⟨trivial, h, by rw [keep_present, h]⟩

theorem workspace_optionsFor (host : Host) (r : Resolver) (document : Option Path) :
    (r.optionsFor host document).value.2.workspace = r.workspace := by
  cases hdirectory : r.directoryFor host document with
  | error fault => simp only [optionsFor, hdirectory, Logged.value_pure]
  | ok directory =>
    rw [value_optionsFor hdirectory]
    cases r.kept.lookup directory with
    | some resolved => rfl
    | none =>
      simp only [keep_present]
      cases (Resolved.find host r.settings directory).value <;> rfl

namespace Work

theorem edition_run (events : List Event) (w : Work) :
    (w.run events).resolver.edition = lastEdition w.resolver.edition events := by
  induction events generalizing w with
  | nil => rfl
  | cons event rest ih =>
    simp only [run, lastEdition, List.foldl_cons] at ih ⊢
    rw [ih]
    cases event with
    | call document => simp only [step, call, edition_optionsFor]
    | _ => rfl

theorem workspace_run (events : List Event) (w : Work) :
    (w.run events).resolver.workspace = w.resolver.workspace := by
  induction events generalizing w with
  | nil => rfl
  | cons event rest ih =>
    simp only [run, List.foldl_cons] at ih ⊢
    rw [ih]
    cases event with
    | call document => simp only [step, call, workspace_optionsFor]
    | _ => rfl

/-- Something is kept for each directory for which a call has returned. -/
theorem KeepsFirst.not_returned {w : Work} (h : w.KeepsFirst) {directory : Option Path}
    (hkept : w.resolver.kept.lookup directory = none) : w.returned.lookup directory = none := by
  have hrel := h directory
  rw [hkept] at hrel
  cases hreturned : w.returned.lookup directory with
  | none => rfl
  | some host => simp [hreturned] at hrel

/-- A call answers what a search finds on the files that the first call for its directory met. -/
theorem KeepsFirst.optionsFor {w : Work} (h : w.KeepsFirst) {document directory : Option Path}
    (hdirectory : w.resolver.directoryFor w.host document = .ok directory) :
    (w.resolver.optionsFor w.host document).value.1 =
      (Resolved.find (w.met directory) w.resolver.settings directory).value := by
  rw [value_optionsFor hdirectory, met]
  cases hkept : w.resolver.kept.lookup directory with
  | some resolved =>
    have hrel := h directory
    rw [hkept] at hrel
    cases hreturned : w.returned.lookup directory with
    | none => simp [hreturned] at hrel
    | some host =>
      rw [hreturned, Option.rel_some_some] at hrel
      exact hrel.symm
  | none =>
    rw [h.not_returned hkept, Option.getD_none]
    cases (Resolved.find w.host w.resolver.settings directory).value <;> rfl

theorem KeepsFirst.start (host : Host) (edition : Edition) (workspace : Option Path) :
    (start host edition workspace).KeepsFirst := fun _ => .none

/-- A call that raises changes nothing. -/
theorem call_raises {w : Work} {document : Option Path} {fault : Fault}
    (h : (w.resolver.optionsFor w.host document).value.1 = .error fault) :
    w.call document = w := by
  have hnone : w.returnOf? document = none := by
    unfold returnOf?
    rw [h]
    cases w.resolver.directoryFor w.host document <;> rfl
  simp only [call, optionsFor_raises h, hnone, Option.toList_none, List.append_nil]

theorem KeepsFirst.call {w : Work} (h : w.KeepsFirst) (document : Option Path) :
    (w.call document).KeepsFirst := by
  cases hanswer : (w.resolver.optionsFor w.host document).value.1 with
  | error fault => rwa [call_raises hanswer]
  | ok resolved =>
    cases hdirectory : w.resolver.directoryFor w.host document with
    | error fault => simp [Resolver.optionsFor, hdirectory] at hanswer
    | ok directory =>
      have hreturn : w.returnOf? document = some (directory, w.host) := by
        simp only [returnOf?, hdirectory, hanswer]
      intro other
      have hrel := h other
      simp only [Work.call, hreturn, Option.toList_some, List.lookup_append]
      rcases optionsFor_returns hdirectory hanswer with ⟨hkept, hsame⟩ | ⟨hkept, hfind, hset⟩
      · -- Something was kept already, so that this is not the first call for its directory.
        rw [hsame]
        cases hreturned : w.returned.lookup other with
        | some host => simpa [hreturned] using hrel
        | none =>
          have hother : other ≠ directory := by
            rintro rfl
            simp [hkept, hreturned] at hrel
          simpa [hreturned, hother, List.lookup_cons, beq_eq_false_iff_ne.mpr hother] using hrel
      · -- The first call for its directory keeps what it found on the files that it met.
        have hsettings : (w.resolver.optionsFor w.host document).value.2.settings =
            w.resolver.settings := congrArg Edition.settings (edition_optionsFor ..)
        rw [hsettings, hset]
        simp only [Pairs.lookup_set]
        by_cases hother : other = directory
        · subst hother
          simpa [h.not_returned hkept] using hfind
        · simpa [hother, List.lookup_cons, beq_eq_false_iff_ne.mpr hother] using hrel

theorem KeepsFirst.step {w : Work} (h : w.KeepsFirst) (event : Event) :
    (w.step event).KeepsFirst := by
  cases event with
  | change host => exact h
  | refresh edition => exact fun _ => .none
  | call document => exact h.call document

theorem KeepsFirst.run {w : Work} (h : w.KeepsFirst) (events : List Event) :
    (w.run events).KeepsFirst := by
  induction events generalizing w with
  | nil => exact h
  | cons event rest ih => exact ih (h.step event)

end Work

/-- However calls, refreshes and changes of the files follow each other, a call answers what an
uncached search of its directory does: with the settings of the last refresh, on the files that the
first call for the directory met. A call that raises leaves everything as it is. -/
theorem call_answers_uncached (host : Host) (edition : Edition) (workspace : Option Path)
    (events : List Event) (document : Option Path) :
    let w := (Work.start host edition workspace).run events
    (∀ resolved, (w.resolver.optionsFor w.host document).value.1 = .ok resolved ↔
      ∃ directory, w.resolver.directoryFor w.host document = .ok directory ∧
        Uncached (w.met directory) (lastEdition edition events).settings directory resolved) ∧
    (w.resolver.directoryFor w.host document = .ok none ↔ document = none ∧ workspace = none) ∧
    ∀ fault, (w.resolver.optionsFor w.host document).value.1 = .error fault →
      w.call document = w := by
  intro w
  have hkeeps : w.KeepsFirst := (Work.KeepsFirst.start host edition workspace).run events
  have hsettings : w.resolver.settings = (lastEdition edition events).settings :=
    congrArg Edition.settings (Work.edition_run events (Work.start host edition workspace))
  have hworkspace : w.resolver.workspace = workspace :=
    Work.workspace_run events (Work.start host edition workspace)
  refine ⟨fun resolved => ?_, ?_, fun fault => Work.call_raises⟩
  · rw [← hsettings]
    cases hdirectory : w.resolver.directoryFor w.host document with
    | error fault => simp [optionsFor, hdirectory]
    | ok directory =>
      rw [hkeeps.optionsFor hdirectory, Resolved.find_eq_ok_iff]
      simp
  · rw [directoryFor_eq_none_iff, hworkspace]

end MarkupTidy.Resolver
