import MarkupTidy.Proofs.Formatter.Outcome
import MarkupTidy.Proofs.Formatter.Telling

/-!
The engine that a request goes by. A request with a text asks the formatter for its engine, and does
the same as at a formatter that knows this engine, but for the warnings that it has to tell. The
formatter keeps what was found until its settings change.
-/
namespace MarkupTidy

/-- The document can be read, and is not empty. -/
def Document.HasText (host : Host) (document : Document) : Prop :=
  ∃ text, document.text host = .ok text ∧ text ≠ ""

/-- The warnings of an earlier search that a request tells again. -/
def Lookup.toldAgain (lookup : Lookup) : List String :=
  if lookup.found then [] else lookup.warnings

namespace Formatter

/-- The formatter, once it knows its engine and has no warnings to tell about it. -/
def knowing (path : Option String) (f : Formatter) : Formatter :=
  { f with lookup := some ⟨path, []⟩ }

section Begin

variable {host : Host} {f : Formatter} {document : Document} {text : String}

theorem readDocument_eq_text :
    (readDocument host document).value = .ok (.ok text) ↔ document.text host = .ok text := by
  unfold readDocument
  cases document.text host with
  | ok other => simp
  | error fault =>
    simp only
    split <;> simp

theorem hasText_iff : document.HasText host ↔
    ∃ text, (readDocument host document).value = .ok (.ok text) ∧ text ≠ "" := by
  simp only [Document.HasText, readDocument_eq_text]

theorem findEngine_knowing (host : Host) (path : Option String) (f : Formatter) :
    ((f.knowing path).findEngine host).value.1 = ⟨path, []⟩ := by
  cases path <;> rfl

/-- What a search for the engine that was made before leaves to be told. -/
theorem findEngine_again {lookup : Lookup} (h : f.lookup = some lookup) (host : Host) :
    (f.findEngine host).value = (⟨lookup.path, lookup.toldAgain⟩, f) := by
  obtain ⟨path, warnings⟩ := lookup
  unfold findEngine
  rw [h]
  cases path <;> rfl

theorem findEngine_first (h : f.lookup = none) (host : Host) :
    (f.findEngine host).value = ((host.findEngine f.settings.executable).value,
      { f with lookup := some (host.findEngine f.settings.executable).value }) := by
  unfold findEngine
  rw [h]
  rfl

/-- The preparation of a request with a text is that of one which knows the engine, with the
warnings in front. -/
theorem prepare_telling (h : document.HasText host) :
    let lookup := (f.findEngine host).value.1
    let quiet := (f.knowing lookup.path).prepare host document
    quiet.HasGoneOn ∧ f.prepare host document = quiet.telling lookup.warnings := by
  obtain ⟨text, hread, htext⟩ := hasText_iff.1 h
  intro lookup quiet
  have hquiet : quiet = prepareBy f.settings (.ok (.ok text)) ⟨lookup.path, []⟩
      (f.resolver.optionsFor host document.path?).value.1 := by
    simp only [quiet, prepare, findEngine_knowing, hread]
    rfl
  rw [hquiet]
  refine ⟨hasGoneOn_prepareBy htext _ _, ?_⟩
  rw [← prepareBy_telling, prepare, hread]

/-- A format request with a text begins as one which knows the engine, with the warnings of the
search in front. -/
theorem beginRequest_telling (h : document.HasText host) :
    (f.beginRequest host document).value.1 =
      ((f.knowing (f.findEngine host).value.1.path).beginRequest host document).value.1.telling
        (f.findEngine host).value.1.warnings := by
  obtain ⟨hgone, hprepare⟩ := prepare_telling (f := f) h
  rw [(beginRequest_prepare ..).1, (beginRequest_prepare ..).1, hprepare]
  exact Prepared.format_telling hgone

theorem beginLint_telling (h : document.HasText host) :
    (f.beginLint host document).value.1 =
      ((f.knowing (f.findEngine host).value.1.path).beginLint host document).value.1.telling
        (f.findEngine host).value.1.warnings := by
  obtain ⟨hgone, hprepare⟩ := prepare_telling (f := f) h
  rw [(beginLint_prepare ..).1, (beginLint_prepare ..).1, hprepare]
  exact Prepared.lint_telling hgone

theorem lookup_buildOptions (host : Host) (f : Formatter) (text : String) (path : Option Path) :
    (f.buildOptions host text path).value.2.lookup = f.lookup := by
  rw [value_buildOptions]

theorem lookup_beginText (host : Host) (f : Formatter) (text : String) (path : Option Path) :
    (f.beginText host text path).value.2.lookup = (f.findEngine host).value.2.lookup := by
  simp only [beginText, Logged.value_bind]
  cases (f.findEngine host).value.1.path with
  | none => rfl
  | some executable =>
    have hkept := lookup_buildOptions host (f.findEngine host).value.2 text path
    simp only [Logged.value_bind]
    revert hkept
    generalize ((f.findEngine host).value.2.buildOptions host text path).value = built
    obtain ⟨result, f'⟩ := built
    intro hkept
    cases result <;> exact hkept

/-- A format request with a text looks for the engine, and one without does not. -/
theorem lookup_beginRequest :
    document.HasText host ∧ (f.beginRequest host document).value.2.lookup =
        (f.findEngine host).value.2.lookup ∨
      ¬ document.HasText host ∧ (f.beginRequest host document).value.2.lookup = f.lookup := by
  rw [hasText_iff]
  simp only [beginRequest, Logged.value_bind]
  rcases (readDocument host document).value with fault | message | text
  · exact Or.inr ⟨by simp, rfl⟩
  · exact Or.inr ⟨by simp, rfl⟩
  · by_cases htext : text = ""
    · subst htext
      exact Or.inr ⟨by simp, rfl⟩
    · have hfull : text.isEmpty = false := by simpa using htext
      simp only [hfull]
      exact Or.inl ⟨⟨text, rfl, htext⟩, lookup_beginText host f text document.path?⟩

/-- A lint request leaves the formatter as a format request does. -/
theorem formatter_beginLint (host : Host) (f : Formatter) (document : Document) :
    (f.beginLint host document).value.2 = (f.beginRequest host document).value.2 := by
  simp only [beginLint, beginRequest, Logged.value_bind]
  rcases (readDocument host document).value with fault | message | text
  · rfl
  · rfl
  · simp only
    split
    · rfl
    · simp only [beginLintText, beginText, Logged.value_bind]
      cases (f.findEngine host).value.1.path with
      | none => rfl
      | some executable =>
        simp only [Logged.value_bind]
        generalize ((f.findEngine host).value.2.buildOptions host text document.path?).value = built
        obtain ⟨result, f'⟩ := built
        cases result with
        | error fault => rfl
        | ok pair =>
          simp only [Logged.value_bind]
          cases (Runner.launch host (some executable) (Runner.forReport pair.1) text).value <;> rfl

theorem executable_launch {executable : String} {options : OptionMap} {launched : Launched}
    (h : (Runner.launch host (some executable) options text).value = .ok launched) :
    launched.executable = executable := by
  obtain ⟨-, arguments, -, hstart⟩ := (launch_eq_ok_iff ..).1 h
  unfold Runner.startWith at hstart
  split at hstart
  · cases hstart
  · split at hstart <;> cases hstart
    rfl

theorem prepareBy_ready {settings : Settings} {read : Except Fault (Except String String)}
    {lookup : Lookup} {found : Except Fault Resolved} {executable : String} {options : OptionMap}
    {messages : List String}
    (h : prepareBy settings read lookup found = .ready executable options messages text) :
    lookup.path = some executable := by
  unfold prepareBy at h
  split at h
  · cases h
  · cases h
  · split at h
    · cases h
    · split at h
      · cases h
      · cases h
      · next hpath =>
        split at h <;> cases h
        exact hpath

theorem ofSettled_ne_running (result : Except Fault Outcome) (job : Job) :
    Begun.ofSettled result ≠ .running job := by
  intro h
  cases result <;> cases h

/-- The engine that a format request runs is the one that the formatter has found. -/
theorem executable_beginRequest {job : Job}
    (h : (f.beginRequest host document).value.1 = .running job) :
    (f.findEngine host).value.1.path = some job.launched.executable := by
  rw [(beginRequest_prepare ..).1] at h
  cases hprepare : f.prepare host document with
  | ready executable options messages text =>
    rw [hprepare] at h
    simp only [Prepared.format] at h
    split at h
    · exact absurd h (ofSettled_ne_running _ job)
    · next launched hlaunch =>
      cases h
      rw [executable_launch hlaunch]
      exact prepareBy_ready hprepare
  | _ =>
    rw [hprepare] at h
    cases h

theorem executable_beginLint {job : LintJob}
    (h : (f.beginLint host document).value.1 = .running job) :
    (f.findEngine host).value.1.path = some job.launched.executable := by
  rw [(beginLint_prepare ..).1] at h
  cases hprepare : f.prepare host document with
  | ready executable options messages text =>
    rw [hprepare] at h
    simp only [Prepared.lint] at h
    split at h
    · cases h
    · next launched hlaunch =>
      cases h
      rw [executable_launch hlaunch]
      exact prepareBy_ready hprepare
  | _ =>
    rw [hprepare] at h
    cases h

end Begin

end Formatter

end MarkupTidy
