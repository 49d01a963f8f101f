import MarkupTidy.Formatter.Basic
import MarkupTidy.Proofs.Resolver.Cache

/-!
What a request goes by when it launches its engine. Format and lint requests prepare alike: what
they launch depends on the formatter by its settings, by the engine that it looks up and by the
base options that it finds, and by nothing else. A lint request waits once, for its engine; it is
told in two parts here, which make up the whole.
-/
namespace MarkupTidy

/-- What a lint request whose engine runs goes by until it finishes. -/
structure LintJob where
  messages : List String
  limit : Option TimeLimit
  launched : Launched

/-- How far a lint request is. -/
inductive LintStage
  | running (job : LintJob)
  | returned (result : Except Fault LintReport)

namespace Formatter

/-- A lint request takes what its engine gave. -/
def finishLint (job : LintJob) : Logged (Except Fault LintReport) := do
  let execution ← Runner.conclude job.launched (job.limit.map Subtype.val)
  lintReport job.messages (execution.map Execution.diagnostics)

/-- Begin to lint a text that is not empty. -/
def beginLintText (host : Host) (f : Formatter) (text : String) (path : Option Path) :
    Logged (LintStage × Formatter) := do
  let (lookup, f) ← f.findEngine host
  match lookup.path with
  | none => pure (.returned (.ok (failedReport lookup.warnings)), f)
  | some executable => do
    match ← f.buildOptions host text path with
    | (.error fault, f) => pure (.returned (.error fault), f)
    | (.ok (options, warnings), f) => do
      let messages := lookup.warnings ++ warnings
      match ← Runner.launch host (some executable) (Runner.forReport options) text with
      | .error fault => do
        let report ← lintReport messages (.error fault)
        pure (.returned report, f)
      | .ok launched => pure (.running ⟨messages, f.settings.timeout, launched⟩, f)

/-- Begin a lint request, up to the launch of its engine. -/
def beginLint (host : Host) (f : Formatter) (document : Document) :
    Logged (LintStage × Formatter) := do
  match ← readDocument host document with
  | .error fault => pure (.returned (.error fault), f)
  | .ok (.error message) => pure (.returned (.ok (failedReport [message])), f)
  | .ok (.ok text) =>
    if text.isEmpty then pure (.returned (.ok ⟨[], [], false⟩), f)
    else f.beginLintText host text document.path?

end Formatter

/-- What a lint request returns that goes on from a stage without a break. -/
def LintStage.result : LintStage → Except Fault LintReport
  | .running job => (Formatter.finishLint job).value
  | .returned result => result

namespace Formatter

theorem value_lintText (host : Host) (f : Formatter) (text : String) (path : Option Path) :
    (f.lintText host text path).value =
      ((f.beginLintText host text path).value.1.result,
        (f.beginLintText host text path).value.2) := by
  simp only [lintText, beginLintText, Logged.value_bind]
  cases (f.findEngine host).value.1.path with
  | none => rfl
  | some executable =>
    simp only [Logged.value_bind]
    generalize ((f.findEngine host).value.2.buildOptions host text path).value = built
    obtain ⟨result, f'⟩ := built
    cases result with
    | error fault => rfl
    | ok pair =>
      simp only [Logged.value_bind, Runner.collectReport, Runner.run]
      cases (Runner.launch host (some executable) (Runner.forReport pair.1) text).value with
      | error fault => rfl
      | ok launched => rfl

/-- A lint request is its two parts, one after the other. -/
theorem value_lint (host : Host) (f : Formatter) (document : Document) :
    (f.lint host document).value =
      ((f.beginLint host document).value.1.result, (f.beginLint host document).value.2) := by
  simp only [lint, beginLint, Logged.value_bind]
  rcases (readDocument host document).value with fault | message | text
  · rfl
  · rfl
  · simp only
    split
    · rfl
    · exact value_lintText host f text document.path?

/-- How the preparation of a request ends. -/
inductive Prepared
  | raised (fault : Fault)
  | unreadable (message : String)
  | empty
  | missing (messages : List String)
  | ready (executable : String) (options : OptionMap) (messages : List String) (text : String)

/-- The preparation of a request by the settings, from what its document holds, the engine that was
looked up, and the base options that were found. -/
def prepareBy (settings : Settings) (read : Except Fault (Except String String))
    (lookup : Lookup) (found : Except Fault Resolved) : Prepared :=
  match read with
  | .error fault => .raised fault
  | .ok (.error message) => .unreadable message
  | .ok (.ok text) =>
    if text.isEmpty then .empty
    else
      match lookup.path, found with
      | none, _ => .missing lookup.warnings
      | some _, .error fault => .raised fault
      | some executable, .ok resolved =>
        match DerivedOptions.derive text resolved.options settings with
        | .error fault => .raised fault
        | .ok derived => .ready executable (resolved.options.mergeOne derived)
            (lookup.warnings ++ resolved.warnings) text

/-- What a format request makes of its preparation. -/
def Prepared.format (host : Host) (settings : Settings) : Prepared → Begun
  | .raised fault => .raised fault
  | .unreadable message => .settled (.failed [message])
  | .empty => .settled ⟨.skipped, none, []⟩
  | .missing messages => .settled (.failed messages)
  | .ready executable options messages text =>
    match (Runner.launch host (some executable) options text).value with
    | .error fault => Begun.ofSettled (settleFault messages fault).value
    | .ok launched => .running ⟨text, settings, messages, launched⟩

/-- What a lint request makes of its preparation. -/
def Prepared.lint (host : Host) (settings : Settings) : Prepared → LintStage
  | .raised fault => .returned (.error fault)
  | .unreadable message => .returned (.ok (failedReport [message]))
  | .empty => .returned (.ok ⟨[], [], false⟩)
  | .missing messages => .returned (.ok (failedReport messages))
  | .ready executable options messages text =>
    match (Runner.launch host (some executable) (Runner.forReport options) text).value with
    | .error fault => .returned (lintReport messages (.error fault)).value
    | .ok launched => .running ⟨messages, settings.timeout, launched⟩

/-- The preparation of a request for a document. -/
def prepare (host : Host) (f : Formatter) (document : Document) : Prepared :=
  prepareBy f.settings (readDocument host document).value (f.findEngine host).value.1
    (f.resolver.optionsFor host document.path?).value.1

/-- What the beginning of a request leaves in the formatter. -/
inductive Leaves (host : Host) (f : Formatter) (path : Option Path) : Formatter → Prop
  | untouched : Leaves host f path f
  | engine : Leaves host f path (f.findEngine host).value.2
  | options : Leaves host f path { (f.findEngine host).value.2 with
      resolver := (f.resolver.optionsFor host path).value.2 }

section Begins

variable (host : Host) (f : Formatter) (document : Document)

/-- A format request begins by its preparation. -/
theorem beginRequest_prepare :
    (f.beginRequest host document).value.1 = (f.prepare host document).format host f.settings ∧
      Leaves host f document.path? (f.beginRequest host document).value.2 := by
  have hkept := Resolver.edition_optionsFor host f.resolver document.path?
  simp only [beginRequest, prepare, prepareBy, Logged.value_bind]
  rcases (readDocument host document).value with fault | message | text
  · exact ⟨rfl, .untouched⟩
  · exact ⟨rfl, .untouched⟩
  · simp only
    split
    · exact ⟨rfl, .untouched⟩
    · simp only [beginText, Logged.value_bind]
      cases (f.findEngine host).value.1.path with
      | none => exact ⟨rfl, .engine⟩
      | some executable =>
        simp only [Logged.value_bind, value_buildOptions, resolver_findEngine,
          settings_findEngine]
        cases (f.resolver.optionsFor host document.path?).value.1 with
        | error fault => exact ⟨rfl, .options⟩
        | ok resolved =>
          simp only
          cases DerivedOptions.derive text resolved.options f.settings with
          | error fault => exact ⟨rfl, .options⟩
          | ok derived =>
            refine ⟨?_, .options⟩
            simp only [Except.map, launchJob, Logged.value_bind, Prepared.format, settings,
              Resolver.settings, hkept]
            cases (Runner.launch host (some executable) (resolved.options.mergeOne derived)
              text).value <;> rfl

/-- A lint request begins by its preparation. -/
theorem beginLint_prepare :
    (f.beginLint host document).value.1 = (f.prepare host document).lint host f.settings ∧
      Leaves host f document.path? (f.beginLint host document).value.2 := by
  have hkept := Resolver.edition_optionsFor host f.resolver document.path?
  simp only [beginLint, prepare, prepareBy, Logged.value_bind]
  rcases (readDocument host document).value with fault | message | text
  · exact ⟨rfl, .untouched⟩
  · exact ⟨rfl, .untouched⟩
  · simp only
    split
    · exact ⟨rfl, .untouched⟩
    · simp only [beginLintText, Logged.value_bind]
      cases (f.findEngine host).value.1.path with
      | none => exact ⟨rfl, .engine⟩
      | some executable =>
        simp only [Logged.value_bind, value_buildOptions, resolver_findEngine,
          settings_findEngine]
        cases (f.resolver.optionsFor host document.path?).value.1 with
        | error fault => exact ⟨rfl, .options⟩
        | ok resolved =>
          simp only
          cases DerivedOptions.derive text resolved.options f.settings with
          | error fault => exact ⟨rfl, .options⟩
          | ok derived =>
            simp only [Except.map, Logged.value_bind, Prepared.lint, settings,
              Resolver.settings, hkept]
            cases (Runner.launch host (some executable)
              (Runner.forReport (resolved.options.mergeOne derived)) text).value <;>
              exact ⟨rfl, .options⟩

end Begins

/-- An engine is looked up by the settings on one of the hosts that were met, with its warnings or,
where it is there, perhaps without. -/
def LooksUp (met : Host → Prop) (settings : Settings) (lookup : Lookup) : Prop :=
  ∃ host, met host ∧
    let whole := (host.findEngine settings.executable).value
    lookup = whole ∨ whole.found = true ∧ lookup = { whole with warnings := [] }

/-- Base options are found by the settings on one of the hosts that were met, where the directory
to search is known. -/
def FindsOptions (met : Host → Prop) (settings : Settings)
    (directory : Except Fault (Option Path)) (found : Except Fault Resolved) : Prop :=
  match directory with
  | .error fault => found = .error fault
  | .ok directory => ∃ host, met host ∧ found = (Resolved.find host settings directory).value

/-- A request is prepared by the settings alone, on hosts that were met under them. -/
def PreparedBy (met : Host → Prop) (settings : Settings) (host : Host) (resolver : Resolver)
    (document : Document) (prepared : Prepared) : Prop :=
  ∃ lookup found, LooksUp met settings lookup ∧
    FindsOptions met settings (resolver.directoryFor host document.path?) found ∧
    prepared = prepareBy settings (readDocument host document).value lookup found

/-- What the formatter holds was found by its present settings, on hosts that were met. -/
structure IsCurrent (met : Host → Prop) (edition : Edition) (f : Formatter) : Prop where
  present : f.resolver.edition = edition
  lookup : ∀ lookup, f.lookup = some lookup → ∃ host, met host ∧
    lookup = (host.findEngine edition.settings.executable).value
  kept : ∀ entry ∈ f.resolver.kept, ∃ host, met host ∧
    (Resolved.find host edition.settings entry.1).value = .ok entry.2

section Current

variable {met : Host → Prop} {edition : Edition} {f : Formatter} {host : Host}

theorem isCurrent_refresh (met : Host → Prop) (f : Formatter) (edition : Edition) :
    IsCurrent met edition (f.refresh edition) :=
  ⟨rfl, fun _ hlookup => (Option.some_ne_none _ hlookup.symm).elim,
    fun _ hentry => (List.not_mem_nil hentry).elim⟩

theorem IsCurrent.mono (h : IsCurrent met edition f) {more : Host → Prop}
    (hmore : ∀ host, met host → more host) : IsCurrent more edition f := by
  refine ⟨h.present, fun lookup hlookup => ?_, fun entry hentry => ?_⟩
  · obtain ⟨host, hmet, hfound⟩ := h.lookup lookup hlookup
    exact ⟨host, hmore host hmet, hfound⟩
  · obtain ⟨host, hmet, hfound⟩ := h.kept entry hentry
    exact ⟨host, hmore host hmet, hfound⟩

theorem IsCurrent.settings (h : IsCurrent met edition f) : f.settings = edition.settings :=
  congrArg Edition.settings h.present

theorem IsCurrent.looksUp (h : IsCurrent met edition f) (hmet : met host) :
    LooksUp met edition.settings (f.findEngine host).value.1 := by
  unfold findEngine
  cases hlookup : f.lookup with
  | none =>
    refine ⟨host, hmet, Or.inl ?_⟩
    rw [← h.settings]
    rfl
  | some lookup =>
    obtain ⟨earlier, hearlier, rfl⟩ := h.lookup lookup hlookup
    refine ⟨earlier, hearlier, ?_⟩
    simp only [Logged.value_pure]
    split
    · next hfound => exact Or.inr ⟨hfound, rfl⟩
    · exact Or.inl rfl

theorem IsCurrent.findsOptions (h : IsCurrent met edition f) (hmet : met host)
    (path : Option Path) :
    FindsOptions met edition.settings (f.resolver.directoryFor host path)
      (f.resolver.optionsFor host path).value.1 := by
  cases hdirectory : f.resolver.directoryFor host path with
  | error fault => simp only [FindsOptions, Resolver.optionsFor, hdirectory, Logged.value_pure]
  | ok directory =>
    rw [Resolver.value_optionsFor hdirectory]
    cases hkept : f.resolver.kept.lookup directory with
    | some resolved =>
      obtain ⟨earlier, hearlier, hfind⟩ := h.kept (directory, resolved) (Pairs.mem_of_lookup hkept)
      exact ⟨earlier, hearlier, hfind.symm⟩
    | none =>
      refine ⟨host, hmet, ?_⟩
      have hsettings : f.resolver.settings = edition.settings := h.settings
      rw [hsettings]
      cases (Resolved.find host edition.settings directory).value <;> rfl

theorem IsCurrent.prepare (h : IsCurrent met edition f) (hmet : met host)
    (document : Document) :
    PreparedBy met edition.settings host f.resolver document (f.prepare host document) := by
  refine ⟨_, _, h.looksUp hmet, h.findsOptions hmet document.path?, ?_⟩
  rw [Formatter.prepare, h.settings]

theorem IsCurrent.findEngine (h : IsCurrent met edition f) (hmet : met host) :
    IsCurrent met edition (f.findEngine host).value.2 := by
  refine ⟨by rw [resolver_findEngine, h.present], fun lookup hlookup => ?_, ?_⟩
  · unfold Formatter.findEngine at hlookup
    cases hkept : f.lookup with
    | none =>
      rw [hkept] at hlookup
      cases hlookup
      exact ⟨host, hmet, by rw [← h.settings]⟩
    | some earlier =>
      rw [hkept] at hlookup
      exact h.lookup lookup hlookup
  · rw [resolver_findEngine]
    exact h.kept

theorem IsCurrent.optionsFor (h : IsCurrent met edition f) (hmet : met host)
    (path : Option Path) :
    ∀ entry ∈ (f.resolver.optionsFor host path).value.2.kept, ∃ host, met host ∧
      (Resolved.find host edition.settings entry.1).value = .ok entry.2 := by
  cases hanswer : (f.resolver.optionsFor host path).value.1 with
  | error fault =>
    rw [Resolver.optionsFor_raises hanswer]
    exact h.kept
  | ok resolved =>
    cases hdirectory : f.resolver.directoryFor host path with
    | error fault => simp [Resolver.optionsFor, hdirectory] at hanswer
    | ok directory =>
      rcases Resolver.optionsFor_returns hdirectory hanswer with ⟨-, hsame⟩ | ⟨-, hfind, hset⟩
      · rw [hsame]
        exact h.kept
      · rw [hset]
        intro entry hentry
        rcases Pairs.mem_set hentry with hold | rfl
        · exact h.kept entry hold
        · have hsettings : f.resolver.settings = edition.settings := h.settings
          exact ⟨host, hmet, by rw [← hsettings]; exact hfind⟩

/-- What the beginning of a request leaves was found by the present settings, if what it met was. -/
theorem IsCurrent.leaves (h : IsCurrent met edition f) (hmet : met host) {path : Option Path}
    {f' : Formatter} (hleaves : Leaves host f path f') : IsCurrent met edition f' := by
  cases hleaves with
  | untouched => exact h
  | engine => exact h.findEngine hmet
  | options =>
    have hengine := h.findEngine hmet
    exact ⟨(Resolver.edition_optionsFor ..).trans h.present, hengine.lookup,
      h.optionsFor hmet path⟩

end Current

/-! What a formatter found on a host before is what a new one finds there. -/

section Alike

variable {host : Host} {edition : Edition} {f g : Formatter}

/-- The engine is the one that the settings lead to on the host. -/
theorem IsCurrent.path_findEngine (hf : IsCurrent (· = host) edition f) :
    (f.findEngine host).value.1.path =
      (host.findEngine edition.settings.executable).value.path := by
  obtain ⟨_, rfl, hlookup⟩ := hf.looksUp rfl
  rcases hlookup with hwhole | ⟨-, hwhole⟩ <;> rw [hwhole]

theorem IsCurrent.path_eq (hf : IsCurrent (· = host) edition f)
    (hg : IsCurrent (· = host) edition g) :
    (f.findEngine host).value.1.path = (g.findEngine host).value.1.path := by
  rw [hf.path_findEngine, hg.path_findEngine]

theorem IsCurrent.options_eq (hf : IsCurrent (· = host) edition f)
    (hg : IsCurrent (· = host) edition g) (path : Path) :
    (f.resolver.optionsFor host (some path)).value.1 =
      (g.resolver.optionsFor host (some path)).value.1 := by
  have hfind := hf.findsOptions rfl (some path)
  have hother := hg.findsOptions rfl (some path)
  have hdirectory : f.resolver.directoryFor host (some path) =
      g.resolver.directoryFor host (some path) := rfl
  rw [← hdirectory] at hother
  unfold FindsOptions at hfind hother
  cases hwhere : f.resolver.directoryFor host (some path) with
  | error fault =>
    rw [hwhere] at hfind hother
    exact hfind.trans hother.symm
  | ok directory =>
    rw [hwhere] at hfind hother
    obtain ⟨_, rfl, hfind⟩ := hfind
    obtain ⟨_, rfl, hother⟩ := hother
    exact hfind.trans hother.symm

end Alike

end Formatter

end MarkupTidy
