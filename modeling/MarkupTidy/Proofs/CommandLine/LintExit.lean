import MarkupTidy.Proofs.CommandLine.BareRoot
import MarkupTidy.Proofs.CommandLine.Turns
import MarkupTidy.Proofs.Formatter.Escapes
import MarkupTidy.Proofs.Formatter.Prepared

/-!
The exit code of the lint command. A run of the engine is told by its report alone: the code with
which the engine ended has to be a known one, and is not looked at any more. So the command succeeds
exactly if every file is empty or has such a run whose report names no error, and a run that ends in
an error without a place in the document counts as a success.
-/
namespace MarkupTidy

namespace Formatter

/-- A lint request for a text starts an engine, which ends with this run before its time is over. -/
def Reports (host : Host) (f : Formatter) (text : String) (path : Option Path) (run : Run) :
    Prop :=
  ∃ executable options warnings launched,
    (f.findEngine host).value.1.path = some executable ∧
    ((f.findEngine host).value.2.buildOptions host text path).value.1 =
      .ok (options, warnings) ∧
    Starts host executable (Runner.forReport options) text launched ∧
    launched.behaviour = .ends run

/-- The diagnostics of a run can be read, and none of them is an error. -/
def NamesNoError (run : Run) : Prop :=
  ∃ diagnostics, Diagnostic.parse (String.ofList (Text.Utf8.decodeLossy run.diagnostics)) =
    .ok diagnostics ∧ diagnostics.any Diagnostic.isError = false

/-- A lint request ended well, and found no error. -/
def IsFaultless (result : Except Fault LintReport) : Prop :=
  ∃ report, result = .ok report ∧ report.failed = false ∧
    report.diagnostics.any Diagnostic.isError = false

theorem isFaultless_lintReport_iff (messages : List String) (collected : Except Fault String) :
    IsFaultless (lintReport messages collected).value ↔
      ∃ report diagnostics, collected = .ok report ∧ Diagnostic.parse report = .ok diagnostics ∧
        diagnostics.any Diagnostic.isError = false := by
  cases collected with
  | error fault =>
    simp only [lintReport, IsFaultless]
    cases fault.isFormatting <;> simp [failedReport]
  | ok report =>
    simp only [lintReport, Logged.value_pure, IsFaultless]
    cases hparsed : Diagnostic.parse report <;> simp [Except.map, hparsed]

/-- A lint request for a text is faultless exactly if it has a run with a known exit code that names
no error. -/
theorem isFaultless_lintText_iff (host : Host) (f : Formatter) (text : String)
    (path : Option Path) :
    IsFaultless (f.lintText host text path).value.1 ↔
      ∃ run, Reports host f text path run ∧ IsKnown run ∧ NamesNoError run := by
  simp only [lintText, Logged.value_bind, Reports]
  cases hfound : (f.findEngine host).value.1.path with
  | none => simp [IsFaultless, failedReport]
  | some executable =>
    simp only [Logged.value_bind]
    generalize ((f.findEngine host).value.2.buildOptions host text path).value = built
    obtain ⟨result, f'⟩ := built
    cases result with
    | error fault => simp [IsFaultless]
    | ok pair =>
      obtain ⟨options, warnings⟩ := pair
      simp only [Logged.value_bind, Logged.value_pure, isFaultless_lintReport_iff,
        collectReport_eq_ok_iff]
      constructor
      · rintro ⟨report, diagnostics, ⟨launched, run, hstart, hends, hknown, rfl⟩, hparsed, hnone⟩
        exact ⟨run, ⟨executable, options, warnings, launched, rfl, rfl, hstart, hends⟩, hknown,
          diagnostics, hparsed, hnone⟩
      · rintro ⟨run, ⟨_, _, _, launched, hexecutable, hoptions, hstart, hends⟩, hknown, diagnostics,
          hparsed, hnone⟩
        cases hexecutable
        cases hoptions
        exact ⟨_, diagnostics, ⟨launched, run, hstart, hends, hknown, rfl⟩, hparsed, hnone⟩

theorem IsCurrent.reports_iff {host : Host} {edition : Edition} {f g : Formatter}
    (hf : IsCurrent (· = host) edition f)
    (hg : IsCurrent (· = host) edition g) (text : String) (path : Path) (run : Run) :
    Reports host f text (some path) run ↔ Reports host g text (some path) run := by
  have hbuilt : ((f.findEngine host).value.2.buildOptions host text (some path)).value.1 =
      ((g.findEngine host).value.2.buildOptions host text (some path)).value.1 := by
    rw [value_buildOptions, value_buildOptions, resolver_findEngine, resolver_findEngine,
      settings_findEngine, settings_findEngine, hf.options_eq hg, hf.settings, hg.settings]
  rw [Reports, Reports, hf.path_eq hg, hbuilt]

end Formatter

namespace CommandLine

open Formatter

/-- A file can be read, and is empty or has a run with a known exit code that names no error. -/
def Passes (host : Host) (f : Formatter) (path : Path) : Prop :=
  ∃ text, host.readText path = .ok text ∧
    (text = "" ∨ ∃ run, Reports host f text (some path) run ∧ IsKnown run ∧ NamesNoError run)

theorem passes_iff_of_current {host : Host} {edition : Edition} {f g : Formatter}
    (hf : IsCurrent (· = host) edition f) (hg : IsCurrent (· = host) edition g) (path : Path) :
    Passes host f path ↔ Passes host g path := by
  simp only [Passes, hf.reports_iff hg]

theorem exists?_of_readText {host : Host} {path : Path} {text : String}
    (h : host.readText path = .ok text) : host.exists? path = .ok true := by
  cases hread : host.readOctets path with
  | error fault =>
    rw [Host.readText, hread] at h
    cases h
  | ok octets => exact Host.exists?_of_readOctets hread

theorem lint_buffer (host : Host) (f : Formatter) (text : String) (path : Option Path) :
    IsFaultless (f.lint host (.buffer text path false)).value.1 ↔
      text = "" ∨ ∃ run, Reports host f text path run ∧ IsKnown run ∧ NamesNoError run := by
  simp only [lint, readDocument, Document.text, Logged.value_bind, Logged.value_pure]
  by_cases hempty : text = ""
  · simp [hempty, IsFaultless]
  · simp only [hempty, false_or, String.isEmpty_iff, if_false, Document.path?]
    exact isFaultless_lintText_iff host f text path

theorem success_lintDocument_iff (host : Host) (f : Formatter) (path : Path)
    (document : Document) :
    (lintDocument host f path document).success = .ok true ↔
      IsFaultless (f.lint host document).value.1 := by
  simp only [lintDocument, IsFaultless]
  cases (f.lint host document).value.1 with
  | error fault => simp
  | ok report => simp

theorem success_lintFile_iff (host : Host) (f : Formatter) (path : Path) :
    (lintFile host f path).success = .ok true ↔ Passes host f path := by
  unfold lintFile ifPresent
  cases hread : host.readText path with
  | ok text =>
    rw [exists?_of_readText hread]
    simp [onText, hread, success_lintDocument_iff, lint_buffer, Passes]
  | error fault =>
    have hnot : ¬ Passes host f path := by simp [Passes, hread]
    simp only [hnot, iff_false]
    cases hthere : host.exists? path with
    | error fault => simp [brokenOff]
    | ok there =>
      cases there with
      | false => simp [notDone]
      | true =>
        simp only [onText, hread]
        cases isUnreadable fault <;> simp [notDone, brokenOff]

/-- Files in turn are linted with success exactly if each of them is for a new formatter. -/
theorem success_onFiles_lint_iff {host : Host} {edition : Edition} {f : Formatter}
    (hf : IsCurrent (· = host) edition f) (files : List Path) (new : Formatter)
    (hnew : IsCurrent (· = host) edition new) :
    (onFiles lintFile host f files).success = .ok true ↔
      ∀ path ∈ files, Passes host new path := by
  induction files generalizing f with
  | nil => simp [onFiles]
  | cons path rest ih =>
    obtain ⟨hhost, hleaves⟩ := lintFile_keeps host f path
    have hothers := ih (hf.leaves rfl hleaves)
    have hfirst := (success_lintFile_iff host f path).trans (passes_iff_of_current hf hnew path)
    rw [List.forall_mem_cons, ← hfirst, ← hothers, success_onFiles_cons, hhost]

/-- Settings that cannot be loaded do not let a command succeed. -/
theorem exit_refuseSettings_ne (host : Host) (fault : Fault) :
    (refuseSettings host fault).exit ≠ .ok 0 := by
  cases fault <;> simp [refuseSettings, finishWith, breakOff]

theorem exit_finishWork_iff (work : Work) :
    (finishWork work).exit = .ok 0 ↔ work.success = .ok true := by
  rw [finishWork]
  cases work.success with
  | error fault => simp [Except.map]
  | ok success => cases success <;> simp [Except.map]

/-- A command on files that gets to them is the work on them. -/
theorem runOnFiles_eq {host : Host} {workspace : Path} {settings : Settings}
    {files resolved : List Path} (hload : Settings.load host workspace = .ok settings)
    (hresolve : files.mapM host.resolve = .ok resolved) (override : Settings → Settings)
    (work : Host → Formatter → Path → Work) :
    runOnFiles host workspace override files work =
      finishWork (onFiles work host (newFormatter (override settings) workspace) resolved) := by
  simp only [runOnFiles, hload, hresolve]
  rfl

theorem exit_runOnFiles_iff (host : Host) (workspace : Path) (override : Settings → Settings)
    (files : List Path) (work : Host → Formatter → Path → Work) :
    (runOnFiles host workspace override files work).exit = .ok 0 ↔
      ∃ settings resolved, Settings.load host workspace = .ok settings ∧
        files.mapM host.resolve = .ok resolved ∧
        (onFiles work host (newFormatter (override settings) workspace) resolved).success =
          .ok true := by
  cases hload : Settings.load host workspace with
  | error fault => simp [runOnFiles, hload, exit_refuseSettings_ne]
  | ok settings =>
    cases hresolve : files.mapM host.resolve with
    | error fault => simp [runOnFiles, hload, hresolve, breakOff]
    | ok resolved =>
      rw [runOnFiles_eq hload hresolve, exit_finishWork_iff]
      simp

theorem exit_inWorkspace_iff (host : Host) (given : Option Path) (run : Path → Finish) :
    (inWorkspace host given run).exit = .ok 0 ↔
      ∃ workspace, workspaceOf host given = .ok workspace ∧ (run workspace).exit = .ok 0 := by
  unfold inWorkspace
  cases workspaceOf host given with
  | error fault => simp [breakOff]
  | ok workspace => simp

theorem exit_runOnFiles_lint_iff (host : Host) (workspace : Path) (override : Settings → Settings)
    (files : List Path) :
    (runOnFiles host workspace override files lintFile).exit = .ok 0 ↔
      ∃ settings resolved, Settings.load host workspace = .ok settings ∧
        files.mapM host.resolve = .ok resolved ∧
        ∀ path ∈ resolved, Passes host (newFormatter (override settings) workspace) path := by
  have hall : ∀ settings resolved,
      (onFiles lintFile host (newFormatter (override settings) workspace) resolved).success =
          .ok true ↔
        ∀ path ∈ resolved, Passes host (newFormatter (override settings) workspace) path := by
    intro settings resolved
    have hnew := isCurrent_newFormatter (· = host) (override settings) workspace
    exact success_onFiles_lint_iff hnew resolved _ hnew
  simp only [exit_runOnFiles_iff, hall]

/-- The lint command ends with exit code 0 exactly if the workspace is found, its settings are
loaded, and each file, resolved, can be read and is empty or has a run of its engine with a known
exit code and a report that names no error. -/
theorem lint_exit_zero_iff (host : Host) (commit : Version.Answer) (given tidy : Option Path)
    (files : List Path) :
    (invoke host commit (.lint given tidy files)).exit = .ok 0 ↔
      ∃ workspace settings resolved, workspaceOf host given = .ok workspace ∧
        Settings.load host workspace = .ok settings ∧ files.mapM host.resolve = .ok resolved ∧
        ∀ path ∈ resolved,
          Passes host (newFormatter (withSwitches tidy false settings) workspace) path := by
  simp only [invoke, inWorkspace]
  cases workspaceOf host given with
  | error fault => simp [breakOff]
  | ok workspace => simp [exit_runOnFiles_lint_iff]

/-- An engine that finds an error without a place in the document, and says so. -/
def placeless : Script := ⟨.input, .octets (Text.Utf8.encode "Error: no luck\n".toList), 2, none⟩

/-- A host with this engine and a page. -/
def placelessHost : Host where
  tree := ⟨[(["tidy"], .file ⟨[], 0o755, some placeless.engine⟩),
    (["a.html"], .file page)]⟩
  directory := []
  searchPath := ""

namespace placelessHost

/-- The settings of a run with this engine in a workspace without settings. -/
def settings : Settings := withSwitches (some (.ofParts ["tidy"])) false {}

/-- What the engine gives for the page: the page, and an error without a place. -/
def run : Run :=
  ⟨[0x3C, 0x70, 0x3E], Text.Utf8.encode "Error: no luck\n".toList, 2⟩

theorem isBare : IsBare placelessHost := ⟨rfl, rfl⟩

theorem isEngine : IsEngine placelessHost "tidy" placeless.engine := ⟨by decide, _, rfl⟩

theorem resolve_page :
    placelessHost.resolve (.ofParts ["a.html"]) = .ok (.ofParts ["a.html"]) :=
  IsPlainName.resolve_eq (by decide) (fun _ hnode => by cases hnode)

theorem readText_page : placelessHost.readText (.ofParts ["a.html"]) = .ok "<p>" := by
  have hplain : IsPlainName "a.html" := by decide
  have hnode : placelessHost.tree.node? ["a.html"] = some (.file page) := rfl
  exact CommandLine.readText_page (hplain.stat_eq hnode nofun)

theorem reports_run :
    Reports placelessHost (newFormatter settings (.ofParts [])) "<p>" (some (.ofParts ["a.html"]))
      run := by
  have hexecutable : settings.executable = some (Path.ofParts ["tidy"]).text := by decide
  have hfound := isEngine.findEngine hexecutable
  have hname : settings.overrideName = ".htmlTidy" := rfl
  have hresolved := isBare.optionsFor hname resolve_page
  have hbuilt : (((newFormatter settings (.ofParts [])).findEngine
      placelessHost).value.2.buildOptions placelessHost "<p>"
        (some (.ofParts ["a.html"]))).value.1 = .ok (.empty, []) := by
    rw [value_buildOptions, resolver_findEngine, settings_findEngine, hresolved]
    rfl
  refine ⟨_, .empty, [], ⟨(Path.ofParts ["tidy"]).text, .ends run⟩, congrArg Lookup.path hfound,
    hbuilt, ⟨by decide, ["--show-errors", "10", "--tidy-mark", "no", "--force-output", "yes",
      "--quiet", "no"], rfl, ?_⟩, rfl⟩
  exact isEngine.startWith (by decide) (by decide)

theorem namesNoError_run : NamesNoError run := by
  have hread : Text.Utf8.decodeLossy run.diagnostics = "Error: no luck\n".toList := by
    decide +kernel
  exact ⟨[], by rw [hread]; rfl, rfl⟩

end placelessHost

/-- An engine that ends with exit code 2 does not keep the command from exit code 0. -/
theorem placeless_error_succeeds :
    Reports placelessHost (newFormatter placelessHost.settings (.ofParts [])) "<p>"
      (some (.ofParts ["a.html"])) placelessHost.run ∧
    placelessHost.run.exitCode = 2 ∧
    (invoke placelessHost .missing
      (.lint (some (.ofParts [])) (some (.ofParts ["tidy"])) [.ofParts ["a.html"]])).exit =
        .ok 0 := by
  refine ⟨placelessHost.reports_run, rfl, ?_⟩
  simp only [invoke, inWorkspace, workspaceOf, Host.resolve_root]
  refine (exit_runOnFiles_lint_iff ..).2
    ⟨{}, [.ofParts ["a.html"]], placelessHost.isBare.load, ?_, ?_⟩
  · simp only [List.mapM_cons, List.mapM_nil, placelessHost.resolve_page]
    rfl
  · rintro path hpath
    obtain rfl := List.mem_singleton.1 hpath
    exact ⟨"<p>", placelessHost.readText_page, Or.inr ⟨placelessHost.run,
      placelessHost.reports_run, Or.inr (Or.inr rfl), placelessHost.namesNoError_run⟩⟩

end CommandLine

end MarkupTidy
