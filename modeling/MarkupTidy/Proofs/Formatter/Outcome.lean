import MarkupTidy.Formatter.Basic
import MarkupTidy.Proofs.Executable
import Mathlib.Tactic.SplitIfs

/-!
The outcome of a format request, decided by how the run of its engine ends. The output of a run
reaches the document exactly when the run ends clean, or with warnings that do not stop it, and
gives some output; a run that ends in any other of the known ways is blocked, and every other
request fails and leaves the document as it is.
-/
namespace MarkupTidy.Formatter

/-- The options can be written as arguments, with which the engine starts on the text. -/
def Starts (host : Host) (executable : String) (options : OptionMap) (text : String)
    (launched : Launched) : Prop :=
  executable ≠ "" ∧ ∃ arguments, options.withFixed.arguments = .ok arguments ∧
    Runner.startWith host executable arguments text = .ok launched

/-- An engine is found, and it starts with the options of the text. -/
def Launches (host : Host) (f : Formatter) (text : String) (path : Option Path)
    (launched : Launched) : Prop :=
  ∃ executable options warnings,
    (f.findEngine host).value.1.path = some executable ∧
    ((f.findEngine host).value.2.buildOptions host text path).value.1 =
      .ok (options, warnings) ∧
    Starts host executable options text launched

/-- The engine of a request ends with this run before its time is over. -/
def EndsWith (host : Host) (f : Formatter) (text : String) (path : Option Path) (run : Run) :
    Prop :=
  ∃ launched, Launches host f text path launched ∧ launched.behaviour = .ends run

/-- What has to hold of a finished run for its output to replace the document. -/
def MayApply (settings : Settings) (run : Run) : Prop :=
  (run.exitCode = 0 ∨ run.exitCode = 1 ∧ settings.stopOnWarning = false) ∧
    Text.Utf8.decodeLossy run.output ≠ []

/-- A launch writes the arguments and starts the engine with them. -/
theorem value_launch (host : Host) {executable : String} (hname : executable ≠ "")
    (options : OptionMap) (text : String) :
    (Runner.launch host (some executable) options text).value =
      options.withFixed.arguments >>= fun arguments =>
        Runner.startWith host executable arguments text := by
  have hnamed : (some executable).filter (fun path => !path.isEmpty) = some executable := by
    simp [Option.filter, hname]
  simp only [Runner.launch, hnamed, Logged.value_bind]
  cases options.withFixed.arguments <;> rfl

/-- Launching gives the engine that starts, or a fault if none does. -/
theorem launch_eq_ok_iff (host : Host) (executable : String) (options : OptionMap)
    (text : String) (launched : Launched) :
    (Runner.launch host (some executable) options text).value = .ok launched ↔
      Starts host executable options text launched := by
  by_cases hname : executable = ""
  · subst hname
    have hunnamed : (Runner.launch host (some "") options text).value =
        .error (.launch (some "") .notConfigured) := rfl
    simp [hunnamed, Starts]
  · rw [value_launch host hname, Starts]
    cases options.withFixed.arguments <;> simp [hname, bind, Except.bind]

theorem settleFault_cases (messages : List String) (fault : Fault) :
    (∃ shown, (settleFault messages fault).value = .ok (.failed shown)) ∨
      (settleFault messages fault).value = .error fault := by
  unfold settleFault
  split
  · exact Or.inl ⟨_, rfl⟩
  · exact Or.inr rfl

/-- A request is over before its engine runs, and its document was not touched. -/
def IsOverEarly (begun : Begun) : Prop :=
  (∃ messages, begun = .settled (.failed messages)) ∨ ∃ fault, begun = .raised fault

theorem launchJob_cases (host : Host) (f : Formatter) (executable : String)
    (options : OptionMap) (text : String) (messages : List String) :
    (∃ launched, Starts host executable options text launched ∧
      (launchJob host f executable options text messages).value =
        .running ⟨text, f.settings, messages, launched⟩) ∨
    (¬ ∃ launched, Starts host executable options text launched) ∧
      IsOverEarly (launchJob host f executable options text messages).value := by
  have hstarts := launch_eq_ok_iff host executable options text
  simp only [launchJob, Logged.value_bind]
  cases hlaunch : (Runner.launch host (some executable) options text).value with
  | ok launched =>
    exact Or.inl ⟨launched, (hstarts launched).mp hlaunch, rfl⟩
  | error fault =>
    refine Or.inr ⟨?_, ?_⟩
    · rintro ⟨launched, hstart⟩
      simp [(hstarts launched).mpr hstart] at hlaunch
    · simp only [Logged.value_bind, Logged.value_pure]
      rcases settleFault_cases messages fault with ⟨shown, hsettled⟩ | hraised
      · exact Or.inl ⟨shown, by rw [hsettled]; rfl⟩
      · exact Or.inr ⟨fault, by rw [hraised]; rfl⟩

/-- A request begins by starting its engine, or it is over without one. -/
theorem beginText_cases (host : Host) (f : Formatter) (text : String) (path : Option Path) :
    (∃ launched messages, Launches host f text path launched ∧
      (f.beginText host text path).value.1 = .running ⟨text, f.settings, messages, launched⟩) ∨
    (¬ ∃ launched, Launches host f text path launched) ∧
      IsOverEarly (f.beginText host text path).value.1 := by
  have hsettings := settings_buildOptions host (f.findEngine host).value.2 text path
  rw [settings_findEngine] at hsettings
  simp only [beginText, Logged.value_bind, Launches]
  cases hfound : (f.findEngine host).value.1.path with
  | none => exact Or.inr ⟨by simp, Or.inl ⟨_, rfl⟩⟩
  | some executable =>
    simp only [Logged.value_bind]
    revert hsettings
    generalize ((f.findEngine host).value.2.buildOptions host text path).value = built
    intro hsettings
    obtain ⟨result, f'⟩ := built
    cases result with
    | error fault => exact Or.inr ⟨by simp, Or.inr ⟨fault, rfl⟩⟩
    | ok pair =>
      obtain ⟨options, warnings⟩ := pair
      simp only at hsettings
      simp only [Logged.value_bind, Logged.value_pure]
      rcases launchJob_cases host f' executable options text
        ((f.findEngine host).value.1.warnings ++ warnings) with ⟨launched, hstart, hrun⟩ | hover
      · rw [hsettings] at hrun
        exact Or.inl ⟨launched, _, ⟨executable, options, warnings, rfl, rfl, hstart⟩, hrun⟩
      · refine Or.inr ⟨?_, hover.2⟩
        rintro ⟨launched, executable', options', warnings', hpath, hbuilt, hstart⟩
        cases hpath
        cases hbuilt
        exact hover.1 ⟨launched, hstart⟩

/-- The exit code is one of those with a meaning. -/
def IsKnown (run : Run) : Prop := run.exitCode = 0 ∨ run.exitCode = 1 ∨ run.exitCode = 2

theorem ofExitCode?_isSome_iff (run : Run) :
    (∃ status, Status.ofExitCode? run.exitCode = some status) ↔ IsKnown run := by
  unfold Status.ofExitCode? IsKnown
  constructor
  · rintro ⟨status, hstatus⟩
    split_ifs at hstatus <;> simp_all
  · intro h
    split_ifs <;> simp_all

theorem MayApply.isKnown {settings : Settings} {run : Run} (h : MayApply settings run) :
    IsKnown run := by
  rcases h.1 with hclean | ⟨hwarning, _⟩
  · exact Or.inl hclean
  · exact Or.inr (Or.inl hwarning)

/-- A limit is positive, so an engine that ends has the time to do so. -/
theorem conclude_ends (launched : Launched) (run : Run) (limit : Option TimeLimit)
    (hends : launched.behaviour = .ends run) :
    Runner.conclude launched (limit.map Subtype.val) = Runner.classify launched run := by
  cases limit with
  | none => simp [Runner.conclude, hends]
  | some limit => simp [Runner.conclude, hends, Runner.isOver, limit.property]

theorem conclude_known (launched : Launched) (run : Run) (limit : Option TimeLimit)
    (hends : launched.behaviour = .ends run) (hknown : IsKnown run) :
    (Runner.conclude launched (limit.map Subtype.val)).value = .ok (.ofRun run) := by
  obtain ⟨status, hstatus⟩ := (ofExitCode?_isSome_iff run).mpr hknown
  rw [conclude_ends launched run limit hends]
  simp [Runner.classify, hstatus]

/-- Without a run whose exit code is known, waiting for an engine ends in a fault. -/
theorem conclude_unknown (launched : Launched) (limit : Option TimeLimit)
    (hunknown : ¬ ∃ run, launched.behaviour = .ends run ∧ IsKnown run) :
    ∃ fault, (Runner.conclude launched (limit.map Subtype.val)).value = .error fault := by
  cases hbehaviour : launched.behaviour with
  | hangs =>
    cases limit with
    | none => exact ⟨.endless, by simp only [Runner.conclude, hbehaviour]; rfl⟩
    | some limit =>
      simp only [Runner.conclude, hbehaviour, Option.map_some]
      cases Runner.isNever limit.val with
      | true => exact ⟨.endless, rfl⟩
      | false => exact ⟨.timeout (some launched.executable) limit.val, rfl⟩
  | ends run =>
    rw [conclude_ends launched run limit hbehaviour]
    cases hstatus : Status.ofExitCode? run.exitCode with
    | none => exact ⟨_, by simp only [Runner.classify, hstatus]; rfl⟩
    | some status =>
      exact absurd ⟨run, hbehaviour, (ofExitCode?_isSome_iff run).mp ⟨status, hstatus⟩⟩ hunknown

theorem hindrance?_eq_none_iff (settings : Settings) (run : Run) (hknown : IsKnown run) :
    hindrance? settings (.ofRun run) = none ↔ MayApply settings run := by
  unfold hindrance? MayApply
  rcases hknown with h | h | h <;>
    cases hstop : settings.stopOnWarning <;>
    simp [Execution.saysExactly, Execution.status?, Execution.ofRun, Status.ofExitCode?, h]

theorem finishRequest_known (host : Host) (job : Job) (document : Document) (run : Run)
    (hends : job.launched.behaviour = .ends run) (hknown : IsKnown run) :
    (finishRequest host job document).value = (settle host job document (.ofRun run)).value := by
  have hconclude := conclude_known job.launched run job.settings.timeout hends hknown
  simp only [finishRequest, Logged.value_bind, hconclude]

/-- A run that may be applied gives a buffer its output. -/
theorem finishRequest_applies (host : Host) (job : Job) (text : String) (path : Option Path)
    (run : Run) (hends : job.launched.behaviour = .ends run)
    (happly : MayApply job.settings run) :
    ∃ messages, (finishRequest host job (.buffer text path false)).value =
      (.ok ⟨.formatted, some (.ofRun run), messages⟩,
        ⟨host, .buffer (String.ofList (Text.Utf8.decodeLossy run.output)) path false⟩) := by
  have hnone := (hindrance?_eq_none_iff job.settings run happly.isKnown).mpr happly
  rw [finishRequest_known host job _ run hends happly.isKnown]
  exact ⟨_, by simp only [settle, hnone]; rfl⟩

/-- A run that may not be applied is blocked, and the document stays as it is. -/
theorem finishRequest_blocks (host : Host) (job : Job) (document : Document) (run : Run)
    (hends : job.launched.behaviour = .ends run) (hknown : IsKnown run)
    (hblock : ¬ MayApply job.settings run) :
    ∃ messages, (finishRequest host job document).value =
      (.ok ⟨.blocked, some (.ofRun run), messages⟩, ⟨host, document⟩) := by
  rw [finishRequest_known host job _ run hends hknown]
  cases hhindrance : hindrance? job.settings (.ofRun run) with
  | none => exact absurd ((hindrance?_eq_none_iff _ run hknown).mp hhindrance) hblock
  | some hindrance => exact ⟨_, by simp only [settle, hhindrance]; rfl⟩

/-- Without a run whose exit code is known a request fails, and the document stays as it is. -/
theorem finishRequest_fails (host : Host) (job : Job) (document : Document)
    (hunknown : ¬ ∃ run, job.launched.behaviour = .ends run ∧ IsKnown run) :
    (finishRequest host job document).value.2 = ⟨host, document⟩ ∧
      ((∃ messages, (finishRequest host job document).value.1 = .ok (.failed messages)) ∨
        ∃ fault, (finishRequest host job document).value.1 = .error fault) := by
  obtain ⟨fault, hfault⟩ := conclude_unknown job.launched job.settings.timeout hunknown
  simp only [finishRequest, Logged.value_bind, hfault]
  refine ⟨rfl, ?_⟩
  rcases settleFault_cases job.messages fault with hfailed | hraised
  · exact Or.inl hfailed
  · exact Or.inr ⟨fault, hraised⟩

/-- What becomes of a request that has begun, when nothing happens to its document meanwhile. -/
def resultOf (host : Host) (document : Document) : Begun → Finished
  | .settled outcome => (.ok outcome, ⟨host, document⟩)
  | .raised fault => (.error fault, ⟨host, document⟩)
  | .running job => (finishRequest host job document).value

theorem value_format (host : Host) (f : Formatter) (text : String) (path : Option Path)
    (hne : text ≠ "") :
    (f.format host (.buffer text path false)).value.1 =
      resultOf host (.buffer text path false) (f.beginText host text path).value.1 := by
  have hbegin : (f.beginRequest host (.buffer text path false)).value =
      (f.beginText host text path).value := by
    simp [beginRequest, readDocument, Document.text, Document.path?, hne]
  simp only [format, Logged.value_bind, hbegin]
  generalize (f.beginText host text path).value = begun
  obtain ⟨begun, f'⟩ := begun
  cases begun <;> rfl

/-- The engine of a request is determined by the request. -/
theorem Launches.unique {host : Host} {f : Formatter} {text : String} {path : Option Path}
    {launched launched' : Launched} (h : Launches host f text path launched)
    (h' : Launches host f text path launched') : launched = launched' := by
  obtain ⟨executable, options, warnings, hfound, hbuilt, hstart⟩ := h
  obtain ⟨executable', options', warnings', hfound', hbuilt', hstart'⟩ := h'
  rw [hfound] at hfound'
  rw [hbuilt] at hbuilt'
  cases hfound'
  cases hbuilt'
  rw [← launch_eq_ok_iff] at hstart hstart'
  rw [hstart] at hstart'
  cases hstart'
  rfl

/-- A request on a text that is not empty is formatted exactly when its engine ends in time with a
run that may be applied, blocked when it ends with another known exit code, and failed otherwise.
Only a formatted document has another text afterwards, which is the output of the run. -/
theorem format_settles (host : Host) (f : Formatter) (text : String) (path : Option Path)
    (outcome : Outcome) (hne : text ≠ "")
    (hreturn : (f.format host (.buffer text path false)).value.1.1 = .ok outcome) :
    (outcome.status = .formatted ↔
      ∃ run, EndsWith host f text path run ∧ MayApply f.settings run) ∧
    (outcome.status = .blocked ↔
      ∃ run, EndsWith host f text path run ∧ IsKnown run ∧ ¬ MayApply f.settings run) ∧
    (outcome.status = .failed ↔ ¬ ∃ run, EndsWith host f text path run ∧ IsKnown run) ∧
    (∀ run, EndsWith host f text path run → outcome.status = .formatted →
      (f.format host (.buffer text path false)).value.1.2 =
        ⟨host, .buffer (String.ofList (Text.Utf8.decodeLossy run.output)) path false⟩) ∧
    (outcome.status ≠ .formatted →
      (f.format host (.buffer text path false)).value.1.2 = ⟨host, .buffer text path false⟩) := by
  rw [value_format host f text path hne] at hreturn ⊢
  rcases beginText_cases host f text path with ⟨launched, messages, hlaunch, hrun⟩ | ⟨hnone, hover⟩
  · have hends : ∀ run, EndsWith host f text path run ↔ launched.behaviour = .ends run := by
      intro run
      constructor
      · rintro ⟨launched', hlaunch', hends⟩
        rwa [hlaunch.unique hlaunch']
      · exact fun h => ⟨launched, hlaunch, h⟩
    simp only [hends, hrun, resultOf] at hreturn ⊢
    by_cases hknown : ∃ run, launched.behaviour = .ends run ∧ IsKnown run
    · obtain ⟨run, hrunEnds, hrunKnown⟩ := hknown
      have hrunOnly : ∀ run', launched.behaviour = .ends run' ↔ run = run' := by
        simp [hrunEnds]
      by_cases happly : MayApply f.settings run
      · obtain ⟨shown, hfinish⟩ := finishRequest_applies host
          ⟨text, f.settings, messages, launched⟩ text path run hrunEnds happly
        rw [hfinish] at hreturn ⊢
        cases hreturn
        simp [hrunOnly, happly, hrunKnown]
      · obtain ⟨shown, hfinish⟩ := finishRequest_blocks host
          ⟨text, f.settings, messages, launched⟩ (.buffer text path false) run hrunEnds
          hrunKnown happly
        rw [hfinish] at hreturn ⊢
        cases hreturn
        simp [hrunOnly, happly, hrunKnown]
    · obtain ⟨hsame, hfail⟩ := finishRequest_fails host
        ⟨text, f.settings, messages, launched⟩ (.buffer text path false) hknown
      rcases hfail with ⟨shown, hfailed⟩ | ⟨fault, hraised⟩
      · rw [hfailed] at hreturn
        cases hreturn
        have hnoApply : ¬ ∃ run, launched.behaviour = .ends run ∧ MayApply f.settings run :=
          fun ⟨run, hrunEnds, happly⟩ => hknown ⟨run, hrunEnds, happly.isKnown⟩
        have hnoBlock : ¬ ∃ run, launched.behaviour = .ends run ∧ IsKnown run ∧
            ¬ MayApply f.settings run :=
          fun ⟨run, hrunEnds, hrunKnown, _⟩ => hknown ⟨run, hrunEnds, hrunKnown⟩
        simp [Outcome.failed, hknown, hnoApply, hnoBlock, hsame]
      · rw [hraised] at hreturn
        cases hreturn
  · have hends : ∀ run, ¬ EndsWith host f text path run :=
      fun run ⟨launched, hlaunch, _⟩ => hnone ⟨launched, hlaunch⟩
    rcases hover with ⟨messages, hsettled⟩ | ⟨fault, hraised⟩
    · rw [hsettled] at hreturn ⊢
      cases hreturn
      simp [hends, Outcome.failed, resultOf]
    · rw [hraised] at hreturn
      cases hreturn

/-- An engine that writes its input in capitals, and a warning. -/
def capitals : Script := ⟨.capitals, .octets [0x21], 1, none⟩

/-- A host on which this engine lies and nothing else. -/
def capitalsHost : Host where
  tree := ⟨[(["tidy"], .file ⟨[], 0o755, some capitals.engine⟩)]⟩
  directory := []
  searchPath := "/"

/-- A formatter that has found the engine. -/
def capitalsFormatter : Formatter where
  resolver := .ofSettings ⟨0, { fileSearch := false }⟩ none
  lookup := some ⟨some "/tidy", []⟩

/-- What the engine gives for a paragraph. -/
def capitalsRun : Run := ⟨[0x3C, 0x50, 0x3E], [0x21], 1⟩

theorem program_capitals :
    capitalsHost.program "/tidy" = .ok ⟨[], 0o755, some capitals.engine⟩ := by
  have hsteps : FileTree.steps "/tidy" = ["tidy"] := by decide
  have hstart : FileTree.walkStart [] "/tidy" = [] := by decide
  have hpath : FileTree.isPathTooLong "/tidy" = false := by decide
  have hname : FileTree.isNameTooLong "tidy" = false := by decide
  have hwalk : capitalsHost.walk .target "/tidy" =
      .ok (.node ["tidy"] (.file ⟨[], 0o755, some capitals.engine⟩)) := by
    simp [Host.walk, FileTree.walk, FileTree.walkFrom, FileTree.node?, Node.isDirectory,
      capitalsHost, hsteps, hstart, hpath, hname]
  simp only [Host.program, hwalk]
  rfl

theorem starts_capitals :
    Starts capitalsHost "/tidy" .empty "<p>" ⟨"/tidy", .ends capitalsRun⟩ := by
  refine ⟨by decide, ["--tidy-mark", "no", "--force-output", "yes", "--quiet", "no"], rfl, ?_⟩
  rw [Host.startWith_of_engine (by decide) (by decide) program_capitals rfl (by decide) (by decide)]
  rfl

theorem format_capitals :
    (capitalsFormatter.format capitalsHost (.buffer "<p>" none false)).value.1.1 =
      .ok ⟨.formatted, some ⟨"<P>", "!", some 1⟩, ["!"]⟩ := by
  have hfound : (capitalsFormatter.findEngine capitalsHost).value =
      (⟨some "/tidy", []⟩, capitalsFormatter) := rfl
  have hbuilt : (capitalsFormatter.buildOptions capitalsHost "<p>" none).value =
      (.ok (.empty, []), { capitalsFormatter with
        resolver := { capitalsFormatter.resolver with
          kept := [(none, ⟨.empty, none, []⟩)] } }) := rfl
  have hlaunch := (launch_eq_ok_iff _ _ _ _ _).mpr starts_capitals
  have hread : Execution.ofRun capitalsRun = ⟨"<P>", "!", some 1⟩ := by decide +kernel
  rw [value_format _ _ _ _ (by decide)]
  simp only [beginText, Logged.value_bind, Logged.value_pure, hfound, hbuilt, launchJob, hlaunch,
    resultOf]
  rw [finishRequest_known _ _ _ capitalsRun rfl (Or.inr (Or.inl rfl)), hread]
  rfl

/-- Warnings that do not stop a run leave the paragraph in capitals. -/
theorem format_settles_capitals :
    "<p>" ≠ "" ∧
    (capitalsFormatter.format capitalsHost (.buffer "<p>" none false)).value.1.1 =
      .ok ⟨.formatted, some ⟨"<P>", "!", some 1⟩, ["!"]⟩ ∧
    (capitalsFormatter.format capitalsHost (.buffer "<p>" none false)).value.1.2 =
      ⟨capitalsHost, .buffer (String.ofList (Text.Utf8.decodeLossy capitalsRun.output)) none
        false⟩ :=
  ⟨by decide, format_capitals,
    (format_settles capitalsHost capitalsFormatter "<p>" none _ (by decide)
      format_capitals).2.2.2.1 capitalsRun
      ⟨_, ⟨"/tidy", .empty, [], rfl, rfl, starts_capitals⟩, rfl⟩ rfl⟩

end MarkupTidy.Formatter
