import MarkupTidy.Proofs.Files.Refusals
import MarkupTidy.Proofs.Formatter.Outcome
import MarkupTidy.Proofs.Options.LongNumbers
import MarkupTidy.Settings.Reader

/-!
What makes a request raise in place of giving an outcome. Whatever the system refuses, and every
failure of the formatting itself, is told to the user; a number of too many digits, an argument with
a NUL in it and an engine that nothing stops are not. A lint request also raises where its engine
names a place by a number of too many digits.

Two kinds of base options are set apart, since they are read and shown here as if nothing were wrong
with them: those with half of a surrogate pair, and those with values nested too deep to be shown.
-/
namespace MarkupTidy

/-- The value has at most so many levels of lists and tables within each other. -/
def Value.NestsWithin : Nat → Value → Prop
  | 0, .list _ | 0, .table _ => False
  | levels + 1, .list items => ∀ item ∈ items, NestsWithin levels item
  | levels + 1, .table entries => ∀ entry ∈ entries, NestsWithin levels entry.2
  | _, _ => True

/-- No value is nested deeper than the values of an override file, so a message has room to show
it. -/
def OptionMap.IsShallow (options : OptionMap) : Prop :=
  ∀ entry ∈ options.entries, entry.2.NestsWithin Json.depthLimit

/-- No name and no text of an override file has half of a surrogate pair in it. Such a half is read
as the replacement character, but no argument can hold it. The replacement character itself is set
apart with the halves, since what was read earlier does not tell them apart. -/
def Resolved.IsWhole (resolved : Resolved) : Prop :=
  resolved.source.isSome = true → ∀ entry ∈ resolved.options.entries,
    '\uFFFD' ∉ entry.1.toList ∧ ∀ text, entry.2 = .text text → '\uFFFD' ∉ text.toList

namespace Formatter

/-- What fails is a failure of the formatting itself, which becomes an outcome. -/
def Settles {α : Type} (result : Except Fault α) : Prop :=
  ∀ fault, result = .error fault → fault.isFormatting = true

/-- An engine cannot be given these options, or nothing stops it. -/
inductive RunRaises (host : Host) (executable : String) (options : OptionMap) (text : String)
    (limit : Option TimeLimit) : Prop
  | number (hname : executable ≠ "")
    (hlong : OptionMap.StopsAtLongNumber options.withFixed.entries)
  | nul (hname : executable ≠ "") (arguments : List String)
    (harguments : options.withFixed.arguments = .ok arguments) (word : String)
    (hword : word ∈ executable :: arguments) (hnul : '\x00' ∈ word.toList)
  | endless (launched : Launched) (hstart : Starts host executable options text launched)
    (hhangs : launched.behaviour = .hangs)
    (hlimit : ∀ seconds ∈ limit, seconds.val = .infinite false)

/-- A request for a text raises: its block-level tags hold a number that is too long, or its engine
raises on the options with those that derive from the text, completed for the request. -/
inductive Raises (host : Host) (settings : Settings) (executable : String) (base : OptionMap)
    (complete : OptionMap → OptionMap) (text : String) : Prop
  | tags (hdynamic : settings.dynamicTags = true) (tags : Value)
    (htags : base.find? DerivedOptions.blocklevelTags = some tags) (hset : tags.isSet = true)
    (hlong : tags.HasLongNumber)
  | run (derived : OptionMap) (hderived : DerivedOptions.derive text base settings = .ok derived)
    (hraises : RunRaises host executable (complete (base.mergeOne derived)) text settings.timeout)

theorem startWith_settles_iff (host : Host) (executable : String) (arguments : List String)
    (text : String) :
    Settles (Runner.startWith host executable arguments text) ↔
      ¬ ∃ word ∈ executable :: arguments, '\x00' ∈ word.toList := by
  have hany : ((executable :: arguments).any Host.hasNul = true) ↔
      ∃ word ∈ executable :: arguments, '\x00' ∈ word.toList := by
    simp only [List.any_eq_true, Host.hasNul_iff]
  unfold Runner.startWith
  rw [← hany]
  cases (executable :: arguments).any Host.hasNul with
  | true => simp [Settles, Fault.isFormatting]
  | false =>
    cases host.start executable arguments <;> simp [Settles, Fault.isFormatting]

theorem launch_settles_iff (host : Host) (executable : String) (options : OptionMap)
    (text : String) :
    Settles (Runner.launch host (some executable) options text).value ↔
      ¬ (executable ≠ "" ∧ (OptionMap.StopsAtLongNumber options.withFixed.entries ∨
        ∃ arguments, options.withFixed.arguments = .ok arguments ∧
          ∃ word ∈ executable :: arguments, '\x00' ∈ word.toList)) := by
  by_cases hname : executable = ""
  · subst hname
    have hunnamed : (Runner.launch host (some "") options text).value =
        .error (.launch (some "") .notConfigured) := rfl
    simp [hunnamed, Settles, Fault.isFormatting]
  · have hstops := OptionMap.argumentsOf_eq_tooLong_iff options.withFixed.entries
    have hfaults := @OptionMap.argumentsOf_eq_error options.withFixed.entries
    rw [value_launch host hname, OptionMap.arguments, ← hstops]
    cases harguments : OptionMap.argumentsOf options.withFixed.entries with
    | ok arguments => simp [hname, startWith_settles_iff, bind, Except.bind]
    | error fault =>
      rcases hfaults harguments with rfl | ⟨key, value, rfl⟩ <;>
        simp [hname, Settles, Fault.isFormatting, bind, Except.bind]

theorem conclude_settles_iff (launched : Launched) (limit : Option TimeLimit) :
    Settles (Runner.conclude launched (limit.map Subtype.val)).value ↔
      ¬ (launched.behaviour = .hangs ∧ ∀ seconds ∈ limit, seconds.val = .infinite false) := by
  cases hbehaviour : launched.behaviour with
  | hangs =>
    cases limit with
    | none => simp [Runner.conclude, hbehaviour, Settles, Fault.isFormatting]
    | some limit =>
      by_cases hnever : limit.val = .infinite false <;>
        simp [Runner.conclude, hbehaviour, Runner.isNever, hnever, Runner.stop, Settles,
          Fault.isFormatting]
  | ends run =>
    rw [conclude_ends launched run limit hbehaviour]
    unfold Runner.classify
    cases Status.ofExitCode? run.exitCode <;> simp [Settles, Fault.isFormatting]

/-- An engine raises, or it is started if it can be and stopped if it must be. -/
theorem not_runRaises_iff (host : Host) (executable : String) (options : OptionMap)
    (text : String) (limit : Option TimeLimit) :
    ¬ RunRaises host executable options text limit ↔
      Settles (Runner.launch host (some executable) options text).value ∧
      ∀ launched, (Runner.launch host (some executable) options text).value = .ok launched →
        Settles (Runner.conclude launched (limit.map Subtype.val)).value := by
  rw [launch_settles_iff]
  simp only [conclude_settles_iff, launch_eq_ok_iff]
  constructor
  · intro h
    refine ⟨?_, fun launched hstart ⟨hhangs, hlimit⟩ => h (.endless launched hstart hhangs hlimit)⟩
    rintro ⟨hname, hlong | ⟨arguments, harguments, word, hword, hnul⟩⟩
    · exact h (.number hname hlong)
    · exact h (.nul hname arguments harguments word hword hnul)
  · rintro ⟨hstarts, hstops⟩ hraises
    cases hraises with
    | number hname hlong => exact hstarts ⟨hname, Or.inl hlong⟩
    | nul hname arguments harguments word hword hnul =>
      exact hstarts ⟨hname, Or.inr ⟨arguments, harguments, word, hword, hnul⟩⟩
    | endless launched hstart hhangs hlimit => exact hstops launched hstart ⟨hhangs, hlimit⟩

/-! The document. -/

/-- A document whose path can be resolved has no NUL in it. -/
theorem namesNul_of_resolved {host : Host} {r : Resolver} {path : Path} {resolved : Resolved}
    (h : (r.optionsFor host (some path)).value.1 = .ok resolved) : path.namesNul = false := by
  rw [← Path.hasNul_text]
  cases hnul : Host.hasNul path.text with
  | false => rfl
  | true =>
    simp [Resolver.optionsFor, Resolver.directoryFor, Host.resolve, hnul, Except.map] at h

/-- The names on the way to a document, if it is a file, have no NUL in them. -/
def IsNameable : Document → Prop
  | .buffer .. => True
  | .file path => path.namesNul = false

theorem isNameable_of_resolved {host : Host} {r : Resolver} {document : Document}
    {resolved : Resolved} (h : (r.optionsFor host document.path?).value.1 = .ok resolved) :
    IsNameable document := by
  cases document with
  | buffer text path readOnly => trivial
  | file path => exact namesNul_of_resolved h

/-- A document is read, or the user is told why it cannot be. -/
theorem readDocument_cases (host : Host) {document : Document} (h : IsNameable document) :
    (∃ text, document.text host = .ok text ∧
      (readDocument host document).value = .ok (.ok text)) ∨
    ∃ fault message, document.text host = .error fault ∧
      (readDocument host document).value = .ok (.error message) := by
  unfold readDocument
  cases hread : document.text host with
  | ok text => exact Or.inl ⟨text, rfl, rfl⟩
  | error fault =>
    have hunreadable : isUnreadable fault = true := by
      cases document with
      | buffer text path readOnly => cases hread
      | file path =>
        simp only [Document.text, Host.readText, bind, Except.bind] at hread
        cases hoctets : host.readOctets path with
        | error cause =>
          obtain ⟨refused, rfl⟩ := Host.FailsByRefusal.readOctets host h cause hoctets
          simp only [hoctets, Except.error.injEq] at hread
          rw [← hread]
          rfl
        | ok octets =>
          simp only [hoctets, Host.decodeText] at hread
          split at hread <;> cases hread
          rfl
    exact Or.inr ⟨fault, _, rfl, by simp only [hunreadable, if_true]; rfl⟩

/-- A document takes a new text, or the system refuses. -/
theorem setText_failsByRefusal {host : Host} {document : Document} (h : IsNameable document)
    (hnames : host.directory.any Host.hasNul = false) (text : String) :
    Host.FailsByRefusal (document.setText host text).1 := by
  cases document with
  | buffer old path readOnly =>
    cases readOnly
    · exact .ok _
    · exact .refused _
  | file path => exact .overwriteFile _ hnames h

/-! The stages of a request. -/

theorem settleFault_returns_iff (messages : List String) (fault : Fault) :
    (∃ outcome, (settleFault messages fault).value = .ok outcome) ↔ fault.isFormatting = true := by
  unfold settleFault
  cases fault.isFormatting <;> simp

theorem apply_returns {host : Host} {document : Document} (job : Job) (execution : Execution)
    (messages : List String)
    (h : Host.FailsByRefusal (document.setText host execution.output).1) :
    ∃ outcome, (apply host job document execution messages).value.1 = .ok outcome := by
  unfold apply
  split
  · exact ⟨_, rfl⟩
  · rename_i fault changed hother hset
    obtain ⟨refused, rfl⟩ := h fault (congrArg Prod.fst hset)
    exact absurd rfl (hother refused)
  · exact ⟨_, rfl⟩

theorem finishRequest_returns_iff {host : Host} {document : Document} (job : Job)
    (hwrites : ∀ text, Host.FailsByRefusal (document.setText host text).1) :
    (∃ outcome, (finishRequest host job document).value.1 = .ok outcome) ↔
      Settles (Runner.conclude job.launched (job.settings.timeout.map Subtype.val)).value := by
  simp only [finishRequest, Logged.value_bind]
  cases hrun : (Runner.conclude job.launched (job.settings.timeout.map Subtype.val)).value with
  | error fault => simp [settleFault_returns_iff, Settles]
  | ok execution =>
    simp only [Settles, reduceCtorEq, false_implies, implies_true, iff_true, settle]
    split
    · exact ⟨_, rfl⟩
    · exact apply_returns job execution _ (hwrites _)

/-- A request raises on a text, or its options derive and its engine does not raise. -/
theorem not_raises_iff (host : Host) (settings : Settings) (executable : String)
    (base : OptionMap) (complete : OptionMap → OptionMap) (text : String) :
    ¬ Raises host settings executable base complete text ↔
      ∃ derived, DerivedOptions.derive text base settings = .ok derived ∧
        ¬ RunRaises host executable (complete (base.mergeOne derived)) text settings.timeout := by
  have hderive := DerivedOptions.derive_eq_error_iff text base settings
  constructor
  · intro h
    cases hderived : DerivedOptions.derive text base settings with
    | ok derived => exact ⟨derived, rfl, fun hraises => h (.run derived hderived hraises)⟩
    | error fault =>
      obtain ⟨-, hdynamic, tags, htags, hset, hlong⟩ := (hderive fault).mp hderived
      exact absurd (.tags hdynamic tags htags hset hlong) h
  · rintro ⟨derived, hderived, hcalm⟩ hraises
    cases hraises with
    | tags hdynamic tags htags hset hlong =>
      have hfault := (hderive _).mpr ⟨rfl, hdynamic, tags, htags, hset, hlong⟩
      simp [hderived] at hfault
    | run other hother hraises =>
      rw [hderived, Except.ok.injEq] at hother
      exact hcalm (hother ▸ hraises)

/-- What a request has at hand before its engine runs. -/
theorem engine_and_options {host : Host} {f : Formatter} {path : Option Path}
    {resolved : Resolved} (text : String)
    (h : (f.resolver.optionsFor host path).value.1 = .ok resolved) :
    ∃ found built, (f.findEngine host).value = ((f.findEngine host).value.1, found) ∧
      (found.buildOptions host text path).value =
        ((DerivedOptions.derive text resolved.options f.settings).map fun derived =>
          (resolved.options.mergeOne derived, resolved.warnings), built) ∧
      built.settings = f.settings := by
  have hbuilt := value_buildOptions host (f.findEngine host).value.2 text path
  rw [resolver_findEngine, settings_findEngine, h] at hbuilt
  exact ⟨_, _, rfl, hbuilt,
    congrArg Edition.settings (Resolver.edition_optionsFor host f.resolver path)⟩

theorem launchJob_returns_iff {host : Host} {document : Document} (f : Formatter)
    (executable : String) (options : OptionMap) (text : String) (messages : List String)
    (hwrites : ∀ text, Host.FailsByRefusal (document.setText host text).1) :
    (∃ outcome, (resultOf host document
        (launchJob host f executable options text messages).value).1 = .ok outcome) ↔
      ¬ RunRaises host executable options text f.settings.timeout := by
  rw [not_runRaises_iff]
  simp only [launchJob, Logged.value_bind]
  cases hlaunch : (Runner.launch host (some executable) options text).value with
  | error fault =>
    have hsettles := settleFault_returns_iff messages fault
    simp only [Logged.value_bind, Logged.value_pure]
    cases hsettled : (settleFault messages fault).value with
    | ok outcome => simpa [hsettled, Begun.ofSettled, resultOf, Settles] using hsettles
    | error other => simpa [hsettled, Begun.ofSettled, resultOf, Settles] using hsettles
  | ok launched =>
    simp only [Logged.value_pure, resultOf]
    rw [finishRequest_returns_iff _ hwrites]
    simp [Settles]

theorem value_format_beginRequest (host : Host) (f : Formatter) (document : Document) :
    (f.format host document).value.1 =
      resultOf host document (f.beginRequest host document).value.1 := by
  simp only [format, Logged.value_bind]
  generalize (f.beginRequest host document).value = begun
  obtain ⟨begun, f'⟩ := begun
  cases begun <;> rfl

/-- The request for a document raises with the engine that is found. -/
def DocumentRaises (host : Host) (f : Formatter) (document : Document)
    (raises : String → String → Prop) : Prop :=
  ∃ text executable, document.text host = .ok text ∧ text ≠ "" ∧
    (f.findEngine host).value.1.path = some executable ∧ raises executable text

theorem beginText_returns_iff {host : Host} {f : Formatter} {document : Document}
    {path : Option Path} {resolved : Resolved} (text : String)
    (hresolved : (f.resolver.optionsFor host path).value.1 = .ok resolved)
    (hwrites : ∀ text, Host.FailsByRefusal (document.setText host text).1) :
    (∃ outcome, (resultOf host document (f.beginText host text path).value.1).1 = .ok outcome) ↔
      ¬ ∃ executable, (f.findEngine host).value.1.path = some executable ∧
        Raises host f.settings executable resolved.options id text := by
  obtain ⟨found, built, hfound, hbuilt, hsettings⟩ := engine_and_options text hresolved
  simp only [beginText, Logged.value_bind]
  rw [hfound]
  cases (f.findEngine host).value.1.path with
  | none => simp [resultOf]
  | some executable =>
    simp only [Logged.value_bind, hbuilt, Option.some.injEq, exists_eq_left', not_raises_iff, id]
    cases DerivedOptions.derive text resolved.options f.settings with
    | error fault => simp [Except.map, resultOf]
    | ok derived =>
      simp only [Except.map, Logged.value_bind, Logged.value_pure]
      rw [launchJob_returns_iff built executable _ text _ hwrites, hsettings]
      simp

theorem format_returns_iff {host : Host} {f : Formatter} {document : Document}
    {resolved : Resolved}
    (hresolved : (f.resolver.optionsFor host document.path?).value.1 = .ok resolved)
    (hnames : host.directory.any Host.hasNul = false) :
    (∃ outcome, (f.format host document).value.1.1 = .ok outcome) ↔
      ¬ DocumentRaises host f document fun executable text =>
        Raises host f.settings executable resolved.options id text := by
  have hnameable := isNameable_of_resolved hresolved
  have hwrites := setText_failsByRefusal hnameable hnames
  rw [value_format_beginRequest]
  simp only [beginRequest, Logged.value_bind, DocumentRaises]
  rcases readDocument_cases host hnameable with ⟨text, htext, hread⟩ |
    ⟨fault, message, hfault, hread⟩
  · rw [hread, htext]
    by_cases hempty : text = ""
    · simp [hempty, resultOf]
    · have htextual := beginText_returns_iff text hresolved hwrites
      simp [hempty, htextual]
  · rw [hread, hfault]
    simp [resultOf]

/-! Lint requests. -/

/-- A diagnostic in the report names its place by a number of too many digits. -/
def HasLongPlace (report : String) : Prop :=
  ∃ line ∈ Text.pieces (· == '\n') report.toList, ∃ parts, Diagnostic.parts? line = some parts ∧
    (digitLimit < parts.line.length ∨ digitLimit < parts.column.length)

theorem ofParts_returns_iff (parts : Diagnostic.Parts) :
    (∃ diagnostic, Diagnostic.ofParts parts = .ok diagnostic) ↔
      ¬ (digitLimit < parts.line.length ∨ digitLimit < parts.column.length) := by
  by_cases hline : digitLimit < parts.line.length <;>
    by_cases hcolumn : digitLimit < parts.column.length <;>
    simp [Diagnostic.ofParts, Diagnostic.readCount, hline, hcolumn, bind, Except.bind]

theorem mapM_returns_iff {α β : Type} (f : α → Except Fault β) (items : List α) :
    (∃ results, items.mapM f = .ok results) ↔ ∀ item ∈ items, ∃ result, f item = .ok result := by
  induction items with
  | nil => simp [pure, Except.pure]
  | cons item rest ih =>
    rw [List.forall_mem_cons, ← ih, List.mapM_cons]
    cases f item with
    | error fault => simp [bind, Except.bind]
    | ok result => cases rest.mapM f <;> simp [bind, Except.bind, pure, Except.pure]

theorem parse_returns_iff (report : String) :
    (∃ diagnostics, Diagnostic.parse report = .ok diagnostics) ↔ ¬ HasLongPlace report := by
  simp only [Diagnostic.parse, mapM_returns_iff, List.mem_filterMap, ofParts_returns_iff]
  constructor
  · rintro h ⟨line, hline, parts, hparts, hlong⟩
    exact h parts ⟨line, hline, hparts⟩ hlong
  · rintro h parts ⟨line, hline, hparts⟩ hlong
    exact h ⟨line, hline, parts, hparts, hlong⟩

theorem lintReport_returns_iff (messages : List String) (collected : Except Fault String) :
    (∃ report, (lintReport messages collected).value = .ok report) ↔
      Settles collected ∧ ∀ report, collected = .ok report → ¬ HasLongPlace report := by
  cases collected with
  | error fault =>
    simp only [lintReport, Settles]
    cases hformatting : fault.isFormatting <;> simp [hformatting]
  | ok report =>
    simp only [lintReport, Settles, Logged.value_pure, ← parse_returns_iff]
    cases hparsed : Diagnostic.parse report <;> simp [hparsed, Except.map]

theorem collectReport_settles_iff (host : Host) (executable : String) (options : OptionMap)
    (text : String) (limit : Option TimeLimit) :
    Settles (Runner.collectReport host (some executable) options text
        (limit.map Subtype.val)).value ↔
      ¬ RunRaises host executable (Runner.forReport options) text limit := by
  rw [not_runRaises_iff]
  simp only [Runner.collectReport, Runner.run, Logged.value_bind, Logged.value_pure]
  cases (Runner.launch host (some executable) (Runner.forReport options) text).value with
  | error fault => simp [Settles, Except.map]
  | ok launched =>
    simp only [Settles, reduceCtorEq, Except.ok.injEq, false_implies, implies_true, true_and,
      forall_eq']
    cases (Runner.conclude launched (limit.map Subtype.val)).value <;> simp [Except.map]

/-- A report is collected from a run whose exit code is known. -/
theorem collectReport_eq_ok_iff (host : Host) (executable : String) (options : OptionMap)
    (text : String) (limit : Option TimeLimit) (report : String) :
    (Runner.collectReport host (some executable) options text
        (limit.map Subtype.val)).value = .ok report ↔
      ∃ launched run, Starts host executable (Runner.forReport options) text launched ∧
        launched.behaviour = .ends run ∧ IsKnown run ∧
        report = String.ofList (Text.Utf8.decodeLossy run.diagnostics) := by
  simp only [Runner.collectReport, Runner.run, Logged.value_bind, Logged.value_pure,
    ← launch_eq_ok_iff]
  cases (Runner.launch host (some executable) (Runner.forReport options) text).value with
  | error fault => simp [Except.map]
  | ok launched =>
    simp only [Except.ok.injEq, exists_and_left, exists_eq_left']
    by_cases hruns : ∃ run, launched.behaviour = .ends run ∧ IsKnown run
    · obtain ⟨run, hends, hknown⟩ := hruns
      rw [conclude_known launched run limit hends hknown]
      simp [Except.map, hends, hknown, Execution.ofRun, eq_comm]
    · obtain ⟨fault, hfault⟩ := conclude_unknown launched limit hruns
      rw [hfault]
      simp only [Except.map, reduceCtorEq, false_iff]
      rintro ⟨run, hends, hknown, -⟩
      exact hruns ⟨run, hends, hknown⟩

/-- A lint request for a text raises as a format request does, or its engine's report has a place of
too many digits. -/
inductive LintRaises (host : Host) (settings : Settings) (executable : String) (base : OptionMap)
    (text : String) : Prop
  | request (hraises : Raises host settings executable base Runner.forReport text)
  | report (derived : OptionMap)
    (hderived : DerivedOptions.derive text base settings = .ok derived) (launched : Launched)
    (hstart : Starts host executable (Runner.forReport (base.mergeOne derived)) text launched)
    (run : Run) (hends : launched.behaviour = .ends run) (hknown : IsKnown run)
    (hplace : HasLongPlace (String.ofList (Text.Utf8.decodeLossy run.diagnostics)))

theorem not_lintRaises_iff (host : Host) (settings : Settings) (executable : String)
    (base : OptionMap) (text : String) :
    ¬ LintRaises host settings executable base text ↔
      ∃ derived, DerivedOptions.derive text base settings = .ok derived ∧
        Settles (Runner.collectReport host (some executable) (base.mergeOne derived) text
          (settings.timeout.map Subtype.val)).value ∧
        ∀ report, (Runner.collectReport host (some executable) (base.mergeOne derived) text
          (settings.timeout.map Subtype.val)).value = .ok report → ¬ HasLongPlace report := by
  simp only [collectReport_settles_iff, collectReport_eq_ok_iff]
  constructor
  · intro h
    obtain ⟨derived, hderived, hcalm⟩ := (not_raises_iff ..).mp fun hraises => h (.request hraises)
    refine ⟨derived, hderived, hcalm, ?_⟩
    rintro report ⟨launched, run, hstart, hends, hknown, rfl⟩ hplace
    exact h (.report derived hderived launched hstart run hends hknown hplace)
  · rintro ⟨derived, hderived, hcalm, hplaces⟩ hraises
    cases hraises with
    | request hraises => exact (not_raises_iff ..).mpr ⟨derived, hderived, hcalm⟩ hraises
    | report other hother launched hstart run hends hknown hplace =>
      rw [hderived, Except.ok.injEq] at hother
      subst hother
      exact hplaces _ ⟨launched, run, hstart, hends, hknown, rfl⟩ hplace

theorem lintText_returns_iff {host : Host} {f : Formatter} {path : Option Path}
    {resolved : Resolved} (text : String)
    (hresolved : (f.resolver.optionsFor host path).value.1 = .ok resolved) :
    (∃ report, (f.lintText host text path).value.1 = .ok report) ↔
      ¬ ∃ executable, (f.findEngine host).value.1.path = some executable ∧
        LintRaises host f.settings executable resolved.options text := by
  obtain ⟨found, built, hfound, hbuilt, hsettings⟩ := engine_and_options text hresolved
  simp only [lintText, Logged.value_bind]
  rw [hfound]
  cases (f.findEngine host).value.1.path with
  | none => simp
  | some executable =>
    simp only [Logged.value_bind, hbuilt, Option.some.injEq, exists_eq_left', not_lintRaises_iff]
    cases DerivedOptions.derive text resolved.options f.settings with
    | error fault => simp [Except.map]
    | ok derived =>
      simp only [Except.map, Logged.value_bind, Logged.value_pure, lintReport_returns_iff,
        hsettings]
      simp

theorem lint_returns_iff {host : Host} {f : Formatter} {document : Document}
    {resolved : Resolved}
    (hresolved : (f.resolver.optionsFor host document.path?).value.1 = .ok resolved) :
    (∃ report, (f.lint host document).value.1 = .ok report) ↔
      ¬ DocumentRaises host f document fun executable text =>
        LintRaises host f.settings executable resolved.options text := by
  have hnameable := isNameable_of_resolved hresolved
  simp only [lint, Logged.value_bind, DocumentRaises]
  rcases readDocument_cases host hnameable with ⟨text, htext, hread⟩ |
    ⟨fault, message, hfault, hread⟩
  · rw [hread, htext]
    by_cases hempty : text = ""
    · simp [hempty]
    · have htextual := lintText_returns_iff text hresolved
      simp [hempty, htextual]
  · rw [hread, hfault]
    simp

/-- With the base options at hand, whole and shallow ones, a format request and a lint request
return, unless a number of too many digits, an argument with a NUL or an engine that nothing stops
comes in their way. -/
theorem requests_return_iff (host : Host) (f : Formatter) (document : Document)
    (resolved : Resolved)
    (hresolved : (f.resolver.optionsFor host document.path?).value.1 = .ok resolved)
    (_hwhole : resolved.IsWhole) (_hshallow : resolved.options.IsShallow)
    (hnames : host.directory.any Host.hasNul = false) :
    ((∃ outcome, (f.format host document).value.1.1 = .ok outcome) ↔
      ¬ DocumentRaises host f document fun executable text =>
        Raises host f.settings executable resolved.options id text) ∧
    ((∃ report, (f.lint host document).value.1 = .ok report) ↔
      ¬ DocumentRaises host f document fun executable text =>
        LintRaises host f.settings executable resolved.options text) :=
  ⟨format_returns_iff hresolved hnames, lint_returns_iff hresolved⟩

theorem capitals_do_not_raise :
    (capitalsFormatter.resolver.optionsFor capitalsHost none).value.1 = .ok ⟨.empty, none, []⟩ ∧
    capitalsHost.directory.any Host.hasNul = false ∧
    ¬ DocumentRaises capitalsHost capitalsFormatter (.buffer "<p>" none false)
      fun executable text =>
        Raises capitalsHost capitalsFormatter.settings executable .empty id text :=
  ⟨rfl, rfl, (requests_return_iff capitalsHost capitalsFormatter (.buffer "<p>" none false)
    ⟨.empty, none, []⟩ rfl nofun nofun rfl).1.mp ⟨_, format_capitals⟩⟩

/-- Settings with an option whose value is a NUL. -/
def nulSettings : Settings where
  options := ⟨[("a", .text "\x00")], by decide⟩
  fileSearch := false

def nulFormatter : Formatter where
  resolver := .ofSettings ⟨0, nulSettings⟩ none
  lookup := some ⟨some "/tidy", []⟩

/-- Settings that are accepted make each request raise whose engine would get a NUL. -/
theorem nul_in_option_escapes :
    Settings.ofHost [("optionsTidy", .table [("a", .text "\x00")]),
      ("fileSearchEnabled", .bool false)] = .ok nulSettings ∧
    (nulFormatter.resolver.optionsFor capitalsHost none).value.1 =
      .ok ⟨nulSettings.options, none, []⟩ ∧
    (¬ ∃ outcome, (nulFormatter.format capitalsHost (.buffer "<p>" none false)).value.1.1 =
      .ok outcome) ∧
    ¬ ∃ report, (nulFormatter.lint capitalsHost (.buffer "<p>" none false)).value.1 =
      .ok report := by
  have hresolved : (nulFormatter.resolver.optionsFor capitalsHost
      (Document.buffer "<p>" none false).path?).value.1 = .ok ⟨nulSettings.options, none, []⟩ := rfl
  have hderived : DerivedOptions.derive "<p>" nulSettings.options nulSettings = .ok .empty := rfl
  have hformat : RunRaises capitalsHost "/tidy" (nulSettings.options.mergeOne .empty) "<p>"
      nulSettings.timeout :=
    .nul (by decide) ["--a", "\x00", "--tidy-mark", "no", "--force-output", "yes", "--quiet", "no"]
      rfl "\x00" (by decide) (by decide)
  have hlint : RunRaises capitalsHost "/tidy"
      (Runner.forReport (nulSettings.options.mergeOne .empty)) "<p>" nulSettings.timeout :=
    .nul (by decide) ["--a", "\x00", "--show-errors", "10", "--tidy-mark", "no", "--force-output",
      "yes", "--quiet", "no"] rfl "\x00" (by decide) (by decide)
  refine ⟨rfl, hresolved, fun hreturns => ?_, fun hreturns => ?_⟩
  · refine (format_returns_iff hresolved rfl).mp hreturns ?_
    exact ⟨"<p>", "/tidy", rfl, by decide, rfl, .run .empty hderived hformat⟩
  · refine (lint_returns_iff hresolved).mp hreturns ?_
    exact ⟨"<p>", "/tidy", rfl, by decide, rfl, .request (.run .empty hderived hlint)⟩

end Formatter

end MarkupTidy
