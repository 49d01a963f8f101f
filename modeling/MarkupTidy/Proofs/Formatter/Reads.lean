import MarkupTidy.Proofs.Executable
import MarkupTidy.Proofs.Files.Differing
import MarkupTidy.Proofs.Formatter.InPlace
import MarkupTidy.Proofs.Formatter.Prepared

/-!
What a format request reads. It reads its document and the override file that counts for it, and the
launch of its engine opens programs; where hosts differ in none of these files, the request begins
on both alike. All else that it asks of a host is where paths lead, and what may be run.
-/
namespace MarkupTidy

theorem Logged.bind_congr {α β : Type} (x : Logged α) {next next' : α → Logged β}
    (h : next x.value = next' x.value) : x >>= next = x >>= next' := by
  show Logged.bind x next = Logged.bind x next'
  rw [Logged.bind, h, Logged.bind]

namespace Host

/-- The places that are opened to run the program at a path: where the program lies, and, for a
script, what is opened to run its interpreter. -/
inductive Opens (host : Host) : String → Location → Prop
  | program {path : String} {place : Location} {node : Node}
    (hwalk : host.walk .target path = .ok (.node place node)) : Opens host path place
  | interpreter {path : String} {place : Location} {file : File} {interpreter : Interpreter}
    (hprogram : host.program path = .ok file) (hengine : file.engine = none)
    (hscript : Interpreter.ofOctets? file.octets = some interpreter)
    (hopens : Opens host interpreter.path place) : Opens host path place

/-- The places that are opened to launch an engine. The paths that it may have are tried until a
program starts. -/
def LaunchOpens (host : Host) (executable : String) (place : Location) : Prop :=
  ∃ before path after, host.tried executable = before ++ path :: after ∧
    (∀ earlier ∈ before, ∃ refusal, host.engineAt earlier = .error refusal) ∧
    host.Opens path place

end Host

namespace DiffersAt

open Host

variable {changed : Location → Prop} {host host' : Host}

/-! Launching. -/

theorem walk_kept (h : DiffersAt changed host host') {path : String}
    (hkept : ∀ place, host.Opens path place → ¬ changed place) :
    host'.walk .target path = host.walk .target path := by
  rw [h.walk_eq]
  cases hwalk : host.walk .target path with
  | error refusal => rfl
  | ok found =>
    cases found with
    | vacant place => rfl
    | node place node =>
      have hsame := (h.walk_cases hwalk).resolve_right fun hchanged =>
        hkept place (.program hwalk) hchanged.1
      rw [h.walk_eq, hwalk] at hsame
      exact hsame

theorem program_eq (h : DiffersAt changed host host') {path : String}
    (hkept : ∀ place, host.Opens path place → ¬ changed place) :
    host'.program path = host.program path := by
  rw [program, h.walk_kept hkept, program]

theorem engineOf_eq (h : DiffersAt changed host host') {path : String}
    (hkept : ∀ place, host.Opens path place → ¬ changed place) (front : List String) (left : Nat) :
    host'.engineOf path front left = host.engineOf path front left := by
  induction left generalizing path front with
  | zero => rw [engineOf, h.program_eq hkept, engineOf]
  | succ left ih =>
    rw [engineOf, h.program_eq hkept, engineOf]
    cases hprogram : host.program path with
    | error refusal => rfl
    | ok file =>
      simp only [bind, Except.bind]
      cases hengine : file.engine with
      | some engine => rfl
      | none =>
        cases hscript : Interpreter.ofOctets? file.octets with
        | none => rfl
        | some interpreter =>
          apply ih
          intro place hopens
          exact hkept place (.interpreter hprogram hengine hscript hopens)

theorem takes_eq (h : DiffersAt changed host host') (executable : String)
    (arguments : List String) :
    host'.takes executable arguments = host.takes executable arguments := by
  have hroom := h.startRoom_eq
  simp only [takes, hroom]

theorem startAt_eq (h : DiffersAt changed host host') {path : String}
    (hkept : ∀ place, host.Opens path place → ¬ changed place) (executable : String)
    (arguments : List String) :
    host'.startAt executable arguments path = host.startAt executable arguments path := by
  simp only [startAt, h.program_eq hkept, h.takes_eq, engineAt, h.engineOf_eq hkept]

/-- A program that is refused is so whatever it holds. -/
theorem program_error_iff (h : DiffersAt changed host host') (path : String) (refusal : Refusal) :
    host'.program path = .error refusal ↔ host.program path = .error refusal := by
  unfold program
  split
  · rfl
  · cases hwalk : host.walk .target path with
    | error refusal => rw [h.walk_eq, hwalk]; rfl
    | ok found =>
      cases found with
      | vacant place => rw [h.walk_eq, hwalk]; rfl
      | node place node =>
        rcases h.walk_cases hwalk with hsame | ⟨-, file, octets, rfl, hfile⟩
        · rw [hsame]
        · rw [hfile]
          have hbits : File.isRunnable ⟨octets, file.mode, none⟩ = file.isRunnable := rfl
          simp only [hbits]
          cases file.isRunnable <;> simp

/-- With arguments that cannot be passed on, only whether there is a program counts. -/
theorem startAt_eq_of_refused (h : DiffersAt changed host host') {executable : String}
    {arguments : List String} (htakes : host.takes executable arguments = false) (path : String) :
    host'.startAt executable arguments path = host.startAt executable arguments path := by
  have hrefused := h.program_error_iff path
  simp only [startAt, h.takes_eq, htakes, bind, Except.bind]
  cases hprogram : host.program path with
  | error refusal => rw [(hrefused refusal).2 hprogram]
  | ok file =>
    cases hprogram' : host'.program path with
    | ok file' => rfl
    | error refusal =>
      rw [(hrefused refusal).1 hprogram'] at hprogram
      cases hprogram

theorem tried_eq (h : DiffersAt changed host host') (executable : String) :
    host'.tried executable = host.tried executable := by
  have hsearch := h.searchPath_eq
  unfold tried candidates
  rw [hsearch]

theorem startFirst_eq_of_refused (h : DiffersAt changed host host') {executable : String}
    {arguments : List String} (htakes : host.takes executable arguments = false)
    (reported : Option Refusal) (paths : List String) :
    host'.startFirst executable arguments reported paths =
      host.startFirst executable arguments reported paths := by
  induction paths generalizing reported with
  | nil => rfl
  | cons path rest ih =>
    rw [startFirst, h.startAt_eq_of_refused htakes, startFirst]
    cases host.startAt executable arguments path with
    | ok engine => rfl
    | error refusal => exact ih _

/-- Programs are tried alike, up to the first that starts. -/
theorem startFirst_eq (h : DiffersAt changed host host') (executable : String)
    (arguments : List String) {paths : List String}
    (hkept : ∀ before path after, paths = before ++ path :: after →
      (∀ earlier ∈ before, ∃ refusal, host.engineAt earlier = .error refusal) →
        ∀ place, host.Opens path place → ¬ changed place) (reported : Option Refusal) :
    host'.startFirst executable arguments reported paths =
      host.startFirst executable arguments reported paths := by
  induction paths generalizing reported with
  | nil => rfl
  | cons path rest ih =>
    rw [startFirst, h.startAt_eq (hkept [] path rest rfl (List.forall_mem_nil _)), startFirst]
    cases hstart : host.startAt executable arguments path with
    | ok engine => rfl
    | error refusal =>
      dsimp only
      cases htakes : host.takes executable arguments with
      | false => exact h.startFirst_eq_of_refused htakes _ rest
      | true =>
        apply ih
        intro before other after hrest hbefore
        apply hkept (path :: before) other after (by rw [hrest, List.cons_append])
        intro earlier hearlier
        rcases List.mem_cons.1 hearlier with rfl | hin
        · rw [← startAt_of_takes htakes]
          exact ⟨refusal, hstart⟩
        · exact hbefore earlier hin

theorem startWith_eq (h : DiffersAt changed host host') {executable : String}
    (hkept : ∀ place, host.LaunchOpens executable place → ¬ changed place)
    (arguments : List String) (text : String) :
    Runner.startWith host' executable arguments text =
      Runner.startWith host executable arguments text := by
  have hstart : host'.start executable arguments = host.start executable arguments := by
    rw [start_eq_startFirst, start_eq_startFirst, h.tried_eq]
    apply h.startFirst_eq
    intro before path after htried hbefore place hopens
    exact hkept place ⟨before, path, after, htried, hbefore, hopens⟩
  rw [Runner.startWith, hstart, Runner.startWith]

theorem launch_eq (h : DiffersAt changed host host') {executable : String}
    (hkept : ∀ place, host.LaunchOpens executable place → ¬ changed place)
    (options : OptionMap) (text : String) :
    Runner.launch host' (some executable) options text =
      Runner.launch host (some executable) options text := by
  unfold Runner.launch
  cases hnamed : (some executable).filter fun path => !path.isEmpty with
  | none => rfl
  | some path =>
    obtain ⟨hpath, -⟩ := Option.filter_eq_some_iff.1 hnamed
    cases hpath
    simp only [h.startWith_eq hkept]

/-! Looking for an engine and for options. -/

theorem findEngine_eq (h : DiffersAt changed host host') (configured : Option String) :
    host'.findEngine configured = host.findEngine configured := by
  have hwhich : host'.which standardEngine = host.which standardEngine := by
    have hsearch := h.searchPath_eq
    have hrunnable := h.isExecutable_eq
    unfold which candidates
    rw [hsearch, hrunnable]
  have hstandard : host'.findStandard = host.findStandard := by
    funext warnings
    rw [findStandard, hwhich, findStandard]
  unfold findEngine
  rw [hstandard, h.isExecutable_eq]

theorem findIn_eq (h : DiffersAt changed host host') (name : String) (directories : List Path) :
    Override.findIn host' name directories = Override.findIn host name directories := by
  induction directories with
  | nil => rfl
  | cons directory rest ih =>
    rw [Override.findIn, Override.findIn]
    simp only [h.isFile?_eq, ih]

theorem find_eq (h : DiffersAt changed host host') (start : Path) (name : String) :
    Override.find host' start name = Override.find host start name := by
  rw [Override.find, h.resolve_eq, Override.find]
  simp only [h.findIn_eq]

theorem ofFile_eq (h : DiffersAt changed host host') (settings : Settings) {file : Path}
    (hkept : ∀ place, host.LeadsTo file place → ¬ changed place) :
    Resolved.ofFile host' settings file = Resolved.ofFile host settings file := by
  rw [Resolved.ofFile, h.readText_eq hkept, Resolved.ofFile]

end DiffersAt

namespace Formatter

open Host

/-- To format a document, what lies at these places is read. -/
inductive Reads (host : Host) (settings : Settings) (document : Path) (place : Location) : Prop
  | document (hleads : host.LeadsTo document place)
  | override {resolved file : Path} (hsearch : settings.fileSearch = true)
    (hresolve : host.resolve document = .ok resolved)
    (hfind : Override.find host resolved.parent settings.overrideName = .ok (some file))
    (hleads : host.LeadsTo file place)
  | engine {executable : String}
    (hfound : (host.findEngine settings.executable).value.path = some executable)
    (hopens : host.LaunchOpens executable place)

section Differing

variable {changed : Location → Prop} {host host' : Host} {edition : Edition} {f : Formatter}
  {document : Path}

/-- What is found for a directory is the same where the override file that counts there is. -/
theorem resolved_find_eq (h : DiffersAt changed host host') {settings : Settings} {resolved : Path}
    (hresolve : host.resolve document = .ok resolved)
    (hkept : ∀ place, Reads host settings document place → ¬ changed place) :
    Resolved.find host' settings (some resolved.parent) =
      Resolved.find host settings (some resolved.parent) := by
  unfold Resolved.find
  cases hsearch : settings.fileSearch with
  | false => rfl
  | true =>
    dsimp only
    rw [h.find_eq]
    cases hfile : Override.find host resolved.parent settings.overrideName with
    | error fault => rfl
    | ok found =>
      cases found with
      | none => rfl
      | some file =>
        apply h.ofFile_eq
        intro place hleads
        exact hkept place (.override hsearch hresolve hfile hleads)

theorem optionsFor_eq (h : DiffersAt changed host host') (r : Resolver)
    (hkept : ∀ place, Reads host r.settings document place → ¬ changed place) :
    r.optionsFor host' (some document) = r.optionsFor host (some document) := by
  have hdirectory : r.directoryFor host' (some document) =
      r.directoryFor host (some document) := by
    simp only [Resolver.directoryFor, h.resolve_eq]
  rw [Resolver.optionsFor, hdirectory, Resolver.optionsFor]
  cases hresolve : host.resolve document with
  | error fault =>
    simp only [Resolver.directoryFor, hresolve]
    rfl
  | ok resolved =>
    simp only [Resolver.directoryFor, hresolve, Except.map, Resolver.optionsIn]
    have hthere : (r.look (some resolved.parent)).2.settings = r.settings := rfl
    split
    · rfl
    · next edition hlook =>
      have hedition : edition.settings = r.settings := by rw [← hthere, hlook]
      rw [hedition, resolved_find_eq h hresolve hkept]

theorem findEngine_differing (h : DiffersAt changed host host') (f : Formatter) :
    f.findEngine host' = f.findEngine host := by
  unfold findEngine
  rw [h.findEngine_eq]

theorem buildOptions_eq (h : DiffersAt changed host host')
    (hkept : ∀ place, Reads host f.settings document place → ¬ changed place) (text : String) :
    f.buildOptions host' text (some document) = f.buildOptions host text (some document) := by
  rw [buildOptions, optionsFor_eq h f.resolver hkept, buildOptions]

theorem launchJob_eq (h : DiffersAt changed host host') (f : Formatter) {executable : String}
    (hkept : ∀ place, host.LaunchOpens executable place → ¬ changed place) (options : OptionMap)
    (text : String) (messages : List String) :
    launchJob host' f executable options text messages =
      launchJob host f executable options text messages := by
  rw [launchJob, h.launch_eq hkept, launchJob]

/-- A text is begun to be formatted alike where what is read for it is the same. -/
theorem beginText_eq (h : DiffersAt changed host host') (hf : IsCurrent (· = host) edition f)
    (hkept : ∀ place, Reads host edition.settings document place → ¬ changed place)
    (text : String) :
    f.beginText host' text (some document) = f.beginText host text (some document) := by
  rw [beginText, findEngine_differing h, beginText]
  apply Logged.bind_congr
  have hsettings : (f.findEngine host).value.2.settings = edition.settings := by
    rw [settings_findEngine, hf.settings]
  have hengine := hf.path_findEngine
  revert hsettings hengine
  generalize (f.findEngine host).value = found
  obtain ⟨lookup, f'⟩ := found
  intro hsettings hengine
  dsimp only at hsettings hengine ⊢
  cases hpath : lookup.path with
  | none => rfl
  | some executable =>
    rw [← hsettings] at hkept
    simp only [buildOptions_eq h hkept]
    apply Logged.bind_congr
    split
    · rfl
    · next options warnings f'' hbuilt =>
      rw [launchJob_eq h]
      intro place hopens
      apply hkept
      apply Reads.engine _ hopens
      rw [hsettings, ← hengine, hpath]

/-- A request for a file begins as one for a buffer with its text, on a host where the file may have
been others before that the request does not read. -/
theorem beginRequest_eq (h : DiffersAt changed host host') (hf : IsCurrent (· = host) edition f)
    (hkept : ∀ place, Reads host edition.settings document place → ¬ changed place)
    {text : String} (hread : host.readText document = .ok text) :
    f.beginRequest host' (.file document) =
      f.beginRequest host (.buffer text (some document) false) := by
  have hsame : host'.readText document = .ok text := by
    rw [h.readText_eq fun place hleads => hkept place (.document hleads), hread]
  have hdocument : readDocument host' (.file document) =
      readDocument host (.buffer text (some document) false) := by
    rw [readDocument, Document.text, hsame, readDocument, Document.text]
  rw [beginRequest, hdocument, beginRequest]
  simp only [Document.path?, beginText_eq h hf hkept]

end Differing

/-! Results with and without a new text. -/

/-- The document has the new text. -/
def isApplied (result : Except Fault Outcome) : Bool := result.toOption.any Outcome.isApplied

theorem isApplied_settleFault (messages : List String) (fault : Fault) :
    isApplied (settleFault messages fault).value = false := by
  unfold settleFault
  split <;> rfl

theorem isApplied_ofSettled {result : Except Fault Outcome} (h : isApplied result = false)
    {outcome : Outcome} (hsettled : Begun.ofSettled result = .settled outcome) :
    outcome.isApplied = false := by
  cases result with
  | error fault => cases hsettled
  | ok other =>
    cases hsettled
    exact h

/-- A request that is over when it has begun gives no new text. -/
theorem isApplied_settled {host : Host} {f : Formatter} {document : Document} {outcome : Outcome}
    (h : (f.beginRequest host document).value.1 = .settled outcome) :
    outcome.isApplied = false := by
  rw [(beginRequest_prepare host f document).1] at h
  cases hprepared : f.prepare host document with
  | raised fault =>
    rw [hprepared] at h
    cases h
  | unreadable message | empty | missing messages =>
    rw [hprepared] at h
    cases h
    rfl
  | ready executable options messages text =>
    rw [hprepared, Prepared.format] at h
    cases hlaunch : (Runner.launch host (some executable) options text).value with
    | error fault =>
      rw [hlaunch] at h
      exact isApplied_ofSettled (isApplied_settleFault messages fault) h
    | ok launched =>
      rw [hlaunch] at h
      cases h

/-- Without a run to be applied, a request comes to the same wherever its document lies. -/
theorem finishRequest_unapplied {job : Job} (h : applied? job = none) (host host' : Host)
    (document document' : Document) :
    (finishRequest host' job document').value.1 = (finishRequest host job document).value.1 ∧
      isApplied (finishRequest host job document).value.1 = false := by
  unfold applied? at h
  simp only [finishRequest, Logged.value_bind]
  cases hrun : (Runner.conclude job.launched (job.settings.timeout.map Subtype.val)).value with
  | error fault => exact ⟨rfl, isApplied_settleFault job.messages fault⟩
  | ok execution =>
    simp only [hrun] at h
    cases hhindrance : hindrance? job.settings execution with
    | none =>
      rw [hhindrance] at h
      cases h
    | some hindrance =>
      simp only [settle, hhindrance]
      exact ⟨rfl, rfl⟩

/-- A run that may be applied is. -/
theorem applied?_eq_some {job : Job} {run : Run} (hends : job.launched.behaviour = .ends run)
    (happly : MayApply job.settings run) : applied? job = some (.ofRun run) := by
  have hnone := (hindrance?_eq_none_iff job.settings run happly.isKnown).2 happly
  rw [applied?, conclude_known job.launched run job.settings.timeout hends happly.isKnown]
  simp only [hnone]

/-- What is told about a run that was applied. -/
def appliedMessages (job : Job) (execution : Execution) : List String :=
  job.messages ++ reportMessages execution ++
    tagCountMessages job.settings job.text execution.output

/-- With a run to be applied, a request is formatted if its document takes the new text. -/
theorem finishRequest_applied {job : Job} {execution : Execution}
    (h : applied? job = some execution) {host : Host} {document : Document}
    (hset : (document.setText host execution.output).1 = .ok ⟨⟩) :
    (finishRequest host job document).value =
      (.ok ⟨.formatted, some execution, appliedMessages job execution⟩,
        (document.setText host execution.output).2) := by
  unfold applied? at h
  simp only [finishRequest, Logged.value_bind]
  cases hrun : (Runner.conclude job.launched (job.settings.timeout.map Subtype.val)).value with
  | error fault =>
    rw [hrun] at h
    cases h
  | ok other =>
    simp only [hrun] at h
    cases hhindrance : hindrance? job.settings other with
    | some hindrance =>
      rw [hhindrance] at h
      cases h
    | none =>
      rw [hhindrance] at h
      cases h
      simp only [settle, hhindrance, apply]
      revert hset
      generalize document.setText host execution.output = given
      obtain ⟨result, changed⟩ := given
      intro hset
      cases hset
      rfl

/-! Formatting a file in place, and its text in a buffer. -/

/-- If a request for a file comes to write it, this does not fail. -/
def WritesDone (host : Host) (f : Formatter) (path : Path) : Prop :=
  ∀ job execution, (f.beginRequest host (.file path)).value.1 = .running job →
    applied? job = some execution →
      (host.overwriteFile path (Text.Utf8.encode execution.output.toList)).1 = .ok ⟨⟩

/-- A request for a file comes to the same as one for a buffer with its text. Where this gives the
buffer a text, the file gets it, and the host is the same otherwise. -/
inductive FormatsAlike (host : Host) (path : Path) (inBuffer inPlace : Finished) : Prop
  | kept (hresult : inPlace.1 = inBuffer.1) (hunapplied : isApplied inBuffer.1 = false)
    (hhost : inPlace.2.host = host)
  | written {text : String} {place : Location} {file : File} (hresult : inPlace.1 = inBuffer.1)
    (happlied : isApplied inBuffer.1 = true)
    (hbuffer : inBuffer.2.document = .buffer text (some path) false)
    (hstat : host.stat path.text = .ok (place, .file file))
    (hhost : inPlace.2.host = host.withTree (host.tree.set place
      (.file ⟨Text.Utf8.encode text.toList, file.mode, none⟩)))

section Differing

variable {changed : Location → Prop} {host host' : Host} {edition : Edition} {f : Formatter}
  {path : Path}

theorem format_alike (h : DiffersAt changed host host') (hf : IsCurrent (· = host) edition f)
    (hkept : ∀ place, Reads host edition.settings path place → ¬ changed place)
    (hanchor : path.anchor ≠ .none) (hlink : host'.tree.linkAt? host'.directory path = none)
    (hwrites : WritesDone host' f path) {text : String} (hread : host.readText path = .ok text) :
    FormatsAlike host' path (f.format host (.buffer text (some path) false)).value.1
      (f.format host' (.file path)).value.1 := by
  have hbegin := beginRequest_eq h hf hkept hread
  rw [value_format_beginRequest, value_format_beginRequest, hbegin]
  cases hbegun : (f.beginRequest host (.buffer text (some path) false)).value.1 with
  | settled outcome => exact .kept rfl (isApplied_settled hbegun) rfl
  | raised fault => exact .kept rfl rfl rfl
  | running job =>
    have hrunning : (f.beginRequest host' (.file path)).value.1 = .running job := by
      rw [hbegin, hbegun]
    obtain ⟨place, file, hstat⟩ := stat_of_running hrunning
    cases happlied : applied? job with
    | none =>
      obtain ⟨hresult, hunapplied⟩ := finishRequest_unapplied happlied host host'
        (.buffer text (some path) false) (.file path)
      refine .kept hresult hunapplied ?_
      rw [resultOf, changed_finishRequest, changedBy, happlied]
    | some execution =>
      have hdone := hwrites job execution hrunning happlied
      have hinPlace : (finishRequest host' job (.file path)).value = _ :=
        finishRequest_applied happlied hdone
      have hinBuffer : (finishRequest host job (.buffer text (some path) false)).value = _ :=
        finishRequest_applied happlied rfl
      rw [resultOf, resultOf, hinPlace, hinBuffer]
      refine .written rfl rfl rfl hstat ?_
      rcases Host.overwriteFile_cases hanchor hlink hstat
        (Text.Utf8.encode execution.output.toList) with ⟨fault, hfailed⟩ | hset
      · rw [hfailed] at hdone
        cases hdone
      · simp only [Document.setText, hset]

end Differing

end Formatter

end MarkupTidy
