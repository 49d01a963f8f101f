import MarkupTidy.DerivedOptions
import MarkupTidy.Document
import MarkupTidy.Resolver
import MarkupTidy.Runner

/-!
Formatting one document. A request begins by reading the document, finding the engine and the
options, and launching the engine; it finishes when the engine has ended, and only then changes
the document. Formatting failures become outcomes with messages for the user.
-/
namespace MarkupTidy

/-- What became of a format request. -/
inductive FormatStatus
  | formatted
  | skipped
  | blocked
  | failed
  | superseded
  deriving DecidableEq, Repr

def FormatStatus.name : FormatStatus → String
  | .formatted => "formatted"
  | .skipped => "skipped"
  | .blocked => "blocked"
  | .failed => "failed"
  | .superseded => "superseded"

structure Outcome where
  status : FormatStatus
  execution : Option Execution
  messages : List String
  deriving DecidableEq

namespace Outcome

/-- The document has the new text. -/
def isApplied (o : Outcome) : Bool := o.status == .formatted

def failed (messages : List String) : Outcome := ⟨.failed, none, messages⟩

/-- The outcome of a request that a newer one for the same document has overtaken. -/
def superseded : Outcome := ⟨.superseded, none, ["superseded by a newer format request"]⟩

end Outcome

/-- What an engine reports about a document. -/
structure LintReport where
  diagnostics : List Diagnostic
  messages : List String
  failed : Bool
  deriving DecidableEq

/-- Everything that a request whose engine runs goes by until it finishes. -/
structure Job where
  text : String
  settings : Settings
  messages : List String
  launched : Launched

/-- How the beginning of a request ends. -/
inductive Begun
  | settled (outcome : Outcome)
  | raised (fault : Fault)
  | running (job : Job)

structure Formatter where
  resolver : Resolver
  /-- The engine that was found first under the present settings. -/
  lookup : Option Lookup

namespace Formatter

def ofSettings (edition : Edition) (workspace : Option Path) : Formatter :=
  ⟨.ofSettings edition workspace, none⟩

def settings (f : Formatter) : Settings := f.resolver.settings

/-- Take over settings; what was found under earlier ones is forgotten. -/
def refresh (f : Formatter) (edition : Edition) : Formatter :=
  ⟨f.resolver.refresh edition, none⟩

/-- The engine, with warnings for the user: all of them when it is looked for, and again later
if none was found. -/
def findEngine (host : Host) (f : Formatter) : Logged (Lookup × Formatter) :=
  match f.lookup with
  | some lookup => pure (if lookup.found then { lookup with warnings := [] } else lookup, f)
  | none => do
    let lookup ← host.findEngine f.settings.executable
    pure (lookup, { f with lookup := some lookup })

/-- The base options of a document with those that derive from its text, and warnings. -/
def buildOptions (host : Host) (f : Formatter) (text : String) (path : Option Path) :
    Logged (Except Fault (OptionMap × List String) × Formatter) := do
  let (resolved, resolver) ← f.resolver.optionsFor host path
  let f := { f with resolver }
  match resolved with
  | .error fault => pure (.error fault, f)
  | .ok resolved =>
    let derived := DerivedOptions.derive text resolved.options f.settings
    pure (derived.map fun derived =>
      (resolved.options.mergeOne derived, resolved.warnings), f)

theorem settings_findEngine (host : Host) (f : Formatter) :
    (f.findEngine host).value.2.settings = f.settings := by
  unfold findEngine
  cases f.lookup <;> rfl

theorem resolver_findEngine (host : Host) (f : Formatter) :
    (f.findEngine host).value.2.resolver = f.resolver := by
  unfold findEngine
  cases f.lookup <;> rfl

theorem value_buildOptions (host : Host) (f : Formatter) (text : String) (path : Option Path) :
    (f.buildOptions host text path).value =
      (match (f.resolver.optionsFor host path).value.1 with
        | .error fault => .error fault
        | .ok resolved => (DerivedOptions.derive text resolved.options f.settings).map fun derived =>
            (resolved.options.mergeOne derived, resolved.warnings),
        { f with resolver := (f.resolver.optionsFor host path).value.2 }) := by
  have hkept := Resolver.edition_optionsFor host f.resolver path
  simp only [buildOptions, Logged.value_bind]
  cases (f.resolver.optionsFor host path).value.1 with
  | error fault => rfl
  | ok resolved =>
    simp only [Logged.value_pure, settings, Resolver.settings, hkept]

theorem settings_buildOptions (host : Host) (f : Formatter) (text : String)
    (path : Option Path) :
    (f.buildOptions host text path).value.2.settings = f.settings := by
  have hkept := Resolver.edition_optionsFor host f.resolver path
  unfold buildOptions
  simp only [Logged.value_bind]
  split <;> simp only [Logged.value_pure, settings, Resolver.settings, hkept]

/-- A document that cannot be read for these reasons is reported to the user. -/
def isUnreadable : Fault → Bool
  | .refused _ | .undecodable _ => true
  | _ => false

/-- Read a document, or say why that is impossible. -/
def readDocument (host : Host) (document : Document) :
    Logged (Except Fault (Except String String)) :=
  match document.text host with
  | .ok text => pure (.ok (.ok text))
  | .error fault =>
    if isUnreadable fault then do
      Logged.write .warning .formatter s!"Cannot read {document.pathText}: {fault.message}"
      pure (.ok (.error s!"cannot read document: {fault.message}"))
    else pure (.error fault)

/-- A fault of a request; formatting failures become an outcome. -/
def settleFault (messages : List String) (fault : Fault) : Logged (Except Fault Outcome) :=
  if fault.isFormatting then do
    Logged.write .warning .formatter s!"Formatting failed: {fault.message}"
    pure (.ok (.failed (messages ++ [fault.message])))
  else pure (.error fault)

def Begun.ofSettled : Except Fault Outcome → Begun
  | .ok outcome => .settled outcome
  | .error fault => .raised fault

/-- Launch the engine of a request on its text. -/
def launchJob (host : Host) (f : Formatter) (executable : String) (options : OptionMap)
    (text : String) (messages : List String) : Logged Begun := do
  match ← Runner.launch host (some executable) options text with
  | .error fault => do
    let settled ← settleFault messages fault
    pure (Begun.ofSettled settled)
  | .ok launched => pure (.running ⟨text, f.settings, messages, launched⟩)

/-- Begin to format a text that is not empty. -/
def beginText (host : Host) (f : Formatter) (text : String) (path : Option Path) :
    Logged (Begun × Formatter) := do
  let (lookup, f) ← f.findEngine host
  match lookup.path with
  | none => pure (.settled (.failed lookup.warnings), f)
  | some executable => do
    match ← f.buildOptions host text path with
    | (.error fault, f) => pure (.raised fault, f)
    | (.ok (options, warnings), f) => do
      let begun ← launchJob host f executable options text (lookup.warnings ++ warnings)
      pure (begun, f)

/-- Begin a request, up to the launch of its engine. -/
def beginRequest (host : Host) (f : Formatter) (document : Document) :
    Logged (Begun × Formatter) := do
  match ← readDocument host document with
  | .error fault => pure (.raised fault, f)
  | .ok (.error message) => pure (.settled (.failed [message]), f)
  | .ok (.ok text) =>
    if text.isEmpty then pure (.settled ⟨.skipped, none, []⟩, f)
    else f.beginText host text document.path?

/-- What stands against giving a document the output of a run. -/
inductive Hindrance
  | error
  | warning
  | noOutput
  deriving DecidableEq

/-- The reason to hold the output of a run back, if there is one. -/
def hindrance? (settings : Settings) (execution : Execution) : Option Hindrance :=
  if execution.saysExactly .error then some .error
  else if settings.stopOnWarning && execution.saysExactly .warning then some .warning
  else if execution.output.isEmpty then some .noOutput
  else none

/-- What a run reports first, if it ended with warnings or errors. -/
def reportMessages (execution : Execution) : List String :=
  if execution.hasDiagnostics &&
      (execution.saysExactly .error || execution.saysExactly .warning) then
    [Report.firstMessage execution.diagnostics]
  else []

def hindranceMessages : Hindrance → List String
  | .noOutput => ["tidy produced no output"]
  | _ => []

/-- A changed number of tags, if it is to be reported. -/
def tagCountMessages (settings : Settings) (before after : String) : List String :=
  if settings.secureTagCount then
    match Report.tagCountChange? before after with
    | some change => [s!"tag count changed: {change}"]
    | none => []
  else []

/-- A result of a request with the document and the host afterwards. -/
abbrev Finished := Except Fault Outcome × Document.Changed

/-- Give a document the output of a run. -/
def apply (host : Host) (job : Job) (document : Document) (execution : Execution)
    (messages : List String) : Logged Finished := do
  match document.setText host execution.output with
  | (.error (.refused refused), changed) => do
    Logged.write .warning .formatter
      s!"Cannot write {document.pathText}: {refused.message}"
    let message := s!"cannot write document: {refused.message}"
    pure (.ok ⟨.failed, some execution, messages ++ [message]⟩, changed)
  | (.error fault, changed) => pure (.error fault, changed)
  | (.ok _, changed) =>
    let counted := tagCountMessages job.settings job.text execution.output
    pure (.ok ⟨.formatted, some execution, messages ++ counted⟩, changed)

/-- Decide about the output of a finished run. -/
def settle (host : Host) (job : Job) (document : Document) (execution : Execution) :
    Logged Finished :=
  let messages := job.messages ++ reportMessages execution
  match hindrance? job.settings execution with
  | some hindrance =>
    pure (.ok ⟨.blocked, some execution, messages ++ hindranceMessages hindrance⟩,
      ⟨host, document⟩)
  | none => apply host job document execution messages

/-- Finish a request whose engine has ended, or whose time is over. -/
def finishRequest (host : Host) (job : Job) (document : Document) : Logged Finished := do
  let limit := job.settings.timeout.map Subtype.val
  match ← Runner.conclude job.launched limit with
  | .error fault => do
    let settled ← settleFault job.messages fault
    pure (settled, ⟨host, document⟩)
  | .ok execution => settle host job document execution

/-- Format a document from beginning to end. -/
def format (host : Host) (f : Formatter) (document : Document) :
    Logged (Finished × Formatter) := do
  match ← f.beginRequest host document with
  | (.settled outcome, f) => pure ((.ok outcome, ⟨host, document⟩), f)
  | (.raised fault, f) => pure ((.error fault, ⟨host, document⟩), f)
  | (.running job, f) => do
    let finished ← finishRequest host job document
    pure (finished, f)

def failedReport (messages : List String) : LintReport := ⟨[], messages, true⟩

/-- The report of a lint run from what its engine wrote. -/
def lintReport (messages : List String) (collected : Except Fault String) :
    Logged (Except Fault LintReport) :=
  match collected with
  | .error fault =>
    if fault.isFormatting then do
      Logged.write .warning .formatter s!"Lint failed: {fault.message}"
      pure (.ok (failedReport (messages ++ [fault.message])))
    else pure (.error fault)
  | .ok report =>
    pure ((Diagnostic.parse report).map fun diagnostics => ⟨diagnostics, messages, false⟩)

/-- Lint a text that is not empty. -/
def lintText (host : Host) (f : Formatter) (text : String) (path : Option Path) :
    Logged (Except Fault LintReport × Formatter) := do
  let (lookup, f) ← f.findEngine host
  match lookup.path with
  | none => pure (.ok (failedReport lookup.warnings), f)
  | some executable => do
    match ← f.buildOptions host text path with
    | (.error fault, f) => pure (.error fault, f)
    | (.ok (options, warnings), f) => do
      let limit := f.settings.timeout.map Subtype.val
      let collected ← Runner.collectReport host (some executable) options text limit
      let report ← lintReport (lookup.warnings ++ warnings) collected
      pure (report, f)

/-- Collect the diagnostics of a document and leave it as it is. -/
def lint (host : Host) (f : Formatter) (document : Document) :
    Logged (Except Fault LintReport × Formatter) := do
  match ← readDocument host document with
  | .error fault => pure (.error fault, f)
  | .ok (.error message) => pure (.ok (failedReport [message]), f)
  | .ok (.ok text) =>
    if text.isEmpty then pure (.ok ⟨[], [], false⟩, f)
    else f.lintText host text document.path?

end Formatter

end MarkupTidy
