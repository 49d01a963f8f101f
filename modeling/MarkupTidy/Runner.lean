import MarkupTidy.Diagnostic
import MarkupTidy.Executable
import MarkupTidy.Options.Arguments

/-!
Running an engine. Launching an engine gives it its arguments and the whole document; concluding
waits for its end, as long as it may take, and classifies its exit code.
-/
namespace MarkupTidy

/-- What an exit code says. -/
inductive Status
  | clean
  | warning
  | error
  deriving DecidableEq, Repr

namespace Status

def ofExitCode? (code : Int) : Option Status :=
  if code = 0 then some .clean
  else if code = 1 then some .warning
  else if code = 2 then some .error
  else none

def name : Status → String
  | .clean => "CLEAN"
  | .warning => "WARNING"
  | .error => "ERROR"

/-- The name in running text. -/
def word : Status → String
  | .clean => "clean"
  | .warning => "warning"
  | .error => "error"

end Status

/-- What a finished run gave; its exit code may not be known. -/
structure Execution where
  output : String
  diagnostics : String
  exitCode : Option Int
  deriving DecidableEq, Repr

namespace Execution

/-- What the exit code says, if it is one with a meaning. -/
def status? (e : Execution) : Option Status := e.exitCode.bind Status.ofExitCode?

def status (e : Execution) : Except Fault Status :=
  match e.status? with
  | some status => .ok status
  | none => .error (.unclassified e.exitCode)

/-- The exit code says this. -/
def saysExactly (e : Execution) (status : Status) : Bool := e.status? == some status

/-- The report says more than that nothing was found. -/
def hasDiagnostics (e : Execution) : Bool := !Report.isInformational e.diagnostics

/-- What a finished run wrote, bad octets replaced. -/
def ofRun (run : Run) : Execution :=
  ⟨String.ofList (Text.Utf8.decodeLossy run.output),
    String.ofList (Text.Utf8.decodeLossy run.diagnostics), some run.exitCode⟩

end Execution

/-- An engine that was started, and what it is going to do. -/
structure Launched where
  executable : String
  behaviour : Behaviour

namespace Runner

/-- How many errors a run shows that is made for its report alone. -/
def reportErrors : Int := 10

/-- The name of the option for the number of errors. -/
def showErrors : String := "showErrors"

/-- Options that show as many errors as a report has room for. -/
def forReport (options : OptionMap) : OptionMap :=
  options.mergeOne (.ofPairs [(showErrors, .int reportErrors)])

/-- Start an engine with arguments, on a text. -/
def startWith (host : Host) (executable : String) (arguments : List String) (text : String) :
    Except Fault Launched :=
  if (executable :: arguments).any Host.hasNul then .error .embeddedNul
  else
    match host.start executable arguments with
    | .error refusal =>
      .error (.launch (some executable) (.refused ⟨refusal, [executable]⟩))
    | .ok engine => .ok ⟨executable, engine arguments (Text.Utf8.encode text.toList)⟩

/-- Start an engine with options, on a text. -/
def launch (host : Host) (executable : Option String) (options : OptionMap) (text : String) :
    Logged (Except Fault Launched) :=
  match executable.filter fun path => !path.isEmpty with
  | none => pure (.error (.launch executable .notConfigured))
  | some path => do
    let complete := options.withFixed
    Logged.writeIf (OptionMap.skipsUnnamed complete.entries) .debug .options
      "Skipping option with empty name"
    match complete.arguments with
    | .error fault => pure (.error fault)
    | .ok arguments => do
      let words := String.intercalate " " arguments
      Logged.write .debug .runner s!"Running {path} {words}"
      pure (startWith host path arguments text)

/-- A limit that leaves no time at all; one that is no number is over at once. -/
def isOver (limit : Binary64) : Bool := !limit.isPositive

/-- A limit that no time reaches. -/
def isNever (limit : Binary64) : Bool := limit == .infinite false

/-- Stop an engine whose time is over. -/
def stop (launched : Launched) (limit : Binary64) : Logged (Except Fault Execution) := do
  Logged.write .warning .runner s!"tidy timed out after {limit.text}s, killing pid <pid>"
  pure (.error (.timeout (some launched.executable) limit))

/-- The result of a finished run; only an exit code with a meaning makes it one. -/
def classify (launched : Launched) (run : Run) : Logged (Except Fault Execution) :=
  let execution := Execution.ofRun run
  match Status.ofExitCode? run.exitCode with
  | none =>
    pure (.error (.process (some launched.executable) (some run.exitCode) execution.diagnostics))
  | some status => do
    Logged.writeIf execution.hasDiagnostics .info .runner
      s!"tidy exited with {status.word}: {Text.trimmed execution.diagnostics}"
    pure (.ok execution)

/-- Wait for an engine to end, for ever if no time is its limit. -/
def conclude (launched : Launched) (limit : Option Binary64) :
    Logged (Except Fault Execution) :=
  match launched.behaviour, limit with
  | .ends run, some limit => if isOver limit then stop launched limit else classify launched run
  | .ends run, none => classify launched run
  | .hangs, some limit => if isNever limit then pure (.error .endless) else stop launched limit
  | .hangs, none => pure (.error .endless)

/-- Run an engine from its start to its end. -/
def run (host : Host) (executable : Option String) (options : OptionMap) (text : String)
    (limit : Option Binary64) : Logged (Except Fault Execution) := do
  match ← launch host executable options text with
  | .error fault => pure (.error fault)
  | .ok launched => conclude launched limit

/-- The report of a run that shows many errors. -/
def collectReport (host : Host) (executable : Option String) (options : OptionMap)
    (text : String) (limit : Option Binary64) : Logged (Except Fault String) := do
  let result ← run host executable (forReport options) text limit
  pure (result.map Execution.diagnostics)

end Runner

end MarkupTidy
