import MarkupTidy.CommandLine.Report

/-!
Commands on files. The files are worked on one after the other; one that fails does not stop those
behind it, and a fault that is no formatting failure ends the run.
-/
namespace MarkupTidy.CommandLine

/-- The work on files: whether all of it succeeded, what was shown, and the state afterwards. -/
structure Work where
  success : Except Fault Bool
  shown : Shown
  formatter : Formatter
  host : Host

/-- Work on files in turn. -/
def onFiles (work : Host → Formatter → Path → Work) (host : Host) (formatter : Formatter) :
    List Path → Work
  | [] => ⟨.ok true, .nothing, formatter, host⟩
  | path :: rest =>
    let first := work host formatter path
    match first.success with
    | .error _ => first
    | .ok success =>
      let others := onFiles work first.host first.formatter rest
      { others with
        success := others.success.map (success && ·)
        shown := first.shown ++ others.shown }

/-- Work on a file that is missing or cannot be read. -/
def notDone (host : Host) (formatter : Formatter) (message : String) : Work :=
  ⟨.ok false, .lines [errorLine message], formatter, host⟩

def brokenOff (host : Host) (formatter : Formatter) (fault : Fault) : Work :=
  ⟨.error fault, .nothing, formatter, host⟩

/-- Work on a file that is there. -/
def ifPresent (host : Host) (formatter : Formatter) (path : Path) (work : Unit → Work) : Work :=
  match host.exists? path with
  | .error fault => brokenOff host formatter fault
  | .ok false => notDone host formatter s!"File not found: {path.text}"
  | .ok true => work ()

/-- Work on the text of a file, in a buffer. -/
def onText (host : Host) (formatter : Formatter) (path : Path) (work : Document → Work) : Work :=
  match host.readText path with
  | .ok text => work (.buffer text (some path) false)
  | .error fault =>
    if Formatter.isUnreadable fault then
      notDone host formatter s!"Cannot read {path.text}: {fault.message}"
    else brokenOff host formatter fault

/-- The text that a formatted buffer is printed with. -/
def printedText (outcome : Outcome) (document : Document) : String :=
  match document with
  | .buffer text _ _ => if outcome.isApplied then text else ""
  | .file _ => ""

/-- A file that is blocked or failed counts as a failure. -/
def isSuccess (outcome : Outcome) : Bool :=
  outcome.status != .blocked && outcome.status != .failed

/-- Format a document and show what became of it. -/
def formatDocument (host : Host) (formatter : Formatter) (path : Path) (document : Document) :
    Work :=
  let logged := formatter.format host document
  let ((result, changed), formatter) := logged.value
  match result with
  | .error fault => ⟨.error fault, .log logged.records, formatter, changed.host⟩
  | .ok outcome =>
    ⟨.ok (isSuccess outcome),
      ⟨printedText outcome changed.document, outcomeLines path outcome, logged.records⟩,
      formatter, changed.host⟩

/-- Format a file, in place or to be printed. -/
def formatFile (inPlace : Bool) (host : Host) (formatter : Formatter) (path : Path) : Work :=
  ifPresent host formatter path fun _ =>
    if inPlace then formatDocument host formatter path (.file path)
    else onText host formatter path (formatDocument host formatter path)

/-- Lint a document and show its diagnostics. -/
def lintDocument (host : Host) (formatter : Formatter) (path : Path) (document : Document) :
    Work :=
  let logged := formatter.lint host document
  let (result, formatter) := logged.value
  match result with
  | .error fault => ⟨.error fault, .log logged.records, formatter, host⟩
  | .ok report =>
    let success := !report.failed && !report.diagnostics.any Diagnostic.isError
    ⟨.ok success, ⟨"", reportLines path report, logged.records⟩, formatter, host⟩

def lintFile (host : Host) (formatter : Formatter) (path : Path) : Work :=
  ifPresent host formatter path fun _ =>
    onText host formatter path (lintDocument host formatter path)

end MarkupTidy.CommandLine
