import MarkupTidy.Formatter.Basic

/-!
What the commands show. Formatted documents are printed; all else goes to the console, whose lines
carry marks for their colours. What is shown for several files is what is shown for each, in turn.
-/
namespace MarkupTidy.CommandLine

/-- What is handed to the console to be shown. How the console shows it is left out, and with that
the end of a run whose console takes part of a path or of a message, such as [/b], for a mark that
closes nothing. -/
inductive ConsoleLine
  | text (line : String)
  | panel (line : String)
  | table (title : String) (columns : List String) (rows : List (List String))
  deriving DecidableEq, Repr

/-- What a command shows and logs. -/
structure Shown where
  printed : String
  console : List ConsoleLine
  records : List LogRecord
  deriving DecidableEq

namespace Shown

def nothing : Shown := ⟨"", [], []⟩

def append (a b : Shown) : Shown :=
  ⟨a.printed ++ b.printed, a.console ++ b.console, a.records ++ b.records⟩

instance : Append Shown := ⟨append⟩

def lines (console : List ConsoleLine) : Shown := ⟨"", console, []⟩

def log (records : List LogRecord) : Shown := ⟨"", [], records⟩

def print (text : String) : Shown := ⟨text, [], []⟩

end Shown

/-- A colour of the console. -/
inductive Colour
  | yellow
  | red
  deriving DecidableEq, Repr

def Colour.name : Colour → String
  | .yellow => "yellow"
  | .red => "red"

/-- One line for each message about a file. -/
def messageLines (colour : Colour) (path : Path) (messages : List String) : List ConsoleLine :=
  messages.map fun message => .text s!"[{colour.name}]![/] {path.text}: {message}"

def errorLine (text : String) : ConsoleLine := .text s!"[red]Error:[/] {text}"

/-- The status of a formatted file, and what there is to say about it. -/
def outcomeLines (path : Path) (outcome : Outcome) : List ConsoleLine :=
  match outcome.status with
  | .formatted =>
    .text s!"[green]✓[/] {path.text}" :: messageLines .yellow path outcome.messages
  | .skipped => [.text s!"[dim]- {path.text} (empty)[/]"]
  | status =>
    .text s!"[red]✗[/] {path.text}: {status.name}" :: messageLines .red path outcome.messages

def diagnosticRow (d : Diagnostic) : List String :=
  let colour := if d.isError then Colour.red else .yellow
  [toString d.line, toString d.column, s!"[{colour.name}]{d.severity.name}[/]", d.message]

/-- The diagnostics of a file in a table. -/
def diagnosticTable (path : Path) (diagnostics : List Diagnostic) : ConsoleLine :=
  .table path.text ["Line", "Col", "Severity", "Message"] (diagnostics.map diagnosticRow)

/-- What a lint run has to say about a file. -/
def reportLines (path : Path) (report : LintReport) : List ConsoleLine :=
  let colour := if report.failed then Colour.red else .yellow
  let messages := messageLines colour path report.messages
  if report.failed then messages
  else if report.diagnostics.isEmpty then
    messages ++ [.text s!"[green]✓[/] {path.text}: no warnings or errors"]
  else messages ++ [diagnosticTable path report.diagnostics]

end MarkupTidy.CommandLine
