import MarkupTidy.Fault
import MarkupTidy.Number.Integer
import MarkupTidy.Text.Blank
import MarkupTidy.Text.Digit

/-!
What an engine reports about a document. A line of the report that names a place in the document
is a diagnostic; the other lines are summaries. A report is informational if it is blank or says
that nothing was found.
-/
namespace MarkupTidy

inductive Severity
  | warning
  | error
  | info
  | access
  deriving DecidableEq, Repr

def Severity.name : Severity → String
  | .warning => "Warning"
  | .error => "Error"
  | .info => "Info"
  | .access => "Access"

def Severity.all : List Severity := [.warning, .error, .info, .access]

structure Diagnostic where
  line : Nat
  column : Nat
  severity : Severity
  message : String
  deriving DecidableEq, Repr

namespace Diagnostic

def isError (d : Diagnostic) : Bool := d.severity == .error

/-- The text behind `expected` at the head of a text. -/
def dropExpected? (expected : String) (s : List Char) : Option (List Char) :=
  if expected.toList.isPrefixOf s then some (s.drop expected.toList.length) else none

/-- At least one digit at the head of a text, and the text behind the digits. -/
def digits? (s : List Char) : Option (List Char × List Char) :=
  let digits := s.takeWhile Text.isDigit
  if digits.isEmpty then none else some (digits, s.dropWhile Text.isDigit)

def severity? (s : List Char) : Option (Severity × List Char) :=
  Severity.all.findSome? fun severity =>
    (dropExpected? severity.name s).map fun rest => (severity, rest)

/-- The parts of a diagnostic as they are written. -/
structure Parts where
  line : List Char
  column : List Char
  severity : Severity
  message : List Char

/-- The diagnostic that is the whole of the text. -/
def partsAt? (s : List Char) : Option Parts := do
  let s ← dropExpected? "line " s
  let (line, s) ← digits? s
  let s ← dropExpected? " column " s
  let (column, s) ← digits? s
  let s ← dropExpected? " - " s
  let (severity, s) ← severity? s
  let message ← dropExpected? ": " s
  if message.isEmpty then none else some ⟨line, column, severity, message⟩

/-- The diagnostic at the first place of a line where there is one. -/
def parts? : List Char → Option Parts
  | [] => none
  | c :: rest => (partsAt? (c :: rest)).or (parts? rest)

/-- The number that digits write, within the digit limit. -/
def readCount (digits : List Char) : Except Fault Nat :=
  if digitLimit < digits.length then .error (.numeralTooLong digits.length)
  else .ok (Text.digitsValue digits)

def ofParts (parts : Parts) : Except Fault Diagnostic := do
  let line ← readCount parts.line
  let column ← readCount parts.column
  .ok ⟨line, column, parts.severity, String.ofList (Text.trim parts.message)⟩

/-- The diagnostics of a report, in order. Only a line feed ends a diagnostic. -/
def parse (report : String) : Except Fault (List Diagnostic) :=
  ((Text.pieces (· == '\n') report.toList).filterMap parts?).mapM ofParts

end Diagnostic

namespace Report

/-- What an engine says of a document without problems. -/
def nothingFound : String := "No warnings or errors were found."

/-- The report is blank or says that nothing was found. -/
def isInformational (report : String) : Bool :=
  let visible := Text.trim report.toList
  visible.isEmpty || Text.occurs nothingFound.toList visible

/-- The first line that is not blank, trimmed. -/
def firstMessage (report : String) : String :=
  let trimmedLines := (Text.lines report.toList).map Text.trim
  String.ofList ((trimmedLines.find? fun line => !line.isEmpty).getD [])

/-- A change in the number of tags from one text to another. -/
def tagCountChange? (before after : String) : Option String :=
  let old := before.toList.count '<'
  let new := after.toList.count '<'
  if old = new then none
  else if old < new then some s!"{new - old} tags added."
  else some s!"{old - new} tags missing."

end Report

end MarkupTidy
