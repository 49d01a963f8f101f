import MarkupTidy.Files.Host
import MarkupTidy.Json.Reader
import MarkupTidy.Options.OptionMap

/-!
Override files: JSON objects of options that stand in for the options of the settings. The nearest
one counts, in the directory of a document or the first directory above it that has one.
-/
namespace MarkupTidy.Override

/-- A fault of an override file as a fault of the program. -/
def ofJsonFault (source : Option String) : Json.Fault Text.Place → Fault
  | .malformed problem place => .override source (.malformed problem place)
  | .tooManyDigits count => .numeralTooLong count
  | .tooDeep container => .tooDeep (some container)

/-- The options in the text of an override file. -/
def parse (text : String) (source : Option String) : Except Fault OptionMap :=
  match Json.read text with
  | .error fault => .error (ofJsonFault source fault)
  | .ok (.table entries) => .ok (.ofPairs entries)
  | .ok value => .error (.override source (.notAnObject value.kind))

/-- The options of the override file if there is one, and else those of the settings. -/
def resolve (base : OptionMap) (text : Option String) (source : Option String) :
    Except Fault OptionMap :=
  match text with
  | some text => parse text source
  | none => .ok base

/-- The first of some directories in which the name is that of a file. -/
def findIn (host : Host) (name : String) : List Path → Except Fault (Option Path)
  | [] => .ok none
  | directory :: rest => do
    let candidate := directory.join (Path.ofText name)
    if ← host.isFile? candidate then .ok (some candidate) else findIn host name rest

/-- Look for an override file from a directory upward. -/
def find (host : Host) (start : Path) (name : String) : Except Fault (Option Path) := do
  let start ← host.resolve start
  findIn host name start.upward

end MarkupTidy.Override
