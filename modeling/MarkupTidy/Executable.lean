import MarkupTidy.Files.Host
import MarkupTidy.Interpreter
import MarkupTidy.Log

/-!
Finding an engine and starting it. A configured engine that is there wins; otherwise the search
path decides. A name with a slash in it is a path; another name is looked for on the search path.
-/
namespace MarkupTidy

/-- What a search for an engine found, with warnings for the user. -/
structure Lookup where
  path : Option String
  warnings : List String
  deriving DecidableEq, Repr

namespace Lookup

def found (lookup : Lookup) : Bool := lookup.path.isSome

end Lookup

namespace Host

/-- The path names a file that its owner may run. -/
def isExecutable (host : Host) (path : String) : Bool := (host.file? path).any File.isRunnable

/-- The paths that a name has on the search path. -/
def candidates (host : Host) (name : String) : List String :=
  (Text.pieces (· == ':') host.searchPath.toList).map fun entry =>
    Path.joinText (String.ofList entry) name

/-- The first path of a name on the search path that may be run. -/
def which (host : Host) (name : String) : Option String :=
  if host.searchPath.isEmpty then none else (host.candidates name).find? host.isExecutable

/-- The name of the engine where none is configured. -/
def standardEngine : String := "tidy"

def missingWarning : String := "configured tidy executable is missing. Fallback to default"

def notFoundWarning : String := "No tidy executable found. Please configure tidy_exec_path."

/-- Look for the standard engine, after earlier warnings. -/
def findStandard (host : Host) (warnings : List String) : Lookup :=
  match host.which standardEngine with
  | some path => ⟨some path, warnings⟩
  | none => ⟨none, warnings ++ [notFoundWarning]⟩

/-- Look for an engine. -/
def findEngine (host : Host) (configured : Option String) : Logged Lookup :=
  match configured.filter fun path => !path.isEmpty with
  | none => pure (host.findStandard [])
  | some path =>
    if host.isExecutable path then pure ⟨some path, []⟩
    else do
      Logged.write .warning .executable s!"Configured tidy executable {path} is missing"
      pure (host.findStandard [missingWarning])

/-- The file at a path, which has to be one that may be run. An empty path is that of the working
directory. -/
def program (host : Host) (path : String) : Except Refusal File :=
  if path.isEmpty then .error .denied
  else
    match host.walk .target path with
    | .error refusal => .error refusal
    | .ok (.vacant _) => .error .noEntry
    | .ok (.node _ (.file file)) => if file.isRunnable then .ok file else .error .denied
    | .ok (.node _ _) => .error .denied

/-- The most programs that are opened to start one. -/
def programLimit : Nat := 6

/-- The engine that a program comes down to, and the arguments that the engine gets in front of
the program's own. A script is run by its interpreter, on the script's path; an engine needs one
more program to run it. -/
def engineOf (host : Host) (path : String) (front : List String) :
    Nat → Except Refusal (Engine × List String)
  | 0 => do
    let _ ← host.program path
    .error .tooManyLinks
  | left + 1 => do
    let file ← host.program path
    match file.engine, Interpreter.ofOctets? file.octets with
    | some engine, _ => if left = 0 then .error .tooManyLinks else .ok (engine, front)
    | none, none => .error .notAProgram
    | none, some interpreter =>
      host.engineOf interpreter.path (interpreter.argument.toList ++ path :: front) left

/-- What the program at a path runs as. -/
def engineAt (host : Host) (path : String) : Except Refusal Engine := do
  let (engine, front) ← host.engineOf path [] programLimit
  .ok fun arguments input => engine (front ++ arguments) input

/-- The octets of a word, with the one that ends it. -/
def wordSize (word : String) : Nat := word.utf8ByteSize + 1

/-- The most octets of one argument. -/
def argumentLimit : Nat := 131072

def isArgumentTooLong (argument : String) : Bool := argumentLimit < wordSize argument

/-- The octets of a pointer to a word. -/
def pointerSize : Nat := 8

/-- The octets that the words of a start take, those of each word and of a pointer to it. -/
def roomOf : List String → Nat
  | [] => 0
  | word :: words => wordSize word + pointerSize + roomOf words

/-- A program that is started by its path or name can be passed these arguments: none of them is
too long, and there is room for all of them. What the interpreter of a script gets in front of them
is not counted. -/
def takes (host : Host) (executable : String) (arguments : List String) : Bool :=
  !arguments.any isArgumentTooLong && roomOf (executable :: arguments) ≤ host.startRoom

/-- Start the program at a path, which has the path or name that it is started by as its first
word. -/
def startAt (host : Host) (executable : String) (arguments : List String) (path : String) :
    Except Refusal Engine := do
  let _ ← host.program path
  if host.takes executable arguments then host.engineAt path else .error .argumentsTooLong

def isAbsent : Refusal → Bool
  | .noEntry | .notADirectory => true
  | _ => false

/-- Start the first of some programs that starts. If none does, the first refusal is reported that
is more than an absent file, or else the last one. -/
def startFirst (host : Host) (executable : String) (arguments : List String)
    (reported : Option Refusal) : List String → Except Refusal Engine
  | [] => .error (reported.getD .noEntry)
  | path :: rest =>
    match host.startAt executable arguments path with
    | .ok engine => .ok engine
    | .error refusal =>
      let keeps := reported.any fun earlier => !isAbsent earlier
      host.startFirst executable arguments (if keeps then reported else some refusal) rest

/-- Start a program by its path or name. -/
def start (host : Host) (executable : String) (arguments : List String) :
    Except Refusal Engine :=
  if executable.toList.contains '/' then host.startAt executable arguments executable
  else host.startFirst executable arguments none (host.candidates executable)

end Host

end MarkupTidy
