import MarkupTidy.CommandLine.Command
import MarkupTidy.Files.Path

/-!
Reading a command line. The switches of the program come before the command; all behind the
command belongs to it. Files stand together: those behind a further switch are not taken.
-/
namespace MarkupTidy.CommandLine

/-- What the command takes besides switches. -/
inductive Operand
  /-- A command with everything behind it. -/
  | command
  | files
  | nothing
  deriving DecidableEq, Repr

/-- What was read so far from a command line. -/
structure Reading where
  given : Given
  operands : Option (List String)
  leftOver : List String

/-- How reading a command line ends. -/
inductive Ending
  | read (reading : Reading)
  /-- The help was asked for. -/
  | helpWanted
  | misused (misuse : Misuse)

/-- The words of the operand at the head of the arguments, and the arguments behind them. -/
def takeOperand (operand : Operand) (taken : Option (List String))
    (rest : List (String × Token)) : Option (List String × List (String × Token)) :=
  let words := rest.takeWhile fun entry => !entry.2.isSwitch
  let hasWord := words.any fun entry => entry.2.isArgument
  match operand, taken with
  | .files, none => if hasWord then some (words.map Prod.fst, rest.drop words.length) else none
  | .command, none => if hasWord then some (rest.map Prod.fst, []) else none
  | _, _ => none

/-- Take over switches, unless the help is among them. -/
def Reading.withSwitches (reading : Reading) (given : Given) : Option Reading :=
  if given.any fun entry => entry.1 == .help then none
  else some { reading with given := reading.given ++ given }

/-- Read the arguments that are left; each round passes one of them, so their number is fuel
enough. -/
def readWith (switches : List Switch) (operand : Operand) :
    Nat → Reading → List (String × Token) → Ending
  | 0, reading, _ => .read reading
  | fuel + 1, reading, rest =>
    match rest with
    | [] => .read reading
    | (text, .unknown _) :: behind =>
      readWith switches operand fuel { reading with leftOver := reading.leftOver ++ [text] } behind
    | (_, .switch named) :: behind =>
      match takeSwitch switches named behind with
      | .error misuse => .misused misuse
      | .ok (given, behind) =>
        match reading.withSwitches given with
        | none => .helpWanted
        | some reading => readWith switches operand fuel reading behind
    | (text, _) :: behind =>
      match takeOperand operand reading.operands rest with
      | some (words, behind) =>
        readWith switches operand fuel { reading with operands := some words } behind
      | none =>
        readWith switches operand fuel { reading with leftOver := reading.leftOver ++ [text] }
          behind

def readArguments (switches : List Switch) (operand : Operand) (arguments : List String) :
    Ending :=
  match tokens switches arguments with
  | .error misuse => .misused misuse
  | .ok tokens => readWith switches operand (tokens.length + 1) ⟨[], none, []⟩ tokens

/-- What a command line asks for. -/
inductive Invocation
  | help (command : Option Command)
  | misuse (command : Option Command) (misuse : Misuse)
  | version
  | init (workspace : Option Path) (force : Bool)
  | format (workspace tidy : Option Path) (inPlace stopOnWarning : Bool) (files : List Path)
  | lint (workspace tidy : Option Path) (files : List Path)

namespace Reading

/-- The last value given for a switch, as a path; the double hyphen stands for no value. -/
def path? (reading : Reading) (switch : Switch) : Option Path :=
  ((reading.given.reverse.lookup switch).filter (· ≠ "--")).map Path.ofText

def has (reading : Reading) (switch : Switch) : Bool :=
  (reading.given.lookup switch).isSome

/-- The files, without the first double hyphen among them. -/
def files (reading : Reading) : List Path :=
  ((reading.operands.getD []).erase "--").map Path.ofText

end Reading

/-- What a command asks for with what was given for it. -/
def invocationOf (command : Command) (reading : Reading) : Invocation :=
  match command with
  | .format =>
    .format (reading.path? .workspace) (reading.path? .tidy) (reading.has .inPlace)
      (reading.has .stopOnWarning) reading.files
  | .lint => .lint (reading.path? .workspace) (reading.path? .tidy) reading.files
  | .init => .init (reading.path? .workspace) (reading.has .force)
  | .version => .version

/-- Read what stands behind a command; `before` was left over in front of it. -/
def readCommand (before : List String) (command : Command) (arguments : List String) :
    Invocation :=
  let operand := if command.takesFiles then Operand.files else .nothing
  match readArguments command.switches operand arguments with
  | .helpWanted => .help command
  | .misused misuse => .misuse command misuse
  | .read reading =>
    if command.takesFiles && reading.operands.isNone then .misuse command (.required "files")
    else
      let leftOver := before ++ reading.leftOver
      if leftOver.isEmpty then invocationOf command reading
      else .misuse none (.unrecognized leftOver)

/-- Read a command line. -/
def Invocation.ofArguments (arguments : List String) : Invocation :=
  match readArguments [.help] .command arguments with
  | .helpWanted => .help none
  | .misused wrong => .misuse none wrong
  | .read reading =>
    match reading.operands with
    | none | some [] => .misuse none (.required "command")
    | some (name :: rest) =>
      match Command.ofName? name with
      | none => .misuse none (.unknownCommand name (Command.all.map Command.name))
      | some command => readCommand reading.leftOver command rest

end MarkupTidy.CommandLine
