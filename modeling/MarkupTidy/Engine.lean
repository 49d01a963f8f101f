import MarkupTidy.Text.Utf8

/-!
Engines: programs that take a document and give a formatted one. What an engine does depends on
its arguments and its input alone. A script describes an engine by what it writes and how it ends.
-/
namespace MarkupTidy

open Text.Utf8 (Octets)

/-- A finished run. A negative exit code is the signal that ended the run. -/
structure Run where
  output : Octets
  diagnostics : Octets
  exitCode : Int
  deriving DecidableEq

/-- What a started engine does with its input. -/
inductive Behaviour
  | ends (run : Run)
  | hangs
  deriving DecidableEq

/-- The behaviour for each argument vector and input. -/
abbrev Engine := List String → Octets → Behaviour

/-- What a script writes to one of its outputs. -/
inductive Script.Source
  | input
  | capitals
  | arguments
  | octets (content : Octets)

/-- A script hangs on inputs with a certain text in them, and ends as stated on all others. -/
structure Script where
  output : Script.Source
  diagnostics : Script.Source
  exitCode : Int
  hangsOn : Option Octets

namespace Script

/-- The input with capital letters of ASCII. -/
def capitalize (b : UInt8) : UInt8 := if 0x61 ≤ b && b ≤ 0x7A then b - 0x20 else b

def Source.content (arguments : List String) (input : Octets) : Source → Octets
  | .input => input
  | .capitals => input.map capitalize
  | .arguments => arguments.flatMap fun argument => Text.Utf8.encode (argument.toList ++ ['\n'])
  | .octets content => content

/-- The octets stand somewhere in the input. -/
def holds (pattern : Octets) : Octets → Bool
  | [] => pattern.isEmpty
  | b :: rest => pattern.isPrefixOf (b :: rest) || holds pattern rest

def engine (script : Script) : Engine := fun arguments input =>
  if script.hangsOn.any fun pattern => holds pattern input then .hangs
  else
    .ends ⟨script.output.content arguments input, script.diagnostics.content arguments input,
      script.exitCode⟩

end Script

end MarkupTidy
