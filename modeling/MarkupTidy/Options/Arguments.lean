import MarkupTidy.Options.OptionMap
import MarkupTidy.Fault

/-!
The argument vector of an option map: flag and value of each entry in order. Entries without a
name or a value are left out, and a value that no argument can hold is refused.
-/
namespace MarkupTidy

/-- The refusal of a value, which shows the value if it has a text. The recursion limit of the
running program is left out: a value that is nested deeper than it allows has a text here. -/
def refuseValue (key : String) (value : Value) : Fault :=
  if value.display?.isSome then .unsupported key value else .integerTooLong

/-- The argument that stands for a value. -/
def encodeValue (key : String) : Value → Except Fault String
  | .bool b => .ok (if b then "yes" else "no")
  | .text s => .ok s
  | .int i =>
    match integerText? i with
    | some digits => .ok digits
    | none => .error .integerTooLong
  | .float x => .ok x.text
  | value => .error (refuseValue key value)

namespace OptionMap

/-- The entry is left out of the arguments. -/
def isUnset (entry : String × Value) : Bool := entry.1.isEmpty || entry.2.isNull

def argumentsOf : List (String × Value) → Except Fault (List String)
  | [] => .ok []
  | entry :: rest =>
    if isUnset entry then argumentsOf rest
    else do
      let value ← encodeValue entry.1 entry.2
      let others ← argumentsOf rest
      .ok (flagName entry.1 :: value :: others)

/-- Flags and values in turn. -/
def arguments (map : OptionMap) : Except Fault (List String) := argumentsOf map.entries

/-- An entry has no name, and no entry before it is refused. -/
def skipsUnnamed : List (String × Value) → Bool
  | [] => false
  | entry :: rest =>
    entry.1.isEmpty ||
      ((isUnset entry || (encodeValue entry.1 entry.2).toOption.isSome) && skipsUnnamed rest)

end OptionMap

end MarkupTidy
