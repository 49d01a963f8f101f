import MarkupTidy.Text.Utf8

/-!
Scripts: programs whose first line names another program, which runs them. Behind its name one
argument may stand. Only the head of a script is looked at, and behind the end of a short script
zero octets are seen; a zero octet ends what stands before it.
-/
namespace MarkupTidy

open Text.Utf8 (Octets)

/-- The program that runs a script, with the argument that it gets first. -/
structure Interpreter where
  path : String
  argument : Option String
  deriving DecidableEq, Repr

namespace Interpreter

/-- The number of octets that are looked at. -/
def headLength : Nat := 256

/-- The first octets of a file, with zeros behind its end. -/
def head (octets : Octets) : Octets :=
  let taken := octets.take headLength
  taken ++ List.replicate (headLength - taken.length) 0

def isGap (b : UInt8) : Bool := b == 0x20 || b == 0x09

/-- The octet ends a name. -/
def endsName (b : UInt8) : Bool := isGap b || b == 0

def trimGaps (octets : Octets) : Octets :=
  ((octets.dropWhile isGap).reverse.dropWhile isGap).reverse

/-- The line with the name, from behind its mark, without gaps around it. A line that does not end
within the head is cut off before the last octet, unless that could cut the name. -/
def line? (behindMark : Octets) : Option Octets :=
  let visible := behindMark.takeWhile (· != 0)
  if visible.contains 0x0A then some (trimGaps (visible.takeWhile (· != 0x0A)))
  else if (behindMark.dropWhile isGap).any endsName then some (trimGaps behindMark.dropLast)
  else none

/-- The argument in what stands behind the name. -/
def argument? (behindName : Octets) : Option Octets :=
  if behindName.head?.any isGap then
    some ((behindName.dropWhile isGap).takeWhile (· != 0))
  else none

def text (octets : Octets) : String := String.ofList (Text.Utf8.decodeLossy octets)

/-- The interpreter in a line that is not empty. -/
def ofLine (line : Octets) : Interpreter :=
  ⟨text (line.takeWhile fun b => !endsName b),
    (argument? (line.dropWhile fun b => !endsName b)).map text⟩

/-- The interpreter that a file names, if it is a script. -/
def ofOctets? (octets : Octets) : Option Interpreter :=
  match head octets with
  | 0x23 :: 0x21 :: behindMark =>
    ((line? behindMark).filter fun line => !line.isEmpty).map ofLine
  | _ => none

end Interpreter

end MarkupTidy
