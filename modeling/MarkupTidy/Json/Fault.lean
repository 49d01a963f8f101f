import MarkupTidy.Text.Place

/-!
What can be wrong with a JSON text. A malformed text is refused at a place; a number of too many
digits and nesting beyond the depth limit are refused as such.
-/
namespace MarkupTidy.Json

inductive Problem
  | byteOrderMark
  | expectedValue
  | expectedName
  | expectedColon
  | expectedComma
  | unterminatedString
  | controlCharacter
  | invalidEscape
  | invalidUnicodeEscape
  | extraData
  deriving DecidableEq, Repr

def Problem.message : Problem → String
  | .byteOrderMark => "Unexpected UTF-8 BOM (decode using utf-8-sig)"
  | .expectedValue => "Expecting value"
  | .expectedName => "Expecting property name enclosed in double quotes"
  | .expectedColon => "Expecting ':' delimiter"
  | .expectedComma => "Expecting ',' delimiter"
  | .unterminatedString => "Unterminated string starting at"
  | .controlCharacter => "Invalid control character at"
  | .invalidEscape => "Invalid \\escape"
  | .invalidUnicodeEscape => "Invalid \\uXXXX escape"
  | .extraData => "Extra data"

inductive Container
  | array
  | object
  deriving DecidableEq, Repr

def Container.name : Container → String
  | .array => "array"
  | .object => "object"

/-- A fault at a place given as `ρ`: while reading the rest of the text, afterwards its lines and
columns. -/
inductive Fault (ρ : Type)
  | malformed (problem : Problem) (place : ρ)
  | tooManyDigits (count : Nat)
  | tooDeep (container : Container)

def Fault.mapPlace {ρ σ : Type} (f : ρ → σ) : Fault ρ → Fault σ
  | .malformed problem place => .malformed problem (f place)
  | .tooManyDigits count => .tooManyDigits count
  | .tooDeep container => .tooDeep container

/-- The message of a malformed text. -/
def Problem.messageAt (problem : Problem) (place : Text.Place) : String :=
  s!"{problem.message}: line {place.line} column {place.column} (char {place.offset})"

end MarkupTidy.Json
