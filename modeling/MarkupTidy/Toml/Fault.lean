import MarkupTidy.Text.Place
import MarkupTidy.Text.Quoted

/-!
What can be wrong with a TOML document. A malformed document is refused at a place, or at its
end; a number of too many digits and nesting beyond the depth limit are refused as such.
-/
namespace MarkupTidy.Toml

/-- The parts of a dotted key. -/
abbrev Key := List String

inductive Problem
  | invalidStatement
  | expectedLineEnd
  | expectedDelimiter (delimiter : String)
  | invalidCharacter (c : Char)
  | illegalCharacter (c : Char)
  | declaredTwice (key : Key)
  | immutable (key : Key)
  | redefined (key : Key)
  | overwritten
  | tableHeaderOpen
  | arrayHeaderOpen
  | expectedEquals
  | keyStart
  | arrayOpen
  | inlineTableOpen
  | repeatedInlineKey (name : String)
  | unescapedBackslash
  | invalidHex
  | notAScalar
  | unterminatedString
  | invalidDate
  | invalidValue
  deriving DecidableEq, Repr

/-- A key as its quoted parts; a single part keeps its comma. -/
def keyDisplay : Key → String
  | [part] => s!"({Text.quoted part},)"
  | parts => "(" ++ String.intercalate ", " (parts.map Text.quoted) ++ ")"

def charDisplay (c : Char) : String := Text.quoted (String.singleton c)

def Problem.message : Problem → String
  | .invalidStatement => "Invalid statement"
  | .expectedLineEnd => "Expected newline or end of document after a statement"
  | .expectedDelimiter delimiter => s!"Expected {Text.quoted delimiter}"
  | .invalidCharacter c => s!"Found invalid character {charDisplay c}"
  | .illegalCharacter c => s!"Illegal character {charDisplay c}"
  | .declaredTwice key => s!"Cannot declare {keyDisplay key} twice"
  | .immutable key => s!"Cannot mutate immutable namespace {keyDisplay key}"
  | .redefined key => s!"Cannot redefine namespace {keyDisplay key}"
  | .overwritten => "Cannot overwrite a value"
  | .tableHeaderOpen => "Expected ']' at the end of a table declaration"
  | .arrayHeaderOpen => "Expected ']]' at the end of an array declaration"
  | .expectedEquals => "Expected '=' after a key in a key/value pair"
  | .keyStart => "Invalid initial character for a key part"
  | .arrayOpen => "Unclosed array"
  | .inlineTableOpen => "Unclosed inline table"
  | .repeatedInlineKey name => s!"Duplicate inline table key {Text.quoted name}"
  | .unescapedBackslash => "Unescaped '\\' in a string"
  | .invalidHex => "Invalid hex value"
  | .notAScalar => "Escaped character is not a Unicode scalar value"
  | .unterminatedString => "Unterminated string"
  | .invalidDate => "Invalid date or datetime"
  | .invalidValue => "Invalid value"

/-- A fault at a place given as `ρ`: while reading the rest of the text, afterwards its line and
column, or nothing at the end of the document. -/
inductive Fault (ρ : Type)
  | malformed (problem : Problem) (place : ρ)
  | tooManyDigits (count : Nat)
  | tooDeep

def Fault.mapPlace {ρ σ : Type} (f : ρ → σ) : Fault ρ → Fault σ
  | .malformed problem place => .malformed problem (f place)
  | .tooManyDigits count => .tooManyDigits count
  | .tooDeep => .tooDeep

/-- The message of a malformed document. -/
def Problem.messageAt (problem : Problem) : Option Text.Place → String
  | none => s!"{problem.message} (at end of document)"
  | some place => s!"{problem.message} (at line {place.line}, column {place.column})"

end MarkupTidy.Toml
