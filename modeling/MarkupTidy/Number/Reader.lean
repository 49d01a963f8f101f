import MarkupTidy.Number.Decimal

/-!
Reading numbers. A number is digits with a point and an exponent in the usual places, or one
of the words for infinity and for no number, in any mixture of capital and small letters.
-/
namespace MarkupTidy

def isDecimalDigit (c : Char) : Bool := '0' ≤ c && c ≤ '9'

/-- The number that decimal digits write. -/
def digitsToNat (digits : List Char) : Nat :=
  digits.foldl (fun n c => 10 * n + (c.toNat - '0'.toNat)) 0

/-- Whole part, fraction and exponent of a number, as they are written. -/
structure Numeral where
  negative : Bool
  whole : List Char
  fraction : List Char
  exponentNegative : Bool
  exponent : List Char

/-- The decimal that a numeral writes. -/
def Numeral.toDecimal (n : Numeral) : Decimal :=
  let exponent : Int := digitsToNat n.exponent
  ⟨n.negative, digitsToNat (n.whole ++ n.fraction),
    (if n.exponentNegative then -exponent else exponent) - n.fraction.length⟩

def Numeral.toBinary (n : Numeral) : Binary64 := n.toDecimal.toBinary

namespace Binary64

/-- The sign of a text and the text behind it. -/
def splitSign : List Char → Bool × List Char
  | '-' :: rest => (true, rest)
  | '+' :: rest => (false, rest)
  | s => (false, s)

def readExponent? : List Char → Option (Bool × List Char)
  | [] => some (false, [])
  | c :: rest =>
    if c = 'e' ∨ c = 'E' then
      let (negative, digits) := splitSign rest
      if digits.isEmpty || !digits.all isDecimalDigit then none else some (negative, digits)
    else none

/-- A number written in digits, with at least one of them before the exponent. -/
def readNumeral? (negative : Bool) (s : List Char) : Option Numeral := do
  let whole := s.takeWhile isDecimalDigit
  let rest := s.dropWhile isDecimalDigit
  let (fraction, rest) := match rest with
    | '.' :: more => (more.takeWhile isDecimalDigit, more.dropWhile isDecimalDigit)
    | _ => ([], rest)
  let (exponentNegative, exponent) ← readExponent? rest
  if whole.isEmpty && fraction.isEmpty then none
  else some ⟨negative, whole, fraction, exponentNegative, exponent⟩

/-- Read a number in digits or words. -/
def read? (s : List Char) : Option Binary64 :=
  let (negative, body) := splitSign s
  let word := String.ofList (body.map Char.toLower)
  if word = "inf" ∨ word = "infinity" then some (.infinite negative)
  else if word = "nan" then some .notANumber
  else (readNumeral? negative body).map Numeral.toBinary

end Binary64

end MarkupTidy
