import MarkupTidy.Number.Decimal

/-!
The text of a number. A decimal is written positionally while its first digit stands within
the notation's range of places, and with an exponent of at least two digits outside it.
-/
namespace MarkupTidy

structure Notation where
  /-- The lowest place of a first digit that is written positionally. -/
  lowest : Int
  /-- The highest place of a first digit that is written positionally. -/
  highest : Int
  /-- A whole number ends in a point and a zero. -/
  pointZero : Bool

/-- Numbers in arguments and messages: from ten-thousandths to sixteen whole digits. -/
def Notation.plain : Notation := ⟨-4, 15, true⟩

/-- Short numbers of six digits at most. -/
def Notation.general : Notation := ⟨-4, 5, false⟩

namespace Notation

def decimalDigits (n : Nat) : List Char := Nat.toDigits 10 n

def exponentText (place : Int) : List Char :=
  let digits := decimalDigits place.natAbs
  (if place < 0 then '-' else '+') :: (if digits.length < 2 then '0' :: digits else digits)

/-- The text of a decimal without zeros at its end. -/
def write (n : Notation) (d : Decimal) : List Char :=
  let digits := decimalDigits d.digits
  let place : Int := d.exponent + digits.length - 1
  let body :=
    if n.lowest ≤ place ∧ place ≤ n.highest then
      if 0 ≤ d.exponent then
        digits ++ List.replicate d.exponent.toNat '0' ++ (if n.pointZero then ['.', '0'] else [])
      else if 0 ≤ place then
        digits.take (place.toNat + 1) ++ '.' :: digits.drop (place.toNat + 1)
      else
        '0' :: '.' :: (List.replicate (-place - 1).toNat '0' ++ digits)
    else
      match digits with
      | [] => []
      | [first] => first :: 'e' :: exponentText place
      | first :: more => first :: '.' :: more ++ 'e' :: exponentText place
  if d.negative then '-' :: body else body

end Notation

namespace Binary64

/-- The text of a number through a choice of decimal for its finite values. -/
def writeWith (n : Notation)
    (decimal : (negative : Bool) → (significand : Nat) → (exponent : Int) →
      Canonical significand exponent → Decimal) : Binary64 → String
  | .finite negative significand exponent canonical =>
    String.ofList (n.write (decimal negative significand exponent canonical))
  | .infinite false => "inf"
  | .infinite true => "-inf"
  | .notANumber => "nan"

/-- The fewest digits that read back. -/
def text (x : Binary64) : String := x.writeWith .plain shortest

/-- Six digits at most. -/
def shortText (x : Binary64) : String :=
  x.writeWith .general fun negative significand exponent _ =>
    nearestDecimal 6 negative significand exponent

end Binary64

end MarkupTidy
