import MarkupTidy.Number.Binary64

/-!
Decimal numbers and their place in binary: reading rounds a decimal to the nearest number;
writing picks the fewest digits that read back, of those the nearest, and a fixed count of
digits is the nearest such decimal.
-/
namespace MarkupTidy

/-- The decimal `± digits · 10 ^ exponent`. -/
structure Decimal where
  negative : Bool
  digits : Nat
  exponent : Int
  deriving DecidableEq, Repr

/-- The numerator and denominator of `num / den · 10 ^ shift`. -/
def scaleByTen (num den : Nat) (shift : Int) : Nat × Nat :=
  if 0 ≤ shift then (num * Nat.pow 10 shift.toNat, den)
  else (num, den * Nat.pow 10 (-shift).toNat)

namespace Decimal

/-- The nearest binary number. Sizes far outside the range are settled by their exponent. -/
def toBinary (d : Decimal) : Binary64 :=
  if d.digits = 0 then .zero d.negative
  else if 400 < d.exponent then .infinite d.negative
  else if d.exponent + d.digits.log2 + 1 < -400 then .zero d.negative
  else
    let (num, den) := scaleByTen d.digits 1 d.exponent
    .ofRatio d.negative num den

/-- Divide zeros off the end of the digits, at most `fuel` of them. -/
def stripZeros : Nat → Nat → Int → Nat × Int
  | 0, digits, exponent => (digits, exponent)
  | fuel + 1, digits, exponent =>
    if digits % 10 = 0 ∧ digits ≠ 0 then stripZeros fuel (digits / 10) (exponent + 1)
    else (digits, exponent)

/-- The same decimal without zeros at the end of its digits. -/
def withoutTrailingZeros (d : Decimal) : Decimal :=
  let (digits, exponent) := stripZeros (d.digits.log2 + 1) d.digits d.exponent
  { d with digits, exponent }

end Decimal

namespace Binary64

/-- The greatest `p` with `10 ^ p ≤ num / den`, for positive numbers. -/
def decimalExponent (num den : Nat) : Int :=
  let reached (p : Int) : Bool :=
    let (a, b) := scaleByTen num den (-p)
    b ≤ a
  let guess := ((num.log2 : Int) - den.log2) * 30103 / 100000
  if reached (guess + 1) then guess + 1 else if reached guess then guess else guess - 1

/-- The decimals of `count` digits on both sides of a positive quotient: the lower one and
whether the upper one is nearer; of two equally near ones the even one counts as nearer. -/
def neighbours (num den : Nat) (count : Nat) : Nat × Bool × Int :=
  let shift := decimalExponent num den - (count - 1 : Nat)
  let (a, b) := scaleByTen num den (-shift)
  let lower := a / b
  let twice := 2 * (a % b)
  (lower, b < twice || (twice == b && lower % 2 == 1), shift)

/-- A decimal of `count` digits that reads back as `x`, the nearest if both neighbours do. -/
def readsBackWith (x : Binary64) (negative : Bool) (num den : Nat) (count : Nat) :
    Option Decimal :=
  let (lower, upperNearer, shift) := neighbours num den count
  let below : Decimal := ⟨negative, lower, shift⟩
  let above : Decimal := ⟨negative, lower + 1, shift⟩
  let candidates := if upperNearer then [above, below] else [below, above]
  candidates.find? fun d => d.toBinary == x

/-- The decimal that equals a finite number. -/
def exactDecimal (negative : Bool) (significand : Nat) (exponent : Int) : Decimal :=
  if 0 ≤ exponent then ⟨negative, significand * Nat.pow 2 exponent.toNat, 0⟩
  else ⟨negative, significand * Nat.pow 5 (-exponent).toNat, exponent⟩

/-- The decimal of the fewest digits that reads back as the number, without zeros at its end. -/
def shortest (negative : Bool) (significand : Nat) (exponent : Int)
    (canonical : Canonical significand exponent) : Decimal :=
  if significand = 0 then ⟨negative, 0, 0⟩
  else
    let x := finite negative significand exponent canonical
    let (num, den) := ratio significand exponent
    let counts := (List.range 17).map (· + 1)
    let found := counts.findSome? (readsBackWith x negative num den)
    (found.getD (exactDecimal negative significand exponent)).withoutTrailingZeros

/-- The nearest decimal of at most `count` digits, without zeros at its end. -/
def nearestDecimal (count : Nat) (negative : Bool) (significand : Nat) (exponent : Int) :
    Decimal :=
  if significand = 0 then ⟨negative, 0, 0⟩
  else
    let (num, den) := ratio significand exponent
    let (lower, upperNearer, shift) := neighbours num den count
    Decimal.withoutTrailingZeros ⟨negative, if upperNearer then lower + 1 else lower, shift⟩

end Binary64

end MarkupTidy
