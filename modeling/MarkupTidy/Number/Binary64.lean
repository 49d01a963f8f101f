/-!
Binary floating-point numbers of 64 bits as exact values: a finite number is
`significand · 2 ^ exponent` with a sign, in its only canonical form. Every quotient of natural
numbers rounds to the nearest such number, a tie to the even significand.
-/
namespace MarkupTidy

/-- Significands have 53 bits. -/
def significandBound : Nat := 0x20000000000000

/-- The least significand that fills its 53 bits. -/
def leastFull : Nat := 0x10000000000000

/-- The one form of a finite number: the significand fills its 53 bits, or the exponent is
the least one. -/
def Canonical (significand : Nat) (exponent : Int) : Prop :=
  significand < significandBound ∧ -1074 ≤ exponent ∧ exponent ≤ 971 ∧
    (leastFull ≤ significand ∨ exponent = -1074)

instance (significand : Nat) (exponent : Int) : Decidable (Canonical significand exponent) := by
  unfold Canonical
  infer_instance

inductive Binary64
  | finite (negative : Bool) (significand : Nat) (exponent : Int)
      (canonical : Canonical significand exponent)
  | infinite (negative : Bool)
  | notANumber
  deriving DecidableEq

namespace Binary64

/-- The number with these parts; parts beyond the largest exponent give an infinity. -/
def ofParts (negative : Bool) (significand : Nat) (exponent : Int) : Binary64 :=
  if h : Canonical significand exponent then .finite negative significand exponent h
  else .infinite negative

def zero (negative : Bool) : Binary64 := .finite negative 0 (-1074) (by decide)

instance : Inhabited Binary64 := ⟨zero false⟩

/-- The quotient as a whole number: the nearest one, of two the even one. -/
def roundDiv (num den : Nat) : Nat :=
  let q := num / den
  let twice := 2 * (num % den)
  if twice < den then q else if den < twice then q + 1 else q + q % 2

/-- The numerator and denominator of `num / den · 2 ^ shift`. -/
def scaleByTwo (num den : Nat) (shift : Int) : Nat × Nat :=
  if 0 ≤ shift then (num * Nat.pow 2 shift.toNat, den)
  else (num, den * Nat.pow 2 (-shift).toNat)

/-- The exponent at which the quotient of positive numbers has 53 bits before the point, or the
least exponent. -/
def exponentFor (num den : Nat) : Int :=
  let d : Int := (num.log2 : Int) - den.log2
  let below := (scaleByTwo num den (-d)).1 < (scaleByTwo num den (-d)).2
  max (if below then d - 53 else d - 52) (-1074)

/-- The number nearest to a quotient. -/
def ofRatio (negative : Bool) (num den : Nat) : Binary64 :=
  if num = 0 then zero negative
  else
    let e := exponentFor num den
    let scaled := scaleByTwo num den (-e)
    let m := roundDiv scaled.1 scaled.2
    if m = significandBound then ofParts negative leastFull (e + 1) else ofParts negative m e

/-- The whole number, if it lies in the range of finite numbers. -/
def ofInt? (i : Int) : Option Binary64 :=
  match ofRatio (i < 0) i.natAbs 1 with
  | .infinite _ => none
  | x => some x

/-- The size of a finite number as a quotient. -/
def ratio (significand : Nat) (exponent : Int) : Nat × Nat := scaleByTwo significand 1 exponent

def isZero : Binary64 → Bool
  | .finite _ significand _ _ => significand == 0
  | _ => false

/-- Greater than zero; a number that is none is not. -/
def isPositive : Binary64 → Bool
  | .finite negative significand _ _ => !negative && significand != 0
  | .infinite negative => !negative
  | .notANumber => false

/-- The whole number that the number is, if it is one. -/
def whole? : Binary64 → Option Int
  | .finite negative significand exponent _ =>
    let (num, den) := ratio significand exponent
    let size : Int := num / den
    if num % den = 0 then some (if negative then -size else size) else none
  | _ => none

end Binary64

end MarkupTidy
