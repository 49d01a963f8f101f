import MarkupTidy.Number.Decimal
import MarkupTidy.Proofs.Number.Rounding

/-!
Reading a decimal depends on its sign and its size alone, not on how many zeros it ends in. The
decimal that is chosen for a number reads back as that number: it was either tried, or it equals
the number.
-/
namespace MarkupTidy

theorem ten_zpow_pos (place : ℤ) : (0 : ℚ) < 10 ^ place := zpow_pos (by norm_num) place

theorem scaleByTen_pos {num den : Nat} (hnum : 0 < num) (hden : 0 < den) (shift : Int) :
    0 < (scaleByTen num den shift).1 ∧ 0 < (scaleByTen num den shift).2 :=
  Binary64.scaleBy_pos (by omega) hnum hden shift

theorem quotient_scaleByTen {den : Nat} (hden : 0 < den) (num : Nat) (shift : Int) :
    Binary64.quotient (scaleByTen num den shift).1 (scaleByTen num den shift).2 =
      Binary64.quotient num den * 10 ^ shift :=
  Binary64.quotient_scaleBy (by omega) hden num shift

namespace Decimal

/-- The number without its sign. -/
def size (d : Decimal) : ℚ := d.digits * 10 ^ d.exponent

theorem size_pos {d : Decimal} (h : d.digits ≠ 0) : 0 < d.size := by
  have hdigits : (0 : ℚ) < d.digits := by exact_mod_cast Nat.pos_of_ne_zero h
  exact mul_pos hdigits (ten_zpow_pos _)

theorem size_eq_zero_iff (d : Decimal) : d.size = 0 ↔ d.digits = 0 := by
  constructor
  · intro h
    by_contra hne
    exact (size_pos hne).ne' h
  · intro h
    simp [size, h]

theorem two_pow_le_ten_pow : (2 : ℚ) ^ (1024 : ℤ) ≤ 10 ^ (400 : ℤ) := by
  have h : (2 : Nat) ^ 1024 ≤ 10 ^ 400 := by decide +kernel
  exact_mod_cast h

theorem ten_pow_lt_two_pow : (10 : ℚ) ^ (-400 : ℤ) < 2 ^ (-1075 : ℤ) := by
  have h : (2 : Nat) ^ 1075 < 10 ^ 400 := by decide +kernel
  rw [zpow_neg, zpow_neg, inv_lt_inv₀ (ten_zpow_pos _) (Binary64.two_zpow_pos _)]
  exact_mod_cast h

/-- A decimal with a large exponent lies beyond the range of finite numbers. -/
theorem size_large {d : Decimal} (h : d.digits ≠ 0) (hexponent : 400 < d.exponent) :
    (2 : ℚ) ^ (1024 : ℤ) ≤ d.size := by
  have hdigits : (1 : ℚ) ≤ d.digits := by exact_mod_cast Nat.one_le_iff_ne_zero.mpr h
  calc (2 : ℚ) ^ (1024 : ℤ) ≤ 10 ^ (400 : ℤ) := two_pow_le_ten_pow
    _ ≤ 10 ^ d.exponent := zpow_le_zpow_right₀ (by norm_num) hexponent.le
    _ ≤ d.digits * 10 ^ d.exponent := le_mul_of_one_le_left (ten_zpow_pos _).le hdigits

/-- A decimal whose last digits stand far behind the point is below half of the least number. -/
theorem size_small {d : Decimal} (hexponent : d.exponent + d.digits.log2 + 1 < -400) :
    d.size < 2 ^ (-1075 : ℤ) := by
  have hten : (10 : ℚ) ≠ 0 := by norm_num
  have hdigits : (d.digits : ℚ) < 10 ^ ((d.digits.log2 : ℤ) + 1) := by
    have hhigh : d.digits < 10 ^ (d.digits.log2 + 1) :=
      Nat.lt_log2_self.trans_le (Nat.pow_le_pow_left (by omega) _)
    have hcast : ((d.digits.log2 : ℤ) + 1) = ((d.digits.log2 + 1 : Nat) : ℤ) := by push_cast; rfl
    rw [hcast, zpow_natCast]
    exact_mod_cast hhigh
  calc d.size < 10 ^ ((d.digits.log2 : ℤ) + 1) * 10 ^ d.exponent :=
        mul_lt_mul_of_pos_right hdigits (ten_zpow_pos _)
    _ = 10 ^ ((d.digits.log2 : ℤ) + 1 + d.exponent) := (zpow_add₀ hten _ _).symm
    _ ≤ 10 ^ (-400 : ℤ) := zpow_le_zpow_right₀ (by norm_num) (by omega)
    _ < 2 ^ (-1075 : ℤ) := ten_pow_lt_two_pow

/-- The quotient that is rounded when a decimal is read. -/
theorem quotient_digits (d : Decimal) :
    Binary64.quotient (scaleByTen d.digits 1 d.exponent).1 (scaleByTen d.digits 1 d.exponent).2 =
      d.size := by
  rw [quotient_scaleByTen Nat.one_pos]
  simp [Binary64.quotient, size]

/-- Sizes that are settled by their exponent are rounded like all others. -/
theorem toBinary_eq {d : Decimal} (h : d.digits ≠ 0) :
    d.toBinary = .ofRatio d.negative (scaleByTen d.digits 1 d.exponent).1
      (scaleByTen d.digits 1 d.exponent).2 := by
  obtain ⟨hnum, hden⟩ := scaleByTen_pos (Nat.pos_of_ne_zero h) Nat.one_pos d.exponent
  unfold toBinary
  rw [if_neg h]
  split
  · next hlarge =>
    rw [Binary64.ofRatio_large _ hnum hden]
    rw [quotient_digits]
    exact size_large h hlarge
  · split
    · next hsmall =>
      rw [Binary64.ofRatio_small _ hnum hden]
      rw [quotient_digits]
      exact size_small hsmall
    · rfl

/-- Decimals of one sign and one size are read as one number. -/
theorem toBinary_congr {d d' : Decimal} (hsign : d.negative = d'.negative)
    (hsize : d.size = d'.size) : d.toBinary = d'.toBinary := by
  by_cases h : d.digits = 0
  · have h' : d'.digits = 0 := by rw [← size_eq_zero_iff, ← hsize, size_eq_zero_iff, h]
    simp only [toBinary, h, h', if_true, hsign]
  · have h' : d'.digits ≠ 0 := by rwa [Ne, ← size_eq_zero_iff, ← hsize, size_eq_zero_iff]
    obtain ⟨hnum, hden⟩ := scaleByTen_pos (Nat.pos_of_ne_zero h) Nat.one_pos d.exponent
    obtain ⟨hnum', hden'⟩ := scaleByTen_pos (Nat.pos_of_ne_zero h') Nat.one_pos d'.exponent
    rw [toBinary_eq h, toBinary_eq h', hsign]
    apply Binary64.ofRatio_congr _ hnum hden hnum' hden'
    rw [quotient_digits, quotient_digits, hsize]

theorem size_stripZeros (fuel digits : Nat) (exponent : Int) :
    ((stripZeros fuel digits exponent).1 : ℚ) * 10 ^ (stripZeros fuel digits exponent).2 =
      digits * 10 ^ exponent := by
  induction fuel generalizing digits exponent with
  | zero => rfl
  | succ fuel ih =>
    unfold stripZeros
    split
    · next h =>
      have hdigits : (digits : ℚ) = (digits / 10 : Nat) * 10 := by
        exact_mod_cast (Nat.div_mul_cancel (Nat.dvd_of_mod_eq_zero h.1)).symm
      rw [ih, hdigits, zpow_add₀ (by norm_num), zpow_one]
      ring
    · rfl

theorem size_withoutTrailingZeros (d : Decimal) : d.withoutTrailingZeros.size = d.size :=
  size_stripZeros (d.digits.log2 + 1) d.digits d.exponent

theorem toBinary_withoutTrailingZeros (d : Decimal) :
    d.withoutTrailingZeros.toBinary = d.toBinary :=
  toBinary_congr rfl (size_withoutTrailingZeros d)

end Decimal

namespace Binary64

/-- A decimal that was found by trying reads back. -/
theorem readsBackWith_eq_some {x : Binary64} {negative : Bool} {num den count : Nat}
    {d : Decimal} (h : readsBackWith x negative num den count = some d) : d.toBinary = x := by
  unfold readsBackWith at h
  simp only at h
  simpa using List.find?_some h

theorem size_exactDecimal (negative : Bool) (significand : Nat) (exponent : Int) :
    (exactDecimal negative significand exponent).size = significand * 2 ^ exponent := by
  unfold exactDecimal Decimal.size
  split
  · next h =>
    obtain ⟨n, rfl⟩ := Int.eq_ofNat_of_zero_le h
    simp [Nat.pow_eq]
  · next h =>
    obtain ⟨n, hn⟩ := Int.eq_ofNat_of_zero_le (show 0 ≤ -exponent by omega)
    have hexponent : exponent = -(n : ℤ) := by omega
    subst hexponent
    have hten : (10 : ℚ) ^ n = 2 ^ n * 5 ^ n := by rw [← mul_pow]; norm_num
    simp only [neg_neg, Int.toNat_natCast, Nat.pow_eq, Nat.cast_mul, Nat.cast_pow, Nat.cast_ofNat,
      zpow_neg, zpow_natCast, hten]
    field_simp

/-- The decimal that equals a number reads back as it. -/
theorem toBinary_exactDecimal (negative : Bool) {significand : Nat} {exponent : Int}
    (canonical : Canonical significand exponent) (hpos : significand ≠ 0) :
    (exactDecimal negative significand exponent).toBinary =
      .finite negative significand exponent canonical := by
  have hsize := size_exactDecimal negative significand exponent
  have hdigits : (exactDecimal negative significand exponent).digits ≠ 0 := by
    rw [Ne, ← Decimal.size_eq_zero_iff, hsize]
    have hsignificand : (significand : ℚ) ≠ 0 := by exact_mod_cast hpos
    exact mul_ne_zero hsignificand (two_zpow_pos _).ne'
  have hsign : (exactDecimal negative significand exponent).negative = negative := by
    unfold exactDecimal
    split <;> rfl
  obtain ⟨hnum, hden⟩ := scaleByTen_pos (Nat.pos_of_ne_zero hdigits) Nat.one_pos
    (exactDecimal negative significand exponent).exponent
  rw [Decimal.toBinary_eq hdigits, hsign]
  apply ofRatio_exact negative canonical (Nat.pos_of_ne_zero hpos) hnum hden
  rw [Decimal.quotient_digits, hsize]

/-- The decimal that is written for a number reads back as it. -/
theorem toBinary_shortest (negative : Bool) (significand : Nat) (exponent : Int)
    (canonical : Canonical significand exponent) (hpos : significand ≠ 0) :
    (shortest negative significand exponent canonical).toBinary =
      .finite negative significand exponent canonical := by
  unfold shortest
  rw [if_neg hpos]
  simp only [Decimal.toBinary_withoutTrailingZeros]
  generalize hfound : List.findSome? _ _ = found
  cases found with
  | none => exact toBinary_exactDecimal negative canonical hpos
  | some d =>
    obtain ⟨count, -, hd⟩ := List.exists_of_findSome?_eq_some hfound
    exact readsBackWith_eq_some hd

end Binary64

end MarkupTidy
