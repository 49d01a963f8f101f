import Mathlib.Algebra.Order.Field.Basic
import Mathlib.Tactic.FieldSimp
import Mathlib.Tactic.Linarith
import Mathlib.Tactic.NormNum
import Mathlib.Tactic.Ring
import MarkupTidy.Number.Binary64

/-!
Rounding a quotient to a binary number depends on the quotient alone, not on the numerator and
denominator that write it. A quotient that is a binary number rounds to itself; one beyond the
range of finite numbers rounds to an infinity, and one below half of the least number to zero.
-/
namespace MarkupTidy.Binary64

/-- The quotient that a numerator and a denominator write. -/
def quotient (num den : Nat) : ℚ := num / den

/-- The numerator and denominator of `num / den · base ^ shift`. -/
def scaleBy (base num den : Nat) (shift : Int) : Nat × Nat :=
  if 0 ≤ shift then (num * Nat.pow base shift.toNat, den)
  else (num, den * Nat.pow base (-shift).toNat)

section Scaling

variable {base num den : Nat}

theorem scaleBy_pos (hbase : 0 < base) (hnum : 0 < num) (hden : 0 < den) (shift : Int) :
    0 < (scaleBy base num den shift).1 ∧ 0 < (scaleBy base num den shift).2 := by
  have hpow : ∀ n : Nat, 0 < Nat.pow base n := fun n => Nat.pow_pos hbase
  unfold scaleBy
  split
  · exact ⟨Nat.mul_pos hnum (hpow _), hden⟩
  · exact ⟨hnum, Nat.mul_pos hden (hpow _)⟩

theorem quotient_scaleBy (hbase : 0 < base) (hden : 0 < den) (num : Nat) (shift : Int) :
    quotient (scaleBy base num den shift).1 (scaleBy base num den shift).2 =
      quotient num den * (base : ℚ) ^ shift := by
  have hdenQ : (den : ℚ) ≠ 0 := by exact_mod_cast hden.ne'
  have hbaseQ : (base : ℚ) ≠ 0 := by exact_mod_cast hbase.ne'
  unfold scaleBy quotient
  split
  · next hshift =>
    obtain ⟨n, rfl⟩ := Int.eq_ofNat_of_zero_le hshift
    simp only [Int.toNat_natCast, Nat.pow_eq, Nat.cast_mul, Nat.cast_pow, zpow_natCast]
    ring
  · next hshift =>
    obtain ⟨n, hn⟩ := Int.eq_ofNat_of_zero_le (show 0 ≤ -shift by omega)
    have hshift' : shift = -(n : ℤ) := by omega
    subst hshift'
    simp only [neg_neg, Int.toNat_natCast, Nat.pow_eq, Nat.cast_mul, Nat.cast_pow, zpow_neg,
      zpow_natCast]
    field_simp

theorem scaleByTwo_pos (hnum : 0 < num) (hden : 0 < den) (shift : Int) :
    0 < (scaleByTwo num den shift).1 ∧ 0 < (scaleByTwo num den shift).2 :=
  scaleBy_pos Nat.two_pos hnum hden shift

theorem quotient_scaleByTwo (hden : 0 < den) (num : Nat) (shift : Int) :
    quotient (scaleByTwo num den shift).1 (scaleByTwo num den shift).2 =
      quotient num den * 2 ^ shift :=
  quotient_scaleBy Nat.two_pos hden num shift

end Scaling

/-- The place of the first binary digit of a positive quotient. -/
def IsLeading (q : ℚ) (place : ℤ) : Prop := (2 : ℚ) ^ place ≤ q ∧ q < 2 ^ (place + 1)

theorem IsLeading.unique {q : ℚ} {place place' : ℤ} (h : IsLeading q place)
    (h' : IsLeading q place') : place = place' := by
  have htwo : (1 : ℚ) < 2 := by norm_num
  have hle : place < place' + 1 := (zpow_lt_zpow_iff_right₀ htwo).mp (h.1.trans_lt h'.2)
  have hge : place' < place + 1 := (zpow_lt_zpow_iff_right₀ htwo).mp (h'.1.trans_lt h.2)
  omega

theorem log2_bounds {n : Nat} (hn : 0 < n) :
    (2 : ℚ) ^ (n.log2 : ℤ) ≤ n ∧ (n : ℚ) < 2 ^ ((n.log2 : ℤ) + 1) := by
  have hlow : 2 ^ n.log2 ≤ n := Nat.log2_self_le (by omega)
  have hhigh : n < 2 ^ (n.log2 + 1) := Nat.lt_log2_self
  constructor
  · rw [zpow_natCast]
    exact_mod_cast hlow
  · have hcast : ((n.log2 : ℤ) + 1) = ((n.log2 + 1 : Nat) : ℤ) := by push_cast; rfl
    rw [hcast, zpow_natCast]
    exact_mod_cast hhigh

theorem two_zpow_pos (place : ℤ) : (0 : ℚ) < 2 ^ place := zpow_pos (by norm_num) place

/-- The quotient of two numbers lies about as many places high as they are apart. -/
theorem quotient_bounds {num den : Nat} (hnum : 0 < num) (hden : 0 < den) :
    (2 : ℚ) ^ ((num.log2 : ℤ) - den.log2 - 1) < quotient num den ∧
      quotient num den < 2 ^ ((num.log2 : ℤ) - den.log2 + 1) := by
  have hdenQ : (0 : ℚ) < den := by exact_mod_cast hden
  have htwo : (2 : ℚ) ≠ 0 := by norm_num
  obtain ⟨hnumLow, hnumHigh⟩ := log2_bounds hnum
  obtain ⟨hdenLow, hdenHigh⟩ := log2_bounds hden
  unfold quotient
  constructor
  · rw [lt_div_iff₀ hdenQ]
    calc (2 : ℚ) ^ ((num.log2 : ℤ) - den.log2 - 1) * den
        < 2 ^ ((num.log2 : ℤ) - den.log2 - 1) * 2 ^ ((den.log2 : ℤ) + 1) :=
          mul_lt_mul_of_pos_left hdenHigh (two_zpow_pos _)
      _ = 2 ^ (num.log2 : ℤ) := by rw [← zpow_add₀ htwo]; congr 1; ring
      _ ≤ num := hnumLow
  · rw [div_lt_iff₀ hdenQ]
    calc (num : ℚ) < 2 ^ ((num.log2 : ℤ) + 1) := hnumHigh
      _ = 2 ^ ((num.log2 : ℤ) - den.log2 + 1) * 2 ^ (den.log2 : ℤ) := by
          rw [← zpow_add₀ htwo]; congr 1; ring
      _ ≤ 2 ^ ((num.log2 : ℤ) - den.log2 + 1) * den :=
          mul_le_mul_of_nonneg_left hdenLow (two_zpow_pos _).le

/-- The exponent for a quotient puts its first digit into the 53rd place. -/
theorem exponentFor_eq {num den : Nat} (hnum : 0 < num) (hden : 0 < den) :
    ∃ place, IsLeading (quotient num den) place ∧
      exponentFor num den = max (place - 52) (-1074) := by
  have htwo : (2 : ℚ) ≠ 0 := by norm_num
  obtain ⟨hlow, hhigh⟩ := quotient_bounds hnum hden
  have hscaled := quotient_scaleByTwo hden num (-((num.log2 : ℤ) - den.log2))
  obtain ⟨-, hpos⟩ := scaleByTwo_pos hnum hden (-((num.log2 : ℤ) - den.log2))
  have hbelow : (scaleByTwo num den (-((num.log2 : ℤ) - den.log2))).1 <
      (scaleByTwo num den (-((num.log2 : ℤ) - den.log2))).2 ↔
      quotient num den < 2 ^ ((num.log2 : ℤ) - den.log2) := by
    have hposQ : (0 : ℚ) < (scaleByTwo num den (-((num.log2 : ℤ) - den.log2))).2 := by
      exact_mod_cast hpos
    rw [zpow_neg, ← div_eq_mul_inv] at hscaled
    rw [← Nat.cast_lt (α := ℚ), ← div_lt_one hposQ]
    show quotient _ _ < 1 ↔ _
    rw [hscaled, div_lt_one (two_zpow_pos _)]
  unfold exponentFor
  by_cases h : quotient num den < 2 ^ ((num.log2 : ℤ) - den.log2)
  · refine ⟨(num.log2 : ℤ) - den.log2 - 1, ⟨hlow.le, by simpa using h⟩, ?_⟩
    simp only [hbelow.mpr h, if_true]
    congr 1
    ring
  · refine ⟨(num.log2 : ℤ) - den.log2, ⟨not_lt.mp h, hhigh⟩, ?_⟩
    simp only [mt hbelow.mp h, if_false]

theorem roundDiv_mul_right (num den : Nat) {k : Nat} (hk : 0 < k) :
    roundDiv (num * k) (den * k) = roundDiv num den := by
  unfold roundDiv
  simp only [Nat.mul_div_mul_right _ _ hk, Nat.mul_mod_mul_right, ← Nat.mul_assoc,
    Nat.mul_lt_mul_right hk]

/-- Rounding a quotient to a whole number depends on the quotient alone. -/
theorem roundDiv_congr {num den num' den' : Nat} (hden : 0 < den) (hden' : 0 < den')
    (h : quotient num den = quotient num' den') : roundDiv num den = roundDiv num' den' := by
  have hcross : num * den' = num' * den := by
    have hdenQ : (den : ℚ) ≠ 0 := by exact_mod_cast hden.ne'
    have hdenQ' : (den' : ℚ) ≠ 0 := by exact_mod_cast hden'.ne'
    unfold quotient at h
    rw [div_eq_div_iff hdenQ hdenQ'] at h
    exact_mod_cast h
  rw [← roundDiv_mul_right num den hden', ← roundDiv_mul_right num' den' hden, hcross,
    Nat.mul_comm den den']

theorem exponentFor_congr {num den num' den' : Nat} (hnum : 0 < num) (hden : 0 < den)
    (hnum' : 0 < num') (hden' : 0 < den') (h : quotient num den = quotient num' den') :
    exponentFor num den = exponentFor num' den' := by
  obtain ⟨place, hplace, heq⟩ := exponentFor_eq hnum hden
  obtain ⟨place', hplace', heq'⟩ := exponentFor_eq hnum' hden'
  rw [h] at hplace
  rw [heq, heq', hplace.unique hplace']

/-- Rounding a quotient to a binary number depends on the quotient alone. -/
theorem ofRatio_congr (negative : Bool) {num den num' den' : Nat} (hnum : 0 < num)
    (hden : 0 < den) (hnum' : 0 < num') (hden' : 0 < den')
    (h : quotient num den = quotient num' den') :
    ofRatio negative num den = ofRatio negative num' den' := by
  have hexponent := exponentFor_congr hnum hden hnum' hden' h
  have hround : roundDiv (scaleByTwo num den (-exponentFor num' den')).1
      (scaleByTwo num den (-exponentFor num' den')).2 =
      roundDiv (scaleByTwo num' den' (-exponentFor num' den')).1
        (scaleByTwo num' den' (-exponentFor num' den')).2 := by
    refine roundDiv_congr (scaleByTwo_pos hnum hden _).2 (scaleByTwo_pos hnum' hden' _).2 ?_
    rw [quotient_scaleByTwo hden, quotient_scaleByTwo hden', h]
  unfold ofRatio
  simp only [hnum.ne', hnum'.ne', if_false, hexponent, hround]

/-- A whole number rounds to itself. -/
theorem roundDiv_whole {num den whole : Nat} (hden : 0 < den) (h : quotient num den = whole) :
    roundDiv num den = whole := by
  have hself : quotient num den = quotient whole 1 := by
    rw [h]
    simp [quotient]
  rw [roundDiv_congr hden Nat.one_pos hself]
  simp [roundDiv, Nat.mod_one]

/-- Less than one half rounds to zero. -/
theorem roundDiv_small {num den : Nat} (hden : 0 < den) (h : quotient num den < 1 / 2) :
    roundDiv num den = 0 := by
  have hhalf : 2 * num < den := by
    have hdenQ : (0 : ℚ) < den := by exact_mod_cast hden
    unfold quotient at h
    rw [div_lt_div_iff₀ hdenQ two_pos] at h
    have hQ : ((2 * num : Nat) : ℚ) < den := by push_cast; linarith
    exact_mod_cast hQ
  have hlt : num < den := by omega
  unfold roundDiv
  simp only [Nat.div_eq_of_lt hlt, Nat.mod_eq_of_lt hlt, hhalf, if_true]

theorem ofParts_canonical (negative : Bool) {significand : Nat} {exponent : Int}
    (h : Canonical significand exponent) :
    ofParts negative significand exponent = .finite negative significand exponent h :=
  dif_pos h

theorem isLeading_mul {significand : Nat} (hpos : 0 < significand) (exponent : ℤ) :
    IsLeading (significand * 2 ^ exponent) (significand.log2 + exponent) := by
  have htwo : (2 : ℚ) ≠ 0 := by norm_num
  obtain ⟨hlow, hhigh⟩ := log2_bounds hpos
  constructor
  · rw [zpow_add₀ htwo]
    exact mul_le_mul_of_nonneg_right hlow (two_zpow_pos _).le
  · have hplace : (significand.log2 : ℤ) + exponent + 1 = (significand.log2 + 1) + exponent := by
      ring
    rw [hplace, zpow_add₀ htwo (_ + 1)]
    exact mul_lt_mul_of_pos_right hhigh (two_zpow_pos _)

/-- A canonical form has the exponent that its value asks for. -/
theorem Canonical.exponentFor {significand : Nat} {exponent : Int}
    (canonical : Canonical significand exponent) (hpos : 0 < significand) {num den : Nat}
    (hnum : 0 < num) (hden : 0 < den) (hvalue : quotient num den = significand * 2 ^ exponent) :
    exponentFor num den = exponent := by
  obtain ⟨place, hplace, heq⟩ := exponentFor_eq hnum hden
  rw [hvalue] at hplace
  rw [heq, hplace.unique (isLeading_mul hpos exponent)]
  obtain ⟨hbound, hleast, -, hform⟩ := canonical
  have hlog : significand.log2 < 53 := (Nat.log2_lt hpos.ne').mpr hbound
  rcases hform with hfull | hmin
  · have hlog' : 52 ≤ significand.log2 := (Nat.le_log2 hpos.ne').mpr hfull
    omega
  · omega

/-- A quotient that is a binary number rounds to it. -/
theorem ofRatio_exact (negative : Bool) {significand : Nat} {exponent : Int}
    (canonical : Canonical significand exponent) (hpos : 0 < significand) {num den : Nat}
    (hnum : 0 < num) (hden : 0 < den) (hvalue : quotient num den = significand * 2 ^ exponent) :
    ofRatio negative num den = .finite negative significand exponent canonical := by
  have htwo : (2 : ℚ) ≠ 0 := by norm_num
  have hexponent := Canonical.exponentFor canonical hpos hnum hden hvalue
  have hround : roundDiv (scaleByTwo num den (-exponent)).1 (scaleByTwo num den (-exponent)).2 =
      significand := by
    apply roundDiv_whole (scaleByTwo_pos hnum hden _).2
    rw [quotient_scaleByTwo hden, hvalue, mul_assoc, ← zpow_add₀ htwo]
    simp
  have hne : significand ≠ significandBound := canonical.1.ne
  unfold ofRatio
  simp only [hnum.ne', if_false, hexponent, hround, hne]
  exact ofParts_canonical negative canonical

/-- A quotient beyond the range rounds to an infinity. -/
theorem ofRatio_large (negative : Bool) {num den : Nat} (hnum : 0 < num) (hden : 0 < den)
    (h : (2 : ℚ) ^ (1024 : ℤ) ≤ quotient num den) :
    ofRatio negative num den = .infinite negative := by
  obtain ⟨place, hplace, heq⟩ := exponentFor_eq hnum hden
  have hhigh : 1024 < place + 1 :=
    (zpow_lt_zpow_iff_right₀ (by norm_num : (1 : ℚ) < 2)).mp (h.trans_lt hplace.2)
  have hexponent : 971 < exponentFor num den := by omega
  have hinfinite : ∀ (significand : Nat) (exponent : Int), 971 < exponent →
      ofParts negative significand exponent = .infinite negative := by
    intro significand exponent hlarge
    refine dif_neg ?_
    rintro ⟨-, -, hsmall, -⟩
    omega
  unfold ofRatio
  simp only [hnum.ne', if_false]
  split
  · exact hinfinite _ _ (by omega)
  · exact hinfinite _ _ hexponent

/-- A quotient below half of the least number rounds to zero. -/
theorem ofRatio_small (negative : Bool) {num den : Nat} (hnum : 0 < num) (hden : 0 < den)
    (h : quotient num den < 2 ^ (-1075 : ℤ)) : ofRatio negative num den = zero negative := by
  have htwo : (2 : ℚ) ≠ 0 := by norm_num
  obtain ⟨place, hplace, heq⟩ := exponentFor_eq hnum hden
  have hlow : place < -1075 :=
    (zpow_lt_zpow_iff_right₀ (by norm_num : (1 : ℚ) < 2)).mp (hplace.1.trans_lt h)
  have hexponent : exponentFor num den = -1074 := by omega
  have hround : roundDiv (scaleByTwo num den 1074).1 (scaleByTwo num den 1074).2 = 0 := by
    apply roundDiv_small (scaleByTwo_pos hnum hden _).2
    rw [quotient_scaleByTwo hden]
    calc quotient num den * 2 ^ (1074 : ℤ)
        < 2 ^ (-1075 : ℤ) * 2 ^ (1074 : ℤ) := mul_lt_mul_of_pos_right h (two_zpow_pos _)
      _ = 1 / 2 := by rw [← zpow_add₀ htwo]; norm_num
  have hne : (0 : Nat) ≠ significandBound := by decide
  unfold ofRatio
  simp only [hnum.ne', if_false, hexponent, neg_neg, hround, hne]
  rfl

end MarkupTidy.Binary64
