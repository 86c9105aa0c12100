import CodeHealth.Number.Numeral
import CodeHealth.Proofs.Number.Rounding
import Mathlib.Algebra.Group.Nat.Defs

/-!
# Numerals as floating point numbers

A numeral far below or far above the numbers of the format is read without its power of ten being
computed. That is a shortcut only: every numeral is read as the number nearest to its exact value
(`Numeral.toDouble_eq`), so two numerals of one value are read alike, however they are written.
-/

namespace CodeHealth

/-! ### The number of digits -/

theorem length_decimalDigits_le_iff {n k : Nat} (hk : 0 < k) :
    (decimalDigits n).length ≤ k ↔ n < 10 ^ k :=
  Nat.length_toDigits_le_iff (by decide) hk

theorem lt_pow_length_decimalDigits (n : Nat) : n < 10 ^ (decimalDigits n).length :=
  (length_decimalDigits_le_iff Nat.length_toDigits_pos).mp (Nat.le_refl _)

theorem pow_length_decimalDigits_le {n : Nat} (h : n ≠ 0) :
    10 ^ ((decimalDigits n).length - 1) ≤ n := by
  by_cases hone : (decimalDigits n).length = 1
  · rw [hone]
    omega
  · have hpos : 0 < (decimalDigits n).length := Nat.length_toDigits_pos
    refine Nat.not_lt.mp fun hlt => ?_
    have := (length_decimalDigits_le_iff (by omega)).mpr hlt
    omega

namespace Double

theorem ten_zpow_pos (n : Int) : (0 : Rat) < 10 ^ n :=
  Rat.zpow_pos (by decide)

theorem ten_zpow_add (m n : Int) : (10 : Rat) ^ (m + n) = 10 ^ m * 10 ^ n :=
  Rat.zpow_add (by decide) m n

theorem ten_zpow_le {m n : Int} (h : m ≤ n) : (10 : Rat) ^ m ≤ 10 ^ n :=
  Powers.zpow_le_zpow (by decide) h

theorem two_zpow_le_ten_zpow {m n : Nat} (h : 2 ^ m ≤ 10 ^ n) :
    (2 : Rat) ^ (m : Int) ≤ 10 ^ (n : Int) := by
  rw [Rat.zpow_natCast, Rat.zpow_natCast]
  have := Rat.natCast_le_natCast.mpr h
  rwa [Rat.natCast_pow, Rat.natCast_pow] at this

theorem ten_zpow_neg_le_two_zpow_neg {m n : Nat} (h : 2 ^ m ≤ 10 ^ n) :
    (10 : Rat) ^ (-n : Int) ≤ 2 ^ (-m : Int) := by
  have hten := ten_zpow_add (-n) n
  have htwo := two_zpow_add (-m) m
  rw [Int.add_left_neg, Rat.zpow_zero] at hten htwo
  have hle := Rat.mul_le_mul_of_nonneg_left (two_zpow_le_ten_zpow h)
    (Rat.le_of_lt (ten_zpow_pos (-n)))
  exact Rat.le_of_mul_le_mul_right (c := 2 ^ (m : Int)) (by grind) (two_zpow_pos m)

/-- What lies below half of the least positive number is rounded to zero. -/
theorem rounded_of_lt {q : Rat} (hq : 0 ≤ q) (h : q < (2 : Rat) ^ (-1075 : Int)) :
    rounded q = 0 := by
  unfold rounded
  split
  · rename_i hpos
    have hlog := floorLog2_lt hpos h
    have hgrid : gridExponent q = -1074 := by
      unfold gridExponent
      omega
    have hstep := two_zpow_pos (-1074)
    have hhalf := two_zpow_add (-1075) 1
    rw [Rat.zpow_one, show (-1075 + 1 : Int) = -1074 from rfl] at hhalf
    have hscaled : q / 2 ^ (-1074 : Int) < 1 / 2 := by
      rw [Rat.div_lt_iff hstep]
      grind
    have hnonneg : 0 ≤ q / (2 : Rat) ^ (-1074 : Int) := quotient_nonneg hstep hq
    rw [roundOnGrid, hgrid, roundHalfEven_of_lt_half hnonneg hscaled]
    exact Rat.zero_mul _
  · rfl

/-- What is not below the limit is not rounded down below it. -/
theorem limit_le_rounded {q : Rat} (h : (2 : Rat) ^ (1024 : Int) ≤ q) :
    (2 : Rat) ^ (1024 : Int) ≤ rounded q := by
  have hlimit := two_zpow_pos 1024
  have hpos : 0 < q := by grind
  have hlog := le_floorLog2 hpos h
  have hgrid : gridExponent q ≤ floorLog2 q := by
    unfold gridExponent
    omega
  have hround := le_roundOnGrid (floorLog2_spec hpos).1 hgrid
  have hle := two_zpow_le hlog
  rw [rounded, if_pos hpos]
  grind

end Double

namespace Numeral

open Double

theorem magnitude_nonneg (n : Numeral) : 0 ≤ n.magnitude :=
  Rat.mul_nonneg Rat.natCast_nonneg (Rat.le_of_lt (ten_zpow_pos n.exponent))

/-- The number of digits of a numeral before its point, if the power of ten is taken
into account. -/
def size (n : Numeral) : Int :=
  (decimalDigits n.coefficient).length + n.exponent

theorem magnitude_lt (n : Numeral) : n.magnitude < 10 ^ n.size := by
  have hcoefficient :
      (n.coefficient : Rat) < 10 ^ ((decimalDigits n.coefficient).length : Int) := by
    have := Rat.natCast_lt_natCast.mpr (lt_pow_length_decimalDigits n.coefficient)
    rwa [Rat.natCast_pow] at this
  have := (Rat.mul_lt_mul_right (ten_zpow_pos n.exponent)).mpr hcoefficient
  rwa [← ten_zpow_add] at this

theorem le_magnitude {n : Numeral} (h : n.coefficient ≠ 0) :
    10 ^ (n.size - 1) ≤ n.magnitude := by
  have hpos : 0 < (decimalDigits n.coefficient).length := Nat.length_toDigits_pos
  have hcoefficient :
      (10 : Rat) ^ (((decimalDigits n.coefficient).length - 1 : Nat) : Int) ≤ n.coefficient := by
    have := Rat.natCast_le_natCast.mpr (pow_length_decimalDigits_le h)
    rwa [Rat.natCast_pow] at this
  have := Rat.mul_le_mul_of_nonneg_right hcoefficient (Rat.le_of_lt (ten_zpow_pos n.exponent))
  rw [← ten_zpow_add] at this
  have hexponent : n.size - 1 =
      ((decimalDigits n.coefficient).length - 1 : Nat) + n.exponent := by
    unfold size
    omega
  rwa [hexponent]

/-- A numeral is read as the number nearest to its exact value. -/
theorem toDouble_eq (n : Numeral) : n.toDouble = .ofMagnitude n.negative n.magnitude := by
  have hnear {q : Rat} (h : rounded q = 0) :
      ofMagnitude n.negative q = ofMagnitude n.negative 0 := by
    rw [ofMagnitude_of_lt (by rw [h]; exact two_zpow_pos _), if_pos h, ofMagnitude_zero]
  unfold toDouble
  change (if n.coefficient = 0 ∨ n.size < -330 then _ else if 310 < n.size then _ else _) = _
  split
  · rename_i h
    obtain hzero | hsmall := h
    · rw [magnitude, hzero]
      simp
    · refine (hnear (rounded_of_lt n.magnitude_nonneg ?_)).symm
      have hlt := n.magnitude_lt
      have hle := ten_zpow_le (m := n.size) (n := -331) (by omega)
      have hten := ten_zpow_neg_le_two_zpow_neg (m := 1075) (n := 331) (by decide +kernel)
      grind
  · rename_i hsize
    split
    · have hle := le_magnitude (n := n) (by omega)
      have hten := ten_zpow_le (m := 310) (n := n.size - 1) (by omega)
      have htwo := two_zpow_le_ten_zpow (m := 1024) (n := 310) (by decide +kernel)
      exact (ofMagnitude_of_le (limit_le_rounded (by grind)) _).symm
    · rfl

end Numeral

/-- A coefficient that is no larger than the unit stands for a number that is at most one. -/
theorem Fixed.natCast_mul_ten_zpow_le_one {k : Nat} {places : Int} (hplaces : 0 ≤ places)
    (h : k ≤ 10 ^ places.toNat) :
    (k : Rat) * 10 ^ (-places) ≤ 1 := by
  have hpow : (10 : Rat) ^ places * 10 ^ (-places) = 1 := by
    rw [← Double.ten_zpow_add, Int.add_right_neg, Rat.zpow_zero]
  have hk : (k : Rat) ≤ (10 : Rat) ^ places := by
    rw [← Int.toNat_of_nonneg hplaces, Rat.zpow_natCast]
    have := Rat.natCast_le_natCast.mpr h
    rwa [Rat.natCast_pow] at this
  have hle := Rat.mul_le_mul_of_nonneg_right hk (Rat.le_of_lt (Double.ten_zpow_pos (-places)))
  rwa [hpow] at hle

end CodeHealth
