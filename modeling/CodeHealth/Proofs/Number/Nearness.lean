import CodeHealth.Proofs.Number.Monotone
import CodeHealth.Proofs.Number.Numerals

/-!
# How near the nearest number is

The nearest integer is at most one half away, so the nearest point of a grid is at most half a step
away. Below one the grid has at least 53 places behind the binary point, and one itself is a number
of the format. So between zero and one nothing is rounded by more than `2 ^ -54`.

That is less than half a unit of the fifteenth decimal place. A decimal with at most fifteen places
is therefore the one that comes back when its nearest number is rounded to these places again
(`Fixed.roundedCoefficient_rounded`). With sixteen places this is no longer so.
-/

namespace CodeHealth

namespace Double

variable {q : Rat}

theorem roundHalfEven_near (q : Rat) :
    roundHalfEven q ≤ q + 1 / 2 ∧ q ≤ roundHalfEven q + 1 / 2 := by
  have hbelow := Rat.floor_le q
  have habove := Rat.lt_floor_add_one q
  obtain ⟨h, hexcess⟩ | ⟨h, hexcess⟩ := roundHalfEven_cases q
  · rw [h]
    constructor <;> grind
  · rw [h, Rat.intCast_add]
    constructor <;> grind

/-- The nearest point of the grid is at most half a step away. -/
theorem roundOnGrid_near (q : Rat) :
    roundOnGrid q ≤ q + 2 ^ (gridExponent q - 1) ∧
      q ≤ roundOnGrid q + 2 ^ (gridExponent q - 1) := by
  have hstep := two_zpow_pos (gridExponent q)
  have hhalf : (2 : Rat) ^ gridExponent q = 2 ^ (gridExponent q - 1) * 2 := by
    have := two_zpow_add (gridExponent q - 1) 1
    rwa [Int.sub_add_cancel, Rat.zpow_one] at this
  have hscaled : q / 2 ^ gridExponent q * 2 ^ gridExponent q = q :=
    Rat.div_mul_cancel (Rat.ne_of_gt hstep)
  obtain ⟨habove, hbelow⟩ := roundHalfEven_near (q / 2 ^ gridExponent q)
  have habove := Rat.mul_le_mul_of_nonneg_right habove (Rat.le_of_lt hstep)
  have hbelow := Rat.mul_le_mul_of_nonneg_right hbelow (Rat.le_of_lt hstep)
  rw [Rat.add_mul, hscaled] at habove
  rw [Rat.add_mul, hscaled] at hbelow
  unfold roundOnGrid
  constructor <;> grind

/-- Between zero and one nothing is rounded by more than this. -/
theorem rounded_near (hq : 0 ≤ q) (hone : q ≤ 1) :
    rounded q ≤ q + 2 ^ (-54 : Int) ∧ q ≤ rounded q + 2 ^ (-54 : Int) := by
  have hpos := two_zpow_pos (-54)
  by_cases hzero : q = 0
  · rw [hzero, rounded_zero]
    constructor <;> grind
  by_cases heq : q = 1
  · rw [heq, rounded_one]
    constructor <;> grind
  have hq : 0 < q := by grind
  have hgrid : gridExponent q - 1 ≤ -54 := by
    have := floorLog2_lt (n := 0) hq (by rw [Rat.zpow_zero]; grind)
    unfold gridExponent
    omega
  have hstep := two_zpow_le hgrid
  obtain ⟨habove, hbelow⟩ := roundOnGrid_near q
  rw [rounded, if_pos hq]
  constructor <;> grind

theorem ofMagnitude_of_le_one (h : q ≤ 1) : ofMagnitude false q = .finite (rounded q) := by
  have hle : rounded q ≤ 1 := rounded_one ▸ rounded_mono h
  have hlimit : (1 : Rat) < 2 ^ (1024 : Int) := by decide +kernel
  rw [ofMagnitude_of_lt (by grind)]
  split
  · rw [‹rounded q = 0›]
    rfl
  · rfl

end Double

namespace Fixed

variable {k : Nat} {places : Int}

/-- Half up: the coefficient is the one integer within these bounds. -/
theorem roundedCoefficient_eq_iff {q : Rat} (hq : 0 ≤ q) (places : Int) :
    roundedCoefficient q places = k ↔
      (k : Rat) ≤ q * 10 ^ places + 1 / 2 ∧ q * 10 ^ places + 1 / 2 < k + 1 := by
  have hscaled := Rat.mul_nonneg hq (Rat.le_of_lt (Double.ten_zpow_pos places))
  have hfloor : 0 ≤ (q * (10 : Rat) ^ places + 1 / 2).floor := Rat.le_floor_iff.mpr (by grind)
  have hnext : (k : Rat) + 1 = ((k + 1 : Int) : Rat) := (Rat.intCast_add k 1).symm
  rw [hnext, ← Rat.intCast_natCast, ← Rat.le_floor_iff, ← Rat.floor_lt_iff, roundedCoefficient]
  omega

/-- A decimal between zero and one with at most fifteen places comes back from its
nearest number. -/
theorem roundedCoefficient_rounded (hplaces : 0 ≤ places) (hle : places ≤ 15)
    (h : k ≤ 10 ^ places.toNat) :
    roundedCoefficient (Double.rounded (k * 10 ^ (-places))) places = k := by
  have hten := Double.ten_zpow_pos places
  have hnonneg : (0 : Rat) ≤ k * 10 ^ (-places) :=
    Rat.mul_nonneg Rat.natCast_nonneg (Rat.le_of_lt (Double.ten_zpow_pos (-places)))
  have hvalue : (k : Rat) * 10 ^ (-places) * 10 ^ places = k := by
    rw [Rat.mul_assoc, ← Double.ten_zpow_add, Int.add_left_neg, Rat.zpow_zero, Rat.mul_one]
  -- The rounding error counts less than half a unit of the last place.
  have hunit : (2 : Rat) ^ (-54 : Int) * 10 ^ places < 1 / 2 := by
    have hpow := Rat.mul_le_mul_of_nonneg_left (Double.ten_zpow_le hle)
      (Rat.le_of_lt (Double.two_zpow_pos (-54)))
    have hlast : (2 : Rat) ^ (-54 : Int) * 10 ^ (15 : Int) < 1 / 2 := by decide +kernel
    grind
  obtain ⟨habove, hbelow⟩ :=
    Double.rounded_near hnonneg (natCast_mul_ten_zpow_le_one hplaces h)
  have habove := Rat.mul_le_mul_of_nonneg_right habove (Rat.le_of_lt hten)
  have hbelow := Rat.mul_le_mul_of_nonneg_right hbelow (Rat.le_of_lt hten)
  rw [Rat.add_mul, hvalue] at habove
  rw [Rat.add_mul, hvalue] at hbelow
  rw [roundedCoefficient_eq_iff (Double.rounded_nonneg _)]
  constructor <;> grind

end Fixed

end CodeHealth
