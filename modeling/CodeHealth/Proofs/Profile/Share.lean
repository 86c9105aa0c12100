import CodeHealth.Profile.Ratio
import CodeHealth.Proofs.Value.Rounded
import Mathlib.Algebra.Group.Int.Defs

/-!
# Numbers between zero and one

Terms and ratios are kept between zero and one. Rounding such a number to decimal places gives
another one, as long as there is a digit to spare: a decimal number has 28 digits, and one of them
stands before the point. With 28 places or more the number one itself cannot be written
(`roundHalfUp_one`).
-/

namespace CodeHealth

namespace Fixed

variable {q : Rat} {places : Int}

theorem ten_zpow_eq_intCast (h : 0 ≤ places) :
    (10 : Rat) ^ places = ((10 ^ places.toNat : Nat) : Int) := by
  rw [Rat.intCast_natCast, Rat.natCast_pow, ← Rat.zpow_natCast, Int.toNat_of_nonneg h]
  rfl

theorem roundedCoefficient_le (hplaces : 0 ≤ places) (h : q ≤ 1) :
    roundedCoefficient q places ≤ 10 ^ places.toNat := by
  have hle := Rat.mul_le_mul_of_nonneg_right h (Rat.le_of_lt (Double.ten_zpow_pos places))
  have hlt : (q * (10 : Rat) ^ places + 1 / 2).floor < ((10 ^ places.toNat : Nat) : Int) + 1 := by
    rw [Rat.floor_lt_iff, Rat.intCast_add, ← ten_zpow_eq_intCast hplaces]
    grind
  exact Int.toNat_le.mpr (Int.lt_add_one_iff.mp hlt)

theorem roundedCoefficient_one (hplaces : 0 ≤ places) :
    roundedCoefficient 1 places = 10 ^ places.toNat := by
  have hle : ((10 ^ places.toNat : Nat) : Int) ≤ (1 * (10 : Rat) ^ places + 1 / 2).floor := by
    rw [Rat.le_floor_iff, ← ten_zpow_eq_intCast hplaces]
    grind
  exact Nat.le_antisymm (roundedCoefficient_le hplaces Rat.le_refl) (Int.toNat_le_toNat hle)

end Fixed

namespace Double

/-- Whether a number is one between zero and one. -/
def IsShare (x : Double) : Prop :=
  ∃ q, x = .finite q ∧ 0 ≤ q ∧ q ≤ 1

theorem isShare_zero : IsShare (.finite 0) :=
  ⟨0, rfl, by decide, by decide⟩

theorem isShare_one : IsShare (.finite 1) :=
  ⟨1, rfl, by decide, by decide⟩

theorem isShare_ofMagnitude {q : Rat} (h : q ≤ 1) : IsShare (.ofMagnitude false q) :=
  exists_ofMagnitude_le_one h

theorem isShare_clamp (x : Double) : x.clamp.IsShare := by
  unfold clamp
  split
  · rename_i hone
    split
    · rename_i hzero
      cases x with
      | finite q =>
        rw [one, lt_finite, decide_eq_true_eq] at hone
        rw [zero, lt_finite, decide_eq_true_eq] at hzero
        exact ⟨q, rfl, Rat.le_of_lt hzero, Rat.le_of_lt hone⟩
      | negZero => contradiction
      | infinite negative => cases negative <;> contradiction
      | nan => contradiction
    · exact isShare_zero
  · exact isShare_one

/-- The difference from one. -/
theorem IsShare.one_sub {x : Double} (h : x.IsShare) : ((finite 1).sub x).IsShare := by
  obtain ⟨q, rfl, hnonneg, hle⟩ := h
  have hnearest (r : Rat) (hr : r = 1 - q) : IsShare (nearest r) := by
    have hneg : decide (r < 0) = false := decide_eq_false (by grind)
    have habs : r.abs = r := by grind [Rat.abs_of_nonneg]
    rw [nearest, hneg, habs]
    exact isShare_ofMagnitude (by grind)
  by_cases hq : q = 0
  · subst hq
    exact hnearest (1 + 0) (by grind)
  · have : (finite 1).sub (finite q) = nearest (1 + -q) := by
      rw [sub, neg, if_neg hq]
      rfl
    rw [this]
    exact hnearest _ (by grind)

theorem ofQuotient_eq {m n : Int} (hm : 0 ≤ m) (hn : 0 < n) :
    ofQuotient m n = ofMagnitude false ((m : Rat) / n) := by
  have hsign : (decide (m < 0) != decide (n < 0)) = false := by
    rw [decide_eq_false (by omega), decide_eq_false (by omega)]
    rfl
  have hquotient : (0 : Rat) ≤ (m : Rat) / n :=
    quotient_nonneg (Rat.intCast_pos.mpr hn) (Rat.intCast_nonneg.mpr hm)
  rw [ofQuotient, hsign, Rat.abs_of_nonneg hquotient]

/-- Quotients are compared without dividing. -/
theorem quotient_le_quotient {k l m n : Int} (hl : 0 < l) (hn : 0 < n) (h : k * n ≤ m * l) :
    (k : Rat) / l ≤ (m : Rat) / n := by
  have hl := Rat.intCast_pos.mpr hl
  have hn := Rat.intCast_pos.mpr hn
  refine Rat.not_lt.mp fun hlt => ?_
  rw [Rat.lt_div_iff hl] at hlt
  have hproduct := Rat.mul_lt_mul_of_pos_right hlt hn
  have hcancel : (m : Rat) / n * l * n = m * l := by
    rw [Rat.mul_assoc, Rat.mul_comm (l : Rat), ← Rat.mul_assoc,
      Rat.div_mul_cancel (Rat.ne_of_gt hn)]
  rw [hcancel, ← Rat.intCast_mul, ← Rat.intCast_mul, Rat.intCast_lt_intCast] at hproduct
  omega

theorem quotient_le_one {m n : Int} (hn : 0 < n) (h : m ≤ n) : (m : Rat) / n ≤ 1 := by
  refine Rat.not_lt.mp fun hlt => ?_
  rw [Rat.lt_div_iff (Rat.intCast_pos.mpr hn), Rat.one_mul, Rat.intCast_lt_intCast] at hlt
  omega

theorem isShare_ofQuotient {m n : Int} (hm : 0 ≤ m) (hle : m ≤ n) : (ofQuotient m n).IsShare := by
  by_cases hn : n = 0
  · obtain rfl : m = 0 := by omega
    subst hn
    have hzero : (((0 : Int) : Rat) / ((0 : Int) : Rat)).abs ≤ 1 := by decide +kernel
    exact isShare_ofMagnitude hzero
  · have hpos : 0 < n := by omega
    rw [ofQuotient_eq hm hpos]
    exact isShare_ofMagnitude (quotient_le_one hpos hle)

/-- A proper fraction with a denominator below `2 ^ 53` is not rounded up to one. -/
theorem rounded_quotient_le {m n : Int} (hm : 0 ≤ m) (hlt : m < n) (hn : n < 2 ^ 53) :
    rounded ((m : Rat) / n) ≤ 1 - 2 ^ (-54 : Int) := by
  have hpos : (0 : Rat) < n := Rat.intCast_pos.mpr (by omega)
  have hnumerator : (m : Rat) ≤ (n : Rat) - 1 := by
    rw [← Rat.intCast_one, ← Rat.intCast_sub]
    exact Rat.intCast_le_intCast.mpr (by omega)
  have hunit : (n : Rat) * 2 ^ (-53 : Int) ≤ 1 := by
    have hle : (n : Rat) ≤ ((2 ^ 53 : Int) : Rat) := Rat.intCast_le_intCast.mpr (by omega)
    have hmul := Rat.mul_le_mul_of_nonneg_right hle (Rat.le_of_lt (two_zpow_pos (-53)))
    have hone : ((2 ^ 53 : Int) : Rat) * 2 ^ (-53 : Int) = 1 := by decide +kernel
    grind
  have hexact : (m : Rat) / n ≤ 1 - 2 ^ (-53 : Int) := by
    refine Rat.not_lt.mp fun hlt => ?_
    rw [Rat.lt_div_iff hpos] at hlt
    grind
  have hhalf : (2 : Rat) ^ (-53 : Int) = 2 ^ (-54 : Int) + 2 ^ (-54 : Int) := by decide +kernel
  have hnear := (rounded_near (quotient_nonneg hpos (Rat.intCast_nonneg.mpr hm))
    (quotient_le_one (by omega) (by omega))).1
  grind

/-- A share with decimal places is a share again. -/
theorem isShare_toDouble {k : Nat} {places : Int} (hplaces : 0 ≤ places)
    (h : k ≤ 10 ^ places.toNat) : (Fixed.toDouble ⟨false, k, places⟩).IsShare := by
  rw [Fixed.toDouble, Numeral.toDouble_eq]
  exact isShare_ofMagnitude (Fixed.natCast_mul_ten_zpow_le_one hplaces h)

end Double

namespace Value

variable {precision : Value} {n : Int}

/-- A share can be written with up to 27 places. -/
theorem roundHalfUp_of_le_one {q : Rat} (hq : 0 ≤ q) (hone : q ≤ 1)
    (h : precision.number? = some (.int n)) (hnonneg : 0 ≤ n) (hle : n ≤ 27) :
    (double (.finite q)).roundHalfUp precision =
      .ok (.fixed ⟨false, Fixed.roundedCoefficient q n, n⟩) := by
  have hk := Fixed.roundedCoefficient_le hnonneg hone
  have hbound : 10 ^ n.toNat < Fixed.coefficientBound :=
    Nat.pow_lt_pow_right (by decide) (by unfold Fixed.maxDigits; omega)
  have hplaces : precision.places = .ok n :=
    places_of_le h hnonneg (by unfold maxPlaces; omega)
  rw [roundHalfUp_finite hq hplaces, if_pos (Nat.lt_of_le_of_lt hk hbound)]

/-- What is written of a share is a share. -/
theorem roundHalfUp_share {x : Double} (hx : x.IsShare) (h : precision.number? = some (.int n))
    (hnonneg : 0 ≤ n) (hle : n ≤ 27) :
    ∃ f, (double x).roundHalfUp precision = .ok (.fixed f) ∧ f.toDouble.IsShare := by
  obtain ⟨q, rfl, hq, hone⟩ := hx
  exact ⟨_, roundHalfUp_of_le_one hq hone h hnonneg hle,
    Double.isShare_toDouble hnonneg (Fixed.roundedCoefficient_le hnonneg hone)⟩

/-- With more places there is no digit left for the number one. -/
theorem roundHalfUp_one (h : precision.number? = some (.int n)) (hlt : 27 < n) :
    (double (.finite 1)).roundHalfUp precision = .error .tooPrecise := by
  by_cases hlarge : 2000054 < n
  · have hplaces : precision.places = .error .tooPrecise := by
      rw [places_of_number? h (by omega), if_pos hlarge]
    rw [roundHalfUp, hplaces]
    rfl
  · have hplaces : precision.places = .ok (Min.min n maxPlaces) := by
      rw [places_of_number? h (by omega), if_neg hlarge]
    have hmin : 28 ≤ Min.min n maxPlaces := by
      unfold maxPlaces
      omega
    have hbound : Fixed.coefficientBound ≤ 10 ^ (Min.min n maxPlaces).toNat :=
      Nat.pow_le_pow_right (by decide) (by unfold Fixed.maxDigits; omega)
    rw [roundHalfUp_finite (by decide) hplaces, Fixed.roundedCoefficient_one (by omega),
      if_neg (Nat.not_lt.mpr hbound)]

end Value

end CodeHealth
