import CodeHealth.Proofs.Number.Rounding

/-!
# Rounding keeps the order

Of two numbers the larger one is not rounded to less than the smaller one. On one grid that is so
because the nearest integer keeps the order. Where the grids differ, a power of two lies between the
numbers that is a point of both, and neither number is rounded across it.

Sums, differences, products and quotients are rounded once. Where the exact result is not negative
and not too large, the value of the result is the rounded one, whatever the signs of zeros.
-/

namespace CodeHealth.Double

/-! ### Order -/

section Order

variable {p q : Rat} {n : Int}

theorem roundHalfEven_le_floor_add_one (q : Rat) : roundHalfEven q ≤ q.floor + 1 := by
  obtain ⟨h, -⟩ | ⟨h, -⟩ := roundHalfEven_cases q
  · omega
  · omega

theorem floor_le_roundHalfEven (q : Rat) : q.floor ≤ roundHalfEven q :=
  le_roundHalfEven (Rat.floor_le q)

theorem roundHalfEven_mono (h : p ≤ q) : roundHalfEven p ≤ roundHalfEven q := by
  have hfloor : p.floor ≤ q.floor := Rat.le_floor_iff.mpr (Rat.le_trans (Rat.floor_le p) h)
  by_cases heq : p.floor = q.floor
  · unfold roundHalfEven
    rw [heq]
    grind
  · calc roundHalfEven p ≤ p.floor + 1 := roundHalfEven_le_floor_add_one p
      _ ≤ q.floor := by omega
      _ ≤ roundHalfEven q := floor_le_roundHalfEven q

theorem floorLog2_mono (hp : 0 < p) (h : p ≤ q) : floorLog2 p ≤ floorLog2 q :=
  le_floorLog2 (by grind) (Rat.le_trans (floorLog2_spec hp).1 h)

theorem roundOnGrid_mono (hp : 0 < p) (h : p ≤ q) : roundOnGrid p ≤ roundOnGrid q := by
  have hq : 0 < q := by grind
  have hlog := floorLog2_mono hp h
  by_cases hgrid : gridExponent p = gridExponent q
  · have hstep := two_zpow_pos (gridExponent q)
    have hscaled := quotient_mono hstep h
    unfold roundOnGrid
    rw [hgrid]
    exact Rat.mul_le_mul_of_nonneg_right
      (Rat.intCast_le_intCast.mpr (roundHalfEven_mono hscaled)) (Rat.le_of_lt hstep)
  · -- The larger number is on a coarser grid, so the smaller one lies below its power of two.
    have hbelow : gridExponent p ≤ floorLog2 q ∧ gridExponent q ≤ floorLog2 q ∧
        floorLog2 p + 1 ≤ floorLog2 q := by
      unfold gridExponent at hgrid ⊢
      omega
    have hp' : p ≤ 2 ^ floorLog2 q :=
      Rat.le_trans (Rat.le_of_lt (floorLog2_spec hp).2) (two_zpow_le hbelow.2.2)
    exact Rat.le_trans (roundOnGrid_le hp' hbelow.1)
      (le_roundOnGrid (floorLog2_spec hq).1 hbelow.2.1)

/-- Rounding keeps the order. -/
theorem rounded_mono (h : p ≤ q) : rounded p ≤ rounded q := by
  by_cases hp : 0 < p
  · rw [rounded, rounded, if_pos hp, if_pos (by grind)]
    exact roundOnGrid_mono hp h
  · rw [rounded, if_neg hp]
    exact rounded_nonneg q

theorem rounded_two_zpow (hn : -1074 ≤ n) : rounded (2 ^ n) = 2 ^ n := by
  have hpos := two_zpow_pos n
  refine Rat.le_antisymm (rounded_le hn Rat.le_refl) ?_
  rw [rounded, if_pos hpos]
  exact le_roundOnGrid Rat.le_refl (gridExponent_le hpos Rat.le_refl hn)

theorem rounded_one : rounded 1 = 1 :=
  rounded_two_zpow (n := 0) (by decide)

end Order

/-! ### Values -/

section Values

variable {x y : Double} {p q : Rat}

/-- A number with a value is finite or a negative zero. -/
theorem cases_of_toRat? (h : x.toRat? = some q) : x = .finite q ∨ x = .negZero ∧ q = 0 := by
  cases x with
  | finite r => exact .inl (congrArg Double.finite (Option.some.inj h))
  | negZero => exact .inr ⟨rfl, (Option.some.inj h).symm⟩
  | infinite negative => contradiction
  | nan => contradiction

theorem lt_of_toRat? (hx : x.toRat? = some p) (hy : y.toRat? = some q) :
    x.lt y = decide (p < q) := by
  obtain rfl | ⟨rfl, rfl⟩ := cases_of_toRat? hx
  · obtain rfl | ⟨rfl, rfl⟩ := cases_of_toRat? hy
    · rfl
    · rfl
  · obtain rfl | ⟨rfl, rfl⟩ := cases_of_toRat? hy
    · rfl
    · rfl

theorem eq_of_toRat? (hx : x.toRat? = some p) (hy : y.toRat? = some q) :
    x.eq y = decide (p = q) := by
  obtain rfl | ⟨rfl, rfl⟩ := cases_of_toRat? hx
  · obtain rfl | ⟨rfl, rfl⟩ := cases_of_toRat? hy
    · rfl
    · rfl
  · obtain rfl | ⟨rfl, rfl⟩ := cases_of_toRat? hy
    · rfl
    · rfl

theorem le_iff_of_toRat? (hx : x.toRat? = some p) (hy : y.toRat? = some q) :
    x.le y = true ↔ p ≤ q := by
  rw [le, lt_of_toRat? hx hy, eq_of_toRat? hx hy, Bool.or_eq_true, decide_eq_true_eq,
    decide_eq_true_eq, Rat.le_iff_lt_or_eq]

theorem isZero_eq_false (hx : x.toRat? = some q) (hq : 0 < q) : x.isZero = false := by
  rw [isZero, hx, decide_eq_false_iff_not, Option.some.injEq]
  exact Rat.ne_of_gt hq

/-- Whether a number is zero or more, possibly infinite. -/
def Nonneg (x : Double) : Prop :=
  (finite 0).le x = true

theorem nonneg_of_toRat? (hx : x.toRat? = some p) (hp : 0 ≤ p) : x.Nonneg :=
  (le_iff_of_toRat? rfl hx).mpr hp

theorem Nonneg.cases (h : x.Nonneg) : (∃ p, x.toRat? = some p ∧ 0 ≤ p) ∨ x = .infinite false := by
  cases x with
  | finite p => exact .inl ⟨p, rfl, (le_iff_of_toRat? rfl rfl).mp h⟩
  | negZero => exact .inl ⟨0, rfl, Rat.le_refl⟩
  | infinite negative =>
    cases negative with
    | true => contradiction
    | false => exact .inr rfl
  | nan => contradiction

theorem Nonneg.le_infinite (h : x.Nonneg) : x.le (.infinite false) = true := by
  obtain ⟨p, hp, -⟩ | rfl := h.cases
  · obtain rfl | ⟨rfl, -⟩ := cases_of_toRat? hp
    · rfl
    · rfl
  · rfl

/-- What lies below a number with a value has one itself. -/
theorem Nonneg.exists_of_le (h : x.Nonneg) (hle : x.le y = true) (hy : y.toRat? = some q) :
    ∃ p, x.toRat? = some p ∧ 0 ≤ p ∧ p ≤ q := by
  obtain ⟨p, hp, hnonneg⟩ | rfl := h.cases
  · exact ⟨p, hp, hnonneg, (le_iff_of_toRat? hp hy).mp hle⟩
  · obtain rfl | ⟨rfl, -⟩ := cases_of_toRat? hy
    · contradiction
    · contradiction

/-- What lies above a number that is not negative is not negative. -/
theorem Nonneg.of_le (h : x.Nonneg) (hle : x.le y = true) : y.Nonneg := by
  have hnegative : x.le (.infinite true) = false := by
    obtain ⟨p, hp, -⟩ | rfl := h.cases
    · obtain rfl | ⟨rfl, -⟩ := cases_of_toRat? hp
      · rfl
      · rfl
    · rfl
  have hnan : x.le .nan = false := by
    cases x <;> rfl
  cases y with
  | finite q =>
    obtain ⟨p, -, hp, hpq⟩ := h.exists_of_le hle rfl
    exact nonneg_of_toRat? rfl (Rat.le_trans hp hpq)
  | negZero => rfl
  | infinite negative =>
    cases negative with
    | true =>
      rw [hnegative] at hle
      contradiction
    | false => rfl
  | nan =>
    rw [hnan] at hle
    contradiction

end Values

/-! ### Results that are rounded once -/

/-- Whether a number is the one nearest to a magnitude, the sign of a zero apart. -/
structure Rounds (x : Double) (q : Rat) : Prop where
  nonneg : x.Nonneg
  toRat?_eq : x.toRat? = if rounded q < 2 ^ (1024 : Int) then some (rounded q) else none

section Rounds

variable {x y : Double} {p q : Rat}

theorem Rounds.toRat?_of_lt (h : x.Rounds q) (hlt : rounded q < 2 ^ (1024 : Int)) :
    x.toRat? = some (rounded q) := by
  rw [h.toRat?_eq, if_pos hlt]

theorem Rounds.eq_infinite (h : x.Rounds q) (hle : ¬rounded q < 2 ^ (1024 : Int)) :
    x = .infinite false := by
  obtain ⟨r, hr, -⟩ | rfl := h.nonneg.cases
  · rw [h.toRat?_eq, if_neg hle] at hr
    contradiction
  · rfl

/-- Of two exact results the larger one leads to the larger number. -/
theorem Rounds.le (hx : x.Rounds p) (hy : y.Rounds q) (h : p ≤ q) : x.le y = true := by
  have hmono := rounded_mono h
  by_cases hlt : rounded q < 2 ^ (1024 : Int)
  · exact (le_iff_of_toRat? (hx.toRat?_of_lt (by grind)) (hy.toRat?_of_lt hlt)).mpr hmono
  · rw [hy.eq_infinite hlt]
    exact hx.nonneg.le_infinite

/-- What is not smaller than a power of two of the format is not rounded to zero. -/
theorem Rounds.ne_zero {n : Int} (h : x.Rounds q) (hn : -1074 ≤ n) (hle : 2 ^ n ≤ q) :
    x ≠ .finite 0 := by
  intro hzero
  have hmono := rounded_mono hle
  have hvalue := h.toRat?_eq
  rw [rounded_two_zpow hn] at hmono
  rw [hzero, toRat?] at hvalue
  split at hvalue
  · rw [← Option.some.inj hvalue] at hmono
    exact absurd (two_zpow_pos n) (Rat.not_lt.mpr hmono)
  · contradiction

theorem rounds_magnitude (q : Rat) : (ofMagnitude false q).Rounds q := by
  have hnonneg := rounded_nonneg q
  by_cases hlt : rounded q < 2 ^ (1024 : Int)
  · have hvalue : (ofMagnitude false q).toRat? = some (rounded q) := by
      rw [ofMagnitude_of_lt hlt]
      split
      · rw [‹rounded q = 0›]
        rfl
      · rfl
    exact ⟨nonneg_of_toRat? hvalue hnonneg, by rw [hvalue, if_pos hlt]⟩
  · rw [ofMagnitude_of_le (Rat.not_lt.mp hlt)]
    exact ⟨rfl, by rw [if_neg hlt]; rfl⟩

/-- Only a zero may have a negative sign. -/
theorem rounds_ofMagnitude {negative : Bool} (h : negative = true → q = 0) :
    (ofMagnitude negative q).Rounds q := by
  cases negative with
  | false => exact rounds_magnitude q
  | true =>
    rw [h rfl, ofMagnitude_zero]
    exact ⟨rfl, by rw [rounded_zero, if_pos (two_zpow_pos 1024)]; rfl⟩

theorem rounds_finite (hq : rounded q = q) (hlt : q < 2 ^ (1024 : Int)) : (finite q).Rounds q where
  nonneg := nonneg_of_toRat? rfl (hq ▸ rounded_nonneg q)
  toRat?_eq := by rw [hq, if_pos hlt, toRat?]

theorem rounds_nearest (hq : 0 ≤ q) : (nearest q).Rounds q := by
  rw [nearest, decide_eq_false (Rat.not_lt.mpr hq), Rat.abs_of_nonneg hq]
  exact rounds_magnitude q

theorem rounds_add (hx : x.toRat? = some p) (hy : y.toRat? = some q) (hsum : 0 ≤ p + q) :
    (x.add y).Rounds (p + q) := by
  obtain rfl | ⟨rfl, rfl⟩ := cases_of_toRat? hx
  · obtain rfl | ⟨rfl, rfl⟩ := cases_of_toRat? hy
    · exact rounds_nearest hsum
    · exact rounds_nearest hsum
  · obtain rfl | ⟨rfl, rfl⟩ := cases_of_toRat? hy
    · exact rounds_nearest hsum
    · exact ⟨rfl, by rw [Rat.add_zero, rounded_zero, if_pos (two_zpow_pos 1024)]; rfl⟩

theorem toRat?_neg (h : x.toRat? = some q) : x.neg.toRat? = some (-q) := by
  obtain rfl | ⟨rfl, rfl⟩ := cases_of_toRat? h
  · rw [neg]
    split
    · rename_i hzero
      rw [hzero]
      rfl
    · rfl
  · rfl

theorem rounds_sub (hx : x.toRat? = some p) (hy : y.toRat? = some q) (hle : q ≤ p) :
    (x.sub y).Rounds (p - q) := by
  rw [Rat.sub_eq_add_neg]
  exact rounds_add hx (toRat?_neg hy) (by grind)

/-- A number whose value is not negative has a negative sign only as a zero. -/
theorem eq_zero_of_isNegative (hx : x.toRat? = some p) (hp : 0 ≤ p) (h : x.isNegative = true) :
    p = 0 := by
  obtain rfl | ⟨rfl, rfl⟩ := cases_of_toRat? hx
  · exact absurd (of_decide_eq_true h) (Rat.not_lt.mpr hp)
  · rfl

theorem eq_zero_or_eq_zero_of_sign (hx : x.toRat? = some p) (hy : y.toRat? = some q) (hp : 0 ≤ p)
    (hq : 0 ≤ q) (h : (x.isNegative != y.isNegative) = true) : p = 0 ∨ q = 0 := by
  cases hsign : x.isNegative with
  | true => exact .inl (eq_zero_of_isNegative hx hp hsign)
  | false =>
    rw [hsign, Bool.false_bne] at h
    exact .inr (eq_zero_of_isNegative hy hq h)

theorem rounds_mul (hx : x.toRat? = some p) (hy : y.toRat? = some q) (hp : 0 ≤ p) (hq : 0 ≤ q) :
    (x.mul y).Rounds (p * q) := by
  have hproduct : x.mul y = ofMagnitude (x.isNegative != y.isNegative) (p * q).abs := by
    obtain rfl | ⟨rfl, rfl⟩ := cases_of_toRat? hx
    · obtain rfl | ⟨rfl, rfl⟩ := cases_of_toRat? hy
      · rfl
      · rfl
    · obtain rfl | ⟨rfl, rfl⟩ := cases_of_toRat? hy
      · rfl
      · rfl
  rw [hproduct, Rat.abs_of_nonneg (Rat.mul_nonneg hp hq)]
  refine rounds_ofMagnitude fun hsign => ?_
  obtain rfl | rfl := eq_zero_or_eq_zero_of_sign hx hy hp hq hsign
  · exact Rat.zero_mul q
  · exact Rat.mul_zero p

theorem rounds_div (hx : x.toRat? = some p) (hy : y.toRat? = some q) (hp : 0 ≤ p) (hq : 0 < q) :
    (x.div y).Rounds (p / q) := by
  have hquotient : x.div y = ofMagnitude (x.isNegative != y.isNegative) (p / q).abs := by
    obtain rfl | ⟨rfl, rfl⟩ := cases_of_toRat? hx
    · obtain rfl | ⟨rfl, rfl⟩ := cases_of_toRat? hy
      · rfl
      · rfl
    · obtain rfl | ⟨rfl, rfl⟩ := cases_of_toRat? hy
      · rfl
      · rfl
  rw [hquotient, Rat.abs_of_nonneg (quotient_nonneg hq hp)]
  refine rounds_ofMagnitude fun hsign => ?_
  obtain rfl | rfl := eq_zero_or_eq_zero_of_sign hx hy hp (Rat.le_of_lt hq) hsign
  · rw [Rat.div_def, Rat.zero_mul]
  · exact absurd hq (Rat.not_lt.mpr Rat.le_refl)

/-- A sum is rounded once, unless it is infinite because one of its parts is. -/
theorem Nonneg.add_cases (hx : x.Nonneg) (hy : y.Nonneg) :
    (∃ p q, x.toRat? = some p ∧ y.toRat? = some q ∧ (x.add y).Rounds (p + q)) ∨
      x.add y = .infinite false := by
  obtain ⟨p, hp, hp0⟩ | rfl := hx.cases
  · obtain ⟨q, hq, hq0⟩ | rfl := hy.cases
    · exact .inl ⟨p, q, hp, hq, rounds_add hp hq (by grind)⟩
    · obtain rfl | ⟨rfl, -⟩ := cases_of_toRat? hp
      · exact .inr rfl
      · exact .inr rfl
  · obtain ⟨q, hq, -⟩ | rfl := hy.cases
    · obtain rfl | ⟨rfl, -⟩ := cases_of_toRat? hq
      · exact .inr rfl
      · exact .inr rfl
    · exact .inr rfl

theorem Nonneg.add (hx : x.Nonneg) (hy : y.Nonneg) : (x.add y).Nonneg := by
  obtain ⟨p, q, -, -, hrounds⟩ | hinfinite := hx.add_cases hy
  · exact hrounds.nonneg
  · rw [hinfinite]
    rfl

/-- A sum grows with both of its parts, also where it becomes infinite. -/
theorem add_le_add {x' y' : Double} (hx : x.Nonneg) (hy : y.Nonneg) (hx' : x'.Nonneg)
    (hy' : y'.Nonneg) (hxle : x.le x' = true) (hyle : y.le y' = true) :
    (x.add y).le (x'.add y') = true := by
  obtain ⟨p', q', hp', hq', hrounds'⟩ | hinfinite := hx'.add_cases hy'
  · obtain ⟨p, hp, hp0, hple⟩ := hx.exists_of_le hxle hp'
    obtain ⟨q, hq, hq0, hqle⟩ := hy.exists_of_le hyle hq'
    exact (rounds_add hp hq (by grind)).le hrounds' (by grind)
  · rw [hinfinite]
    exact (hx.add hy).le_infinite

end Rounds

end CodeHealth.Double
