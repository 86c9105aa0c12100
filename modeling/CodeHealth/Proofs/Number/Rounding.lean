import CodeHealth.Number.Double

/-!
# Rounding on the binary grid

Rounding to an integer never crosses an integer: what lies below one stays below it, and what lies
above it stays above. On a grid of powers of two the same holds of every point of the grid. So a
magnitude that is bounded by a power of two is rounded to one with the same bound, and the numbers
between zero and one stay there.
-/

namespace CodeHealth

namespace Powers

variable {b : Rat} {m n : Int}

theorem zpow_eq_mul (hb : b ≠ 0) (h : m ≤ n) : b ^ n = b ^ (n - m).toNat * b ^ m := by
  rw [← Rat.zpow_natCast, ← Rat.zpow_add hb]
  congr 1
  omega

theorem one_le_pow (hb : 1 ≤ b) (k : Nat) : 1 ≤ b ^ k := by
  induction k with
  | zero => simp
  | succ k ih =>
    have hk : 0 ≤ b ^ k := Rat.le_trans (by decide) ih
    have := Rat.mul_le_mul_of_nonneg_left hb hk
    rw [Rat.pow_succ]
    grind

theorem zpow_le_zpow (hb : 1 ≤ b) (h : m ≤ n) : b ^ m ≤ b ^ n := by
  have hpos : 0 < b := by grind
  have hm : 0 ≤ b ^ m := Rat.le_of_lt (Rat.zpow_pos hpos)
  have := Rat.mul_le_mul_of_nonneg_right (one_le_pow hb (n - m).toNat) hm
  rw [zpow_eq_mul (Rat.ne_of_gt hpos) h]
  grind

/-- A smaller power has a smaller exponent. -/
theorem lt_of_zpow_lt (hb : 1 ≤ b) (h : b ^ m < b ^ n) : m < n := by
  refine Int.not_le.mp fun hle => ?_
  have := zpow_le_zpow hb hle
  grind

end Powers

namespace Double

/-! ### Quotients -/

section Quotients

variable {p p' q : Rat}

theorem quotient_mono (hq : 0 < q) (h : p ≤ p') : p / q ≤ p' / q := by
  rw [Rat.div_def, Rat.div_def]
  exact Rat.mul_le_mul_of_nonneg_right h (Rat.le_of_lt (Rat.inv_pos.mpr hq))

theorem quotient_nonneg (hq : 0 < q) (h : 0 ≤ p) : 0 ≤ p / q := by
  rw [Rat.div_def]
  exact Rat.mul_nonneg h (Rat.le_of_lt (Rat.inv_pos.mpr hq))

end Quotients

/-! ### The nearest integer -/

section Nearest

variable {q : Rat} {n : Int}

theorem roundHalfEven_cases (q : Rat) :
    roundHalfEven q = q.floor ∧ q - q.floor ≤ 1 / 2 ∨
      roundHalfEven q = q.floor + 1 ∧ 1 / 2 ≤ q - q.floor := by
  unfold roundHalfEven
  grind

theorem roundHalfEven_le (h : q ≤ n) : roundHalfEven q ≤ n := by
  obtain ⟨hround, -⟩ | ⟨hround, hexcess⟩ := roundHalfEven_cases q
  · rw [hround]
    exact Rat.intCast_le_intCast.mp (Rat.le_trans (Rat.floor_le q) h)
  · have hfloor : (q.floor : Rat) < n := by grind
    have := Rat.intCast_lt_intCast.mp hfloor
    omega

theorem le_roundHalfEven (h : (n : Rat) ≤ q) : n ≤ roundHalfEven q := by
  have hfloor : n ≤ q.floor := Rat.le_floor_iff.mpr h
  obtain ⟨hround, -⟩ | ⟨hround, -⟩ := roundHalfEven_cases q
  · omega
  · omega

theorem roundHalfEven_intCast (n : Int) : roundHalfEven n = n :=
  Int.le_antisymm (roundHalfEven_le Rat.le_refl) (le_roundHalfEven Rat.le_refl)

theorem roundHalfEven_of_lt_half (hq : 0 ≤ q) (h : q < 1 / 2) : roundHalfEven q = 0 := by
  have hfloor : q.floor = 0 :=
    Int.le_antisymm (Int.lt_add_one_iff.mp (Rat.floor_lt_iff.mpr (by grind)))
      (Rat.le_floor_iff.mpr hq)
  unfold roundHalfEven
  rw [hfloor]
  exact if_pos (by grind)

end Nearest

/-! ### The order of magnitude -/

section Magnitude

variable {q : Rat} {n : Int}

theorem two_zpow_pos (n : Int) : (0 : Rat) < 2 ^ n :=
  Rat.zpow_pos (by decide)

theorem two_zpow_add (m n : Int) : (2 : Rat) ^ (m + n) = 2 ^ m * 2 ^ n :=
  Rat.zpow_add (by decide) m n

theorem two_zpow_le {m n : Int} (h : m ≤ n) : (2 : Rat) ^ m ≤ 2 ^ n :=
  Powers.zpow_le_zpow (by decide) h

theorem lt_of_two_zpow_lt {m n : Int} (h : (2 : Rat) ^ m < 2 ^ n) : m < n :=
  Powers.lt_of_zpow_lt (by decide) h

/-- A positive integer lies between the two powers of two of its binary length. -/
theorem log2_bounds {k : Nat} (hk : k ≠ 0) :
    (2 : Rat) ^ (k.log2 : Int) ≤ k ∧ (k : Rat) < 2 ^ ((k.log2 : Int) + 1) := by
  have hcast (i : Nat) : (2 : Rat) ^ (i : Int) = ((2 ^ i : Nat) : Rat) := by
    rw [Rat.zpow_natCast, Rat.natCast_pow]
    rfl
  rw [← Int.natCast_succ, hcast, hcast]
  exact ⟨Rat.natCast_le_natCast.mpr (Nat.log2_self_le hk),
    Rat.natCast_lt_natCast.mpr Nat.lt_log2_self⟩

theorem mul_den (q : Rat) : q * q.den = q.num := by
  have hden : (q.den : Rat) ≠ 0 := by
    rw [Ne, Rat.natCast_eq_zero_iff]
    exact q.den_nz
  have h : q = q.num / q.den := by
    rw [← Rat.intCast_natCast, ← Rat.divInt_eq_div]
    exact (Rat.num_divInt_den q).symm
  calc q * q.den = q.num / q.den * q.den := by rw [← h]
    _ = q.num := Rat.div_mul_cancel hden

theorem floorLog2_spec (hq : 0 < q) :
    (2 : Rat) ^ floorLog2 q ≤ q ∧ q < 2 ^ (floorLog2 q + 1) := by
  have hnum : 0 < q.num := Rat.intCast_pos.mp hq
  obtain ⟨hnumLow, hnumHigh⟩ := log2_bounds (k := q.num.natAbs) (by omega)
  obtain ⟨hdenLow, hdenHigh⟩ := log2_bounds q.den_nz
  have hvalue : ((q.num.natAbs : Nat) : Rat) = q * q.den := by
    rw [mul_den, ← Rat.intCast_natCast, Int.natAbs_of_nonneg (Int.le_of_lt hnum)]
  rw [hvalue] at hnumLow hnumHigh
  have hden : (0 : Rat) < q.den := Rat.natCast_pos.mpr q.den_pos
  generalize ha : (q.num.natAbs.log2 : Int) = a at hnumLow hnumHigh
  generalize hb : (q.den.log2 : Int) = b at hdenLow hdenHigh
  have hlow : (2 : Rat) ^ (a - b - 1) < q := by
    have hsplit : (2 : Rat) ^ (a - b - 1) * 2 ^ (b + 1) = 2 ^ a := by
      rw [← two_zpow_add]
      congr 1
      omega
    have hscaled := (Rat.mul_lt_mul_left (two_zpow_pos (a - b - 1))).mpr hdenHigh
    exact Rat.lt_of_mul_lt_mul_right (c := q.den) (by grind) (Rat.le_of_lt hden)
  have hhigh : q < (2 : Rat) ^ (a - b + 1) := by
    have hsplit : (2 : Rat) ^ (a - b + 1) * 2 ^ b = 2 ^ (a + 1) := by
      rw [← two_zpow_add]
      congr 1
      omega
    have hscaled :=
      Rat.mul_le_mul_of_nonneg_left hdenLow (Rat.le_of_lt (two_zpow_pos (a - b + 1)))
    exact Rat.lt_of_mul_lt_mul_right (c := q.den) (by grind) (Rat.le_of_lt hden)
  have hfloor : floorLog2 q = if (2 : Rat) ^ (a - b) ≤ q then a - b else a - b - 1 := by
    rw [floorLog2, ha, hb]
  rw [hfloor]
  split
  · exact ⟨‹_›, hhigh⟩
  · refine ⟨Rat.le_of_lt hlow, ?_⟩
    rw [Int.sub_add_cancel]
    exact Rat.not_le.mp ‹_›

theorem le_floorLog2 (hq : 0 < q) (h : (2 : Rat) ^ n ≤ q) : n ≤ floorLog2 q := by
  have hhigh := (floorLog2_spec hq).2
  exact Int.lt_add_one_iff.mp (lt_of_two_zpow_lt (by grind))

theorem floorLog2_lt (hq : 0 < q) (h : q < (2 : Rat) ^ n) : floorLog2 q < n := by
  have hlow := (floorLog2_spec hq).1
  exact lt_of_two_zpow_lt (by grind)

theorem floorLog2_le (hq : 0 < q) (h : q ≤ (2 : Rat) ^ n) : floorLog2 q ≤ n := by
  have hstep : (2 : Rat) ^ (n + 1) = 2 ^ n * 2 := two_zpow_add n 1
  have hpos := two_zpow_pos n
  exact Int.lt_add_one_iff.mp (floorLog2_lt hq (by grind))

end Magnitude

/-! ### Points of the grid -/

section Grid

variable {q : Rat} {n : Int}

/-- A power of two is an integer on every finer grid. -/
theorem exists_zpow_div {g : Int} (h : g ≤ n) : ∃ k : Int, (2 : Rat) ^ n / 2 ^ g = k := by
  refine ⟨((2 ^ (n - g).toNat : Nat) : Int), ?_⟩
  rw [Powers.zpow_eq_mul (by decide) h, Rat.mul_div_cancel (Rat.ne_of_gt (two_zpow_pos g)),
    Rat.intCast_natCast, Rat.natCast_pow]
  rfl

/-- Rounding does not cross a power of two that is a point of the grid. -/
theorem roundOnGrid_le (h : q ≤ (2 : Rat) ^ n) (hgrid : gridExponent q ≤ n) :
    roundOnGrid q ≤ 2 ^ n := by
  have hstep := two_zpow_pos (gridExponent q)
  obtain ⟨k, hk⟩ := exists_zpow_div hgrid
  have hscaled : q / 2 ^ gridExponent q ≤ k := hk ▸ quotient_mono hstep h
  have hround : (roundHalfEven (q / 2 ^ gridExponent q) : Rat) ≤ k :=
    Rat.intCast_le_intCast.mpr (roundHalfEven_le hscaled)
  calc roundOnGrid q
      ≤ k * 2 ^ gridExponent q := Rat.mul_le_mul_of_nonneg_right hround (Rat.le_of_lt hstep)
    _ = 2 ^ n := by rw [← hk, Rat.div_mul_cancel (Rat.ne_of_gt hstep)]

theorem le_roundOnGrid (h : (2 : Rat) ^ n ≤ q) (hgrid : gridExponent q ≤ n) :
    2 ^ n ≤ roundOnGrid q := by
  have hstep := two_zpow_pos (gridExponent q)
  obtain ⟨k, hk⟩ := exists_zpow_div hgrid
  have hscaled : k ≤ q / 2 ^ gridExponent q := hk ▸ quotient_mono hstep h
  have hround : (k : Rat) ≤ roundHalfEven (q / 2 ^ gridExponent q) :=
    Rat.intCast_le_intCast.mpr (le_roundHalfEven hscaled)
  calc (2 : Rat) ^ n
      = k * 2 ^ gridExponent q := by rw [← hk, Rat.div_mul_cancel (Rat.ne_of_gt hstep)]
    _ ≤ roundOnGrid q := Rat.mul_le_mul_of_nonneg_right hround (Rat.le_of_lt hstep)

theorem roundOnGrid_nonneg (hq : 0 ≤ q) : 0 ≤ roundOnGrid q := by
  have hstep := two_zpow_pos (gridExponent q)
  have hscaled : ((0 : Int) : Rat) ≤ q / 2 ^ gridExponent q := quotient_nonneg hstep hq
  exact Rat.mul_nonneg (Rat.intCast_nonneg.mpr (le_roundHalfEven hscaled)) (Rat.le_of_lt hstep)

theorem gridExponent_le (hq : 0 < q) (h : q ≤ (2 : Rat) ^ n) (hn : -1074 ≤ n) :
    gridExponent q ≤ n := by
  have := floorLog2_le hq h
  unfold gridExponent
  omega

end Grid

/-! ### The nearest number -/

/-- The point of the grid that a magnitude is rounded to. -/
def rounded (q : Rat) : Rat :=
  if 0 < q then roundOnGrid q else 0

section OfMagnitude

variable {q : Rat}

theorem two_pow_limit : (2 : Rat) ^ (1024 : Nat) = 2 ^ (1024 : Int) :=
  (Rat.zpow_natCast 2 1024).symm

theorem ofMagnitude_of_lt (h : rounded q < (2 : Rat) ^ (1024 : Int)) (negative : Bool) :
    ofMagnitude negative q = if rounded q = 0 then (if negative then .negZero else .finite 0)
      else .finite (if negative then -rounded q else rounded q) := by
  have hfinite : ¬(2 : Rat) ^ (1024 : Nat) ≤ rounded q := by
    rw [two_pow_limit]
    exact Rat.not_le.mpr h
  exact if_neg hfinite

theorem ofMagnitude_of_le (h : (2 : Rat) ^ (1024 : Int) ≤ rounded q) (negative : Bool) :
    ofMagnitude negative q = .infinite negative := by
  rw [← two_pow_limit] at h
  exact if_pos h

theorem rounded_zero : rounded 0 = 0 := rfl

theorem ofMagnitude_zero (negative : Bool) :
    ofMagnitude negative 0 = if negative then .negZero else .finite 0 := by
  rw [ofMagnitude_of_lt (by rw [rounded_zero]; exact two_zpow_pos _), if_pos rounded_zero]

theorem rounded_nonneg (q : Rat) : 0 ≤ rounded q := by
  unfold rounded
  split
  · exact roundOnGrid_nonneg (Rat.le_of_lt ‹_›)
  · exact Rat.le_refl

theorem rounded_le {n : Int} (hn : -1074 ≤ n) (h : q ≤ (2 : Rat) ^ n) : rounded q ≤ 2 ^ n := by
  unfold rounded
  split
  · exact roundOnGrid_le h (gridExponent_le ‹_› h hn)
  · exact Rat.le_of_lt (two_zpow_pos n)

/-- What is bounded by a power of two below the limit has the same bound when it is rounded. -/
theorem exists_ofMagnitude_le {n : Int} (hn : -1074 ≤ n) (hlimit : n < 1024)
    (h : q ≤ (2 : Rat) ^ n) : ∃ r, ofMagnitude false q = .finite r ∧ 0 ≤ r ∧ r ≤ 2 ^ n := by
  have hle := rounded_le hn h
  have hlt : (2 : Rat) ^ n < 2 ^ (1024 : Int) := by
    have hnext := two_zpow_le (Int.add_one_le_of_lt hlimit)
    have hpos := two_zpow_pos n
    rw [two_zpow_add] at hnext
    grind
  refine ⟨rounded q, ?_, rounded_nonneg q, hle⟩
  rw [ofMagnitude_of_lt (by grind)]
  split
  · rw [‹rounded q = 0›]
    rfl
  · rfl

/-- The numbers between zero and one stay there. -/
theorem exists_ofMagnitude_le_one (h : q ≤ 1) :
    ∃ r, ofMagnitude false q = .finite r ∧ 0 ≤ r ∧ r ≤ 1 :=
  exists_ofMagnitude_le (n := 0) (by decide) (by decide) h

end OfMagnitude

end Double

end CodeHealth
