import CodeHealth.Proofs.Number.Rounding

/-!
# Numbers of the format

What has been rounded is not changed when it is rounded again. So the operations answer with numbers
that reading and writing keeps as they are. Such a number is a whole number of steps of a grid, and
its denominator is a power of two.
-/

namespace CodeHealth.Double

variable {q : Rat}

/-- A whole number of steps of its own grid is not changed by rounding. -/
theorem roundOnGrid_of_div_eq {k : Int} (h : q / 2 ^ gridExponent q = k) : roundOnGrid q = q := by
  change (roundHalfEven (q / 2 ^ gridExponent q) : Rat) * 2 ^ gridExponent q = q
  rw [h, roundHalfEven_intCast, ← h]
  exact Rat.div_mul_cancel (Rat.ne_of_gt (two_zpow_pos _))

theorem exists_roundOnGrid (q : Rat) : ∃ n : Int, roundOnGrid q = n * 2 ^ gridExponent q :=
  ⟨_, rfl⟩

/-- A number on the grid has at most 53 binary digits, unless it is a power of two. -/
theorem roundOnGrid_le_limit (hq : 0 < q) : roundOnGrid q ≤ 2 ^ (gridExponent q + 53) := by
  have hhigh := (floorLog2_spec hq).2
  have hle := two_zpow_le (m := floorLog2 q + 1) (n := gridExponent q + 53) (by
    unfold gridExponent
    omega)
  exact roundOnGrid_le (Rat.le_trans (Rat.le_of_lt hhigh) hle) (by omega)

theorem roundOnGrid_roundOnGrid (hq : 0 < q) (hr : 0 < roundOnGrid q) :
    roundOnGrid (roundOnGrid q) = roundOnGrid q := by
  have hlimit := roundOnGrid_le_limit hq
  obtain ⟨n, hn⟩ := exists_roundOnGrid q
  by_cases hgrid : gridExponent (roundOnGrid q) ≤ gridExponent q
  · obtain ⟨k, hk⟩ := exists_zpow_div hgrid
    refine roundOnGrid_of_div_eq (k := n * k) ?_
    rw [Rat.intCast_mul, ← hk, Rat.div_def, Rat.div_def, ← Rat.mul_assoc, ← hn]
  -- The grid has become coarser, so rounding has led up to the next power of two.
  · have hlog : gridExponent (roundOnGrid q) = floorLog2 (roundOnGrid q) - 52 := by
      unfold gridExponent at hgrid ⊢
      omega
    have hle := floorLog2_le hr hlimit
    have hpower : roundOnGrid q = 2 ^ (gridExponent q + 53) := by
      refine Rat.le_antisymm hlimit ?_
      have := (floorLog2_spec hr).1
      rwa [show floorLog2 (roundOnGrid q) = gridExponent q + 53 by omega] at this
    obtain ⟨k, hk⟩ := exists_zpow_div (g := gridExponent (roundOnGrid q))
      (n := gridExponent q + 53) (by omega)
    exact roundOnGrid_of_div_eq (by rw [← hk, ← hpower])

theorem rounded_rounded (q : Rat) : rounded (rounded q) = rounded q := by
  by_cases hq : 0 < q
  · have hrounded : rounded q = roundOnGrid q := if_pos hq
    rw [hrounded]
    by_cases hr : 0 < roundOnGrid q
    · rw [rounded, if_pos hr, roundOnGrid_roundOnGrid hq hr]
    · rw [rounded, if_neg hr]
      exact Rat.le_antisymm (roundOnGrid_nonneg (Rat.le_of_lt hq)) (Rat.not_lt.mp hr)
  · have hrounded : rounded q = 0 := if_neg hq
    rw [hrounded]
    rfl

/-- Whether a finite number is one of the format: it is its own nearest number, and it is below the
limit. -/
def InFormat : Double → Prop
  | .finite q => rounded q.abs = q.abs ∧ q.abs < 2 ^ (1024 : Int)
  | _ => True

theorem inFormat_finite_zero : InFormat (.finite 0) :=
  ⟨rfl, two_zpow_pos 1024⟩

/-- The nearest number is a number of the format. -/
theorem inFormat_ofMagnitude (negative : Bool) (q : Rat) : (ofMagnitude negative q).InFormat := by
  by_cases hlimit : rounded q < (2 : Rat) ^ (1024 : Int)
  · rw [ofMagnitude_of_lt hlimit]
    split
    · cases negative with
      | true => trivial
      | false => exact inFormat_finite_zero
    · have habs : (if negative then -rounded q else rounded q).abs = rounded q := by
        cases negative with
        | true => exact (Rat.abs_neg).trans (Rat.abs_of_nonneg (rounded_nonneg q))
        | false => exact Rat.abs_of_nonneg (rounded_nonneg q)
      refine ⟨?_, ?_⟩
      · rw [habs, rounded_rounded]
      · rwa [habs]
  · rw [ofMagnitude_of_le (Rat.not_lt.mp hlimit)]
    trivial

/-- A number of the format is the nearest number to its magnitude. -/
theorem ofMagnitude_abs (h : InFormat (.finite q)) (hq : q ≠ 0) (negative : Bool) :
    ofMagnitude negative q.abs = .finite (if negative then -q.abs else q.abs) := by
  obtain ⟨hrounded, hlimit⟩ := h
  have hne : q.abs ≠ 0 := fun h => hq (Rat.abs_eq_zero_iff.mp h)
  rw [ofMagnitude_of_lt (by rwa [hrounded]), hrounded, if_neg hne]

/-- The sign of a magnitude does not change what it is rounded to. -/
theorem ofMagnitude_of_finite {r : Rat} (h : ofMagnitude false q = .finite r) (hr : r ≠ 0)
    (negative : Bool) : ofMagnitude negative q = .finite (if negative then -r else r) := by
  by_cases hlimit : rounded q < (2 : Rat) ^ (1024 : Int)
  · rw [ofMagnitude_of_lt hlimit] at h ⊢
    split at h
    · exact absurd (finite.inj h).symm hr
    · obtain rfl : rounded q = r := finite.inj h
      rw [if_neg hr]
  · rw [ofMagnitude_of_le (Rat.not_lt.mp hlimit)] at h
    contradiction

end CodeHealth.Double
