import CodeHealth.Proofs.Number.Digits
import CodeHealth.Proofs.Number.Nearness

/-!
# Decimals with a fixed number of places

Rounded half up, a magnitude moves by half a unit of the last place at most, and of two magnitudes
the larger one stays the larger one. The notation of a decimal has as many digits behind the point
as there are places, and before the point no zero in front of other digits
(`Fixed.shownAs_display`): the digits are filled up with zeros only until there is one before the
point.
-/

namespace CodeHealth

namespace Fixed

variable {negative : Bool} {k places : Nat} {q : Rat}

/-! ### Values -/

/-- The number that a decimal stands for. -/
def value (f : Fixed) : Rat :=
  if f.negative then -f.toNumeral.magnitude else f.toNumeral.magnitude

theorem coefficientBound_eq : coefficientBound = 10 ^ 28 := rfl

/-- The sign of a zero does not show in its value. -/
theorem value_eq (h : negative = true → k = 0) (places : Int) :
    value ⟨negative, k, places⟩ = k * 10 ^ (-places) := by
  cases negative with
  | false => rfl
  | true =>
    rw [h rfl]
    change -((0 : Rat) * 10 ^ (-places)) = (0 : Rat) * 10 ^ (-places)
    rw [Rat.zero_mul, Rat.neg_zero]

theorem roundedCoefficient_mono {p q : Rat} (h : p ≤ q) (places : Int) :
    roundedCoefficient p places ≤ roundedCoefficient q places := by
  have hscaled := Rat.mul_le_mul_of_nonneg_right h (Rat.le_of_lt (Double.ten_zpow_pos places))
  refine Int.toNat_le_toNat (Rat.le_floor_iff.mpr ?_)
  have := Rat.floor_le (p * 10 ^ places + 1 / 2)
  grind

/-- A magnitude moves by half a unit of the last place at most. -/
theorem roundedCoefficient_near (hq : 0 ≤ q) (places : Int) :
    (roundedCoefficient q places * 10 ^ (-places) - q).abs ≤ 1 / 2 * 10 ^ (-places) := by
  obtain ⟨hlow, hhigh⟩ := (roundedCoefficient_eq_iff hq places).mp rfl
  have hunit := Double.ten_zpow_pos (-places)
  have hscaled : (q * 10 ^ places + 1 / 2) * 10 ^ (-places) = q + 1 / 2 * 10 ^ (-places) := by
    rw [Rat.add_mul, Rat.mul_assoc, ← Double.ten_zpow_add, Int.add_right_neg, Rat.zpow_zero,
      Rat.mul_one]
  have hbelow := Rat.mul_le_mul_of_nonneg_right hlow (Rat.le_of_lt hunit)
  have habove := (Rat.mul_lt_mul_right hunit).mpr hhigh
  rw [hscaled] at hbelow habove
  unfold Rat.abs
  split <;> grind

/-! ### Texts -/

/-- Whether a text is the notation of `k` units of the last place, with a sign: a whole number, and
behind the point as many digits as there are places. Without places there is no point. -/
def ShownAs (text : String) (negative : Bool) (k places : Nat) : Prop :=
  ∃ whole fraction : List Char,
    text = String.ofList ((if negative then ['-'] else []) ++ whole ++
      if places = 0 then [] else '.' :: fraction) ∧
    IsWhole whole ∧ (∀ c ∈ fraction, isDecimalDigit c = true) ∧ fraction.length = places ∧
    digitsValue (whole ++ fraction) = k

/-- The digits of a coefficient with as many zeros in front that there is a digit before
the point. -/
def padded (k places : Nat) : List Char :=
  List.replicate (places + 1 - (decimalDigits k).length) '0' ++ decimalDigits k

theorem length_padded (k places : Nat) :
    (padded k places).length =
      places + 1 - (decimalDigits k).length + (decimalDigits k).length := by
  rw [padded, List.length_append, List.length_replicate]

theorem isDecimalDigit_of_mem_padded {c : Char} (h : c ∈ padded k places) :
    isDecimalDigit c = true := by
  obtain hzero | hdigit := List.mem_append.mp h
  · rw [List.eq_of_mem_replicate hzero]
    rfl
  · exact isDecimalDigit_of_mem hdigit

theorem digitsValue_padded (k places : Nat) : digitsValue (padded k places) = k :=
  (digitsValue_zeros_append _ _).trans (digitsValue_decimalDigits k)

theorem exists_parts (negative : Bool) (k places : Nat) : ∃ whole fraction,
    parts ⟨negative, k, places⟩ = (whole, fraction) ∧ whole ++ fraction = padded k places ∧
      fraction.length = places := by
  refine ⟨(padded k places).take ((padded k places).length - places),
    (padded k places).drop ((padded k places).length - places), ?_, List.take_append_drop _ _, ?_⟩
  · rw [parts, if_pos (Int.natCast_nonneg places)]
    rfl
  · rw [List.length_drop, length_padded]
    omega

/-- Zeros are put in front of the digits only where there would be none before the point. -/
theorem isWhole_of_append_eq_padded {whole fraction : List Char}
    (h : whole ++ fraction = padded k places) (hlength : fraction.length = places) :
    IsWhole whole := by
  have hlengths := congrArg List.length h
  rw [List.length_append, length_padded] at hlengths
  refine ⟨fun c hc => isDecimalDigit_of_mem_padded (h ▸ List.mem_append_left fraction hc),
    List.ne_nil_of_length_pos (by omega), fun hhead => ?_⟩
  obtain ⟨c, rest, rfl⟩ := List.exists_cons_of_ne_nil (l := whole)
    (List.ne_nil_of_length_pos (by omega))
  obtain rfl : c = '0' := Option.some.inj hhead
  cases rest with
  | nil => rfl
  | cons d rest =>
    -- With two digits before the point there are no zeros in front of the digits.
    rw [List.length_cons, List.length_cons] at hlengths
    have hzeros : places + 1 - (decimalDigits k).length = 0 := by omega
    rw [padded, hzeros, List.replicate_zero, List.nil_append] at h
    have hone : decimalDigits k = ['0'] := (isWhole_decimalDigits k).head (by rw [← h]; rfl)
    rw [hone] at h
    exact absurd (List.cons.inj h).2 (List.cons_ne_nil d _)

/-- A decimal is shown with exactly its number of places. -/
theorem shownAs_display (negative : Bool) (k places : Nat) :
    ShownAs (display ⟨negative, k, places⟩) negative k places := by
  obtain ⟨whole, fraction, hparts, happend, hlength⟩ := exists_parts negative k places
  refine ⟨whole, fraction, ?_, isWhole_of_append_eq_padded happend hlength, fun c hc =>
    isDecimalDigit_of_mem_padded (happend ▸ List.mem_append_right whole hc), hlength,
    happend ▸ digitsValue_padded k places⟩
  rw [display, hparts]
  simp only [List.isEmpty_iff_length_eq_zero, hlength]

end Fixed

end CodeHealth
