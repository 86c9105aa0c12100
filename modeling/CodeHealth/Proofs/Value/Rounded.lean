import CodeHealth.Proofs.Fault
import CodeHealth.Proofs.Number.Decimals
import CodeHealth.Proofs.Value.Numbers
import CodeHealth.Value.Rounded

/-!
# Numbers rounded to decimal places

A number in floating point is a rational, and its decimal is found from this rational alone, with no
rounding in between: a number stored just below a tie is rounded down and a tie is rounded up. What
a decimal cannot have is more than 28 digits, and it is the rounded coefficient that counts, so a
number that would be rounded up to a 29th digit has no decimal either (`Value.roundHalfUp_exact`).
-/

namespace CodeHealth

namespace Value

variable {precision : Value} {x y : Double} {q q' : Rat} {n : Int}

theorem neg_of_number? {v : Value} (h : v.number? = some (.int n)) : v.neg = .ok (.int (-n)) := by
  rw [neg, number, h]
  rfl

theorem places_of_number? (h : precision.number? = some (.int n)) (hnonneg : 0 ≤ n) :
    precision.places =
      if 2000054 < n then .error .tooPrecise else .ok (Min.min n maxPlaces) := by
  rw [places, neg_of_number? h]
  change (if 2000054 < (-n).natAbs then Except.error Fault.tooPrecise
    else if 1000000 ≤ -n then .error Fault.tooCoarse else .ok (Min.min (- -n) maxPlaces)) = _
  rw [Int.neg_neg, if_neg (c := 1000000 ≤ -n) (by omega)]
  congr 1
  exact propext (by omega)

theorem places_of_le (h : precision.number? = some (.int n)) (hnonneg : 0 ≤ n)
    (hle : n ≤ maxPlaces) : precision.places = .ok n := by
  have hlimit : ¬2000054 < n := by
    unfold maxPlaces at hle
    omega
  rw [places_of_number? h hnonneg, if_neg hlimit, Int.min_eq_left hle]

/-- Decimal arithmetic takes a number for exactly what it is, the sign of a zero included. -/
theorem ofValue_of_toRat? (hx : x.toRat? = some q) (hq : 0 ≤ q) :
    Decimal.ofValue (double x) = .ok (.number x.isNegative q) := by
  obtain rfl | ⟨rfl, rfl⟩ := Double.cases_of_toRat? hx
  · exact congrArg (fun r => Except.ok (Decimal.number _ r)) (Rat.abs_of_nonneg hq)
  · rfl

theorem roundHalfUp_of_toRat? (hx : x.toRat? = some q) (hq : 0 ≤ q) (h : precision.places = .ok n) :
    (double x).roundHalfUp precision =
      if Fixed.roundedCoefficient q n < Fixed.coefficientBound then
        .ok (.fixed ⟨x.isNegative, Fixed.roundedCoefficient q n, n⟩)
      else .error .tooPrecise := by
  have hdecimal : Decimal.ofValue (double x) = pure (.number x.isNegative q) :=
    ofValue_of_toRat? hx hq
  have hplaces : precision.places = pure n := h
  simp only [roundHalfUp, hdecimal, hplaces, pure_bind]
  by_cases hk : Fixed.roundedCoefficient q n < Fixed.coefficientBound
  · have hround : Fixed.round? x.isNegative q n = some ⟨x.isNegative, _, n⟩ := if_pos hk
    rw [hround, if_pos hk]
    rfl
  · have hround : Fixed.round? x.isNegative q n = none := if_neg hk
    rw [hround, if_neg hk]
    rfl

theorem roundHalfUp_finite (hq : 0 ≤ q) (h : precision.places = .ok n) :
    (double (.finite q)).roundHalfUp precision =
      if Fixed.roundedCoefficient q n < Fixed.coefficientBound then
        .ok (.fixed ⟨false, Fixed.roundedCoefficient q n, n⟩)
      else .error .tooPrecise := by
  have hsign : (Double.finite q).isNegative = false := decide_eq_false (Rat.not_lt.mpr hq)
  rw [roundHalfUp_of_toRat? rfl hq h, hsign]

/-- The decimal of a number has the number's sign only if it is a zero. -/
theorem value_roundedCoefficient (hx : x.toRat? = some q) (hq : 0 ≤ q) (n : Int) :
    Fixed.value ⟨x.isNegative, Fixed.roundedCoefficient q n, n⟩ =
      Fixed.roundedCoefficient q n * 10 ^ (-n) := by
  refine Fixed.value_eq (fun hsign => ?_) n
  rw [Double.eq_zero_of_isNegative hx hq hsign, Fixed.roundedCoefficient_eq_iff Rat.le_refl,
    Rat.zero_mul]
  decide +kernel

/-- Where a number has a decimal, a smaller one has a decimal as well, and it is no larger. -/
theorem roundHalfUp_value_mono (h : precision.places = .ok n) (hx : x.toRat? = some q) (hq : 0 ≤ q)
    (hy : y.toRat? = some q') (hle : q ≤ q') {g : Fixed}
    (hg : (double y).roundHalfUp precision = .ok (.fixed g)) :
    ∃ f, (double x).roundHalfUp precision = .ok (.fixed f) ∧ f.value ≤ g.value := by
  have hq' : 0 ≤ q' := Rat.le_trans hq hle
  have hk := Fixed.roundedCoefficient_mono hle n
  rw [roundHalfUp_of_toRat? hy hq' h] at hg
  split at hg
  · rename_i hbound
    obtain rfl := Rounded.fixed.inj (Except.ok.inj hg)
    refine ⟨_, (roundHalfUp_of_toRat? hx hq h).trans (if_pos (Nat.lt_of_le_of_lt hk hbound)), ?_⟩
    rw [value_roundedCoefficient hx hq, value_roundedCoefficient hy hq']
    exact Rat.mul_le_mul_of_nonneg_right (Rat.natCast_le_natCast.mpr hk)
      (Rat.le_of_lt (Double.ten_zpow_pos (-n)))
  · contradiction

/-- A number that is not negative is rounded to a whole number `k` of units of the last place,
exactly half up. If `k` has 28 digits at most, the decimal is worth `k` of these units, moves by
half a unit at most, and is shown with exactly its number of places; the sign that is shown is that
of the number, which only a zero has. Otherwise there is no decimal. A smaller number has no larger
decimal. -/
theorem roundHalfUp_exact {places : Nat} (hx : x.toRat? = some q) (hq : 0 ≤ q)
    (h : precision.number? = some (.int places)) (hle : places ≤ 1000) :
    ∃ k : Nat, (q * 10 ^ (places : Int) + 1 / 2).floor = k ∧
      (k < 10 ^ 28 → ∃ (f : Fixed) (text : String),
        (double x).roundHalfUp precision = .ok (.fixed f) ∧
        f.value = k / 10 ^ (places : Int) ∧
        (f.value - q).abs ≤ 1 / 2 * 10 ^ (-places : Int) ∧
        ((double x).roundHalfUp precision).map Rounded.display = .ok text ∧
        Fixed.ShownAs text x.isNegative k places) ∧
      (10 ^ 28 ≤ k → ∃ fault : Fault, fault.typeName = "InvalidOperation" ∧
        (double x).roundHalfUp precision = .error fault ∧
        ((double x).roundHalfUp precision).map Rounded.display = .error fault) ∧
      ∀ (y : Double) (q' : Rat) (g : Fixed), y.toRat? = some q' → q ≤ q' →
        (double y).roundHalfUp precision = .ok (.fixed g) →
        ∃ f, (double x).roundHalfUp precision = .ok (.fixed f) ∧ f.value ≤ g.value := by
  have hplaces : precision.places = .ok places :=
    places_of_le h (Int.natCast_nonneg places) (by unfold maxPlaces; omega)
  have hround := roundHalfUp_of_toRat? hx hq hplaces
  rw [Fixed.coefficientBound_eq] at hround
  have hvalue := value_roundedCoefficient hx hq places
  have hnear := Fixed.roundedCoefficient_near hq places
  refine ⟨Fixed.roundedCoefficient q places, ?_, fun hk => ?_, fun hk => ?_,
    fun y q' g hy hqq hg => roundHalfUp_value_mono hplaces hx hq hy hqq hg⟩
  · have hscaled := Rat.mul_nonneg hq (Rat.le_of_lt (Double.ten_zpow_pos places))
    exact (Int.toNat_of_nonneg (Rat.le_floor_iff.mpr (by grind))).symm
  · rw [if_pos hk] at hround
    rw [hround]
    refine ⟨_, _, rfl, hvalue.trans ?_, hvalue ▸ hnear, rfl, Fixed.shownAs_display _ _ _⟩
    rw [Rat.zpow_neg, Rat.div_def]
  · rw [if_neg (Nat.not_lt.mpr hk)] at hround
    rw [hround]
    exact ⟨.tooPrecise, rfl, rfl, rfl⟩

/-- A tie is rounded up, and a whole number with 29 digits has no decimal. -/
theorem roundHalfUp_exact_tie :
    (∃ (f : Fixed) (text : String),
      (double (.finite (1 / 8))).roundHalfUp (.int 2) = .ok (.fixed f) ∧
      f.value = 13 / 100 ∧
      ((double (.finite (1 / 8))).roundHalfUp (.int 2)).map Rounded.display = .ok text ∧
      Fixed.ShownAs text false 13 2) ∧
    ∃ fault : Fault, fault.typeName = "InvalidOperation" ∧
      (double (.finite (2 ^ (94 : Int)))).roundHalfUp (.int 0) = .error fault := by
  have htwo : (Value.int 2).number? = some (.int (2 : Nat)) := rfl
  have hzero : (Value.int 0).number? = some (.int (0 : Nat)) := rfl
  constructor
  · obtain ⟨k, hfloor, hok, -, -⟩ :=
      roundHalfUp_exact (x := .finite (1 / 8)) rfl (by decide +kernel) htwo (by decide)
    have hthirteen : ((1 / 8 : Rat) * 10 ^ (2 : Int) + 1 / 2).floor = 13 := by decide +kernel
    obtain rfl : k = 13 := Int.ofNat.inj (hfloor.symm.trans hthirteen)
    obtain ⟨f, text, hf, hvalue, -, htext, hshown⟩ := hok (by decide)
    have hsign : (Double.finite (1 / 8)).isNegative = false := by decide +kernel
    exact ⟨f, text, hf, hvalue.trans (by decide +kernel), htext, hsign ▸ hshown⟩
  · obtain ⟨k, hfloor, -, herror, -⟩ :=
      roundHalfUp_exact (x := .finite (2 ^ (94 : Int))) rfl (by decide +kernel) hzero (by decide)
    have hlarge : (10 ^ 28 : Nat) ≤ ((2 : Rat) ^ (94 : Int) * 10 ^ (0 : Int) + 1 / 2).floor := by
      decide +kernel
    obtain ⟨fault, hname, hfault, -⟩ := herror (Int.ofNat_le.mp (hfloor ▸ hlarge))
    exact ⟨fault, hname, hfault⟩

end Value

end CodeHealth
