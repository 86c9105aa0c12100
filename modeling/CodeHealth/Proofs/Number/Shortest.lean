import CodeHealth.Number.Shortest
import CodeHealth.Proofs.Number.Digits
import CodeHealth.Proofs.Number.Format
import Mathlib.Data.Nat.Prime.Basic

/-!
# The written form of a number reads back

A numeral with few digits is only taken if it reads back as the number. Where none does, all digits
are written; there are finitely many, because the denominator is a power of two. So the shortest
numeral always reads back (`toDouble_shortestNumeral`), and what is written has its value.
-/

namespace CodeHealth.Double

variable {q : Rat}

/-! ### All digits -/

/-- What makes a number whole is a multiple of its denominator. -/
theorem den_dvd {m : Int} {n : Nat} (h : q * n = m) : q.den ∣ n := by
  have hcross : q.num * n = m * q.den := by
    refine Rat.intCast_inj.mp ?_
    have hden := mul_den q
    rw [Rat.intCast_mul, Rat.intCast_mul, Rat.intCast_natCast, Rat.intCast_natCast, ← hden, ← h]
    grind
  have hdvd : q.den ∣ q.num.natAbs * n := by
    refine ⟨m.natAbs, ?_⟩
    have := congrArg Int.natAbs hcross
    rw [Int.natAbs_mul, Int.natAbs_mul] at this
    exact this.trans (Nat.mul_comm _ _)
  exact (Nat.Coprime.symm q.reduced).dvd_of_dvd_mul_left hdvd

/-- The denominator of a number of the format is a power of two. -/
theorem exists_den (hq : 0 < q) (h : rounded q = q) : ∃ k, q.den = 2 ^ k := by
  obtain ⟨n, g, hn⟩ : ∃ (n g : Int), q = n * 2 ^ g := by
    obtain ⟨n, hn⟩ := exists_roundOnGrid q
    rw [rounded, if_pos hq] at h
    exact ⟨n, _, h.symm.trans hn⟩
  obtain ⟨j, hj⟩ := exists_zpow_div (g := 0) (n := g + (-g).toNat) (by omega)
  have hwhole : q * (2 ^ (-g).toNat : Nat) = (n * j : Int) := by
    have hpow : ((2 ^ (-g).toNat : Nat) : Rat) = 2 ^ ((-g).toNat : Int) := by
      rw [Rat.zpow_natCast, Rat.natCast_pow]
      rfl
    rw [Rat.zpow_zero, two_zpow_add] at hj
    rw [Rat.intCast_mul, ← hj, hpow, hn]
    grind
  obtain ⟨k, -, hk⟩ := (Nat.dvd_prime_pow Nat.prime_two).mp (den_dvd hwhole)
  exact ⟨k, hk⟩

theorem natCast_pow_eq (b k : Nat) : ((Nat.pow b k : Nat) : Rat) = (b : Rat) ^ (k : Int) := by
  rw [Rat.zpow_natCast]
  exact Rat.natCast_pow b k

theorem magnitude_exactNumeral (hq : 0 < q) (h : rounded q = q) :
    (exactNumeral q).magnitude = q := by
  obtain ⟨k, hk⟩ := exists_den hq h
  have hlog : q.den.log2 = k := by rw [hk, Nat.log2_two_pow]
  have hnum : ((q.num.natAbs : Nat) : Rat) = q * 2 ^ (k : Int) := by
    have hpos : 0 < q.num := Rat.intCast_pos.mp hq
    have hden : ((q.den : Nat) : Rat) = 2 ^ (k : Int) := by
      rw [hk]
      exact natCast_pow_eq 2 k
    rw [← hden, mul_den, ← Rat.intCast_natCast, Int.natAbs_of_nonneg (Int.le_of_lt hpos)]
  have hten : (2 : Rat) ^ (k : Int) * 5 ^ (k : Int) = 10 ^ (k : Int) := by
    have hpow : Nat.pow 2 k * Nat.pow 5 k = Nat.pow 10 k := (Nat.mul_pow 2 5 k).symm
    have := congrArg (Nat.cast : Nat → Rat) hpow
    rwa [Rat.natCast_mul, natCast_pow_eq, natCast_pow_eq, natCast_pow_eq] at this
  have hone := ten_zpow_add k (-k)
  rw [Int.add_right_neg, Rat.zpow_zero, ← hten] at hone
  unfold exactNumeral Numeral.magnitude
  rw [hlog, Rat.natCast_mul, natCast_pow_eq, hnum]
  change q * 2 ^ (k : Int) * 5 ^ (k : Int) * 10 ^ (-k : Int) = q
  rw [Rat.mul_assoc q, Rat.mul_assoc, ← hone, Rat.mul_one]

/-! ### The shortest numeral -/

theorem toDouble_of_numeralOfLength? {count : Nat} {n : Numeral}
    (h : numeralOfLength? q count = some n) : n.negative = false ∧ n.toDouble = .finite q := by
  unfold numeralOfLength? at h
  dsimp only at h
  split at h
  · rename_i hbelow habove
    split at h
    · obtain rfl := Option.some.inj h
      exact ⟨rfl, of_decide_eq_true hbelow⟩
    · obtain rfl := Option.some.inj h
      exact ⟨rfl, of_decide_eq_true habove⟩
  · rename_i hbelow _
    obtain rfl := Option.some.inj h
    exact ⟨rfl, of_decide_eq_true hbelow⟩
  · rename_i habove
    obtain rfl := Option.some.inj h
    exact ⟨rfl, of_decide_eq_true habove⟩
  · contradiction

theorem toDouble_shortestNumeral (hq : 0 < q) (h : InFormat (.finite q)) :
    (shortestNumeral q).negative = false ∧ (shortestNumeral q).toDouble = .finite q := by
  unfold shortestNumeral
  cases hshort : (List.range 17).findSome? fun i => numeralOfLength? q (i + 1) with
  | some n =>
    obtain ⟨i, -, hi⟩ := List.exists_of_findSome?_eq_some hshort
    exact toDouble_of_numeralOfLength? hi
  -- No numeral of 17 digits or fewer reads back, so all digits are written.
  | none =>
    have habs := Rat.abs_of_nonneg (Rat.le_of_lt hq)
    have hmagnitude := magnitude_exactNumeral hq (by rw [← habs]; exact h.1)
    refine ⟨rfl, ?_⟩
    change (exactNumeral q).toDouble = _
    rw [Numeral.toDouble_eq, hmagnitude, ← habs]
    exact ofMagnitude_abs h (Rat.ne_of_gt hq) false

/-- A positive number of the format is written with significant digits whose value is nearest
to it. -/
theorem exists_digits (hq : 0 < q) (h : InFormat (.finite q)) :
    ∃ d : Digits, d.Significant ∧ ofMagnitude false d.value = .finite q ∧
      magnitudeText q =
        if -4 ≤ d.exponent ∧ d.exponent < 16 then
          Digits.pointed false (d.positional.1, d.shownFraction)
        else Digits.pointed false d.scientific ++ d.power := by
  obtain ⟨hnegative, hdouble⟩ := toDouble_shortestNumeral hq h
  rw [Numeral.toDouble_eq, hnegative] at hdouble
  have hcoefficient : (shortestNumeral q).coefficient ≠ 0 := by
    intro hzero
    have hmagnitude : (shortestNumeral q).magnitude = 0 := by
      rw [Numeral.magnitude, hzero]
      exact Rat.zero_mul _
    rw [hmagnitude, ofMagnitude_zero] at hdouble
    exact Rat.ne_of_gt hq (finite.inj hdouble).symm
  let n := shortestNumeral q
  let all : Digits := ⟨decimalDigits n.coefficient,
    n.exponent + ((decimalDigits n.coefficient).length - 1)⟩
  have hvalue : all.value = n.magnitude := by
    change (digitsValue (decimalDigits n.coefficient) : Rat) * 10 ^
      (n.exponent + ((decimalDigits n.coefficient).length - 1 : Int) -
        ((decimalDigits n.coefficient).length - 1 : Int)) = _
    rw [digitsValue_decimalDigits, Int.add_sub_cancel]
    rfl
  have hsignificant : all.Significant :=
    ⟨fun c hc => isDecimalDigit_of_mem hc, decimalDigits_ne_nil _, head_decimalDigits hcoefficient⟩
  exact ⟨all.stripped, hsignificant.stripped, by rw [Digits.value_stripped, hvalue, hdouble], rfl⟩

end CodeHealth.Double
