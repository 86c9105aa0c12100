import CodeHealth.Proofs.Number.Numerals
import CodeHealth.Proofs.Value.Numbers
import CodeHealth.Value.Display
import Mathlib.Algebra.Group.Int.Defs

/-!
# Values that can be shown

Among the numbers only whole ones may have too many digits to be shown. A whole number has few
enough exactly if it lies below a power of ten (`Value.isShowable_of_number?`).
-/

namespace CodeHealth.Value

theorem shown_eq_ok {v : Value} (h : v.isShowable = true) : v.shown = .ok v.display :=
  if_pos h

theorem shown_eq_error {v : Value} (h : v.isShowable = false) : v.shown = .error .tooLongToShow :=
  if_neg (Bool.eq_false_iff.mp h)

theorem isShowable_int (n : Int) :
    (int n).isShowable = true ↔ n.natAbs < 10 ^ digitLimit := by
  rw [isShowable, decide_eq_true_iff]
  exact length_decimalDigits_le_iff (by decide)

theorem isShowable_nat (n : Nat) : (nat n).isShowable = true ↔ n < 10 ^ digitLimit :=
  isShowable_int n

/-- Of a number that is not negative the sign does not matter. -/
theorem isShowable_of_nonneg {n : Int} (h : 0 ≤ n) :
    (int n).isShowable = true ↔ n < 10 ^ digitLimit := by
  have hpow : ((10 ^ digitLimit : Nat) : Int) = 10 ^ digitLimit := Int.natCast_pow 10 digitLimit
  rw [isShowable_int, ← hpow]
  omega

/-- A truth value is shown by name, and the number that it counts as is small. -/
theorem isShowable_of_number? {v : Value} {n : Int} (h : v.number? = some (.int n)) :
    v.isShowable = true ↔ n.natAbs < 10 ^ digitLimit := by
  obtain rfl | ⟨b, rfl, rfl⟩ := cases_of_number? h
  · exact isShowable_int n
  · have hsmall : 1 < 10 ^ digitLimit := Nat.one_lt_pow (by decide) (by decide)
    refine iff_of_true rfl ?_
    cases b with
    | true => exact hsmall
    | false => exact Nat.lt_trans Nat.zero_lt_one hsmall

end CodeHealth.Value
