import CodeHealth.Number.Digits
import CodeHealth.Proofs.Number.Numerals
import Mathlib.Data.List.Induction

/-!
# What digits stand for

A row of digits stands for the same number whatever zeros are put before it, and zeros behind it are
as many factors of ten. So the notations of a magnitude differ in how its digits are laid out and in
nothing else: whether the point is where it belongs (`pointValue_positional`) or behind the first
digit (`pointValue_scientific`), the digits stand for the same value.
-/

namespace CodeHealth

open Double (ten_zpow_pos ten_zpow_add)

/-! ### Rows of digits -/

section Rows

variable {ds es : List Char} {n : Nat}

theorem digitsValue_append (ds es : List Char) :
    (digitsValue (ds ++ es) : Rat) = digitsValue ds * 10 ^ (es.length : Int) + digitsValue es := by
  have happend : digitsValue (ds ++ es) = 10 ^ es.length * digitsValue ds + digitsValue es :=
    (Nat.ofDigitChars_append 0).trans Nat.ofDigitChars_eq_ofDigitChars_zero
  rw [happend, Rat.zpow_natCast, Rat.natCast_add, Rat.natCast_mul, Rat.natCast_pow, Rat.mul_comm]
  rfl

theorem digitsValue_replicate_zero (n : Nat) : digitsValue (List.replicate n '0') = 0 :=
  Nat.ofDigitChars_replicate_zero

theorem digitsValue_zeros_append (n : Nat) (ds : List Char) :
    digitsValue (List.replicate n '0' ++ ds) = digitsValue ds := by
  refine Rat.natCast_inj.mp ?_
  rw [digitsValue_append, digitsValue_replicate_zero]
  grind

theorem digitsValue_append_zeros (ds : List Char) (n : Nat) :
    (digitsValue (ds ++ List.replicate n '0') : Rat) = digitsValue ds * 10 ^ (n : Int) := by
  rw [digitsValue_append, digitsValue_replicate_zero, List.length_replicate]
  grind

theorem digitsValue_decimalDigits (n : Nat) : digitsValue (decimalDigits n) = n :=
  Nat.ofDigitChars_ten_toDigits

theorem decimalDigits_ne_nil (n : Nat) : decimalDigits n ≠ [] :=
  Nat.toDigits_ne_nil

theorem isDecimalDigit_of_mem {c : Char} (h : c ∈ decimalDigits n) : isDecimalDigit c = true := by
  have hdigit := Nat.isDigit_of_mem_toDigits (by decide) (by decide) h
  rw [Char.isDigit, Bool.and_eq_true, decide_eq_true_iff, decide_eq_true_iff] at hdigit
  rw [isDecimalDigit, Bool.and_eq_true, decide_eq_true_iff, decide_eq_true_iff]
  exact hdigit

theorem digitsValue_lt (h : ∀ c ∈ ds, isDecimalDigit c = true) :
    digitsValue ds < 10 ^ ds.length := by
  induction ds using List.reverseRecOn with
  | nil => decide
  | append_singleton ds d ih =>
    have hd := h d (List.mem_append_right ds List.mem_cons_self)
    have hvalue : digitsValue (ds ++ [d]) = 10 * digitsValue ds + (d.toNat - '0'.toNat) :=
      List.foldl_append
    have hdigit : d.toNat - '0'.toNat < 10 := by
      rw [isDecimalDigit, Bool.and_eq_true, decide_eq_true_iff, decide_eq_true_iff] at hd
      have hnine : d.toNat ≤ '9'.toNat := hd.2
      have hten : '9'.toNat - '0'.toNat < 10 := by decide
      omega
    have hrest := ih fun c hc => h c (List.mem_append_left _ hc)
    rw [hvalue, List.length_append, List.length_singleton, Nat.pow_succ]
    omega

/-- A number has at most as many digits as any row of digits that stands for it. -/
theorem length_decimalDigits_digitsValue_le (h : ∀ c ∈ ds, isDecimalDigit c = true)
    (hne : ds ≠ []) : (decimalDigits (digitsValue ds)).length ≤ ds.length :=
  (length_decimalDigits_le_iff (List.length_pos_iff.mpr hne)).mpr (digitsValue_lt h)

/-- Only zero begins with a zero. -/
theorem head_decimalDigits (hn : n ≠ 0) : (decimalDigits n).head? ≠ some '0' := by
  induction n using Nat.strongRecOn with
  | ind n ih =>
    unfold decimalDigits
    by_cases hlt : n < 10
    · rw [Nat.toDigits_of_lt_base hlt]
      simp [hn]
    · have hhead := ih (n / 10) (by omega) (by omega)
      obtain ⟨c, ds, hds⟩ := List.exists_cons_of_ne_nil (decimalDigits_ne_nil (n / 10))
      rw [hds] at hhead
      rw [Nat.toDigits_of_base_le (by decide) (by omega)]
      change (decimalDigits (n / 10) ++ _).head? ≠ _
      rw [hds]
      exact hhead

/-- What a whole number is written as: digits, of which the first one is zero only if it is the only
one. -/
structure IsWhole (ds : List Char) : Prop where
  digits : ∀ c ∈ ds, isDecimalDigit c = true
  nonempty : ds ≠ []
  head : ds.head? = some '0' → ds = ['0']

theorem isWhole_zero : IsWhole ['0'] :=
  ⟨List.forall_mem_singleton.mpr rfl, List.cons_ne_nil _ _, fun _ => rfl⟩

theorem isWhole_decimalDigits (n : Nat) : IsWhole (decimalDigits n) := by
  refine ⟨fun c hc => isDecimalDigit_of_mem hc, decimalDigits_ne_nil n, fun hhead => ?_⟩
  by_cases hn : n = 0
  · rw [hn]
    rfl
  · exact absurd hhead (head_decimalDigits hn)

theorem IsWhole.exists_digit (h : IsWhole ds) (rest : List Char) :
    ∃ c tail, ds ++ rest = c :: tail ∧ isDecimalDigit c = true := by
  obtain ⟨c, tail, rfl⟩ := List.exists_cons_of_ne_nil h.nonempty
  exact ⟨c, tail ++ rest, rfl, h.digits c List.mem_cons_self⟩

end Rows

/-! ### Digits with a power of ten -/

/-- The value of digits before a point and behind it. -/
def pointValue (parts : List Char × List Char) : Rat :=
  digitsValue (parts.1 ++ parts.2) * 10 ^ (-parts.2.length : Int)

namespace Digits

/-- The value of digits with the power of ten of the first of them. -/
def value (d : Digits) : Rat :=
  digitsValue d.digits * 10 ^ (d.exponent - (d.digits.length - 1))

/-- There are digits, and the first one is not zero. -/
structure Significant (d : Digits) : Prop where
  digits : ∀ c ∈ d.digits, isDecimalDigit c = true
  nonempty : d.digits ≠ []
  head : d.digits.head? ≠ some '0'

variable {d : Digits}

theorem exists_stripped (d : Digits) :
    ∃ n, d.digits = d.stripped.digits ++ List.replicate n '0' := by
  let zeros := d.digits.reverse.takeWhile (· = '0')
  have hzeros : zeros = List.replicate zeros.length '0' :=
    List.eq_replicate_of_mem fun c hc =>
      of_decide_eq_true (List.all_eq_true.mp List.all_takeWhile c hc)
  have hsplit : zeros ++ d.stripped.digits.reverse = d.digits.reverse := by
    rw [stripped, List.reverse_reverse]
    exact List.takeWhile_append_dropWhile
  refine ⟨zeros.length, ?_⟩
  rw [← List.reverse_inj, ← hsplit, List.reverse_append, List.reverse_replicate, ← hzeros]

theorem value_stripped (d : Digits) : d.stripped.value = d.value := by
  obtain ⟨n, hn⟩ := d.exists_stripped
  have hexponent : d.stripped.exponent = d.exponent := rfl
  rw [value, value, hn, digitsValue_append_zeros, hexponent, Rat.mul_assoc, ← ten_zpow_add,
    List.length_append, List.length_replicate]
  congr 2
  omega

theorem Significant.stripped (h : d.Significant) : d.stripped.Significant := by
  obtain ⟨n, hn⟩ := d.exists_stripped
  obtain ⟨c, ds, hds⟩ := List.exists_cons_of_ne_nil h.nonempty
  have hhead := h.head
  cases hstripped : d.stripped.digits with
  | nil =>
    cases n with
    | zero => simp [hn, hstripped] at hds
    | succ n =>
      rw [hn, hstripped] at hhead
      exact absurd rfl hhead
  | cons c' ds' =>
    rw [hn, hstripped] at hhead
    refine ⟨fun x hx => h.digits x ?_, by simp [hstripped], by rwa [hstripped]⟩
    rw [hn]
    exact List.mem_append_left _ hx

theorem pointValue_positional (d : Digits) : pointValue d.positional = d.value := by
  unfold positional value pointValue
  split
  · dsimp only
    by_cases hlength : d.digits.length ≤ d.exponent.toNat + 1
    · rw [List.take_of_length_le hlength, List.drop_of_length_le hlength, List.append_nil,
        digitsValue_append_zeros, Rat.mul_assoc, ← ten_zpow_add, List.length_nil]
      congr 2
      omega
    · have hzeros : d.exponent.toNat + 1 - d.digits.length = 0 := by omega
      rw [hzeros, List.replicate_zero, List.append_nil, List.take_append_drop, List.length_drop]
      congr 2
      omega
  · rename_i hneg
    have hzeros : ['0'] ++ (List.replicate (-d.exponent - 1).toNat '0' ++ d.digits) =
        List.replicate ((-d.exponent - 1).toNat + 1) '0' ++ d.digits := rfl
    rw [hzeros, digitsValue_zeros_append, List.length_append, List.length_replicate]
    congr 2
    omega

theorem pointValue_scientific (h : d.digits ≠ []) :
    pointValue d.scientific * 10 ^ d.exponent = d.value := by
  have hpos := List.length_pos_iff.mpr h
  unfold scientific value pointValue
  rw [List.take_append_drop, List.length_drop, Rat.mul_assoc, ← ten_zpow_add]
  congr 2
  omega

/-- A zero behind the point changes nothing. -/
theorem pointValue_zero (ds : List Char) : pointValue (ds, ['0']) = pointValue (ds, []) := by
  have hone : (10 : Rat) ^ (1 : Int) * 10 ^ (-1 : Int) = 10 ^ (0 : Int) :=
    (ten_zpow_add 1 (-1)).symm
  have happend := digitsValue_append_zeros ds 1
  unfold pointValue
  rw [List.append_nil]
  change (digitsValue (ds ++ List.replicate 1 '0') : Rat) * 10 ^ (-1 : Int) = _
  rw [happend, Rat.mul_assoc]
  exact congrArg _ hone

theorem Significant.isWhole_positional (h : d.Significant) : IsWhole d.positional.1 := by
  unfold positional
  split
  · obtain ⟨c, ds, hds⟩ := List.exists_cons_of_ne_nil h.nonempty
    have hhead := h.head
    rw [hds] at hhead
    refine ⟨?_, by simp [hds], fun hzero => ?_⟩
    · intro x hx
      obtain hx | hx := List.mem_append.mp hx
      · exact h.digits x (List.mem_of_mem_take hx)
      · rw [(List.mem_replicate.mp hx).2]
        decide
    · rw [hds] at hzero
      exact absurd hzero hhead
  · exact isWhole_zero

theorem Significant.isWhole_scientific (h : d.Significant) : IsWhole d.scientific.1 := by
  obtain ⟨c, ds, hds⟩ := List.exists_cons_of_ne_nil h.nonempty
  have hhead := h.head
  unfold scientific
  rw [hds] at hhead ⊢
  refine ⟨fun x hx => h.digits x ?_, by simp, fun hzero => absurd hzero hhead⟩
  rw [hds]
  exact List.mem_of_mem_take hx

theorem Significant.digits_positional (h : d.Significant) :
    ∀ c ∈ d.positional.2, isDecimalDigit c = true := by
  unfold positional
  intro c hc
  split at hc
  · exact h.digits c (List.mem_of_mem_drop hc)
  · obtain hc | hc := List.mem_append.mp hc
    · rw [(List.mem_replicate.mp hc).2]
      decide
    · exact h.digits c hc

theorem Significant.digits_scientific (h : d.Significant) :
    ∀ c ∈ d.scientific.2, isDecimalDigit c = true :=
  fun c hc => h.digits c (List.mem_of_mem_drop hc)

/-- The digits behind the point, of which there is one at least. -/
def shownFraction (d : Digits) : List Char :=
  if d.positional.2.isEmpty then ['0'] else d.positional.2

theorem pointValue_shownFraction (d : Digits) :
    pointValue (d.positional.1, d.shownFraction) = d.value := by
  rw [← pointValue_positional]
  unfold shownFraction
  split
  · rename_i hempty
    rw [pointValue_zero, ← List.isEmpty_iff.mp hempty]
  · rfl

theorem shownFraction_ne_nil (d : Digits) : d.shownFraction ≠ [] := by
  unfold shownFraction
  split
  · exact List.cons_ne_nil _ _
  · exact fun h => absurd (List.isEmpty_iff.mpr h) ‹_›

theorem Significant.digits_shownFraction (h : d.Significant) :
    ∀ c ∈ d.shownFraction, isDecimalDigit c = true := by
  unfold shownFraction
  split
  · exact List.forall_mem_singleton.mpr rfl
  · exact h.digits_positional

end Digits

end CodeHealth
