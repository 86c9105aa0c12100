import CodeHealth.Json.Parser
import CodeHealth.Json.Printer
import CodeHealth.Proofs.Fault
import CodeHealth.Proofs.Number.Shortest

/-!
# Numbers in JSON text

A number ends where neither a digit nor a point nor a power of ten follows (`EndsNumber`). In front
of such a place a written number is read back: a whole number as itself (`readScalar_int`), and a
floating point number as the number that its digits stand for, which is the same one for a number of
the format (`readScalar_double`).
-/

namespace CodeHealth

namespace Json

open Double (InFormat)

/-- No digit follows. -/
def EndsDigits (rest : Text) : Prop :=
  ∀ c, rest.head? = some c → isDecimalDigit c = false

/-- Nothing follows that a number goes on with. -/
def EndsNumber (rest : Text) : Prop :=
  ∀ c, rest.head? = some c → isDecimalDigit c = false ∧ c ≠ '.' ∧ c ≠ 'e' ∧ c ≠ 'E'

theorem EndsNumber.digits {rest : Text} (h : EndsNumber rest) : EndsDigits rest :=
  fun c hc => (h c hc).1

theorem endsDigits_cons {c : Char} {rest : Text} (h : isDecimalDigit c = false) :
    EndsDigits (c :: rest) := by
  intro c' hc'
  rwa [← Option.some.inj hc']

/-! ### The parts of a number -/

section Parts

variable {ds fs rest : Text}

theorem digits_append (hds : ∀ c ∈ ds, isDecimalDigit c = true) (hrest : EndsDigits rest) :
    digits (ds ++ rest) = (ds, rest) := by
  have hnone : rest.takeWhile isDecimalDigit = [] ∧ rest.dropWhile isDecimalDigit = rest := by
    cases rest with
    | nil => exact ⟨rfl, rfl⟩
    | cons c rest => simp [hrest c rfl]
  rw [digits, List.takeWhile_append_of_pos hds, List.dropWhile_append_of_pos hds, hnone.1, hnone.2,
    List.append_nil]

theorem whole?_append (hds : IsWhole ds) (hrest : EndsDigits rest) :
    whole? (ds ++ rest) = some (ds, rest) := by
  obtain ⟨c, tail, rfl⟩ := List.exists_cons_of_ne_nil hds.nonempty
  rw [whole?, digits_append hds.digits hrest]
  by_cases hc : c = '0'
  · obtain rfl : tail = [] := by
      have := hds.head (congrArg some hc)
      exact (List.cons.inj this).2
    subst hc
    rfl
  · split
    · rename_i heq
      exact absurd (Prod.mk.inj heq).1 (List.cons_ne_nil c tail)
    · rename_i heq
      exact absurd (List.cons.inj (Prod.mk.inj heq).1).1 hc
    · rename_i heq
      rw [← (Prod.mk.inj heq).1, ← (Prod.mk.inj heq).2]

theorem fraction?_point (hfs : ∀ c ∈ fs, isDecimalDigit c = true) (hne : fs ≠ [])
    (hrest : EndsDigits rest) : fraction? ('.' :: (fs ++ rest)) = some (fs, rest) := by
  change (if (digits (fs ++ rest)).1.isEmpty then none else some (digits (fs ++ rest))) = _
  rw [digits_append hfs hrest]
  exact if_neg (by simpa using hne)

theorem fraction?_eq_none (h : rest.head? ≠ some '.') : fraction? rest = none := by
  unfold fraction?
  split
  · exact absurd rfl h
  · rfl

theorem power?_eq_none (h : EndsNumber rest) : power? rest = none := by
  cases rest with
  | nil => rfl
  | cons c rest =>
    obtain ⟨-, -, he, hE⟩ := h c rfl
    exact if_neg (by simp [he, hE])

theorem power?_power (d : Digits) (hrest : EndsDigits rest) :
    power? (d.power ++ rest) = some (d.exponent, rest) := by
  let padded := List.replicate (2 - (decimalDigits d.exponent.natAbs).length) '0' ++
    decimalDigits d.exponent.natAbs
  have hdigits : digits (padded ++ rest) = (padded, rest) := by
    refine digits_append (fun c hc => ?_) hrest
    obtain hc | hc := List.mem_append.mp hc
    · rw [(List.mem_replicate.mp hc).2]
      decide
    · exact isDecimalDigit_of_mem hc
  have hvalue : digitsValue padded = d.exponent.natAbs := by
    rw [digitsValue_zeros_append, digitsValue_decimalDigits]
  have hnonempty : padded.isEmpty = false := by
    simp [padded, decimalDigits_ne_nil]
  have hpower : d.power = 'e' :: (if d.exponent < 0 then '-' else '+') :: padded := rfl
  have hread (negative : Bool) : power? ('e' :: (if negative then '-' else '+') :: padded ++ rest) =
      if (digits (padded ++ rest)).1.isEmpty then none
      else some (if negative then -(digitsValue (digits (padded ++ rest)).1 : Int)
        else digitsValue (digits (padded ++ rest)).1, (digits (padded ++ rest)).2) := by
    cases negative with
    | true => rfl
    | false => rfl
  by_cases hneg : d.exponent < 0
  · have hexponent : -(d.exponent.natAbs : Int) = d.exponent := by omega
    rw [hpower, if_pos hneg]
    refine (hread true).trans ?_
    rw [hdigits, hnonempty, hvalue, if_pos rfl, hexponent]
    rfl
  · have hexponent : (d.exponent.natAbs : Int) = d.exponent := by omega
    rw [hpower, if_neg hneg]
    refine (hread false).trans ?_
    rw [hdigits, hnonempty, hvalue, if_neg Bool.false_ne_true, hexponent]
    rfl

end Parts

/-! ### Whole numbers -/

/-- The word or number that a text begins with is a number if no word begins with its first
characters. -/
theorem readScalar_of_words {s : Text} (h : ∀ word ∈ words, Text.after? word.1 s = none) :
    readScalar s = readNumber s := by
  have hnone : word? s = none :=
    List.findSome?_eq_none_iff.mpr fun word hword => by rw [h word hword, Option.map_none]
  rw [readScalar, hnone]

/-- The number with a sign in front of its digits. -/
def signed (negative : Bool) (s : Text) : Text :=
  if negative then '-' :: s else s

theorem signed_append (negative : Bool) (s rest : Text) :
    signed negative s ++ rest = signed negative (s ++ rest) := by
  cases negative with
  | true => rfl
  | false => rfl

theorem readScalar_signed {s : Text} (hs : ∃ c rest, s = c :: rest ∧ isDecimalDigit c = true)
    (negative : Bool) : readScalar (signed negative s) = readUnsigned negative s := by
  obtain ⟨c, rest, rfl, hc⟩ := hs
  have hne {a : Char} (ha : isDecimalDigit a = false) : a ≠ c := by
    rintro rfl
    rw [ha] at hc
    contradiction
  cases negative with
  | true =>
    have hwords : ∀ word ∈ words, Text.after? word.1 ('-' :: c :: rest) = none := by
      have hI : 'I' ≠ c := hne rfl
      simp [words, Text.after?, hI]
    exact readScalar_of_words hwords
  | false =>
    have hminus : c ≠ '-' := (hne rfl).symm
    have hwords : ∀ word ∈ words, Text.after? word.1 (c :: rest) = none := by
      have hn : 'n' ≠ c := hne rfl
      have ht : 't' ≠ c := hne rfl
      have hf : 'f' ≠ c := hne rfl
      have hN : 'N' ≠ c := hne rfl
      have hI : 'I' ≠ c := hne rfl
      have hm : '-' ≠ c := hne rfl
      simp [words, Text.after?, hn, ht, hf, hN, hI, hm]
    refine (readScalar_of_words hwords).trans ?_
    unfold readNumber
    split
    · rename_i heq
      exact absurd (List.cons.inj heq).1 hminus
    · rfl

theorem readUnsigned_whole {ds rest : Text} (hds : IsWhole ds) (hlength : ds.length ≤ digitLimit)
    (hrest : EndsNumber rest) (negative : Bool) : readUnsigned negative (ds ++ rest) =
      .ok (.int (if negative then -(digitsValue ds : Int) else digitsValue ds), rest) := by
  have hpoint : rest.head? ≠ some '.' := fun h => (hrest _ h).2.1 rfl
  have hfraction := fraction?_eq_none hpoint
  have hpower := power?_eq_none hrest
  have hread : ¬digitLimit < ds.length := Nat.not_lt.mpr hlength
  simp [readUnsigned, expect, whole?_append hds hrest.digits, hfraction, hpower, hread]

theorem toList_int (n : Int) :
    (toString n).toList = signed (decide (n < 0)) (decimalDigits n.natAbs) := by
  rw [Int.toString_eq_repr]
  cases n with
  | ofNat n =>
    rw [decide_eq_false (p := Int.ofNat n < 0) (Int.not_lt.mpr (Int.natCast_nonneg n))]
    exact Nat.toList_repr
  | negSucc n =>
    rw [decide_eq_true (Int.negSucc_lt_zero n), Int.repr, String.toList_append, Nat.toList_repr]
    rfl

/-- A whole number is read back, unless it has too many digits. -/
theorem readScalar_int {n : Int} (hlength : (decimalDigits n.natAbs).length ≤ digitLimit)
    {rest : Text} (hrest : EndsNumber rest) :
    readScalar ((toString n).toList ++ rest) = .ok (.int n, rest) := by
  have hwhole := isWhole_decimalDigits n.natAbs
  rw [toList_int, signed_append, readScalar_signed (hwhole.exists_digit rest),
    readUnsigned_whole hwhole hlength hrest, digitsValue_decimalDigits]
  by_cases hn : n < 0
  · have habs : -(n.natAbs : Int) = n := by omega
    rw [decide_eq_true hn, if_pos rfl, habs]
  · have habs : (n.natAbs : Int) = n := by omega
    rw [decide_eq_false hn, if_neg Bool.false_ne_true, habs]

/-! ### Floating point numbers -/

section Doubles

variable {ds fs rest : Text}

theorem toDouble_parts (negative : Bool) (ds fs : List Char) (exponent : Int) :
    (Numeral.toDouble ⟨negative, digitsValue (ds ++ fs), exponent - fs.length⟩) =
      .ofMagnitude negative (pointValue (ds, fs) * 10 ^ exponent) := by
  rw [Numeral.toDouble_eq, Numeral.magnitude, pointValue, Rat.mul_assoc, ← Double.ten_zpow_add,
    Int.sub_eq_add_neg, Int.add_comm]

theorem pointed_append (h : fs ≠ []) (rest : Text) :
    Digits.pointed false (ds, fs) ++ rest = ds ++ '.' :: (fs ++ rest) := by
  cases fs with
  | nil => contradiction
  | cons _ _ => exact List.append_assoc ds _ rest

/-- Digits with a point between them. -/
theorem readUnsigned_point (hds : IsWhole ds) (hfs : ∀ c ∈ fs, isDecimalDigit c = true)
    (hne : fs ≠ []) (hrest : EndsNumber rest) (negative : Bool) :
    readUnsigned negative (Digits.pointed false (ds, fs) ++ rest) =
      .ok (.double (.ofMagnitude negative (pointValue (ds, fs))), rest) := by
  have hwhole : whole? (ds ++ '.' :: (fs ++ rest)) = some (ds, '.' :: (fs ++ rest)) :=
    whole?_append hds (endsDigits_cons rfl)
  have hfraction := fraction?_point hfs hne hrest.digits
  have hdouble := toDouble_parts negative ds fs 0
  rw [Rat.zpow_zero, Rat.mul_one] at hdouble
  rw [pointed_append hne, ← hdouble]
  simp [readUnsigned, expect, hwhole, hfraction, power?_eq_none hrest]

/-- Digits, with a point between them or without, and a power of ten behind them. -/
theorem readUnsigned_power (hds : IsWhole ds) (hfs : ∀ c ∈ fs, isDecimalDigit c = true) (d : Digits)
    (hrest : EndsDigits rest) (negative : Bool) :
    readUnsigned negative (Digits.pointed false (ds, fs) ++ (d.power ++ rest)) =
      .ok (.double (.ofMagnitude negative (pointValue (ds, fs) * 10 ^ d.exponent)), rest) := by
  have hpower := power?_power d hrest
  have hends : EndsDigits (d.power ++ rest) := endsDigits_cons rfl
  rw [← toDouble_parts negative ds fs d.exponent]
  by_cases hne : fs = []
  · have hwhole := whole?_append hds hends
    have hfraction : fraction? (d.power ++ rest) = none := rfl
    have htext : Digits.pointed false (ds, []) = ds := List.append_nil ds
    rw [hne, htext]
    simp [readUnsigned, expect, hwhole, hfraction, hpower]
  · have hwhole : whole? (ds ++ '.' :: (fs ++ (d.power ++ rest))) =
        some (ds, '.' :: (fs ++ (d.power ++ rest))) :=
      whole?_append hds (endsDigits_cons rfl)
    have hfraction := fraction?_point hfs hne hends
    rw [pointed_append hne]
    simp [readUnsigned, expect, hwhole, hfraction, hpower]

theorem exists_digit_pointed (hds : IsWhole ds) (fs rest : Text) :
    ∃ c tail, Digits.pointed false (ds, fs) ++ rest = c :: tail ∧ isDecimalDigit c = true := by
  rw [Digits.pointed, List.append_assoc]
  exact hds.exists_digit _

/-- The written form of a number of the format begins with a digit, and it is read as the number. -/
theorem readUnsigned_magnitudeText {q : Rat} (hq : 0 < q) (h : InFormat (.finite q))
    (hrest : EndsNumber rest) (negative : Bool) :
    (∃ c tail, Double.magnitudeText q ++ rest = c :: tail ∧ isDecimalDigit c = true) ∧
      readUnsigned negative (Double.magnitudeText q ++ rest) =
        .ok (.double (.finite (if negative then -q else q)), rest) := by
  obtain ⟨d, hd, hvalue, htext⟩ := Double.exists_digits hq h
  rw [htext, ← Double.ofMagnitude_of_finite hvalue (Rat.ne_of_gt hq)]
  split
  · have hds := hd.isWhole_positional
    rw [← Digits.pointValue_shownFraction]
    exact ⟨exists_digit_pointed hds _ rest, readUnsigned_point hds hd.digits_shownFraction
      d.shownFraction_ne_nil hrest negative⟩
  · have hds := hd.isWhole_scientific
    rw [← Digits.pointValue_scientific hd.nonempty, List.append_assoc]
    exact ⟨exists_digit_pointed hds _ _, readUnsigned_power hds hd.digits_scientific d hrest.digits
      negative⟩

theorem readScalar_zero (hrest : EndsNumber rest) (negative : Bool) :
    readScalar (signed negative ['0', '.', '0'] ++ rest) =
      .ok (.double (if negative then .negZero else .finite 0), rest) := by
  have hvalue : pointValue (['0'], ['0']) = 0 := by decide +kernel
  have hstart : ∃ c tail, ['0', '.', '0'] ++ rest = c :: tail ∧ isDecimalDigit c = true :=
    ⟨'0', '.' :: '0' :: rest, rfl, rfl⟩
  rw [signed_append, readScalar_signed hstart]
  refine (readUnsigned_point isWhole_zero isWhole_zero.digits (List.cons_ne_nil _ _) hrest
    negative).trans ?_
  rw [hvalue, Double.ofMagnitude_zero]

theorem abs_of_neg {q : Rat} (h : q < 0) : q.abs = -q := by
  rw [← Rat.abs_neg]
  exact Rat.abs_of_nonneg (by grind)

/-- A number other than zero is written as its sign and its magnitude. -/
theorem doubleText_finite {q : Rat} (hq : q ≠ 0) :
    doubleText (.finite q) = signed (decide (q < 0)) (Double.magnitudeText q.abs) := by
  change (if q = 0 then "0.0" else if q < 0 then String.ofList ('-' :: Double.magnitudeText (-q))
    else String.ofList (Double.magnitudeText q)).toList = _
  rw [if_neg hq]
  by_cases hneg : q < 0
  · rw [if_pos hneg, decide_eq_true hneg, String.toList_ofList, abs_of_neg hneg]
    rfl
  · rw [if_neg hneg, decide_eq_false hneg, String.toList_ofList,
      Rat.abs_of_nonneg (Rat.not_lt.mp hneg)]
    rfl

theorem inFormat_abs {q : Rat} (h : InFormat (.finite q)) : InFormat (.finite q.abs) := by
  have habs : q.abs.abs = q.abs := Rat.abs_of_nonneg Rat.abs_nonneg
  refine ⟨?_, ?_⟩
  · rw [habs, h.1]
  · rw [habs]
    exact h.2

theorem abs_pos {q : Rat} (hq : q ≠ 0) : 0 < q.abs :=
  Rat.lt_of_le_of_ne Rat.abs_nonneg fun h => hq (Rat.abs_eq_zero_iff.mp h.symm)

theorem readScalar_finite {q : Rat} (h : InFormat (.finite q)) (hq : q ≠ 0)
    (hrest : EndsNumber rest) :
    readScalar (doubleText (.finite q) ++ rest) = .ok (.double (.finite q), rest) := by
  obtain ⟨hstart, hread⟩ := readUnsigned_magnitudeText (abs_pos hq) (inFormat_abs h) hrest
    (decide (q < 0))
  rw [doubleText_finite hq, signed_append, readScalar_signed hstart, hread]
  by_cases hneg : q < 0
  · rw [decide_eq_true hneg, abs_of_neg hneg, if_pos rfl, Rat.neg_neg]
  · rw [decide_eq_false hneg, Rat.abs_of_nonneg (Rat.not_lt.mp hneg), if_neg Bool.false_ne_true]

/-- A floating point number of the format is read back. -/
theorem readScalar_double {x : Double} (h : x.InFormat) (hrest : EndsNumber rest) :
    readScalar (doubleText x ++ rest) = .ok (.double x, rest) := by
  cases x with
  | infinite negative =>
    cases negative with
    | true => rfl
    | false => rfl
  | nan => rfl
  | negZero => exact readScalar_zero hrest true
  | finite q =>
    by_cases hq : q = 0
    · subst hq
      exact readScalar_zero hrest false
    · exact readScalar_finite h hq hrest

end Doubles

end Json

end CodeHealth
