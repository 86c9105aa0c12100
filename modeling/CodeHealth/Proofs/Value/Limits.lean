import CodeHealth.Proofs.Value.Doubles
import Mathlib.Algebra.Group.Nat.Defs

/-!
# Numbers within a limit

In floating point arithmetic nothing is out of range, but a whole number may be too large to take
part in it. A number within a limit is in floating point already, or it is a whole number of at most
this size. If the limit leaves room, sums, differences, products and quotients of such numbers have
values.
-/

namespace CodeHealth

theorem natCast_le_two_zpow {n k : Nat} (h : n ≤ 2 ^ k) : (n : Rat) ≤ 2 ^ (k : Int) := by
  rw [Rat.zpow_natCast]
  have := Rat.natCast_le_natCast.mpr h
  rwa [Rat.natCast_pow] at this

theorem Double.ofMagnitude_ne_infinite {q : Rat} (h : q ≤ 2 ^ (1023 : Int)) (negative b : Bool) :
    ofMagnitude negative q ≠ .infinite b := by
  have hle := rounded_le (n := 1023) (by decide) h
  have hlimit : (2 : Rat) ^ (1023 : Int) < 2 ^ (1024 : Int) := by decide +kernel
  rw [ofMagnitude_of_lt (by grind)]
  split
  · split <;> nofun
  · nofun

/-! ### Numbers within a limit -/

/-- Whether a number is in floating point, or a whole one of at most this size. -/
def Number.Within (limit : Nat) : Number → Prop
  | .int k => k.natAbs ≤ limit
  | .double _ => True

/-- Whether a value is a number within a limit. -/
def Value.Within (limit : Nat) (v : Value) : Prop :=
  ∃ n, v.number? = some n ∧ n.Within limit

section Within

variable {i j : Nat}

theorem abs_intCast_le {k : Int} (h : k.natAbs ≤ i) (hi : (i : Rat) ≤ 2 ^ (1023 : Int)) :
    (k : Rat).abs ≤ 2 ^ (1023 : Int) := by
  have habs : (k : Rat).abs = (k.natAbs : Rat) := by
    rw [← Rat.intCast_natCast]
    obtain hk | hk := Int.le_total 0 k
    · rw [Int.natAbs_of_nonneg hk, Rat.abs_of_nonneg (Rat.intCast_nonneg.mpr hk)]
    · have hle : (k : Rat) ≤ 0 := Rat.intCast_le_intCast.mpr hk
      rw [Int.ofNat_natAbs_of_nonpos hk, Rat.abs_of_nonpos hle, Rat.intCast_neg]
  rw [habs]
  exact Rat.le_trans (Rat.natCast_le_natCast.mpr h) hi

theorem abs_div_le {q d : Rat} (hd : 1 ≤ d) : (q / d).abs ≤ q.abs := by
  have hq : q = q / d * d := (Rat.div_mul_cancel (Rat.ne_of_gt (by grind))).symm
  generalize q / d = r at hq ⊢
  subst hq
  obtain hr | hr : 0 ≤ r ∨ r ≤ 0 := Rat.le_total
  · have hle := Rat.mul_le_mul_of_nonneg_left hd hr
    rw [Rat.abs_of_nonneg hr, Rat.abs_of_nonneg (by grind)]
    grind
  · have hle := Rat.mul_le_mul_of_nonneg_left hd (c := -r) (by grind)
    rw [Rat.abs_of_nonpos hr, Rat.abs_of_nonpos (by grind)]
    grind

theorem Double.exists_ofInt? {k : Int} (h : ∀ b, nearest k ≠ .infinite b) :
    ∃ x, ofInt? k = some x := by
  unfold ofInt?
  split
  · exact absurd ‹_› (h _)
  · exact ⟨_, rfl⟩

namespace Number

variable {a b : Number}

theorem Within.exists_rounded (h : a.Within i) (hi : (i : Rat) ≤ 2 ^ (1023 : Int)) :
    ∃ x, a.rounded = .ok x := by
  cases a with
  | double x => exact ⟨x, rfl⟩
  | int k =>
    have hsize : k.natAbs ≤ i := h
    have hfinite : ∀ b, Double.nearest k ≠ .infinite b :=
      Double.ofMagnitude_ne_infinite (abs_intCast_le hsize hi) _
    obtain ⟨x, hx⟩ := Double.exists_ofInt? hfinite
    refine ⟨x, ?_⟩
    unfold rounded
    dsimp only
    rw [hx]

/-- A sum or a difference of numbers within limits. -/
theorem Within.exists_combine {onInts : Int → Int → Int}
    (honInts : ∀ k l, (onInts k l).natAbs ≤ k.natAbs + l.natAbs)
    (onDoubles : Double → Double → Double) (ha : a.Within i)
    (hb : b.Within j) (hi : (i : Rat) ≤ 2 ^ (1023 : Int)) (hj : (j : Rat) ≤ 2 ^ (1023 : Int)) :
    ∃ c, a.combine onInts onDoubles b = .ok c ∧ c.Within (i + j) := by
  obtain ⟨x, hx⟩ := ha.exists_rounded hi
  obtain ⟨y, hy⟩ := hb.exists_rounded hj
  cases a with
  | double u => exact ⟨_, combine_double_left hy u, trivial⟩
  | int k =>
    cases b with
    | double w => exact ⟨_, combine_double_right hx w, trivial⟩
    | int l => exact ⟨_, rfl, Nat.le_trans (honInts k l) (Nat.add_le_add ha hb)⟩

/-- A quotient by a positive count. -/
theorem Within.exists_div (ha : a.Within i) (hi : (i : Rat) ≤ 2 ^ (1023 : Int)) {n : Nat}
    (hn : n ≠ 0) (hcount : (n : Rat) ≤ 2 ^ (1023 : Int)) : ∃ x, a.div (.int n) = .ok x := by
  have hone : (1 : Rat) ≤ n := Rat.natCast_le_natCast.mpr (Nat.pos_of_ne_zero hn)
  cases a with
  | int k =>
    have hquotient : ((k : Rat) / (n : Int)).abs ≤ 2 ^ (1023 : Int) := by
      have hk : (k : Rat).abs ≤ 2 ^ (1023 : Int) := abs_intCast_le ha hi
      rw [Rat.intCast_natCast]
      exact Rat.le_trans (abs_div_le hone) hk
    have hfinite : ∀ b, Double.ofQuotient k n ≠ .infinite b :=
      Double.ofMagnitude_ne_infinite hquotient _
    rw [div, if_neg (Int.natCast_ne_zero.mpr hn)]
    split
    · exact absurd ‹_› (hfinite _)
    · exact ⟨_, rfl⟩
  | double x =>
    obtain ⟨-, y, hy, hvalue⟩ | ⟨hlarge, -⟩ := rounded_int_cases (Int.natCast_nonneg n)
    · have hpos : 0 < Double.rounded (n : Int) := by
        have := Double.rounded_mono hone
        rw [Double.rounded_one] at this
        rw [Rat.intCast_natCast]
        grind
      refine ⟨x.div y, (bind_eq_of_eq_ok hy _).trans ?_⟩
      rw [Double.isZero_eq_false hvalue hpos]
      rfl
    · have hle := Double.rounded_le (n := 1023) (by decide) hcount
      have hlimit : (2 : Rat) ^ (1023 : Int) < 2 ^ (1024 : Int) := by decide +kernel
      rw [Rat.intCast_natCast] at hlarge
      exact absurd (by grind) hlarge

end Number

namespace Value

variable {v w : Value}

theorem within_zero (limit : Nat) : Within limit (.int 0) :=
  ⟨.int 0, rfl, Nat.zero_le limit⟩

theorem Within.exists_add (hv : v.Within i) (hw : w.Within j) (hi : (i : Rat) ≤ 2 ^ (1023 : Int))
    (hj : (j : Rat) ≤ 2 ^ (1023 : Int)) : ∃ u, v.add w = .ok u ∧ u.Within (i + j) := by
  obtain ⟨m, hm, hmw⟩ := hv
  obtain ⟨n, hn, hnw⟩ := hw
  obtain ⟨c, hc, hcw⟩ :=
    Number.Within.exists_combine Int.natAbs_add_le Double.add hmw hnw hi hj
  exact ⟨c.toValue, by rw [add_of_number? hm hn, hc]; rfl, c, number?_toValue c, hcw⟩

theorem Within.exists_sub (hv : v.Within i) (hw : w.Within j) (hi : (i : Rat) ≤ 2 ^ (1023 : Int))
    (hj : (j : Rat) ≤ 2 ^ (1023 : Int)) : ∃ u, v.sub w = .ok u ∧ u.Within (i + j) := by
  obtain ⟨m, hm, hmw⟩ := hv
  obtain ⟨n, hn, hnw⟩ := hw
  obtain ⟨c, hc, hcw⟩ :=
    Number.Within.exists_combine Int.natAbs_sub_le Double.sub hmw hnw hi hj
  exact ⟨c.toValue, by rw [sub, arithmetic, hm, hn]; dsimp only; rw [hc]; rfl, c,
    number?_toValue c, hcw⟩

theorem Within.exists_double_mul (hv : v.Within i) (hi : (i : Rat) ≤ 2 ^ (1023 : Int))
    (x : Double) : ∃ y, (double x).mul v = .ok (.double y) := by
  obtain ⟨n, hn, hnw⟩ := hv
  obtain ⟨y, hy⟩ := hnw.exists_rounded hi
  refine ⟨x.mul y, ?_⟩
  rw [mul, arithmetic, hn]
  exact congrArg (Except.map Number.toValue) (Number.combine_double_left hy x)

theorem times_of_number? {n : Number} (hv : v.number? = some n) (count : Nat) :
    v.times count = ((Number.int count).combine (· * ·) Double.mul n).map Number.toValue := by
  have hmul : mul (nat count) v =
      ((Number.int count).combine (· * ·) Double.mul n).map Number.toValue := by
    rw [mul, arithmetic, hv]
    rfl
  cases v with
  | text s => contradiction
  | list items => contradiction
  | _ => exact hmul

/-- A product of a count with a number. -/
theorem exists_times {n : Number} (hv : v.number? = some n) {count : Nat}
    (hcount : (count : Rat) ≤ 2 ^ (1023 : Int)) :
    ∃ u m, v.times count = .ok u ∧ u.number? = some m := by
  rw [times_of_number? hv]
  cases n with
  | int k => exact ⟨_, _, rfl, number?_toValue (.int (count * k))⟩
  | double x =>
    have hwithin : (Number.int count).Within count := Nat.le_of_eq (Int.natAbs_natCast count)
    obtain ⟨y, hy⟩ := hwithin.exists_rounded hcount
    exact ⟨_, _, congrArg (Except.map Number.toValue) (Number.combine_double_right hy x),
      number?_toValue (.double (y.mul x))⟩

end Value

end Within

end CodeHealth
