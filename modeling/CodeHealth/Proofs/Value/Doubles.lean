import CodeHealth.Proofs.Fault
import CodeHealth.Proofs.Number.Monotone
import CodeHealth.Proofs.Value.Numbers

/-!
# Numbers in floating point arithmetic

An operation on two whole numbers is exact, and any other one takes both numbers in floating point
(`Number.combine_cases`). A whole number may be too large for that, and a sum of numbers that are
not negative is at least as large as either of them. So where a sum has a value in floating point
arithmetic its parts have values as well (`Number.hasValue_of_add`).
-/

namespace CodeHealth

namespace Number

variable {a b c n : Number} {x : Double}

theorem rounded_int_of_toRat? {k : Int} {q : Rat} (h : (Double.nearest k).toRat? = some q) :
    rounded (.int k) = .ok (Double.nearest k) := by
  unfold rounded
  dsimp only
  unfold Double.ofInt?
  obtain hfinite | ⟨hzero, -⟩ := Double.cases_of_toRat? h
  · rw [hfinite]
  · rw [hzero]

theorem rounded_int_of_infinite {k : Int} (h : Double.nearest k = .infinite false) :
    rounded (.int k) = .error .tooLarge := by
  unfold rounded
  dsimp only
  unfold Double.ofInt?
  rw [h]

/-- A whole number in floating point, if it is not too large. -/
theorem rounded_int_cases {k : Int} (hk : 0 ≤ k) :
    (Double.rounded k < 2 ^ (1024 : Int) ∧
      ∃ x, rounded (.int k) = .ok x ∧ x.toRat? = some (Double.rounded k)) ∨
    ¬Double.rounded k < 2 ^ (1024 : Int) ∧ rounded (.int k) = .error .tooLarge := by
  have hrounds : (Double.nearest k).Rounds k :=
    Double.rounds_nearest (Rat.intCast_nonneg.mpr hk)
  by_cases hlt : Double.rounded k < 2 ^ (1024 : Int)
  · have hvalue := hrounds.toRat?_of_lt hlt
    exact .inl ⟨hlt, _, rounded_int_of_toRat? hvalue, hvalue⟩
  · exact .inr ⟨hlt, rounded_int_of_infinite (hrounds.eq_infinite hlt)⟩

theorem toRat?_of_rounded_int {k : Int} (hk : 0 ≤ k) (h : rounded (.int k) = .ok x) :
    x.toRat? = some (Double.rounded k) := by
  obtain ⟨-, y, hy, hvalue⟩ | ⟨-, herror⟩ := rounded_int_cases hk
  · obtain rfl := Except.ok.inj (hy.symm.trans h)
    exact hvalue
  · rw [herror] at h
    contradiction

theorem nonneg_of_int {k : Int} (h : (Number.int k).exact.Nonneg) : 0 ≤ k :=
  Rat.intCast_nonneg.mp ((Double.le_iff_of_toRat? rfl rfl).mp h)

theorem nonneg_of_rounded (hn : n.exact.Nonneg) (h : n.rounded = .ok x) : x.Nonneg := by
  cases n with
  | int k =>
    exact Double.nonneg_of_toRat? (toRat?_of_rounded_int (nonneg_of_int hn) h)
      (Double.rounded_nonneg k)
  | double y =>
    obtain rfl := Except.ok.inj h
    exact hn

theorem combine_cases {onInts : Int → Int → Int} {onDoubles : Double → Double → Double}
    (h : a.combine onInts onDoubles b = .ok c) :
    (∃ k l, a = .int k ∧ b = .int l ∧ c = .int (onInts k l)) ∨
      ∃ x y, a.rounded = .ok x ∧ b.rounded = .ok y ∧ c = .double (onDoubles x y) := by
  have hmixed (h : (do return Number.double (onDoubles (← a.rounded) (← b.rounded))) =
      Except.ok c) :
      ∃ x y, a.rounded = .ok x ∧ b.rounded = .ok y ∧ c = .double (onDoubles x y) := by
    obtain ⟨x, hx, h⟩ := exists_of_bind_eq_ok h
    obtain ⟨y, hy, h⟩ := exists_of_bind_eq_ok h
    exact ⟨x, y, hx, hy, (Except.ok.inj h).symm⟩
  cases a with
  | int k =>
    cases b with
    | int l => exact .inl ⟨k, l, rfl, rfl, (Except.ok.inj h).symm⟩
    | double y => exact .inr (hmixed h)
  | double x => exact .inr (hmixed h)

section Combine

variable {onInts : Int → Int → Int} {onDoubles : Double → Double → Double} {y : Double}

theorem combine_double_left (hn : n.rounded = .ok y) (x : Double) :
    (double x).combine onInts onDoubles n = .ok (.double (onDoubles x y)) :=
  bind_eq_of_eq_ok hn _

theorem combine_double_right (hn : n.rounded = .ok y) (x : Double) :
    n.combine onInts onDoubles (.double x) = .ok (.double (onDoubles y x)) := by
  cases n with
  | int k => exact bind_eq_of_eq_ok hn _
  | double z =>
    obtain rfl := Except.ok.inj hn
    rfl

end Combine

/-- Whether a number has a value in floating point arithmetic. -/
def HasValue (n : Number) : Prop :=
  ∃ x q, n.rounded = .ok x ∧ x.toRat? = some q

theorem hasValue_of_le {k l : Int} (hk : 0 ≤ k) (hle : k ≤ l) (h : HasValue (.int l)) :
    HasValue (.int k) := by
  obtain ⟨hlt, x, hx, hvalue⟩ | ⟨hlt, -⟩ := rounded_int_cases hk
  · exact ⟨x, _, hx, hvalue⟩
  · obtain ⟨y, q, hy, -⟩ := h
    obtain ⟨hlt', -⟩ | ⟨-, herror⟩ := rounded_int_cases (Int.le_trans hk hle)
    · have := Double.rounded_mono (Rat.intCast_le_intCast.mpr hle)
      exact absurd (by grind) hlt
    · rw [herror] at hy
      contradiction

/-- A sum of numbers that are not negative is none, and if it has a value so have its parts. -/
theorem hasValue_of_add (ha : a.exact.Nonneg) (hb : b.exact.Nonneg)
    (h : a.combine (· + ·) Double.add b = .ok c) :
    c.exact.Nonneg ∧ (c.HasValue → a.HasValue ∧ b.HasValue) := by
  obtain ⟨k, l, rfl, rfl, rfl⟩ | ⟨x, y, hx, hy, rfl⟩ := combine_cases h
  · have hk := nonneg_of_int ha
    have hl := nonneg_of_int hb
    have hsum : (0 : Rat) ≤ ((k + l : Int) : Rat) := Rat.intCast_nonneg.mpr (by omega)
    refine ⟨Double.nonneg_of_toRat? rfl hsum, fun hvalue => ⟨?_, ?_⟩⟩
    · exact hasValue_of_le hk (by omega) hvalue
    · exact hasValue_of_le hl (by omega) hvalue
  · have hx0 := nonneg_of_rounded ha hx
    have hy0 := nonneg_of_rounded hb hy
    refine ⟨hx0.add hy0, ?_⟩
    rintro ⟨z, r, hz, hr⟩
    obtain rfl := Except.ok.inj hz
    obtain ⟨p, q, hp, hq, -⟩ | hinfinite := hx0.add_cases hy0
    · exact ⟨⟨x, p, hx, hp⟩, ⟨y, q, hy, hq⟩⟩
    · rw [hinfinite] at hr
      contradiction

end Number

namespace Value

variable {v w : Value} {m n : Number} {x y : Double}

theorem number?_toValue (n : Number) : n.toValue.number? = some n := by
  cases n with
  | int k => rfl
  | double x => rfl

/-- What a number does not lie above is a number itself. -/
theorem exists_number_of_le (hv : v.number? = some m) (h : v.le w = .ok true) :
    ∃ n, w.number? = some n ∧ m.exact.le n.exact = true := by
  cases hw : w.number? with
  | some n =>
    rw [le, compare_of_number? hv hw] at h
    exact ⟨n, rfl, Except.ok.inj h⟩
  | none =>
    rw [le] at h
    unfold compare at h
    split at h
    · contradiction
    · contradiction
    · rw [hv, hw] at h
      contradiction

theorem add_of_number? (hv : v.number? = some m) (hw : w.number? = some n) :
    v.add w = (m.combine (· + ·) Double.add n).map Number.toValue := by
  have harithmetic : arithmetic "+" (· + ·) Double.add v w =
      (m.combine (· + ·) Double.add n).map Number.toValue := by
    rw [arithmetic, hv, hw]
  rw [← harithmetic]
  cases v with
  | text s => contradiction
  | list items => contradiction
  | _ => rfl

/-- A difference of a floating point number. -/
theorem sub_of_rounded (hv : v.number? = some (.double x)) (hw : w.number? = some n)
    (hn : n.rounded = .ok y) : v.sub w = .ok (.double (x.sub y)) := by
  rw [sub, arithmetic, hv, hw]
  exact congrArg (Except.map Number.toValue) (Number.combine_double_left hn x)

/-- A product with a floating point number. -/
theorem mul_of_rounded (hv : v.number? = some m) (hm : m.rounded = .ok y) (x : Double) :
    v.mul (.double x) = .ok (.double (y.mul x)) := by
  rw [mul, arithmetic, hv]
  exact congrArg (Except.map Number.toValue) (Number.combine_double_right hm x)

/-- A quotient by a floating point number. -/
theorem div_of_rounded (hv : v.number? = some m) (hm : m.rounded = .ok x)
    (hw : w.number? = some (.double y)) (hy : y.isZero = false) : v.div w = .ok (x.div y) := by
  have hdiv : v.div w = m.rounded >>= fun x =>
      if y.isZero then .error .divisionByZero else .ok (x.div y) := by
    rw [div, hv, hw]
    cases m with
    | int k => rfl
    | double z => rfl
  rw [hdiv, hm]
  change (if y.isZero = true then _ else _) = _
  rw [hy]
  rfl

end Value

end CodeHealth
