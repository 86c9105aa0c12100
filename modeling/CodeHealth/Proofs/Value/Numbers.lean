import CodeHealth.Value.Arithmetic

/-!
# Numbers among the values

A setting that should be a whole number may be a truth value as well, which then counts as zero or
one. Where only the number matters the two are not told apart. An operation on two numbers is that
on the numbers that they are.
-/

namespace CodeHealth

theorem Double.lt_finite (p q : Rat) :
    (Double.finite p).lt (.finite q) = decide (p < q) := rfl

namespace Value

/-- A value that is a whole number is a number proper or a truth value. -/
theorem cases_of_number? {v : Value} {n : Int} (h : v.number? = some (.int n)) :
    v = .int n ∨ ∃ b : Bool, v = .bool b ∧ n = if b then 1 else 0 := by
  cases v with
  | bool b =>
    obtain rfl := Number.int.inj (Option.some.inj h)
    exact .inr ⟨b, rfl, rfl⟩
  | int m =>
    obtain rfl := Number.int.inj (Option.some.inj h)
    exact .inl rfl
  | double x => exact absurd (Option.some.inj h) Number.noConfusion
  | _ => contradiction

theorem truthy_of_number? {v : Value} {n : Int} (h : v.number? = some (.int n)) :
    v.truthy = decide (n ≠ 0) := by
  obtain rfl | ⟨b, rfl, rfl⟩ := cases_of_number? h
  · rfl
  · cases b <;> rfl

theorem compare_of_number? {v w : Value} {x y : Number} (hv : v.number? = some x)
    (hw : w.number? = some y) (op : Comparison) :
    compare op v w = .ok (op.onDoubles x.exact y.exact) := by
  unfold compare
  split
  · contradiction
  · contradiction
  · rw [hv, hw]

theorem lt_of_number? {v w : Value} {m n : Int} (hv : v.number? = some (.int m))
    (hw : w.number? = some (.int n)) : v.lt w = .ok (decide (m < n)) := by
  rw [lt, compare_of_number? hv hw, Comparison.onDoubles, Number.exact, Number.exact,
    Double.lt_finite]
  simp only [Rat.intCast_lt_intCast]

/-- A whole number that is found not to lie below a bound does not. -/
theorem le_of_not_lt {v : Value} {m n : Int} (hv : v.number? = some (.int n))
    (h : (!·) <$> v.lt (.int m) = .ok true) : m ≤ n := by
  rw [lt_of_number? hv rfl] at h
  have := Except.ok.inj h
  simpa using this

theorem nat_gt_of_number? {v : Value} {n : Int} (h : v.number? = some (.int n)) (k : Nat) :
    (nat k).gt v = .ok (decide (n < k)) := by
  rw [gt, compare_of_number? (v := nat k) (x := .int k) rfl h, Comparison.onDoubles, Number.exact,
    Number.exact, Double.lt_finite]
  simp only [Rat.intCast_lt_intCast]

/-- The smaller one of two whole numbers is a whole number. -/
theorem min_of_number? {v w : Value} {m n : Int} (hv : v.number? = some (.int m))
    (hw : w.number? = some (.int n)) :
    ∃ u, v.min w = .ok u ∧ u.number? = some (.int (Min.min m n)) := by
  rw [min, lt_of_number? hw hv]
  by_cases h : n < m
  · exact ⟨w, by rw [decide_eq_true h]; rfl, by rw [Int.min_eq_right (Int.le_of_lt h), hw]⟩
  · exact ⟨v, by rw [decide_eq_false h]; rfl, by rw [Int.min_eq_left (Int.not_lt.mp h), hv]⟩

/-- Whether a value is a number of either kind. Truth values are. -/
def IsNumber (v : Value) : Prop :=
  ∃ x, v.number? = some x

theorem IsNumber.exists_compare {v w : Value} (hv : v.IsNumber) (hw : w.IsNumber)
    (op : Comparison) : ∃ b, compare op v w = .ok b := by
  obtain ⟨x, hx⟩ := hv
  obtain ⟨y, hy⟩ := hw
  exact ⟨_, compare_of_number? hx hy op⟩

theorem isNumber_double (x : Double) : (double x).IsNumber :=
  ⟨.double x, rfl⟩

/-- A whole number beyond all floating point numbers cannot be divided by one. -/
theorem div_double_of_eq_none {n : Int} (h : Double.ofInt? n = none) (x : Double) :
    (int n).div (.double x) = .error .tooLarge := by
  have hrounded : Number.rounded (.int n) = .error .tooLarge := by
    unfold Number.rounded
    dsimp only
    rw [h]
  change Number.rounded (.int n) >>= _ = _
  rw [hrounded]
  rfl

end Value

end CodeHealth
