import CodeHealth.Proofs.Number.Format
import CodeHealth.Proofs.Profile.Totality
import CodeHealth.Proofs.Value.Doubles

/-!
# The terms of the ratio fall

Each of the three terms falls, or stays the same, when what it measures grows. A term is made of a
difference, a quotient and a clamp, each rounded on its own, and none of these steps changes the
order of two values.

The caps may be whole numbers or floating point numbers, and the two are computed with in different
ways. A complexity above its cap leaves nothing (`Number.rest`), and a number of smells that is too
large for a quotient is no number of smells at all.
-/

namespace CodeHealth

namespace Double

variable {x y : Double} {p q : Rat}

/-! ### Keeping a number within bounds -/

theorem toRat?_clamp (hq : x.toRat? = some q) (hnonneg : 0 ≤ q) :
    x.clamp.toRat? = some (if q < 1 then q else 1) := by
  rw [clamp, lt_of_toRat? hq (rfl : one.toRat? = some 1),
    lt_of_toRat? (rfl : zero.toRat? = some 0) hq]
  by_cases hone : q < 1
  · rw [decide_eq_true hone, if_pos rfl, if_pos hone]
    by_cases hzero : 0 < q
    · rw [decide_eq_true hzero, if_pos rfl, hq]
    · rw [decide_eq_false hzero, if_neg Bool.false_ne_true,
        Rat.le_antisymm (Rat.not_lt.mp hzero) hnonneg]
      rfl
  · rw [decide_eq_false hone, if_neg Bool.false_ne_true, if_neg hone]
    rfl

theorem clamp_le_clamp (hx : x.Nonneg) (hy : y.Nonneg) (h : x.le y = true) :
    x.clamp.le y.clamp = true := by
  obtain ⟨q, hq, hq0⟩ | rfl := hy.cases
  · obtain ⟨p, hp, hp0, hle⟩ := hx.exists_of_le h hq
    refine (le_iff_of_toRat? (toRat?_clamp hp hp0) (toRat?_clamp hq hq0)).mpr ?_
    grind
  · obtain ⟨p, hp, -, hle⟩ := isShare_clamp x
    rw [hp]
    exact (le_iff_of_toRat? rfl rfl).mpr hle

theorem toRat?_atMostOne (hq : x.toRat? = some q) :
    x.atMostOne.toRat? = some (if 1 < q then 1 else q) := by
  rw [atMostOne, lt_of_toRat? (rfl : one.toRat? = some 1) hq]
  by_cases hone : 1 < q
  · rw [decide_eq_true hone, if_pos rfl, if_pos hone]
    rfl
  · rw [decide_eq_false hone, if_neg Bool.false_ne_true, if_neg hone, hq]

/-- What is missing to one falls when a number grows. -/
theorem one_sub_atMostOne_le (hx : x.Nonneg) (hy : y.Nonneg) (h : x.le y = true) :
    (one.sub y.atMostOne).Nonneg ∧ (one.sub y.atMostOne).le (one.sub x.atMostOne) = true := by
  have hone : one.toRat? = some 1 := rfl
  obtain ⟨q, hq, hq0⟩ | rfl := hy.cases
  · obtain ⟨p, hp, hp0, hle⟩ := hx.exists_of_le h hq
    have hx' := rounds_sub hone (toRat?_atMostOne hp) (by grind)
    have hy' := rounds_sub hone (toRat?_atMostOne hq) (by grind)
    exact ⟨hy'.nonneg, hy'.le hx' (by grind)⟩
  · have hy' := rounds_sub hone hone Rat.le_refl
    refine ⟨hy'.nonneg, ?_⟩
    obtain ⟨p, hp, hp0⟩ | rfl := hx.cases
    · exact hy'.le (rounds_sub hone (toRat?_atMostOne hp) (by grind)) (by grind)
    · exact hy'.le hy' Rat.le_refl

end Double

namespace Number

/-! ### Caps -/

/-- Whether a number is finite, and not merely a rational that no floating point number has. -/
def IsFinite : Number → Prop
  | .int _ => True
  | .double x => x.InFormat ∧ ∃ q, x.toRat? = some q

/-- The value of a finite number. -/
def value (n : Number) : Rat :=
  n.exact.toRat?.getD 0

theorem IsFinite.toRat?_exact {n : Number} (h : n.IsFinite) : n.exact.toRat? = some n.value := by
  cases n with
  | int k => rfl
  | double x =>
    obtain ⟨-, q, hq⟩ := h
    rw [value, exact, hq]
    rfl

/-- What is left from a complexity to a cap. -/
def rest (cap : Number) (c : Int) : Rat :=
  if cap.value < c then 0
  else
    match cap with
    | .int n => ((n - c : Int) : Rat)
    | .double _ => Double.rounded (cap.value - Double.rounded c)

theorem rest_nonneg (cap : Number) (c : Int) : 0 ≤ cap.rest c := by
  unfold rest
  split
  · exact Rat.le_refl
  · rename_i hle
    cases cap with
    | int n =>
      have : c ≤ n := Rat.intCast_le_intCast.mp (Rat.not_lt.mp hle)
      exact Rat.intCast_nonneg.mpr (by omega)
    | double x => exact Double.rounded_nonneg _

/-- A larger complexity leaves less. -/
theorem rest_antitone (cap : Number) {c c' : Int} (h : c ≤ c') : cap.rest c' ≤ cap.rest c := by
  have hcast : (c : Rat) ≤ c' := Rat.intCast_le_intCast.mpr h
  by_cases habove : cap.value < c'
  · have hzero : cap.rest c' = 0 := if_pos habove
    rw [hzero]
    exact cap.rest_nonneg c
  · have hbelow : ¬cap.value < c := by grind
    unfold rest
    rw [if_neg habove, if_neg hbelow]
    cases cap with
    | int n => exact Rat.intCast_le_intCast.mpr (by omega)
    | double x =>
      have := Double.rounded_mono hcast
      exact Double.rounded_mono (by grind)

/-- The share of a cap that a number of smells makes up. -/
def load (cap : Number) (k : Nat) : Rat :=
  match cap with
  | .int n => ((k : Int) : Rat) / n
  | .double _ => Double.rounded ((k : Int) : Rat) / cap.value

theorem load_mono (cap : Number) (hcap : 0 < cap.value) {k k' : Nat} (h : k ≤ k') :
    cap.load k ≤ cap.load k' := by
  have hcast : ((k : Int) : Rat) ≤ (k' : Int) := Rat.intCast_le_intCast.mpr (Int.ofNat_le.mpr h)
  cases cap with
  | int n => exact Double.quotient_mono hcap hcast
  | double x => exact Double.quotient_mono hcap (Double.rounded_mono hcast)

end Number

namespace Scoring

/-! ### The terms -/

variable {s : Scoring} {cap : Number} {c : Int}

/-- Below its cap a complexity is at least as precise as the cap, so nothing negative is left. -/
theorem rounded_le_of_inFormat {x : Double} (hx : x.InFormat) {q : Rat} (hq : x.toRat? = some q)
    (hnonneg : 0 ≤ q) {p : Rat} (h : p ≤ q) :
    Double.rounded p ≤ q ∧ Double.rounded q < 2 ^ (1024 : Int) := by
  have hformat : Double.rounded q = q ∧ q < 2 ^ (1024 : Int) := by
    obtain rfl | ⟨-, rfl⟩ := Double.cases_of_toRat? hq
    · have := hx
      rw [Double.InFormat, Rat.abs_of_nonneg hnonneg] at this
      exact this
    · exact ⟨rfl, Double.two_zpow_pos 1024⟩
  have := Double.rounded_mono h
  grind

theorem complexityTerm_int {n : Int} (hcap : s.complexityCap.number? = some (.int n)) (hn : 1 ≤ n)
    (hc : 0 ≤ c) : ∃ x : Double, s.complexityTerm (.int c) = .ok x.clamp ∧
      x.Rounds (Number.rest (.int n) c / n) := by
  have hrest : Number.rest (.int n) c = ((n - min c n : Int) : Rat) := by
    have hvalue : Number.value (.int n) = n := rfl
    unfold Number.rest
    rw [hvalue]
    split
    · rename_i h
      have := Rat.intCast_lt_intCast.mp h
      rw [Int.min_eq_right (by omega), Int.sub_self]
      rfl
    · rename_i h
      have := Rat.intCast_le_intCast.mp (Rat.not_lt.mp h)
      rw [Int.min_eq_left this]
  refine ⟨_, complexityTerm_of_int hcap (by omega) hc, ?_⟩
  rw [hrest, Double.ofQuotient_eq (by omega) (by omega)]
  exact Double.rounds_magnitude _

/-- The smaller one of a complexity and a cap that is a floating point number. -/
theorem exists_min {y : Double} {v : Value} (hcap : v.number? = some (.double y))
    (hfinite : Number.IsFinite (.double y)) (hnonneg : 0 ≤ Number.value (.double y)) (hc : 0 ≤ c) :
    ∃ least n z r, (Value.int c).min v = .ok least ∧ least.number? = some n ∧
      n.rounded = .ok z ∧ z.toRat? = some r ∧ 0 ≤ r ∧ r ≤ Number.value (.double y) ∧
      Double.rounded (Number.value (.double y) - r) = Number.rest (.double y) c := by
  have hy : y.toRat? = some (Number.value (.double y)) := hfinite.toRat?_exact
  have hlt : v.lt (.int c) = .ok (decide (Number.value (.double y) < c)) := by
    rw [Value.lt, Value.compare_of_number? hcap (rfl : (Value.int c).number? = some (.int c))]
    exact congrArg Except.ok (Double.lt_of_toRat? hy rfl)
  by_cases habove : Number.value (.double y) < c
  · refine ⟨v, .double y, y, _, ?_, hcap, rfl, hy, hnonneg, Rat.le_refl, ?_⟩
    · rw [Value.min, hlt, decide_eq_true habove]
      rfl
    · rw [Rat.sub_self, Number.rest, if_pos habove]
      exact Double.rounded_zero
  · obtain ⟨hle, hlimit⟩ :=
      rounded_le_of_inFormat hfinite.1 hy hnonneg (Rat.not_lt.mp habove)
    have hrest : Number.rest (.double y) c =
        Double.rounded (Number.value (.double y) - Double.rounded c) := if_neg habove
    obtain ⟨-, z, hz, hvalue⟩ | ⟨hnot, -⟩ := Number.rounded_int_cases hc
    · refine ⟨.int c, .int c, z, _, ?_, rfl, hz, hvalue, Double.rounded_nonneg c, hle, hrest.symm⟩
      rw [Value.min, hlt, decide_eq_false habove]
      rfl
    · have := Double.rounded_mono (Rat.not_lt.mp habove)
      exact absurd (by grind) hnot

theorem complexityTerm_double {y : Double} (hcap : s.complexityCap.number? = some (.double y))
    (hfinite : Number.IsFinite (.double y)) (hone : 1 ≤ Number.value (.double y)) (hc : 0 ≤ c) :
    ∃ x : Double, s.complexityTerm (.int c) = .ok x.clamp ∧
      x.Rounds (Number.rest (.double y) c / Number.value (.double y)) := by
  have hy : y.toRat? = some (Number.value (.double y)) := hfinite.toRat?_exact
  have hnonneg : 0 ≤ Number.value (.double y) := by grind
  have hzero : y.isZero = false := Double.isZero_eq_false hy (by grind)
  obtain ⟨least, n, z, r, hmin, hleast, hz, hr, hr0, hle, hrest⟩ :=
    exists_min hcap hfinite hnonneg hc
  refine ⟨(y.sub z).div y, ?_, ?_⟩
  · exact complexityTerm_of_div hmin (Value.sub_of_rounded hcap hleast hz)
      (Value.div_of_rounded rfl rfl hcap hzero)
  · have hlimit := (rounded_le_of_inFormat hfinite.1 hy hnonneg Rat.le_refl).2
    have hmono : Double.rounded (Number.value (.double y) - r) ≤
        Double.rounded (Number.value (.double y)) := Double.rounded_mono (by grind)
    have hdifference := (Double.rounds_sub hy hr hle).toRat?_of_lt (by grind)
    rw [hrest] at hdifference
    exact Double.rounds_div hdifference hy (Number.rest_nonneg _ c) (by grind)

theorem complexityTerm_eq (hcap : s.complexityCap.number? = some cap) (hfinite : cap.IsFinite)
    (hone : 1 ≤ cap.value) (hc : 0 ≤ c) : ∃ x : Double,
      s.complexityTerm (.int c) = .ok x.clamp ∧ x.Rounds (cap.rest c / cap.value) := by
  cases cap with
  | int n => exact complexityTerm_int hcap (Rat.intCast_le_intCast.mp hone) hc
  | double y => exact complexityTerm_double hcap hfinite hone hc

/-- The term of the complexity falls. -/
theorem complexityTerm_antitone (hcap : s.complexityCap.number? = some cap)
    (hfinite : cap.IsFinite) (hone : 1 ≤ cap.value) {c' : Int} (hc : 0 ≤ c) (h : c ≤ c') :
    ∃ x x' : Double, s.complexityTerm (.int c) = .ok x ∧ s.complexityTerm (.int c') = .ok x' ∧
      x.IsShare ∧ x'.IsShare ∧ x'.le x = true := by
  obtain ⟨x, hx, hrounds⟩ := complexityTerm_eq hcap hfinite hone hc
  obtain ⟨x', hx', hrounds'⟩ := complexityTerm_eq hcap hfinite hone (Int.le_trans hc h)
  refine ⟨_, _, hx, hx', Double.isShare_clamp x, Double.isShare_clamp x', ?_⟩
  refine Double.clamp_le_clamp hrounds'.nonneg hrounds.nonneg (hrounds'.le hrounds ?_)
  exact Double.quotient_mono (by grind) (cap.rest_antitone h)

theorem duplicationTerm_eq {d : Value} {n : Number} {q : Rat} (hd : d.number? = some n)
    (hq : n.exact.toRat? = some q) (hnonneg : 0 ≤ q) (hle : q ≤ 1) :
    ∃ x : Double, duplicationTerm d = .ok x.clamp ∧ x.Rounds (1 - q) := by
  cases n with
  | int k =>
    obtain rfl : (k : Rat) = q := Option.some.inj hq
    have hk : k = 0 ∨ k = 1 := by
      have := Rat.intCast_nonneg.mp hnonneg
      have : k ≤ 1 := Rat.intCast_le_intCast.mp hle
      omega
    refine ⟨.finite ((1 - k : Int) : Rat), ?_, ?_⟩
    · rw [duplicationTerm, Value.sub_of_number? (m := 1) rfl hd]
      rfl
    · have hsub : (1 : Rat) - k = ((1 - k : Int) : Rat) := by
        rw [Rat.intCast_sub]
        rfl
      rw [hsub]
      obtain rfl | rfl := hk
      · exact Double.rounds_finite Double.rounded_one (by decide +kernel)
      · exact Double.rounds_finite Double.rounded_zero (by decide +kernel)
  | double x =>
    have hdouble : d = .double x := by
      cases d <;> simp_all [Value.number?]
    rw [hdouble, duplicationTerm_double]
    exact ⟨_, rfl, Double.rounds_sub rfl hq hle⟩

/-- Of two values between zero and one both are numbers that have such a value. -/
theorem exists_values_of_le {d d' : Value} (hnonneg : (Value.int 0).le d = .ok true)
    (h : d.le d' = .ok true) (hle : d'.le (.int 1) = .ok true) :
    ∃ n n' q q', d.number? = some n ∧ d'.number? = some n' ∧ n.exact.toRat? = some q ∧
      n'.exact.toRat? = some q' ∧ 0 ≤ q ∧ q ≤ q' ∧ q' ≤ 1 := by
  obtain ⟨n, hn, hn0⟩ := Value.exists_number_of_le rfl hnonneg
  obtain ⟨n', hn', hnn'⟩ := Value.exists_number_of_le hn h
  obtain ⟨m, hm, hle'⟩ := Value.exists_number_of_le hn' hle
  obtain rfl : Number.int 1 = m := Option.some.inj hm
  have hone : (Number.int 1).exact.toRat? = some 1 := rfl
  have hnonneg' : n.exact.Nonneg := hn0
  obtain ⟨q', hq', hq0', hqle'⟩ := (hnonneg'.of_le hnn').exists_of_le hle' hone
  obtain ⟨q, hq, hq0, hqle⟩ := hnonneg'.exists_of_le hnn' hq'
  exact ⟨n, n', q, q', hn, hn', hq, hq', hq0, hqle, hqle'⟩

/-- The term of the duplication falls. -/
theorem duplicationTerm_antitone {d d' : Value} (hnonneg : (Value.int 0).le d = .ok true)
    (h : d.le d' = .ok true) (hle : d'.le (.int 1) = .ok true) :
    ∃ x x' : Double, duplicationTerm d = .ok x ∧ duplicationTerm d' = .ok x' ∧
      x.IsShare ∧ x'.IsShare ∧ x'.le x = true := by
  obtain ⟨n, n', q, q', hn, hn', hq, hq', hq0, hqle, hqle'⟩ :=
    exists_values_of_le hnonneg h hle
  obtain ⟨x, hx, hrounds⟩ := duplicationTerm_eq hn hq hq0 (Rat.le_trans hqle hqle')
  obtain ⟨x', hx', hrounds'⟩ := duplicationTerm_eq hn' hq' (Rat.le_trans hq0 hqle) hqle'
  refine ⟨_, _, hx, hx', Double.isShare_clamp x, Double.isShare_clamp x', ?_⟩
  exact Double.clamp_le_clamp hrounds'.nonneg hrounds.nonneg (hrounds'.le hrounds (by grind))

/-- A number of smells has a term unless its quotient is too large. -/
theorem exists_share_of_smellTerm (hcap : s.smellCap.number? = some cap) (hfinite : cap.IsFinite)
    (hone : 1 ≤ cap.value) {k : Nat} {x : Double} (h : s.smellTerm (.nat k) = .ok x) :
    ∃ share : Double, x = (Double.one.sub share.atMostOne).clamp ∧ share.Rounds (cap.load k) := by
  rw [smellTerm_eq_bind] at h
  obtain ⟨share, hshare, h⟩ := exists_of_bind_eq_ok h
  refine ⟨share, (Except.ok.inj h).symm, ?_⟩
  have hk : (0 : Int) ≤ k := Int.natCast_nonneg k
  have hnumber : (Value.nat k).number? = some (.int k) := rfl
  rw [Value.div, hcap, hnumber] at hshare
  cases cap with
  | int n =>
    have hn : 0 < n := Rat.intCast_le_intCast.mp hone
    have hquotient : Double.ofQuotient k n = share := by
      dsimp only at hshare
      unfold Number.div at hshare
      dsimp only at hshare
      rw [if_neg (by omega)] at hshare
      cases hq : Double.ofQuotient k n with
      | infinite negative =>
        rw [hq] at hshare
        contradiction
      | _ =>
        rw [hq] at hshare
        exact Except.ok.inj hshare
    rw [← hquotient, Double.ofQuotient_eq hk hn]
    exact Double.rounds_magnitude _
  | double y =>
    have hy : y.toRat? = some (Number.value (.double y)) := hfinite.toRat?_exact
    obtain ⟨z, hz, hshare⟩ := exists_of_bind_eq_ok hshare
    have hzero : y.isZero = false := Double.isZero_eq_false hy (by grind)
    have hquotient : z.div y = share := by
      change (if y.isZero = true then _ else _) = _ at hshare
      rw [hzero] at hshare
      exact Except.ok.inj hshare
    rw [← hquotient]
    exact Double.rounds_div (Number.toRat?_of_rounded_int hk hz) hy (Double.rounded_nonneg _)
      (by grind)

/-- The term of the number of smells falls. -/
theorem smellTerm_antitone (hcap : s.smellCap.number? = some cap) (hfinite : cap.IsFinite)
    (hone : 1 ≤ cap.value) {k k' : Nat} (h : k ≤ k') {x x' : Double}
    (hx : s.smellTerm (.nat k) = .ok x) (hx' : s.smellTerm (.nat k') = .ok x') :
    x.IsShare ∧ x'.IsShare ∧ x'.le x = true := by
  obtain ⟨share, rfl, hrounds⟩ := exists_share_of_smellTerm hcap hfinite hone hx
  obtain ⟨share', rfl, hrounds'⟩ := exists_share_of_smellTerm hcap hfinite hone hx'
  refine ⟨Double.isShare_clamp _, Double.isShare_clamp _, ?_⟩
  have hle := hrounds.le hrounds' (cap.load_mono (by grind) h)
  obtain ⟨hnonneg', hmissing⟩ := Double.one_sub_atMostOne_le hrounds.nonneg hrounds'.nonneg hle
  obtain ⟨hnonneg, -⟩ := Double.one_sub_atMostOne_le hrounds.nonneg hrounds.nonneg
    (hrounds.le hrounds Rat.le_refl)
  exact Double.clamp_le_clamp hnonneg' hnonneg hmissing

/-- A number of smells that floating point arithmetic can take has a term. -/
theorem exists_smellTerm (hcap : s.smellCap.number? = some cap) (hfinite : cap.IsFinite)
    (hone : 1 ≤ cap.value) {k : Nat} (hlimit : (k : Rat) ≤ 2 ^ (1023 : Int)) :
    ∃ x, s.smellTerm (.nat k) = .ok x := by
  cases cap with
  | int n =>
    obtain ⟨x, hx, -⟩ := exists_smellTerm_of_int hcap (Rat.intCast_le_intCast.mp hone) hlimit
    exact ⟨x, hx⟩
  | double y =>
    have hy : y.toRat? = some (Number.value (.double y)) := hfinite.toRat?_exact
    have hrounded := Double.rounded_le (by decide) hlimit
    have hbound : (2 : Rat) ^ (1023 : Int) < 2 ^ (1024 : Int) := by decide +kernel
    obtain ⟨-, z, hz, -⟩ | ⟨hnot, -⟩ := Number.rounded_int_cases (Int.natCast_nonneg k)
    · rw [smellTerm_eq_bind, Value.div_of_rounded (v := .nat k) rfl hz hcap
        (Double.isZero_eq_false hy (by grind))]
      exact ⟨_, rfl⟩
    · exact absurd (by rw [Rat.intCast_natCast]; grind) hnot

end Scoring

end CodeHealth
