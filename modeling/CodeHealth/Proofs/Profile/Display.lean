import CodeHealth.Proofs.Profile.Monotone

/-!
# The ratio that is shown is the one that is assessed

The ratio of a profile is rounded to decimal places, kept as the nearest floating point number, and
rounded to the same places again when it is written. With at most fifteen places the second rounding
finds the decimal of the first one again, since a number between zero and one is kept with less than
half a unit of the last place lost. So the text of the ratio is the raw ratio rounded half up once,
and the assessment is that of the number nearest to this text (`Profile.shown_debt`).
-/

namespace CodeHealth

/-! ### The text of a share -/

namespace Fixed

variable {k : Nat}

/-- Whether a text is the notation of a share of `k` units of the last place: one digit, and behind
the point as many digits as there are places. -/
def Shows (text : String) (k places : Nat) : Prop :=
  ∃ (whole : Char) (fraction : List Char),
    text = String.ofList (whole :: if fraction.isEmpty then [] else '.' :: fraction) ∧
    fraction.length = places ∧ (∀ c ∈ whole :: fraction, isDecimalDigit c = true) ∧
    digitsValue (whole :: fraction) = k

theorem length_decimalDigits_le {places : Nat} (h : k ≤ 10 ^ places) :
    (decimalDigits k).length ≤ places + 1 := by
  have hpos : 0 < 10 ^ places := Nat.pow_pos (by decide)
  refine (length_decimalDigits_le_iff (by omega)).mpr ?_
  rw [Nat.pow_succ]
  omega

theorem shows_display {places : Nat} (h : k ≤ 10 ^ places) :
    Shows (display ⟨false, k, places⟩) k places := by
  have hlength := length_decimalDigits_le h
  obtain ⟨ds, fraction, hparts, happend, hfraction⟩ := exists_parts false k places
  have hlengths := congrArg List.length happend
  rw [List.length_append, length_padded] at hlengths
  obtain ⟨whole, rfl⟩ := List.length_eq_one_iff.mp (show ds.length = 1 by omega)
  have hpadded : whole :: fraction = padded k places := happend
  refine ⟨whole, fraction, ?_, hfraction, fun c hc =>
    isDecimalDigit_of_mem_padded (hpadded ▸ hc), hpadded ▸ digitsValue_padded k places⟩
  rw [display, hparts]
  rfl

end Fixed

/-! ### The second rounding -/

section Rounding

variable {k : Nat} {places : Int}

/-- A share is kept as the number nearest to its decimal. -/
theorem Fixed.toDouble_eq_nearest (k : Nat) (places : Int) :
    toDouble ⟨false, k, places⟩ = .nearest (k * 10 ^ (-places)) := by
  have hnonneg : (0 : Rat) ≤ k * 10 ^ (-places) :=
    Rat.mul_nonneg Rat.natCast_nonneg (Rat.le_of_lt (Double.ten_zpow_pos (-places)))
  rw [toDouble, Numeral.toDouble_eq, Double.nearest, decide_eq_false (Rat.not_lt.mpr hnonneg),
    Rat.abs_of_nonneg hnonneg]
  rfl

/-- Rounding the number that is kept of a decimal finds the decimal again. -/
theorem Value.roundHalfUp_nearest {precision : Value} (h : precision.number? = some (.int places))
    (hnonneg : 0 ≤ places) (hle : places ≤ 15) (hk : k ≤ 10 ^ places.toNat) :
    (double (.nearest (k * 10 ^ (-places)))).roundHalfUp precision =
      .ok (.fixed ⟨false, k, places⟩) := by
  have hone := Fixed.natCast_mul_ten_zpow_le_one hnonneg hk
  have hrounded : Double.rounded (k * 10 ^ (-places)) ≤ 1 :=
    Double.rounded_one ▸ Double.rounded_mono hone
  rw [← Fixed.toDouble_eq_nearest, Fixed.toDouble, Numeral.toDouble_eq]
  change (double (.ofMagnitude false (k * 10 ^ (-places)))).roundHalfUp precision = _
  rw [Double.ofMagnitude_of_le_one hone,
    roundHalfUp_of_le_one (Double.rounded_nonneg _) hrounded h hnonneg (by omega),
    Fixed.roundedCoefficient_rounded hnonneg hle hk]

end Rounding

namespace Scoring

variable {s : Scoring} {complexity duplication smells : Value} {r : Double}

theorem isShare_of_ratio (h : s.ratio complexity duplication smells = .ok r) : r.IsShare := by
  obtain ⟨_, -, h⟩ := exists_of_bind_eq_ok h
  obtain ⟨_, -, h⟩ := exists_of_bind_eq_ok h
  obtain ⟨_, -, h⟩ := exists_of_bind_eq_ok h
  obtain ⟨_, -, h⟩ := exists_of_bind_eq_ok h
  obtain ⟨_, -, h⟩ := exists_of_bind_eq_ok h
  obtain ⟨_, -, h⟩ := exists_of_bind_eq_ok h
  obtain ⟨_, -, h⟩ := exists_of_bind_eq_ok h
  obtain ⟨_, -, h⟩ := exists_of_bind_eq_ok h
  obtain ⟨n, -, h⟩ := exists_of_bind_eq_ok h
  exact Except.ok.inj h ▸ Double.isShare_clamp n.exact

theorem label_of_assess {v : Value} {a : Assessment} (h : s.assess v = .ok a) :
    a.label = "High technical debt detected" ↔ v.lt s.highDebtThreshold = .ok true := by
  obtain ⟨below, hbelow, h⟩ := exists_of_bind_eq_ok h
  obtain rfl := Except.ok.inj h
  rw [hbelow]
  cases below <;> simp [Assessment.label]

end Scoring

/-! ### The profile -/

namespace Profile

variable {s : Scoring} {complexity duplication lines : Value} {smells : List Smell} {p : Profile}
  {r : Double} {places : Int}

theorem debt_of_payload {payload : Payload} (h : p.payload = .ok payload) :
    ∃ shown, p.debt.roundHalfUp p.precision = .ok shown ∧ payload.debt = shown.display ∧
      payload.assessment = p.assessment := by
  obtain ⟨_, -, h⟩ := exists_of_bind_eq_ok h
  obtain ⟨shown, hshown, h⟩ := exists_of_bind_eq_ok h
  obtain rfl := Except.ok.inj h
  exact ⟨shown, hshown, rfl, rfl⟩

/-- A ratio is shown as its decimal, rounded half up once: rounding the number that is kept of the
decimal does not change it. The debt is high exactly if the number nearest to the decimal that is
shown lies below the threshold. If the duplication is a share, the threshold a number and every
category a text, there is an answer to show exactly if the complexity has few enough digits. -/
theorem shown_debt (hr : s.ratio complexity duplication (.nat smells.length) = .ok r)
    (hplaces : s.precision.number? = some (.int places)) (hnonneg : 0 ≤ places)
    (hle : places ≤ 15) (lines : Value) :
    ∃ (q : Rat) (k : Nat), r = .finite q ∧ 0 ≤ q ∧ q ≤ 1 ∧
      (k : Rat) ≤ q * 10 ^ places + 1 / 2 ∧ q * 10 ^ places + 1 / 2 < k + 1 ∧
      (∀ p, aggregate s complexity duplication smells lines = .ok p →
        p.debt = .double (.nearest (k * 10 ^ (-places))) ∧
        (Value.double r).roundHalfUp s.precision = .ok (.fixed ⟨false, k, places⟩) ∧
        p.debt.roundHalfUp p.precision = .ok (.fixed ⟨false, k, places⟩) ∧
        (p.assessment = .text "High technical debt detected" ↔
          (Value.double (.nearest (k * 10 ^ (-places)))).lt s.highDebtThreshold = .ok true) ∧
        ∀ payload, p.payload = .ok payload →
          Fixed.Shows payload.debt k places.toNat ∧ payload.assessment = p.assessment) ∧
      ((∃ x : Double, duplication = .double x ∧ x.IsShare) →
        (∃ n, s.highDebtThreshold.number? = some n) →
        (∀ x ∈ smells, ∃ name, x.category = .text name) →
        ((∃ p payload, aggregate s complexity duplication smells lines = .ok p ∧
          p.payload = .ok payload) ↔ complexity.isShowable = true)) := by
  obtain ⟨q, rfl, hq, hone⟩ := Scoring.isShare_of_ratio hr
  obtain ⟨hlow, hhigh⟩ := (Fixed.roundedCoefficient_eq_iff hq places).mp rfl
  have hk := Fixed.roundedCoefficient_le hnonneg hone
  have hf := Value.roundHalfUp_of_le_one hq hone hplaces hnonneg (by omega)
  generalize Fixed.roundedCoefficient q places = k at hlow hhigh hk hf
  refine ⟨q, k, rfl, hq, hone, hlow, hhigh, ?_, ?_⟩
  · intro p hp
    obtain ⟨hdebt, -, hprecision, a, hassess, hassessment⟩ := assessed_of_aggregate hp hr hf
    have hkept : Rounded.toDouble (.fixed ⟨false, k, places⟩) = .nearest (k * 10 ^ (-places)) :=
      Fixed.toDouble_eq_nearest k places
    rw [hkept] at hdebt hassess
    have hagain : p.debt.roundHalfUp p.precision = .ok (.fixed ⟨false, k, places⟩) := by
      rw [hdebt, hprecision]
      exact Value.roundHalfUp_nearest hplaces hnonneg hle hk
    have hhigh : p.assessment = .text "High technical debt detected" ↔
        a.label = "High technical debt detected" := by
      rw [hassessment, Value.text.injEq]
    refine ⟨hdebt, hf, hagain, hhigh.trans (Scoring.label_of_assess hassess), ?_⟩
    intro payload hpayload
    obtain ⟨shown, hshown, htext, hsame⟩ := debt_of_payload hpayload
    obtain rfl := Except.ok.inj (hagain.symm.trans hshown)
    have hdisplay := Fixed.shows_display hk
    rw [Int.toNat_of_nonneg hnonneg] at hdisplay
    rw [htext]
    exact ⟨hdisplay, hsame⟩
  · rintro ⟨x, rfl, hx⟩ ⟨threshold, hthreshold⟩ hcategory
    have hexists :=
      exists_aggregate_iff hr hf hthreshold ⟨.double x, x, rfl, rfl⟩ hcategory lines
    refine ⟨fun ⟨p, _, hp, _⟩ => hexists.mp ⟨p, hp⟩, fun hcomplexity => ?_⟩
    obtain ⟨p, hp⟩ := hexists.mpr hcomplexity
    obtain ⟨hdebt, hduplication, hprecision, -⟩ := assessed_of_aggregate hp hr hf
    obtain ⟨payload, hpayload⟩ := exists_payload (hprecision ▸ hplaces) hnonneg (by omega)
      hduplication hx hdebt (Double.isShare_toDouble hnonneg hk)
    exact ⟨p, payload, hp, hpayload⟩

/-- A raw ratio of five eighths is a tie at two places. It is shown as 0.63, and with the threshold
at 0.63 the debt is not high. -/
theorem shown_debt_tie :
    let s : Scoring :=
      { complexityWeight := .int 0, duplicationWeight := .int 1, smellWeight := .int 0,
        highDebtThreshold := .double (.nearest (63 / 100)) }
    ∃ p payload, aggregate s (.int 1) (.double (.finite (3 / 8))) [] = .ok p ∧
      p.payload = .ok payload ∧ Fixed.Shows payload.debt 63 2 ∧
      payload.assessment ≠ .text "High technical debt detected" := by
  intro s
  have hratio : (s.ratio (.int 1) (.double (.finite (3 / 8))) (.nat 0)).toOption =
      some (.finite (5 / 8)) := by decide +kernel
  obtain ⟨r, hr⟩ : ∃ r, s.ratio (.int 1) (.double (.finite (3 / 8))) (.nat 0) = .ok r :=
    exists_of_isOk (by decide +kernel)
  rw [hr] at hratio
  obtain rfl : r = .finite (5 / 8) := Option.some.inj hratio
  have hr : s.ratio (.int 1) (.double (.finite (3 / 8))) (.nat ([] : List Smell).length) =
      .ok (.finite (5 / 8)) := hr
  have hplaces : s.precision.number? = some (.int 2) := rfl
  obtain ⟨q, k, hq, -, -, hlow, hhigh, hshown, hexists⟩ :=
    shown_debt hr hplaces (by decide) (by decide) (.int 0)
  obtain rfl : 5 / 8 = q := Double.finite.inj hq
  have hduplication : ∃ x : Double, Value.double (.finite (3 / 8)) = .double x ∧ x.IsShare :=
    ⟨_, rfl, _, rfl, by decide +kernel, by decide +kernel⟩
  obtain ⟨p, payload, hp, hpayload⟩ :=
    (hexists hduplication ⟨_, rfl⟩ (by simp)).mpr (by decide +kernel)
  obtain ⟨-, -, -, hassessment, hanswer⟩ := hshown p hp
  obtain ⟨htext, hsame⟩ := hanswer payload hpayload
  have hk : k = 63 := by
    have hvalue : (5 / 8 : Rat) * 10 ^ (2 : Int) + 1 / 2 = 63 := by decide +kernel
    rw [hvalue] at hlow hhigh
    have hle : k ≤ 63 := Rat.natCast_le_natCast.mp hlow
    have hlt : 63 < k + 1 := Rat.natCast_lt_natCast.mp (by rwa [Rat.natCast_add])
    omega
  subst hk
  refine ⟨p, payload, hp, hpayload, htext, ?_⟩
  rw [hsame]
  intro hassessed
  have hlt := hassessment.mp hassessed
  have hnot : ((Value.double (.nearest ((63 : Nat) * 10 ^ (-2 : Int)))).lt
      s.highDebtThreshold).toOption = some false := by decide +kernel
  rw [hlt] at hnot
  contradiction

end Profile

end CodeHealth
