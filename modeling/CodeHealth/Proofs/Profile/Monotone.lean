import CodeHealth.Proofs.Profile.Terms
import CodeHealth.Proofs.Smell

/-!
# A worse source has no better ratio

Under a valid policy whose weights are not negative the ratio falls with each of the three measures.
It is a sum of products that fall with the terms, and rounding to decimal places keeps the order as
well, so the ratio that is shown falls, too. What is assessed as a high debt therefore remains one
when a measure grows (`Profile.debt_antitone`).

No weight is too large for this, since the weights sum to one: a sum of numbers that are not
negative is finite only if all of them are. A complexity has no profile if it has too many digits to
be shown (`Profile.exists_aggregate_iff`).
-/

namespace CodeHealth

/-- Whether a value is a number that is finite. -/
def Value.IsFinite (v : Value) : Prop :=
  ∃ n, v.number? = some n ∧ n.IsFinite

/-- Whether a value can weigh a term: a number that is not negative and has a value in floating
point arithmetic. -/
def Value.IsWeight (v : Value) : Prop :=
  ∃ n y w, v.number? = some n ∧ n.rounded = .ok y ∧ y.toRat? = some w ∧ 0 ≤ w

namespace Scoring

/-- A policy that is valid and in which weights, caps and precision are what they are meant to be:
the weights not negative, the caps finite, and the precision a number of places that a decimal
number has. -/
structure Proper (s : Scoring) : Prop where
  valid : s.validate = .ok ()
  complexityWeight : (Value.int 0).le s.complexityWeight = .ok true
  duplicationWeight : (Value.int 0).le s.duplicationWeight = .ok true
  smellWeight : (Value.int 0).le s.smellWeight = .ok true
  complexityCap : s.complexityCap.IsFinite
  smellCap : s.smellCap.IsFinite
  precision : ∃ places : Int, s.precision.number? = some (.int places) ∧ places ≤ 27

variable {s : Scoring}

theorem Proper.check (h : s.Proper) {check : Except Fault Bool} (hmem : check ∈ s.checks) :
    check = .ok true :=
  s.verdict_validate.eq_ok_iff.mp h.valid check hmem

theorem proper_default : ({} : Scoring).Proper where
  valid := by
    obtain ⟨_, h⟩ := exists_of_isOk (x := ({} : Scoring).validate) (by decide +kernel)
    exact h
  complexityWeight := congrArg Except.ok (by decide +kernel)
  duplicationWeight := congrArg Except.ok (by decide +kernel)
  smellWeight := congrArg Except.ok (by decide +kernel)
  complexityCap := ⟨.int 10, rfl, trivial⟩
  smellCap := ⟨.int 10, rfl, trivial⟩
  precision := ⟨2, rfl, by decide⟩

/-! ### Weights -/

theorem isNearlyOne_infinite : isNearlyOne (.infinite false) = false := rfl

theorem isWeight_of_hasValue {v : Value} {n : Number} (hn : v.number? = some n)
    (hnonneg : n.exact.Nonneg) (h : n.HasValue) : v.IsWeight := by
  obtain ⟨y, w, hy, hw⟩ := h
  have hy0 := Number.nonneg_of_rounded hnonneg hy
  exact ⟨n, y, w, hn, hy, hw, (Double.le_iff_of_toRat? rfl hw).mp hy0⟩

/-- The weights of a proper policy are finite. -/
theorem Proper.isWeight (h : s.Proper) : s.complexityWeight.IsWeight ∧
    s.duplicationWeight.IsWeight ∧ s.smellWeight.IsWeight := by
  obtain ⟨a, ha, ha0⟩ := Value.exists_number_of_le rfl h.complexityWeight
  obtain ⟨b, hb, hb0⟩ := Value.exists_number_of_le rfl h.duplicationWeight
  obtain ⟨c, hc, hc0⟩ := Value.exists_number_of_le rfl h.smellWeight
  have hsum : s.sumsToOne = .ok true := h.check List.mem_cons_self
  rw [sumsToOne, Value.add_of_number? ha hb] at hsum
  obtain ⟨partSum, hpart, hsum⟩ := exists_of_bind_eq_ok hsum
  obtain ⟨p, hp, rfl⟩ := exists_of_map_eq_ok hpart
  rw [Value.add_of_number? (Value.number?_toValue p) hc] at hsum
  obtain ⟨total, htotal, hsum⟩ := exists_of_bind_eq_ok hsum
  obtain ⟨t, ht, rfl⟩ := exists_of_map_eq_ok htotal
  rw [Value.number, Value.number?_toValue] at hsum
  obtain ⟨n, hn, hsum⟩ := exists_of_bind_eq_ok hsum
  obtain rfl : t = n := Except.ok.inj hn
  obtain ⟨x, hx, hsum⟩ := exists_of_bind_eq_ok hsum
  have hnear : isNearlyOne x = true := Except.ok.inj (reportedWith_eq_ok_true.mp hsum)
  obtain ⟨hp0, hparts⟩ := Number.hasValue_of_add ha0 hb0 hp
  obtain ⟨ht0, htotal⟩ := Number.hasValue_of_add hp0 hc0 ht
  have hvalue : t.HasValue := by
    obtain ⟨q, hq, -⟩ | rfl := (Number.nonneg_of_rounded ht0 hx).cases
    · exact ⟨x, q, hx, hq⟩
    · rw [isNearlyOne_infinite] at hnear
      contradiction
  obtain ⟨hpvalue, hcvalue⟩ := htotal hvalue
  obtain ⟨havalue, hbvalue⟩ := hparts hpvalue
  exact ⟨isWeight_of_hasValue ha ha0 havalue, isWeight_of_hasValue hb hb0 hbvalue,
    isWeight_of_hasValue hc hc0 hcvalue⟩

/-! ### Caps -/

/-- A finite cap that is not found to lie below one is at least one. -/
theorem one_le_cap {v : Value} (hv : v.IsFinite) (h : (!·) <$> v.lt (.int 1) = .ok true) :
    ∃ cap : Number, v.number? = some cap ∧ cap.IsFinite ∧ 1 ≤ cap.value := by
  obtain ⟨cap, hcap, hfinite⟩ := hv
  refine ⟨cap, hcap, hfinite, ?_⟩
  have hone : (Value.int 1).number? = some (.int 1) := rfl
  rw [Value.lt, Value.compare_of_number? hcap hone] at h
  have hlt : cap.exact.lt (Number.exact (.int 1)) = false := by
    have := Except.ok.inj h
    simpa [Value.Comparison.onDoubles] using this
  rw [Double.lt_of_toRat? hfinite.toRat?_exact (rfl : (Number.exact (.int 1)).toRat? = some 1)]
    at hlt
  exact Rat.not_lt.mp (of_decide_eq_false hlt)

/-! ### The ratio -/

/-- A weighted term falls with the term. -/
theorem exists_part {v : Value} (hv : v.IsWeight) {x x' : Double} (hx : x.IsShare)
    (hx' : x'.IsShare) (h : x'.le x = true) :
    ∃ z z' : Double, v.mul (.double x) = .ok (.double z) ∧ v.mul (.double x') = .ok (.double z') ∧
      z.Nonneg ∧ z'.Nonneg ∧ z'.le z = true := by
  obtain ⟨n, y, w, hn, hy, hw, hw0⟩ := hv
  obtain ⟨q, rfl, hq0, -⟩ := hx
  obtain ⟨q', rfl, hq0', -⟩ := hx'
  have hle : q' ≤ q := (Double.le_iff_of_toRat? rfl rfl).mp h
  have hrounds := Double.rounds_mul hw (rfl : (Double.finite q).toRat? = some q) hw0 hq0
  have hrounds' := Double.rounds_mul hw (rfl : (Double.finite q').toRat? = some q') hw0 hq0'
  exact ⟨_, _, Value.mul_of_rounded hn hy _, Value.mul_of_rounded hn hy _, hrounds.nonneg,
    hrounds'.nonneg, hrounds'.le hrounds (Rat.mul_le_mul_of_nonneg_left hle hw0)⟩

/-- The ratio falls with the measures. -/
theorem Proper.ratio_antitone (h : s.Proper) {c c' : Int} (hc : 0 ≤ c) (hcc : c ≤ c')
    {d d' : Value} (hd : (Value.int 0).le d = .ok true) (hdd : d.le d' = .ok true)
    (hd' : d'.le (.int 1) = .ok true) {k k' : Nat} (hk : k ≤ k') {z z' : Double}
    (hz : s.smellTerm (.nat k) = .ok z) (hz' : s.smellTerm (.nat k') = .ok z') :
    ∃ r r', s.ratio (.int c) d (.nat k) = .ok r ∧ s.ratio (.int c') d' (.nat k') = .ok r' ∧
      r.IsShare ∧ r'.IsShare ∧ r'.le r = true := by
  obtain ⟨cap, hcap, hfinite, hone⟩ := one_le_cap h.complexityCap (h.check (by simp [checks]))
  obtain ⟨smellCap, hsmellCap, hsmellFinite, hsmellOne⟩ :=
    one_le_cap h.smellCap (h.check (by simp [checks]))
  obtain ⟨hcomplexity, hduplication, hsmell⟩ := h.isWeight
  obtain ⟨x, x', hx, hx', hxshare, hxshare', hxle⟩ :=
    complexityTerm_antitone hcap hfinite hone hc hcc
  obtain ⟨y, y', hy, hy', hyshare, hyshare', hyle⟩ := duplicationTerm_antitone hd hdd hd'
  obtain ⟨hzshare, hzshare', hzle⟩ :=
    smellTerm_antitone hsmellCap hsmellFinite hsmellOne hk hz hz'
  obtain ⟨a, a', ha, ha', ha0, ha0', hale⟩ := exists_part hcomplexity hxshare hxshare' hxle
  obtain ⟨b, b', hb, hb', hb0, hb0', hble⟩ := exists_part hduplication hyshare hyshare' hyle
  obtain ⟨e, e', he, he', he0, he0', hele⟩ := exists_part hsmell hzshare hzshare' hzle
  refine ⟨_, _, ratio_eq hx hy hz ha hb he, ratio_eq hx' hy' hz' ha' hb' he',
    Double.isShare_clamp _, Double.isShare_clamp _, ?_⟩
  have hpart := Double.add_le_add ha0' hb0' ha0 hb0 hale hble
  have htotal := Double.add_le_add (ha0'.add hb0') he0' (ha0.add hb0) he0 hpart hele
  exact Double.clamp_le_clamp ((ha0'.add hb0').add he0') ((ha0.add hb0).add he0) htotal

end Scoring

/-- A number between zero and one is one that floating point arithmetic can take. -/
theorem Value.isReal_of_le_one {v : Value} {n : Number} {q : Rat} (hv : v.number? = some n)
    (hq : n.exact.toRat? = some q) (hnonneg : 0 ≤ q) (hle : q ≤ 1) : v.IsReal := by
  cases n with
  | double x => exact ⟨.double x, x, hv, rfl⟩
  | int k =>
    obtain rfl : (k : Rat) = q := Option.some.inj hq
    obtain ⟨-, x, hx, -⟩ | ⟨hnot, -⟩ := Number.rounded_int_cases (Rat.intCast_nonneg.mp hnonneg)
    · exact ⟨.int k, x, hv, hx⟩
    · have hone := Double.rounded_mono hle
      rw [Double.rounded_one] at hone
      have hlimit : (1 : Rat) < 2 ^ (1024 : Int) := by decide +kernel
      exact absurd (by grind) hnot

/-! ### Decimal places -/

theorem Fixed.rounds_toDouble (k : Nat) (places : Int) :
    (Fixed.toDouble ⟨false, k, places⟩).Rounds (k * 10 ^ (-places)) := by
  rw [Fixed.toDouble, Numeral.toDouble_eq]
  exact Double.rounds_magnitude _

/-- Rounding to decimal places keeps the order. -/
theorem Value.roundHalfUp_mono {precision : Value} {n : Int} (h : precision.number? = some (.int n))
    (hnonneg : 0 ≤ n) (hle : n ≤ 27) {x x' : Double} (hx : x.IsShare) (hx' : x'.IsShare)
    (hxle : x'.le x = true) :
    ∃ f f' : Fixed, (Value.double x).roundHalfUp precision = .ok (.fixed f) ∧
      (Value.double x').roundHalfUp precision = .ok (.fixed f') ∧
      f.toDouble.IsShare ∧ f'.toDouble.IsShare ∧ f'.toDouble.le f.toDouble = true := by
  obtain ⟨q, rfl, hq, hone⟩ := hx
  obtain ⟨q', rfl, hq', hone'⟩ := hx'
  have hqle : q' ≤ q := (Double.le_iff_of_toRat? rfl rfl).mp hxle
  have hk := Rat.natCast_le_natCast.mpr (Fixed.roundedCoefficient_mono hqle n)
  refine ⟨_, _, roundHalfUp_of_le_one hq hone h hnonneg hle,
    roundHalfUp_of_le_one hq' hone' h hnonneg hle,
    Double.isShare_toDouble hnonneg (Fixed.roundedCoefficient_le hnonneg hone),
    Double.isShare_toDouble hnonneg (Fixed.roundedCoefficient_le hnonneg hone'), ?_⟩
  refine (Fixed.rounds_toDouble _ n).le (Fixed.rounds_toDouble _ n) ?_
  exact Rat.mul_le_mul_of_nonneg_right hk (Rat.le_of_lt (Double.ten_zpow_pos (-n)))

/-! ### The assessment -/

theorem Double.lt_of_le_of_lt {x x' y : Double} (hx : x.IsShare) (hx' : x'.IsShare)
    (hle : x'.le x = true) (h : x.lt y = true) : x'.lt y = true := by
  obtain ⟨q, rfl, -⟩ := hx
  obtain ⟨q', rfl, -⟩ := hx'
  have hqle : q' ≤ q := (le_iff_of_toRat? rfl rfl).mp hle
  cases y with
  | finite r =>
    rw [lt_finite, decide_eq_true_eq] at h ⊢
    grind
  | negZero =>
    rw [lt_of_toRat? rfl (rfl : negZero.toRat? = some 0), decide_eq_true_eq] at h ⊢
    grind
  | infinite negative => exact h
  | nan => exact h

namespace Scoring

variable {s : Scoring}

/-- The threshold of a valid policy is a number. -/
theorem Proper.exists_threshold (h : s.Proper) :
    ∃ threshold, s.highDebtThreshold.number? = some threshold := by
  have hcheck : reportedWith s.highDebtThreshold
      ((Value.double (.finite 0)).le s.highDebtThreshold) = .ok true := h.check (by simp [checks])
  obtain ⟨threshold, hthreshold, -⟩ :=
    Value.exists_number_of_le rfl (reportedWith_eq_ok_true.mp hcheck)
  exact ⟨threshold, hthreshold⟩

/-- Against a number every ratio can be assessed. -/
theorem assess_double {threshold : Number} (h : s.highDebtThreshold.number? = some threshold)
    (x : Double) : s.assess (.double x) =
      .ok (if x.lt threshold.exact = true then .high else .low) := by
  rw [assess, Value.lt, Value.compare_of_number? rfl h]
  rfl

theorem Proper.exists_smellTerm (h : s.Proper) {k : Nat}
    (hlimit : (k : Rat) ≤ 2 ^ (1023 : Int)) : ∃ z, s.smellTerm (.nat k) = .ok z := by
  obtain ⟨cap, hcap, hfinite, hone⟩ := one_le_cap h.smellCap (h.check (by simp [checks]))
  exact Scoring.exists_smellTerm hcap hfinite hone hlimit

/-- The ratio that is shown falls with the measures. -/
theorem Proper.rounded_antitone (h : s.Proper) {c c' : Int} (hc : 0 ≤ c) (hcc : c ≤ c')
    {d d' : Value} (hd : (Value.int 0).le d = .ok true) (hdd : d.le d' = .ok true)
    (hd' : d'.le (.int 1) = .ok true) {k k' : Nat} (hk : k ≤ k') {z z' : Double}
    (hz : s.smellTerm (.nat k) = .ok z) (hz' : s.smellTerm (.nat k') = .ok z') :
    ∃ (r r' : Double) (f f' : Fixed),
      s.ratio (.int c) d (.nat k) = .ok r ∧ s.ratio (.int c') d' (.nat k') = .ok r' ∧
      (Value.double r).roundHalfUp s.precision = .ok (.fixed f) ∧
      (Value.double r').roundHalfUp s.precision = .ok (.fixed f') ∧
      f.toDouble.IsShare ∧ f'.toDouble.IsShare ∧ f'.toDouble.le f.toDouble = true := by
  obtain ⟨places, hplaces, hle⟩ := h.precision
  have hnonneg : 0 ≤ places := Value.le_of_not_lt hplaces (h.check (by simp [checks]))
  obtain ⟨r, r', hr, hr', hshare, hshare', hrle⟩ := h.ratio_antitone hc hcc hd hdd hd' hk hz hz'
  obtain ⟨f, f', hf, hf', hfle⟩ :=
    Value.roundHalfUp_mono hplaces hnonneg hle hshare hshare' hrle
  exact ⟨r, r', f, f', hr, hr', hf, hf', hfle⟩

end Scoring

/-! ### The profile -/

namespace Profile

variable {s : Scoring} {complexity duplication lines : Value} {smells : List Smell} {p : Profile}

theorem exists_smellTerm_of_aggregate
    (h : aggregate s complexity duplication smells lines = .ok p) :
    ∃ z, s.smellTerm (.nat smells.length) = .ok z := by
  obtain ⟨r, _, _, _, hr, -⟩ := aggregate_eq_ok_iff.mp h
  obtain ⟨x, -, hr⟩ := exists_of_bind_eq_ok hr
  obtain ⟨y, -, hr⟩ := exists_of_bind_eq_ok hr
  obtain ⟨z, hz, -⟩ := exists_of_bind_eq_ok hr
  exact ⟨z, hz⟩

/-- The debt of a profile is what is kept of its rounded ratio, and that is what is assessed. -/
theorem assessed_of_aggregate (h : aggregate s complexity duplication smells lines = .ok p)
    {r : Double} (hr : s.ratio complexity duplication (.nat smells.length) = .ok r) {f : Rounded}
    (hf : (Value.double r).roundHalfUp s.precision = .ok f) :
    p.debt = .double f.toDouble ∧ p.duplication = duplication ∧ p.precision = s.precision ∧
      ∃ a, s.assess (.double f.toDouble) = .ok a ∧ p.assessment = .text a.label := by
  obtain ⟨ratio, rounded, assessment, groups, hratio, hrounded, hassess, -, -, rfl⟩ :=
    aggregate_eq_ok_iff.mp h
  obtain rfl := Except.ok.inj (hr.symm.trans hratio)
  obtain rfl := Except.ok.inj (hf.symm.trans hrounded)
  exact ⟨rfl, rfl, rfl, assessment, hassess, rfl⟩

/-- The debt of a profile is its ratio with the decimal places that are shown, and that is what is
assessed. -/
theorem debt_of_aggregate (h : aggregate s complexity duplication smells lines = .ok p) {r : Double}
    (hr : s.ratio complexity duplication (.nat smells.length) = .ok r) {f : Fixed}
    (hf : (Value.double r).roundHalfUp s.precision = .ok (.fixed f)) {threshold : Number}
    (hthreshold : s.highDebtThreshold.number? = some threshold) :
    p.debt = .double f.toDouble ∧ p.isHigh = f.toDouble.lt threshold.exact := by
  obtain ⟨hdebt, -, -, a, hassess, hassessment⟩ := assessed_of_aggregate h hr hf
  have hlabel := Except.ok.inj ((Scoring.assess_double hthreshold f.toDouble).symm.trans hassess)
  refine ⟨hdebt, ?_⟩
  rw [isHigh, hassessment, ← hlabel, Value.same_text]
  cases f.toDouble.lt threshold.exact <;> rfl

/-- Where there is a ratio that can be written and smells that can be grouped, there is a profile
exactly if the complexity can be shown. -/
theorem exists_aggregate_iff {r : Double}
    (hr : s.ratio complexity duplication (.nat smells.length) = .ok r) {f : Fixed}
    (hf : (Value.double r).roundHalfUp s.precision = .ok (.fixed f)) {threshold : Number}
    (hthreshold : s.highDebtThreshold.number? = some threshold) (hduplication : duplication.IsReal)
    (hcategory : ∀ x ∈ smells, ∃ name, x.category = .text name) (lines : Value) :
    (∃ p, aggregate s complexity duplication smells lines = .ok p) ↔
      complexity.isShowable = true := by
  constructor
  · rintro ⟨p, hp⟩
    obtain ⟨_, _, _, _, -, -, -, hshown, -⟩ := aggregate_eq_ok_iff.mp hp
    exact (checkShown_eq_ok_iff hduplication).mp hshown
  · intro hcomplexity
    exact ⟨_, aggregate_eq_ok_iff.mpr ⟨_, _, _, _, hr, hf,
      Scoring.assess_double hthreshold f.toDouble,
      (checkShown_eq_ok_iff hduplication).mpr hcomplexity, Smell.group_of_texts hcategory, rfl⟩⟩

section Antitone

variable {c c' : Int} {d d' : Value} {smells' : List Smell}

/-- A source that is worse in each of the three measures has no better ratio, and its debt is high
if that of the other one is. If the categories of the smells are texts and the smells no more than
floating point arithmetic can take, there is a profile of either source exactly if its complexity
has few enough digits to be shown. -/
theorem debt_antitone (h : s.Proper) (hc : 1 ≤ c) (hcc : c ≤ c')
    (hd : (Value.int 0).le d = .ok true) (hdd : d.le d' = .ok true)
    (hd' : d'.le (.int 1) = .ok true) (hlength : smells.length ≤ smells'.length)
    (lines lines' : Value) :
    (∀ p p', aggregate s (.int c) d smells lines = .ok p →
      aggregate s (.int c') d' smells' lines' = .ok p' →
      ∃ x x', p.debt = .double x ∧ p'.debt = .double x' ∧ x.IsShare ∧ x'.IsShare ∧
        x'.le x = true ∧ (p.isHigh = true → p'.isHigh = true)) ∧
    ((∀ x ∈ smells ++ smells', ∃ name, x.category = .text name) →
      (smells'.length : Rat) ≤ 2 ^ (1023 : Int) →
      ((∃ p, aggregate s (.int c) d smells lines = .ok p) ↔ c < 10 ^ digitLimit) ∧
        ((∃ p', aggregate s (.int c') d' smells' lines' = .ok p') ↔ c' < 10 ^ digitLimit)) := by
  obtain ⟨threshold, hthreshold⟩ := h.exists_threshold
  constructor
  · intro p p' hp hp'
    obtain ⟨z, hz⟩ := exists_smellTerm_of_aggregate hp
    obtain ⟨z', hz'⟩ := exists_smellTerm_of_aggregate hp'
    obtain ⟨r, r', f, f', hr, hr', hf, hf', hshare, hshare', hle⟩ :=
      h.rounded_antitone (by omega) hcc hd hdd hd' hlength hz hz'
    obtain ⟨hdebt, hhigh⟩ := debt_of_aggregate hp hr hf hthreshold
    obtain ⟨hdebt', hhigh'⟩ := debt_of_aggregate hp' hr' hf' hthreshold
    refine ⟨_, _, hdebt, hdebt', hshare, hshare', hle, ?_⟩
    rw [hhigh, hhigh']
    exact Double.lt_of_le_of_lt hshare hshare' hle
  · intro hcategory hlimit
    have hlimit₀ : (smells.length : Rat) ≤ 2 ^ (1023 : Int) :=
      Rat.le_trans (Rat.natCast_le_natCast.mpr hlength) hlimit
    obtain ⟨z, hz⟩ := h.exists_smellTerm hlimit₀
    obtain ⟨z', hz'⟩ := h.exists_smellTerm hlimit
    obtain ⟨r, r', f, f', hr, hr', hf, hf', -⟩ :=
      h.rounded_antitone (by omega) hcc hd hdd hd' hlength hz hz'
    obtain ⟨n, n', q, q', hn, hn', hq, hq', hq0, hqq, hq1⟩ :=
      Scoring.exists_values_of_le hd hdd hd'
    have hexists := exists_aggregate_iff hr hf hthreshold
      (Value.isReal_of_le_one hn hq hq0 (Rat.le_trans hqq hq1))
      (fun x hx => hcategory x (List.mem_append_left _ hx)) lines
    have hexists' := exists_aggregate_iff hr' hf' hthreshold
      (Value.isReal_of_le_one hn' hq' (Rat.le_trans hq0 hqq) hq1)
      (fun x hx => hcategory x (List.mem_append_right _ hx)) lines'
    exact ⟨hexists.trans (Value.isShowable_of_nonneg (by omega)),
      hexists'.trans (Value.isShowable_of_nonneg (by omega))⟩

/-- Under the default policy a source with a high debt keeps it when all three measures grow. -/
theorem debt_antitone_default :
    let smell : Smell := ⟨.text "Bloaters", .text "Long Method", .text "Too long", .bool true⟩
    ∃ p p' x x',
      aggregate {} (.int 6) (.double (.finite (1 / 2))) [smell, smell] = .ok p ∧
      aggregate {} (.int 9) (.double (.finite (3 / 4))) [smell, smell, smell] = .ok p' ∧
      p.debt = .double x ∧ p'.debt = .double x' ∧ x'.le x = true ∧ p.isHigh = true ∧
      p'.isHigh = true := by
  intro smell
  have hcomplexity : (6 : Int) ≤ 9 := by decide
  have hlow : (Value.int 0).le (.double (.finite (1 / 2))) = .ok true :=
    congrArg Except.ok (by decide +kernel)
  have hgrows : (Value.double (.finite (1 / 2))).le (.double (.finite (3 / 4))) = .ok true :=
    congrArg Except.ok (by decide +kernel)
  have hhigh : (Value.double (.finite (3 / 4))).le (.int 1) = .ok true :=
    congrArg Except.ok (by decide +kernel)
  have hlength : [smell, smell].length ≤ [smell, smell, smell].length := by decide
  obtain ⟨hantitone, hexists⟩ := debt_antitone Scoring.proper_default (by decide) hcomplexity hlow
    hgrows hhigh hlength (.int 0) (.int 0)
  have hcategory :
      ∀ x ∈ [smell, smell] ++ [smell, smell, smell], ∃ name, x.category = .text name := by
    intro x hx
    obtain rfl : x = smell := by simpa using hx
    exact ⟨"Bloaters", rfl⟩
  obtain ⟨hfirst, hsecond⟩ := hexists hcategory (by decide +kernel)
  obtain ⟨p, hp⟩ := hfirst.mpr (by decide +kernel)
  obtain ⟨p', hp'⟩ := hsecond.mpr (by decide +kernel)
  obtain ⟨x, x', hx, hx', -, -, hle, hstays⟩ := hantitone p p' hp hp'
  have hhighDebt : ((aggregate {} (.int 6) (.double (.finite (1 / 2))) [smell, smell]).map
      isHigh).toOption = some true := by decide +kernel
  rw [hp] at hhighDebt
  have hfirst : p.isHigh = true := Option.some.inj hhighDebt
  exact ⟨p, p', x, x', hp, hp', hx, hx', hle, hfirst, hstays hfirst⟩

end Antitone

end Profile

end CodeHealth
