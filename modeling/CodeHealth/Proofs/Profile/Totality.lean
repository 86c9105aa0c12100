import CodeHealth.Profile.Basic
import CodeHealth.Proofs.Config.Checks
import CodeHealth.Proofs.Profile.Share
import CodeHealth.Proofs.Value.Display

/-!
# When a profile can be made

The debt ratio takes numbers apart and puts them together in many ways, and every one of them might
fail: a number may be too large, a cap zero, a ratio too long to be written. Under a policy that is
`Usable` none of this happens, as long as the number of smells is one that floating point arithmetic
can take and the complexity has few enough digits to be shown (`Profile.exists_aggregate`).
-/

namespace CodeHealth

namespace Value

/-- Whether a value is a number that floating point arithmetic can take. A whole number may be too
large for that. -/
def IsReal (v : Value) : Prop :=
  ∃ n x, v.number? = some n ∧ n.rounded = .ok x

/-- A product with a floating point number is one. -/
theorem IsReal.exists_mul {v : Value} (hv : v.IsReal) (x : Double) :
    ∃ y, v.mul (.double x) = .ok (.double y) := by
  obtain ⟨n, w, hn, hw⟩ := hv
  rw [mul, arithmetic, hn]
  change ∃ y, Except.map Number.toValue (n.combine (· * ·) Double.mul (.double x)) = _
  cases n with
  | int a =>
    change ∃ y, Except.map Number.toValue (do
      return Number.double ((← Number.rounded (.int a)).mul (← Number.rounded (.double x)))) = _
    rw [hw]
    exact ⟨_, rfl⟩
  | double a => exact ⟨_, rfl⟩

theorem sub_of_number? {v w : Value} {m n : Int} (hv : v.number? = some (.int m))
    (hw : w.number? = some (.int n)) : v.sub w = .ok (.int (m - n)) := by
  rw [sub, arithmetic, hv, hw]
  rfl

theorem div_of_number? {v w : Value} {m n : Int} (hv : v.number? = some (.int m))
    (hw : w.number? = some (.int n)) (hn : n ≠ 0) {q : Rat}
    (hq : Double.ofQuotient m n = .finite q) : v.div w = .ok (.finite q) := by
  rw [div, hv, hw]
  change (Number.int m).div (.int n) = _
  rw [Number.div, if_neg hn, hq]

end Value

namespace Double

/-- The quotient of a number below the limit is finite. -/
theorem exists_ofQuotient {m n : Int} (hm : 0 ≤ m) (hn : 0 < n)
    (hlimit : (m : Rat) ≤ 2 ^ (1023 : Int)) : ∃ q, ofQuotient m n = .finite q := by
  have hle : (m : Rat) / n ≤ 2 ^ (1023 : Int) := by
    refine Rat.not_lt.mp fun hlt => ?_
    rw [Rat.lt_div_iff (Rat.intCast_pos.mpr hn)] at hlt
    have hone : (1 : Rat) ≤ n := Rat.intCast_le_intCast.mpr hn
    have := Rat.mul_le_mul_of_nonneg_left hone (Rat.le_of_lt (two_zpow_pos 1023))
    grind
  obtain ⟨q, hq, -⟩ := exists_ofMagnitude_le (n := 1023) (by decide) (by decide) hle
  exact ⟨q, by rw [ofQuotient_eq hm hn, hq]⟩

/-- The number, or one if it is larger. -/
def atMostOne (x : Double) : Double :=
  if one.lt x then one else x

end Double

/-! ### The ratio -/

namespace Scoring

/-- A policy under which the ratio can be computed: the weights are numbers that floating point
arithmetic can take, the caps are positive whole numbers, and the threshold is a number. -/
structure Usable (s : Scoring) : Prop where
  complexityWeight : s.complexityWeight.IsReal
  duplicationWeight : s.duplicationWeight.IsReal
  smellWeight : s.smellWeight.IsReal
  complexityCap : ∃ n, s.complexityCap.number? = some (.int n) ∧ 0 < n
  smellCap : ∃ n, s.smellCap.number? = some (.int n) ∧ 0 < n
  highDebtThreshold : s.highDebtThreshold.IsNumber

variable {s : Scoring}

/-- The term of a complexity from the operations on it and the cap. -/
theorem complexityTerm_of_div {complexity least rest : Value} {x : Double}
    (hmin : complexity.min s.complexityCap = .ok least)
    (hsub : s.complexityCap.sub least = .ok rest) (hdiv : rest.div s.complexityCap = .ok x) :
    s.complexityTerm complexity = .ok x.clamp := by
  rw [complexityTerm, hmin]
  change (s.complexityCap.sub least >>= fun rest => rest.div s.complexityCap >>= fun x =>
    Except.ok x.clamp) = _
  rw [hsub]
  change (rest.div s.complexityCap >>= fun x => Except.ok x.clamp) = _
  rw [hdiv]
  rfl

/-- The term of a complexity against a cap that is a whole number. -/
theorem complexityTerm_of_int {n c : Int} (hcap : s.complexityCap.number? = some (.int n))
    (hn : 0 < n) (hc : 0 ≤ c) :
    s.complexityTerm (.int c) = .ok (Double.ofQuotient (n - min c n) n).clamp := by
  obtain ⟨least, hmin, hleast⟩ := Value.min_of_number? (v := .int c) (m := c) rfl hcap
  generalize hrest : n - min c n = rest
  have hsub := Value.sub_of_number? hcap hleast
  rw [hrest] at hsub
  obtain ⟨q, hq, -⟩ := Double.isShare_ofQuotient (m := rest) (n := n) (by omega) (by omega)
  have hdiv := Value.div_of_number? (v := .int rest) rfl hcap (Int.ne_of_gt hn) hq
  rw [complexityTerm_of_div hmin hsub hdiv, hq]

theorem Usable.exists_complexityTerm (h : s.Usable) (complexity : Nat) :
    ∃ x, s.complexityTerm (.nat complexity) = .ok x ∧ x.IsShare := by
  obtain ⟨n, hcap, hpos⟩ := h.complexityCap
  exact ⟨_, complexityTerm_of_int hcap hpos (Int.natCast_nonneg complexity), Double.isShare_clamp _⟩

theorem duplicationTerm_double (x : Double) :
    duplicationTerm (.double x) = .ok ((Double.finite 1).sub x).clamp := by
  have hone : Double.ofInt? 1 = some (.finite 1) := by decide +kernel
  have hrounded : Number.rounded (.int 1) = .ok (.finite 1) := by
    unfold Number.rounded
    dsimp only
    rw [hone]
  have hsub : (Value.int 1).sub (.double x) = .ok (.double ((Double.finite 1).sub x)) := by
    change Except.map Number.toValue (Number.rounded (.int 1) >>= fun y => _) = _
    rw [hrounded]
    rfl
  rw [duplicationTerm, hsub]
  rfl

theorem smellTerm_eq_bind (s : Scoring) (smells : Value) :
    s.smellTerm smells = smells.div s.smellCap >>= fun share =>
      .ok (Double.one.sub share.atMostOne).clamp := rfl

/-- A number of smells has a term against a cap that is a whole number. -/
theorem exists_smellTerm_of_int {n : Int} (hcap : s.smellCap.number? = some (.int n)) (hn : 0 < n)
    {smells : Nat} (hlimit : (smells : Rat) ≤ 2 ^ (1023 : Int)) :
    ∃ x, s.smellTerm (.nat smells) = .ok x ∧ x.IsShare := by
  obtain ⟨q, hq⟩ := Double.exists_ofQuotient (m := smells) (Int.natCast_nonneg smells) hn hlimit
  have hdiv := Value.div_of_number? (v := .nat smells) rfl hcap (Int.ne_of_gt hn) hq
  rw [smellTerm_eq_bind, hdiv]
  exact ⟨_, rfl, Double.isShare_clamp _⟩

theorem Usable.exists_smellTerm (h : s.Usable) {smells : Nat}
    (hlimit : (smells : Rat) ≤ 2 ^ (1023 : Int)) :
    ∃ x, s.smellTerm (.nat smells) = .ok x ∧ x.IsShare := by
  obtain ⟨n, hcap, hpos⟩ := h.smellCap
  exact exists_smellTerm_of_int hcap hpos hlimit

/-- The ratio from its terms and their weighted parts. -/
theorem ratio_eq {complexity duplication smells : Value} {x y z a b c : Double}
    (hx : s.complexityTerm complexity = .ok x) (hy : duplicationTerm duplication = .ok y)
    (hz : s.smellTerm smells = .ok z) (ha : s.complexityWeight.mul (.double x) = .ok (.double a))
    (hb : s.duplicationWeight.mul (.double y) = .ok (.double b))
    (hc : s.smellWeight.mul (.double z) = .ok (.double c)) :
    s.ratio complexity duplication smells = .ok ((a.add b).add c).clamp := by
  rw [ratio, hx, hy, hz]
  change (s.complexityWeight.mul (.double x) >>= fun a =>
    s.duplicationWeight.mul (.double y) >>= fun b => s.smellWeight.mul (.double z) >>= fun c =>
    a.add b >>= fun partSum => partSum.add c >>= fun total => total.clamp) = _
  rw [ha, hb, hc]
  rfl

theorem Usable.exists_ratio (h : s.Usable) (complexity : Nat) (x : Double) {smells : Nat}
    (hlimit : (smells : Rat) ≤ 2 ^ (1023 : Int)) :
    ∃ r, s.ratio (.nat complexity) (.double x) (.nat smells) = .ok r ∧ r.IsShare := by
  obtain ⟨complexityTerm, hcomplexity, -⟩ := h.exists_complexityTerm complexity
  have hduplication := duplicationTerm_double x
  obtain ⟨smellTerm, hsmells, -⟩ := h.exists_smellTerm hlimit
  obtain ⟨complexityPart, hcomplexityPart⟩ := h.complexityWeight.exists_mul complexityTerm
  obtain ⟨duplicationPart, hduplicationPart⟩ :=
    h.duplicationWeight.exists_mul ((Double.finite 1).sub x).clamp
  obtain ⟨smellPart, hsmellPart⟩ := h.smellWeight.exists_mul smellTerm
  exact ⟨_, ratio_eq hcomplexity hduplication hsmells hcomplexityPart hduplicationPart hsmellPart,
    Double.isShare_clamp _⟩

theorem Usable.exists_assess (h : s.Usable) (x : Double) : ∃ a, s.assess (.double x) = .ok a := by
  obtain ⟨low, hlow⟩ := (Value.isNumber_double x).exists_compare h.highDebtThreshold .lt
  have hassess : s.assess (.double x) = Value.compare .lt (.double x) s.highDebtThreshold >>=
      fun low => .ok (if low then .high else .low) := rfl
  rw [hassess, hlow]
  exact ⟨_, rfl⟩

end Scoring

/-! ### The profile -/

/-- Smells can be grouped if their categories are texts. -/
theorem Smell.group_of_texts {smells : List Smell}
    (h : ∀ x ∈ smells, ∃ name, x.category = .text name) :
    Smell.group smells = .ok (.ofSmells smells) := by
  have hkeys : smells.forM (fun s => s.category.checkKey) = .ok () := by
    induction smells with
    | nil => rfl
    | cons x rest ih =>
      obtain ⟨name, hname⟩ := h x List.mem_cons_self
      change (x.category.checkKey >>= fun _ => rest.forM fun s => s.category.checkKey) = .ok ()
      rw [hname]
      exact ih fun y hy => h y (List.mem_cons_of_mem x hy)
  rw [group]
  rw [hkeys]
  rfl

namespace Profile

variable {s : Scoring} {smells : List Smell} {x : Double} {n : Int}

/-- Next to a duplication that floating point arithmetic can take only the complexity matters. -/
theorem checkShown_eq_ok_iff {complexity duplication : Value} (hduplication : duplication.IsReal) :
    checkShown complexity duplication = .ok () ↔ complexity.isShowable = true := by
  obtain ⟨n, x, hn, hx⟩ := hduplication
  cases hshowable : complexity.isShowable with
  | false =>
    rw [checkShown, Value.shown_eq_error hshowable]
    exact iff_of_false nofun Bool.false_ne_true
  | true =>
    rw [checkShown, Value.shown_eq_ok hshowable, Value.number, hn]
    change (n.rounded >>= fun _ => Except.ok ()) = _ ↔ _
    rw [hx]
    exact iff_of_true rfl rfl

/-- A profile is made of a ratio, its decimal, the assessment of what is kept of the decimal, and
the smells by category, if the measures can be shown. -/
theorem aggregate_eq_ok_iff {complexity duplication lines : Value} {p : Profile} :
    aggregate s complexity duplication smells lines = .ok p ↔
      ∃ ratio rounded assessment groups,
        s.ratio complexity duplication (.nat smells.length) = .ok ratio ∧
        (Value.double ratio).roundHalfUp s.precision = .ok rounded ∧
        s.assess (.double rounded.toDouble) = .ok assessment ∧
        checkShown complexity duplication = .ok () ∧ Smell.group smells = .ok groups ∧
        p = {
          complexity, duplication, lines
          smellCount := .nat smells.length, debt := .double rounded.toDouble
          smells := groups, assessment := .text assessment.label
          precision := s.precision } := by
  constructor
  · intro h
    obtain ⟨ratio, hratio, h⟩ := exists_of_bind_eq_ok h
    obtain ⟨rounded, hrounded, h⟩ := exists_of_bind_eq_ok h
    obtain ⟨assessment, hassess, h⟩ := exists_of_bind_eq_ok h
    obtain ⟨_, hshown, h⟩ := exists_of_bind_eq_ok h
    obtain ⟨groups, hgroups, h⟩ := exists_of_bind_eq_ok h
    exact ⟨ratio, rounded, assessment, groups, hratio, hrounded, hassess, hshown, hgroups,
      (Except.ok.inj h).symm⟩
  · rintro ⟨ratio, rounded, assessment, groups, hratio, hrounded, hassess, hshown, hgroups, rfl⟩
    refine (bind_eq_of_eq_ok hratio _).trans ?_
    refine (bind_eq_of_eq_ok hrounded _).trans ?_
    refine (bind_eq_of_eq_ok hassess _).trans ?_
    refine (bind_eq_of_eq_ok hshown _).trans ?_
    exact bind_eq_of_eq_ok hgroups _

/-- Under a usable policy with up to 27 decimal places a profile can be made. -/
theorem exists_aggregate (h : s.Usable) (hprecision : s.precision.number? = some (.int n))
    (hnonneg : 0 ≤ n) (hle : n ≤ 27) {complexity : Nat} (hcomplexity : complexity < 10 ^ digitLimit)
    (x : Double) (hcategory : ∀ x ∈ smells, ∃ name, x.category = .text name)
    (hlimit : (smells.length : Rat) ≤ 2 ^ (1023 : Int)) (lines : Value) :
    ∃ profile debt, aggregate s (.nat complexity) (.double x) smells lines = .ok profile ∧
      profile.duplication = .double x ∧ profile.precision = s.precision ∧
      profile.debt = .double debt ∧ debt.IsShare := by
  obtain ⟨ratio, hratio, hshare⟩ := h.exists_ratio complexity x hlimit
  obtain ⟨rounded, hrounded, hdebt⟩ := Value.roundHalfUp_share hshare hprecision hnonneg hle
  obtain ⟨assessment, hassess⟩ := h.exists_assess rounded.toDouble
  have hshown : checkShown (.nat complexity) (.double x) = .ok () :=
    (checkShown_eq_ok_iff ⟨.double x, x, rfl, rfl⟩).mpr
      ((Value.isShowable_nat complexity).mpr hcomplexity)
  exact ⟨_, rounded.toDouble, aggregate_eq_ok_iff.mpr ⟨ratio, _, assessment, _, hratio,
    hrounded, hassess, hshown, Smell.group_of_texts hcategory, rfl⟩, rfl, rfl, rfl, hdebt⟩

/-- The ratios of a profile can be written out with up to 27 decimal places. -/
theorem exists_payload {p : Profile} {debt : Double}
    (hprecision : p.precision.number? = some (.int n))
    (hnonneg : 0 ≤ n) (hle : n ≤ 27) (hduplication : p.duplication = .double x) (hx : x.IsShare)
    (hdebt : p.debt = .double debt) (hshare : debt.IsShare) :
    ∃ payload, p.payload = .ok payload := by
  obtain ⟨first, hfirst, -⟩ := Value.roundHalfUp_share hx hprecision hnonneg hle
  obtain ⟨second, hsecond, -⟩ := Value.roundHalfUp_share hshare hprecision hnonneg hle
  rw [payload, hduplication, hdebt, hfirst, hsecond]
  exact ⟨_, rfl⟩

end Profile

end CodeHealth
