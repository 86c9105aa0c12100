import CodeHealth.Config.Basic
import CodeHealth.Proofs.Value.Numbers

/-!
# The conditions on a configuration

A configuration is accepted if it meets a number of conditions. They are checked in a fixed order,
and the first one that is not met, or that cannot be judged, decides: the former refuses the
configuration with a problem for the reader, the latter is a fault. `Verdict` says so of any list of
conditions, and `Config.verdict_validate` says which list it is.

A condition cannot be judged where a value is of a kind that it does not apply to, or has too many
digits for the problem that shows it. `Config.judgeable_iff` says that nothing else stands in the
way of an answer.
-/

namespace CodeHealth

/-- A condition that is reported with a value if it is not met. -/
def reportedWith (v : Value) (check : Except Fault Bool) : Except Fault Bool := do
  if ← check then return true else v.shown >>= fun _ => .ok false

/-- The value is only looked at if the condition is not met. -/
@[simp] theorem reportedWith_eq_ok_true {v : Value} {check : Except Fault Bool} :
    reportedWith v check = .ok true ↔ check = .ok true := by
  cases check with
  | error f => rfl
  | ok holds =>
    cases holds with
    | true => exact iff_of_true rfl rfl
    | false =>
      change (v.shown >>= fun _ => Except.ok false) = _ ↔ _
      cases v.shown <;> simp [Bind.bind, Except.bind]

/-- What comes of conditions that are checked one after the other. -/
inductive Verdict : List (Except Fault Bool) → Except Failure Unit → Prop where
  | accepted : Verdict [] (.ok ())
  | met {checks : List (Except Fault Bool)} {answer : Except Failure Unit}
      (rest : Verdict checks answer) : Verdict (.ok true :: checks) answer
  | refused (checks : List (Except Fault Bool)) {p : Problem}
      (category : p.category = .configuration) :
      Verdict (.ok false :: checks) (.error (.problem p))
  | failed (checks : List (Except Fault Bool)) (f : Fault) :
      Verdict (.error f :: checks) (.error (.fault f))

namespace Verdict

variable {checks : List (Except Fault Bool)} {answer : Except Failure Unit}

/-- A condition may depend on what is computed before it. -/
theorem compute {α : Type} {x : Except Fault α} {check : α → Except Fault Bool}
    {k : α → Except Failure Unit} (h : ∀ a, Verdict (check a :: checks) (k a)) :
    Verdict ((x >>= check) :: checks) (Fault.lift x >>= k) := by
  cases x with
  | error f => exact failed checks f
  | ok a => exact h a

/-- A condition that has to hold, before the others. -/
theorem require {check : Except Fault Bool} {k : Bool → Except Failure Unit} {p : Problem}
    (hrest : Verdict checks (k true)) (hcategory : p.category = .configuration)
    (hfalse : k false = .error (.problem p)) :
    Verdict (check :: checks) (Fault.lift check >>= k) := by
  cases check with
  | error f => exact failed checks f
  | ok holds =>
    cases holds with
    | true => exact met hrest
    | false =>
      change Verdict _ (k false)
      rw [hfalse]
      exact refused checks hcategory

/-- A condition that is not met is reported with a value, which may have too many digits for it. -/
theorem refuse (checks : List (Except Fault Bool)) {v : Value} {k : String → Except Failure Unit}
    (hk : ∀ text, ∃ p : Problem, k text = .error (.problem p) ∧ p.category = .configuration) :
    Verdict ((v.shown >>= fun _ => .ok false) :: checks) (Fault.lift v.shown >>= k) := by
  cases v.shown with
  | error f => exact failed checks f
  | ok text =>
    obtain ⟨p, hp, hcategory⟩ := hk text
    change Verdict _ (k text)
    rw [hp]
    exact refused checks hcategory

/-- A condition that has to hold, before the others, and that is reported with a value otherwise. -/
theorem requireOf {check : Except Fault Bool} {k : Bool → Except Failure Unit} {v : Value}
    {report : String → Except Failure Unit} (hrest : Verdict checks (k true))
    (hfalse : k false = Fault.lift v.shown >>= report)
    (hreport : ∀ text, ∃ p : Problem,
      report text = .error (.problem p) ∧ p.category = .configuration) :
    Verdict (reportedWith v check :: checks) (Fault.lift check >>= k) := by
  cases check with
  | error f => exact failed checks f
  | ok holds =>
    cases holds with
    | true => exact met hrest
    | false =>
      change Verdict _ (k false)
      rw [hfalse]
      exact refuse checks hreport

/-- A condition that must not hold, before the others. -/
theorem exclude {check : Except Fault Bool} {k : Bool → Except Failure Unit} {p : Problem}
    (hrest : Verdict checks (k false)) (hcategory : p.category = .configuration)
    (htrue : k true = .error (.problem p)) :
    Verdict ((!·) <$> check :: checks) (Fault.lift check >>= k) := by
  have hnot : Fault.lift check >>= k = Fault.lift ((!·) <$> check) >>= fun holds => k !holds := by
    cases check with
    | error f => rfl
    | ok holds => cases holds <;> rfl
  rw [hnot]
  exact require hrest hcategory htrue

/-- Further conditions are checked once the first ones are met. -/
theorem append {more : List (Except Fault Bool)} {answer' : Except Failure Unit}
    (h : Verdict checks answer) (h' : Verdict more answer') :
    Verdict (checks ++ more) (answer >>= fun _ => answer') := by
  induction h with
  | accepted => exact h'
  | met _ ih => exact met ih
  | refused checks hcategory => exact refused _ hcategory
  | failed checks f => exact failed _ f

theorem eq_ok_iff (h : Verdict checks answer) :
    answer = .ok () ↔ ∀ check ∈ checks, check = .ok true := by
  induction h with
  | accepted => simp
  | met _ ih => simp [ih]
  | refused checks hcategory => simp
  | failed checks f => simp

/-- A fault comes of a condition behind others that are met. -/
theorem exists_fault_iff (h : Verdict checks answer) :
    (∃ f, answer = .error (.fault f)) ↔
      ∃ before f after, checks = before ++ .error f :: after ∧ ∀ c ∈ before, c = .ok true := by
  induction h with
  | accepted => simp
  | met rest ih =>
    rw [ih]
    constructor
    · rintro ⟨before, f, after, rfl, hbefore⟩
      exact ⟨.ok true :: before, f, after, rfl, by simpa using hbefore⟩
    · rintro ⟨before, f, after, hchecks, hbefore⟩
      cases before with
      | nil => simp at hchecks
      | cons check before =>
        obtain ⟨-, rfl⟩ := List.cons.inj hchecks
        exact ⟨before, f, after, rfl, fun c hc => hbefore c (List.mem_cons_of_mem _ hc)⟩
  | refused checks hcategory =>
    constructor
    · simp
    · rintro ⟨before, f, after, hchecks, hbefore⟩
      cases before with
      | nil => simp at hchecks
      | cons check before =>
        obtain ⟨rfl, -⟩ := List.cons.inj hchecks
        exact absurd (hbefore _ List.mem_cons_self) (by simp)
  | failed checks f =>
    exact ⟨fun _ => ⟨[], f, checks, rfl, by simp⟩, fun _ => ⟨f, rfl⟩⟩

/-- Nothing but a problem for the reader or a fault stands against a configuration. -/
theorem cases (h : Verdict checks answer) :
    answer = .ok () ∨
      (∃ p : Problem, p.category = .configuration ∧ answer = .error (.problem p)) ∨
      ∃ f, answer = .error (.fault f) := by
  induction h with
  | accepted => exact .inl rfl
  | met _ ih => exact ih
  | refused checks hcategory => exact .inr (.inl ⟨_, hcategory, rfl⟩)
  | failed checks f => exact .inr (.inr ⟨f, rfl⟩)

end Verdict

namespace Scoring

def sumsToOne (s : Scoring) : Except Fault Bool := do
  let total ← (← s.complexityWeight.add s.duplicationWeight).add s.smellWeight
  reportedWith total (.ok (isNearlyOne (← (← total.number .notReal).rounded)))

/-- The conditions on a policy, in the order in which they are checked. -/
def checks (s : Scoring) : List (Except Fault Bool) :=
  [s.sumsToOne, (!·) <$> s.complexityCap.lt (.int 1), (!·) <$> s.smellCap.lt (.int 1),
   reportedWith s.highDebtThreshold ((Value.double (.finite 0)).le s.highDebtThreshold),
   reportedWith s.highDebtThreshold (s.highDebtThreshold.le (.double (.finite 1))),
   (!·) <$> s.precision.lt (.int 0)]

theorem verdict_validate (s : Scoring) : Verdict s.checks s.validate := by
  refine .compute fun partSum => .compute fun total => .compute fun n => .compute fun x => ?_
  cases isNearlyOne x with
  | false => exact .refuse _ fun _ => ⟨_, rfl, rfl⟩
  | true =>
    refine .met (.exclude ?_ rfl rfl)
    refine .exclude ?_ rfl rfl
    refine .requireOf ?_ rfl fun _ => ⟨_, rfl, rfl⟩
    refine .requireOf ?_ rfl fun _ => ⟨_, rfl, rfl⟩
    exact .exclude .accepted rfl rfl

end Scoring

namespace Config

/-- The conditions on a configuration, in the order in which they are checked. -/
def checks (c : Config) : List (Except Fault Bool) :=
  c.scoring.checks ++
    [reportedWith c.structureScanner (Option.isSome <$> scanner? c.structureScanner)]

theorem verdict_validate (c : Config) : Verdict c.checks c.validate := by
  refine c.scoring.verdict_validate.append ?_
  cases scanner? c.structureScanner with
  | error f => exact .failed _ f
  | ok scanner =>
    cases scanner with
    | none => exact .refuse _ fun _ => ⟨_, rfl, rfl⟩
    | some scanner => exact .met .accepted

/-- Every condition that is reached can be judged: before one that cannot be judged another one is
not met. -/
def Judgeable (c : Config) : Prop :=
  ∀ before f after, c.checks = before ++ .error f :: after → ∃ check ∈ before, check ≠ .ok true

/-- What is judged is accepted, or refused with a problem for the reader. -/
theorem judgeable_iff (c : Config) : c.Judgeable ↔
    c.validate = .ok () ∨
      ∃ p : Problem, p.category = .configuration ∧ c.validate = .error (.problem p) := by
  have hfault : c.Judgeable ↔ ¬∃ f, c.validate = .error (.fault f) := by
    rw [c.verdict_validate.exists_fault_iff]
    unfold Judgeable
    constructor
    · rintro h ⟨before, f, after, hchecks, hbefore⟩
      obtain ⟨check, hmem, hne⟩ := h before f after hchecks
      exact hne (hbefore check hmem)
    · intro h before f after hchecks
      refine Classical.byContradiction fun hall => h ⟨before, f, after, hchecks, fun c hc => ?_⟩
      exact Classical.byContradiction fun hne => hall ⟨c, hc, hne⟩
  rw [hfault]
  obtain hok | ⟨p, hcategory, hp⟩ | ⟨f, hf⟩ := c.verdict_validate.cases
  · rw [hok]
    simp
  · rw [hp]
    simp [hcategory]
  · rw [hf]
    simp

end Config

end CodeHealth
