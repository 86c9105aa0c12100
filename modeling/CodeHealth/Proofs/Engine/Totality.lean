import CodeHealth.Proofs.Engine.Results
import CodeHealth.Proofs.Engine.Together
import CodeHealth.Proofs.Rule.Findings

/-!
# When a run has a result

A rule that fails contributes an error, and so does one that is waited for in vain; neither ends the
run. What may end it are the settings of the pool. If they are of the right kinds and the limit can
be waited for, a run has a result (`exists_outcomes_of_runWith`), and the number of smells in it is
bounded by the length of the source.
-/

namespace CodeHealth

namespace Rule

variable {r : Rule} {ctx : Context} {s : Text} {smells : List Smell}

theorem Bounded.length_le (h : r.Bounded) (hraw : ctx.raw = .text s)
    (houtcome : r.outcome ctx = .ok smells) : smells.length ≤ s.length + 1 := by
  obtain ⟨found, hfound, hsmells⟩ := exists_of_bind_eq_ok (scan_of_outcome houtcome)
  obtain rfl := Except.ok.inj hsmells
  rw [List.length_map]
  exact h ctx s _ found hraw hfound

end Rule

/-- Whether the limit of a configuration can be waited for. -/
def Config.Waitable (c : Config) : Prop :=
  ∃ seconds, c.performance.parallelRuleTimeoutMs.div (.double (.finite 1000)) = .ok seconds ∧
    (Double.finite Engine.longestLimit).lt seconds = false

namespace Engine

variable {e : Engine} {s : Text}

/-- What comes of some rules, each in its place: its own outcome, or an error. -/
def Outcomes (ctx : Context) (rules : List Rule) (outcomes : List Outcome) : Prop :=
  outcomes.length ≤ rules.length ∧
    ∀ smells, .ok smells ∈ outcomes → ∃ r ∈ rules, r.outcome ctx = .ok smells

theorem outcomes_map (ctx : Context) (rules : List Rule) :
    Outcomes ctx rules (rules.map (Rule.outcome ctx)) := by
  refine ⟨Nat.le_of_eq (List.length_map _), fun smells hmem => ?_⟩
  obtain ⟨r, hr, h⟩ := List.mem_map.mp hmem
  exact ⟨r, hr, h⟩

theorem outcomes_collect (ctx : Context) (seconds : Double) (rules : List Rule)
    (inTime : List Bool) : Outcomes ctx rules (collect ctx seconds rules inTime) := by
  constructor
  · rw [collect, List.length_zipWith]
    exact Nat.min_le_left _ _
  · intro smells hmem
    obtain ⟨i, hi⟩ := List.mem_iff_getElem?.mp hmem
    obtain ⟨r, ended, hr, -, h⟩ := List.getElem?_zipWith_eq_some.mp hi
    cases ended with
    | true => exact ⟨r, List.mem_of_getElem? hr, h⟩
    | false => contradiction

/-- With a whole number of workers and a limit that can be waited for, a run of all rules on a text
has a result. -/
theorem exists_outcomes_of_runWith (ctx : Context) (parallel : Value) (hraw : ctx.raw = .text s)
    (hworkers : ∃ n, e.config.performance.maxParallelWorkers.number? = some (.int n))
    (hwait : e.runsTogether parallel = true → e.config.Waitable) (schedule : Pool.Schedule) :
    ∃ outcomes, e.runWith schedule ctx {} parallel =
        .ok (.ofOutcomes e.config.continueOnError.truthy outcomes) ∧
      Outcomes ctx e.rules outcomes := by
  rw [runWith_all]
  split
  · rename_i htogether
    obtain ⟨n, hn⟩ := hworkers
    obtain ⟨seconds, hseconds, hlimit⟩ := hwait (Bool.and_eq_true_iff.mp htogether).1
    have hcheck : checkLimit seconds e.rules = .ok () := by
      rw [checkLimit, hlimit]
      rfl
    rw [outcomesTogether_eq hn hraw hseconds, hcheck]
    exact ⟨_, rfl, outcomes_collect ctx seconds e.rules _⟩
  · exact ⟨_, rfl, outcomes_map ctx e.rules⟩

/-- A limit that cannot be waited for ends a run of several rules that take their time. -/
theorem runWith_of_not_waitable (ctx : Context) (parallel : Value) (hraw : ctx.raw = .text s)
    (hworkers : ∃ n, e.config.performance.maxParallelWorkers.number? = some (.int n))
    (htogether : e.runsTogether parallel = true) (hrules : 2 ≤ e.rules.length)
    (hduration : ∀ r ∈ e.rules, 0 < r.duration) (hwait : ¬e.config.Waitable)
    (schedule : Pool.Schedule) :
    ∃ f, e.runWith schedule ctx {} parallel = .error f := by
  have hpool : (e.runsTogether parallel && decide (1 < e.rules.length)) = true :=
    Bool.and_eq_true_iff.mpr ⟨htogether, decide_eq_true hrules⟩
  obtain ⟨n, hn⟩ := hworkers
  rw [runWith_all, if_pos hpool]
  cases hseconds : e.config.performance.parallelRuleTimeoutMs.div (.double (.finite 1000)) with
  | error f =>
    rw [outcomesTogether_of_error hn hseconds]
    exact ⟨f, rfl⟩
  | ok seconds =>
    have hlimit : (Double.finite longestLimit).lt seconds = true :=
      (Bool.not_eq_false _).mp fun hlt => hwait ⟨seconds, hseconds, hlt⟩
    have hany : (e.rules.any fun r => decide (0 < r.duration)) = true := by
      cases hcons : e.rules with
      | nil => simp [hcons] at hrules
      | cons r rest =>
        rw [List.any_cons, decide_eq_true (hduration r (hcons ▸ List.mem_cons_self))]
        rfl
    have hcheck : checkLimit seconds e.rules = .error .outOfRange := by
      rw [checkLimit, hlimit, hany]
      rfl
    rw [outcomesTogether_eq hn hraw hseconds, hcheck]
    exact ⟨_, rfl⟩

end Engine

end CodeHealth
