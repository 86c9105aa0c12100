import CodeHealth.Proofs.Diagnostics.Counters
import CodeHealth.Proofs.Engine.Liveness
import CodeHealth.Proofs.Engine.Registry
import CodeHealth.Proofs.Value.Numbers

/-!
# Running at the same time or one after the other

A run on a pool contributes for each selected rule what the rule alone contributes, except where the
wait for it was over too early. In which order workers have begun with the rules and finished them
leaves no other trace.

That is so for every limit that can be waited for. A limit that no floating point number holds, or
one beyond the longest wait, ends the run instead.
-/

namespace CodeHealth.Engine

variable {e : Engine} {ctx : Context} {s : Text} {selection : Selection} {rules : List Rule}
variable {n : Int} {seconds : Double}

/-! ### What a run comes down to -/

theorem runWith_false (hrules : selection.apply e.rules = .ok rules) (schedule : Pool.Schedule) :
    e.runWith schedule ctx selection (.bool false) =
      .ok (.ofOutcomes e.config.continueOnError.truthy (rules.map (Rule.outcome ctx))) := by
  rw [runWith, hrules]
  rfl

theorem runWith_true (hrules : selection.apply e.rules = .ok rules) (htwo : 2 ≤ rules.length)
    (schedule : Pool.Schedule) : e.runWith schedule ctx selection (.bool true) =
      (outcomesTogether schedule e ctx rules).map
        (.ofOutcomes e.config.continueOnError.truthy) := by
  have hpool : (e.runsTogether (.bool true) && decide (1 < rules.length)) = true :=
    decide_eq_true (p := 1 < rules.length) htwo
  rw [runWith, hrules]
  change (do
    let outcomes ← if (e.runsTogether (.bool true) && decide (1 < rules.length)) = true then
        outcomesTogether schedule e ctx rules
      else pure (rules.map (Rule.outcome ctx))
    pure (RunResult.ofOutcomes e.config.continueOnError.truthy outcomes)) = _
  rw [if_pos hpool]
  cases outcomesTogether schedule e ctx rules with
  | error f => rfl
  | ok outcomes => rfl

/-- A whole number of workers is cut down to the number of rules, and there is always one worker. -/
theorem workerCount_of_number? {v : Value} (h : v.number? = some (.int n)) (k : Nat) :
    workerCount v k = .ok (max 1 (min n k).toNat) := by
  obtain ⟨w, hmin, hw⟩ := Value.min_of_number? (w := .nat k) h rfl
  rw [workerCount, hmin]
  obtain rfl | ⟨b, rfl, hb⟩ := Value.cases_of_number? hw
  · change Except.ok (max 1 ((min n k : Int) : Rat).ceil.toNat) = _
    rw [Rat.ceil_intCast]
  · rw [hb]
    change Except.ok (max 1 (((if b then 1 else 0 : Int) : Rat)).ceil.toNat) = _
    rw [Rat.ceil_intCast]

section Together

variable (hworkers : e.config.performance.maxParallelWorkers.number? = some (.int n))
include hworkers

/-- A limit that no floating point number holds ends the run before a rule is started. -/
theorem outcomesTogether_of_error {f : Fault}
    (hseconds : e.config.performance.parallelRuleTimeoutMs.div (.double (.finite 1000)) = .error f)
    (schedule : Pool.Schedule) (rules : List Rule) :
    outcomesTogether schedule e ctx rules = .error f := by
  rw [outcomesTogether, workerCount_of_number? hworkers, hseconds]
  rfl

variable (hraw : ctx.raw = .text s)
  (hseconds : e.config.performance.parallelRuleTimeoutMs.div (.double (.finite 1000)) = .ok seconds)
include hraw hseconds

/-- The lines and the blocks of a text are always found. -/
theorem outcomesTogether_eq (schedule : Pool.Schedule) (rules : List Rule) :
    outcomesTogether schedule e ctx rules = (checkLimit seconds rules).map fun _ =>
      collect ctx seconds rules (schedule (waitLimit seconds) (max 1 (min n rules.length).toNat)
        (rules.map Rule.duration)) := by
  rw [outcomesTogether, workerCount_of_number? hworkers, hseconds]
  simp only [Context.lines, Context.blocks, hraw]
  change (do
    checkLimit seconds rules
    pure (collect ctx seconds rules (schedule (waitLimit seconds)
      (max 1 (min n rules.length).toNat) (rules.map Rule.duration)))) = _
  cases checkLimit seconds rules with
  | error f => rfl
  | ok _ => rfl

/-- A limit that can be waited for leaves it to the schedule which waits are over too early. -/
theorem runWith_true_of_not_lt (hlimit : (Double.finite longestLimit).lt seconds = false)
    (hrules : selection.apply e.rules = .ok rules) (htwo : 2 ≤ rules.length)
    (schedule : Pool.Schedule) : e.runWith schedule ctx selection (.bool true) =
      .ok (.ofOutcomes e.config.continueOnError.truthy (collect ctx seconds rules
        (schedule (waitLimit seconds) (max 1 (min n rules.length).toNat)
          (rules.map Rule.duration)))) := by
  have hcheck : checkLimit seconds rules = .ok () := by
    rw [checkLimit, hlimit]
    rfl
  rw [runWith_true hrules htwo, outcomesTogether_eq hworkers hraw hseconds, hcheck]
  rfl

end Together

/-- Without a wait that expired, the results on a pool are those of the rules alone. -/
theorem zipWith_entry_of_notMem {b : Batch} {trace : List Event}
    (hlength : (waits trace).length = b.rules.length) (h : Event.expire ∉ trace) :
    b.rules.zipWith b.entry (waits trace) = b.rules.map (Rule.outcome b.ctx) := by
  have hall : ∀ inTime ∈ waits trace, inTime = true := by
    intro inTime hmem
    obtain ⟨event, hevent, hwait⟩ := List.mem_filterMap.mp hmem
    cases event with
    | take => exact (Option.some.inj hwait).symm
    | expire => exact absurd hevent h
    | _ => contradiction
  rw [List.eq_replicate_of_mem hall, hlength]
  refine List.ext_getElem? fun i => ?_
  rw [List.getElem?_zipWith, List.getElem?_map]
  cases hr : b.rules[i]? with
  | none => rfl
  | some r =>
    rw [List.getElem?_replicate_of_lt (List.getElem?_eq_some_iff.mp hr).1]
    rfl

/-- A rule that finds one smell in every source. -/
def oneSmell (id : String) (duration : Rat) : Rule where
  id := id
  name := id
  category := "Test"
  order := 0
  find := fun _ _ => .ok [id]
  duration := duration

/-- An engine with two rules under a limit in milliseconds. -/
def twoRules (timeout : Value) (duration : Rat) : Engine where
  config := { performance := { parallelRuleTimeoutMs := timeout } }
  registry := [("A", oneSmell "A" duration), ("B", oneSmell "B" duration)]

theorem built_twoRules (timeout : Value) (duration : Rat) : (twoRules timeout duration).Built := by
  have hfirst : Built ⟨(twoRules timeout duration).config, [("A", oneSmell "A" duration)]⟩ :=
    (Built.empty (twoRules timeout duration).config).register (r := oneSmell "A" duration) rfl
  exact hfirst.register (r := oneSmell "B" duration) rfl

/-- Every selected rule contributes to a run on a pool one entry in its place. It is the outcome of
the rule on its own, or it says that the wait for the rule has expired. Without expired waits the
whole run is the one that takes the rules one after the other. A run on a pool never gets stuck, and
what the engine answers under any schedule is the result of such a run. -/
theorem runWith_interleaved (he : e.Built) (hraw : ctx.raw = .text s)
    (hrules : selection.apply e.rules = .ok rules) (htwo : 2 ≤ rules.length)
    (hworkers : e.config.performance.maxParallelWorkers.number? = some (.int n))
    (hseconds : e.config.performance.parallelRuleTimeoutMs.div (.double (.finite 1000)) =
      .ok seconds)
    (hlimit : (Double.finite longestLimit).lt seconds = false) {workers : Nat}
    (hpositive : 0 < workers) :
    let b : Batch := ⟨rules, ctx, seconds, workers⟩
    let merged : List Outcome → RunResult := .ofOutcomes e.config.continueOnError.truthy
    rules.Sublist e.rules ∧
    (∀ trace m, b.Run trace m → trace.length ≤ 5 * rules.length ∧
      ∃ more final, Event.expire ∉ more ∧ b.Run (trace ++ more) final ∧ b.Complete final) ∧
    (∀ trace final, b.Run trace final → b.Complete final →
      (waits trace).length = rules.length ∧ final.results.length = rules.length ∧
      (∀ (i : Nat) (r : Rule) (inTime : Bool),
        rules[i]? = some r → (waits trace)[i]? = some inTime →
        final.results[i]? =
          some (if inTime then r.outcome ctx else .error ⟨r.id, .timedOut seconds⟩)) ∧
      e.runWith (fun _ _ _ => waits trace) ctx selection (.bool true) =
        .ok (merged final.results) ∧
      (Event.expire ∉ trace → ∀ schedule,
        e.runWith schedule ctx selection (.bool false) = .ok (merged final.results)) ∧
      ∀ (d : Diagnostics) (k : Int), d.count "rule_failures" = .int k →
        (d.noteRuleErrors (merged final.results)).count "rule_failures" =
          .int (k + (merged final.results).errors.length)) ∧
    ∀ schedule : Pool.Schedule,
      (∀ limit workers durations, (schedule limit workers durations).length = durations.length) →
      ∃ trace final, b.Run trace final ∧ b.Complete final ∧
        e.runWith schedule ctx selection (.bool true) = .ok (merged final.results) := by
  intro b merged
  have hids : (b.rules.map Rule.id).Nodup := he.nodup_ids_of_apply hrules
  have htrue := runWith_true_of_not_lt hworkers hraw hseconds hlimit hrules htwo
  refine ⟨Selection.sublist_of_apply hrules, ?_, ?_, ?_⟩
  · intro trace m hrun
    exact ⟨hrun.length_le hids, hrun.exists_complete hids hpositive⟩
  · intro trace final hrun hcomplete
    obtain ⟨hlength, hresults⟩ := hrun.collected hids hcomplete
    refine ⟨hlength, hcomplete.results, ?_, ?_, ?_, ?_⟩
    · intro i r inTime hr hflag
      have hr' : b.rules[i]? = some r := hr
      rw [hresults, List.getElem?_zipWith, hr', hflag]
      rfl
    · rw [htrue, hresults]
      rfl
    · intro hexpire schedule
      rw [runWith_false hrules, hresults, zipWith_entry_of_notMem hlength hexpire]
    · intro d k hd
      exact Diagnostics.count_add (c := .rules) hd _
  · intro schedule hschedule
    have hlength : (schedule (waitLimit seconds) (max 1 (min n rules.length).toNat)
        (rules.map Rule.duration)).length = b.rules.length := by
      rw [hschedule, List.length_map]
    obtain ⟨trace, final, hrun, hcomplete, hwaits⟩ := Batch.exists_run hids hpositive hlength
    refine ⟨trace, final, hrun, hcomplete, ?_⟩
    rw [htrue, (hrun.collected hids hcomplete).2, hwaits]
    rfl

/-- Two rules on a pool of two workers, each waited for no longer than two seconds. -/
theorem runWith_interleaved_twoRules :
    let e := twoRules (.double (.finite 2000)) 0
    let ctx : Context := .ofSource (.text []) none .firstBrace
    let b : Batch := ⟨e.rules, ctx, .finite 2, 2⟩
    ∃ trace final, b.Run trace final ∧ b.Complete final ∧
      e.run ctx {} (.bool true) = .ok (.ofOutcomes true final.results) := by
  intro e ctx b
  have hraw : ctx.raw = .text [] := rfl
  have hrules : Selection.apply {} e.rules = .ok e.rules := rfl
  have hworkers : e.config.performance.maxParallelWorkers.number? = some (.int 4) := rfl
  have hquotient : (Double.finite 2000).div (.finite 1000) = .finite 2 := by decide +kernel
  have hseconds : e.config.performance.parallelRuleTimeoutMs.div (.double (.finite 1000)) =
      .ok (.finite 2) := congrArg Except.ok hquotient
  have hlimit : (Double.finite longestLimit).lt (.finite 2) = false := by decide +kernel
  have hbuilt : e.Built := built_twoRules _ _
  obtain ⟨-, -, -, hschedule⟩ := runWith_interleaved hbuilt hraw hrules (Nat.le_refl 2) hworkers
    hseconds hlimit Nat.two_pos
  exact hschedule Pool.waits Pool.length_waits

/-- Not every limit that is a number can be waited for, although without a pool the rules run. -/
theorem run_overlong :
    let huge := twoRules (.int (Int.pow 10 309)) 0
    let long := twoRules (.double (.finite 100000000000000000)) (1 / 10)
    let ctx : Context := .ofSource (.text []) none .firstBrace
    (∀ e ∈ [huge, long], e.Built ∧ Selection.apply {} e.rules = .ok e.rules ∧ e.rules.length = 2 ∧
      (∃ limit, e.config.performance.parallelRuleTimeoutMs.number? = some limit) ∧
      e.config.performance.maxParallelWorkers.number? = some (.int 4) ∧
      ∃ result, e.run ctx {} (.bool false) = .ok result) ∧
    huge.run ctx {} (.bool true) = .error .tooLarge ∧
    long.run ctx {} (.bool true) = .error .outOfRange := by
  intro huge long ctx
  refine ⟨?_, ?_, ?_⟩
  · intro e he
    obtain rfl | he := List.mem_cons.mp he
    · exact ⟨built_twoRules _ _, rfl, rfl, ⟨_, rfl⟩, rfl, _, runWith_false rfl _⟩
    · obtain rfl := List.mem_singleton.mp he
      exact ⟨built_twoRules _ _, rfl, rfl, ⟨_, rfl⟩, rfl, _, runWith_false rfl _⟩
  · have hrules : Selection.apply {} huge.rules = .ok huge.rules := rfl
    have hseconds : huge.config.performance.parallelRuleTimeoutMs.div (.double (.finite 1000)) =
        .error .tooLarge := Value.div_double_of_eq_none (by decide +kernel) _
    rw [run, runWith_true hrules (Nat.le_refl 2),
      outcomesTogether_of_error (n := 4) rfl hseconds]
    rfl
  · have hrules : Selection.apply {} long.rules = .ok long.rules := rfl
    have hquotient :
        (Double.finite 100000000000000000).div (.finite 1000) = .finite 100000000000000 := by
      decide +kernel
    have hseconds : long.config.performance.parallelRuleTimeoutMs.div (.double (.finite 1000)) =
        .ok (.finite 100000000000000) := congrArg Except.ok hquotient
    have hcheck : checkLimit (.finite 100000000000000) long.rules = .error .outOfRange :=
      if_pos (by decide +kernel)
    rw [run, runWith_true hrules (Nat.le_refl 2),
      outcomesTogether_eq (n := 4) rfl rfl hseconds, hcheck]
    rfl

end CodeHealth.Engine
