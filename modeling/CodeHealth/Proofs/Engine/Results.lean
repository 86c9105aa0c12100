import CodeHealth.Engine.Basic
import CodeHealth.Proofs.Fault
import CodeHealth.Proofs.Smell

/-!
# What a run contributes

A rule finds smells of its own category only. If the rules of a run stand in the order of their
categories, so do the smells of the run, whichever rules fail and whether or not the run goes on
behind a failure.

Without waits that expire a run at the same time has the result of a run one after the other.
-/

namespace CodeHealth

namespace Rule

variable {r : Rule} {ctx : Context}

theorem category_of_mem_scan {smells : List Smell} (h : r.scan ctx = .ok smells) {x : Smell}
    (hx : x ∈ smells) : x.category = .text r.category := by
  obtain ⟨descriptions, -, h⟩ := exists_of_bind_eq_ok h
  obtain rfl := Except.ok.inj h
  obtain ⟨description, -, rfl⟩ := List.mem_map.mp hx
  rfl

theorem scan_of_outcome {smells : List Smell} (h : r.outcome ctx = .ok smells) :
    r.scan ctx = .ok smells := by
  rw [outcome] at h
  split at h
  · rename_i hscan
    rw [hscan, Except.ok.inj h]
  · contradiction

end Rule

namespace RunResult

variable {ctx : Context} {rules : List Rule}

/-- A run goes on behind a rule or ends with it, and it contributes the smells of the rule
or none. -/
theorem smells_ofOutcomes_cons (goesOn : Bool) (outcome : Outcome) (rest : List Outcome) :
    (∃ smells, outcome = .ok smells ∧
      (ofOutcomes goesOn (outcome :: rest)).smells = smells ++ (ofOutcomes goesOn rest).smells) ∨
    (ofOutcomes goesOn (outcome :: rest)).smells = (ofOutcomes goesOn rest).smells ∨
    (ofOutcomes goesOn (outcome :: rest)).smells = [] := by
  cases outcome with
  | ok smells => exact .inl ⟨smells, rfl, rfl⟩
  | error e =>
    cases goesOn with
    | true => exact .inr (.inl rfl)
    | false => exact .inr (.inr rfl)

/-- Every smell of a run comes from one of the outcomes. -/
theorem exists_outcome_of_mem {goesOn : Bool} {outcomes : List Outcome} {x : Smell}
    (hx : x ∈ (ofOutcomes goesOn outcomes).smells) :
    ∃ smells, .ok smells ∈ outcomes ∧ x ∈ smells := by
  induction outcomes with
  | nil => exact absurd hx List.not_mem_nil
  | cons outcome rest ih =>
    have hrest (hx : x ∈ (ofOutcomes goesOn rest).smells) :
        ∃ smells, .ok smells ∈ outcome :: rest ∧ x ∈ smells := by
      obtain ⟨smells, hmem, hx⟩ := ih hx
      exact ⟨smells, List.mem_cons_of_mem outcome hmem, hx⟩
    obtain ⟨smells, rfl, h⟩ | h | h := smells_ofOutcomes_cons goesOn outcome rest
    · rw [h] at hx
      obtain hx | hx := List.mem_append.mp hx
      · exact ⟨smells, List.mem_cons_self, hx⟩
      · exact hrest hx
    · rw [h] at hx
      exact hrest hx
    · rw [h] at hx
      exact absurd hx List.not_mem_nil

/-- Every smell of a run belongs to the category of one of its rules. -/
theorem exists_rule_of_mem (goesOn : Bool) {x : Smell}
    (hx : x ∈ (ofOutcomes goesOn (rules.map (Rule.outcome ctx))).smells) :
    ∃ r ∈ rules, x.category = .text r.category := by
  obtain ⟨smells, hmem, hx⟩ := exists_outcome_of_mem hx
  obtain ⟨r, hr, houtcome⟩ := List.mem_map.mp hmem
  exact ⟨r, hr, Rule.category_of_mem_scan (Rule.scan_of_outcome houtcome) hx⟩

/-- A run has no more smells than its outcomes together. -/
theorem length_smells_le (goesOn : Bool) {outcomes : List Outcome} {bound : Nat}
    (h : ∀ smells, .ok smells ∈ outcomes → smells.length ≤ bound) :
    (ofOutcomes goesOn outcomes).smells.length ≤ outcomes.length * bound := by
  induction outcomes with
  | nil => exact Nat.zero_le _
  | cons outcome rest ih =>
    have hrest := ih fun smells hmem => h smells (List.mem_cons_of_mem outcome hmem)
    rw [List.length_cons, Nat.succ_mul]
    obtain ⟨smells, rfl, hsmells⟩ | hsmells | hsmells := smells_ofOutcomes_cons goesOn outcome rest
    · have hfirst := h smells List.mem_cons_self
      rw [hsmells, List.length_append]
      omega
    · rw [hsmells]
      omega
    · rw [hsmells]
      exact Nat.zero_le _

/-- Rules in the order of their categories find smells in that order. -/
theorem pairwise_place
    (h : rules.Pairwise fun r s => Category.position r.category ≤ Category.position s.category)
    (goesOn : Bool) : (ofOutcomes goesOn (rules.map (Rule.outcome ctx))).smells.Pairwise
      fun x y => Category.place x.category ≤ Category.place y.category := by
  induction rules with
  | nil => exact List.Pairwise.nil
  | cons r rest ih =>
    obtain ⟨hr, hrest⟩ := List.pairwise_cons.mp h
    rw [List.map_cons]
    obtain ⟨smells, houtcome, h⟩ | h | h :=
      smells_ofOutcomes_cons goesOn (r.outcome ctx) (rest.map (Rule.outcome ctx))
    · have hown {x : Smell} (hx : x ∈ smells) : x.category = .text r.category :=
        Rule.category_of_mem_scan (Rule.scan_of_outcome houtcome) hx
      rw [h]
      refine List.pairwise_append.mpr ⟨?_, ih hrest, fun x hx y hy => ?_⟩
      · refine List.pairwise_of_forall_mem_list fun x hx y hy => ?_
        exact Nat.le_of_eq (by rw [hown hx, hown hy])
      · obtain ⟨s, hs, hy⟩ := exists_rule_of_mem goesOn hy
        rw [hown hx, hy]
        exact hr s hs
    · rw [h]
      exact ih hrest
    · rw [h]
      exact List.Pairwise.nil

end RunResult

namespace Engine

variable {e : Engine} {ctx : Context}

/-- A run of all rules. -/
theorem runWith_all (schedule : Pool.Schedule) (e : Engine) (ctx : Context) (parallel : Value) :
    e.runWith schedule ctx {} parallel =
      if (e.runsTogether parallel && decide (1 < e.rules.length)) = true then
        outcomesTogether schedule e ctx e.rules >>= fun outcomes =>
          .ok (.ofOutcomes e.config.continueOnError.truthy outcomes)
      else .ok (.ofOutcomes e.config.continueOnError.truthy (e.rules.map (Rule.outcome ctx))) := rfl

theorem waitLimit_nonneg {x : Double} {seconds : Rat} (h : waitLimit x = some seconds) :
    0 ≤ seconds := by
  cases x with
  | finite q =>
    obtain rfl := Option.some.inj h
    split
    · exact Rat.le_refl
    · rename_i hq
      exact Rat.not_lt.mp hq
  | negZero =>
    obtain rfl := Option.some.inj h
    exact Rat.le_refl
  | infinite negative =>
    cases negative with
    | true =>
      obtain rfl := Option.some.inj h
      exact Rat.le_refl
    | false => contradiction
  | nan =>
    obtain rfl := Option.some.inj h
    exact Rat.le_refl

theorem collect_replicate (ctx : Context) (seconds : Double) (rules : List Rule) :
    collect ctx seconds rules (List.replicate rules.length true) =
      rules.map (Rule.outcome ctx) := by
  induction rules with
  | nil => rfl
  | cons r rest ih =>
    rw [List.length_cons, List.replicate_succ, collect, List.zipWith_cons_cons, List.map_cons, ← ih]
    rfl

/-- A run of all rules in which no wait expires takes the outcome of every rule. -/
theorem eq_ofOutcomes_of_runWith {schedule : Pool.Schedule} {parallel : Value} {result : RunResult}
    (hschedule : e.runsTogether parallel = true → ∀ limit workers,
      (∀ seconds, limit = some seconds → 0 ≤ seconds) →
      schedule limit workers (e.rules.map Rule.duration) = List.replicate e.rules.length true)
    (h : e.runWith schedule ctx {} parallel = .ok result) :
    result = .ofOutcomes e.config.continueOnError.truthy (e.rules.map (Rule.outcome ctx)) := by
  rw [runWith_all] at h
  split at h
  · rename_i htogether
    obtain ⟨outcomes, houtcomes, h⟩ := exists_of_bind_eq_ok h
    obtain rfl := Except.ok.inj h
    obtain ⟨workers, -, houtcomes⟩ := exists_of_bind_eq_ok houtcomes
    obtain ⟨seconds, -, houtcomes⟩ := exists_of_bind_eq_ok houtcomes
    obtain ⟨_, -, houtcomes⟩ := exists_of_bind_eq_ok houtcomes
    obtain ⟨_, -, houtcomes⟩ := exists_of_bind_eq_ok houtcomes
    obtain ⟨_, -, houtcomes⟩ := exists_of_bind_eq_ok houtcomes
    obtain ⟨_, -, houtcomes⟩ := exists_of_bind_eq_ok houtcomes
    obtain rfl := Except.ok.inj houtcomes
    rw [hschedule (Bool.and_eq_true_iff.mp htogether).1 _ _ fun _ => waitLimit_nonneg,
      collect_replicate]
  · exact (Except.ok.inj h).symm

end Engine

end CodeHealth
