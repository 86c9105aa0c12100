import CodeHealth.Proofs.Diagnostics.Counters
import CodeHealth.Proofs.Engine.Registry
import CodeHealth.Proofs.Engine.Remembering
import CodeHealth.Proofs.Engine.Results
import CodeHealth.Proofs.Text.Occurrences
import Mathlib.Data.List.Infix

/-!
# Rules one after the other

A run that does not use the pool takes the rules that pass both filters, in the order in which they
are registered. Each of them contributes its smells or, if it raises, one error. If the run does not
go on after failures, the rules behind the first that raises contribute nothing at all.

So a rule that raises is missed by nobody: the smells are the same if it is unregistered before.
-/

namespace CodeHealth

/-! ### Filters -/

/-- Whether a value can be a filter: something that names can be in, or else something that counts
as false. -/
def Value.IsFilter : Value → Prop
  | .list _ | .text _ | .object _ => True
  | v => v.truthy = false

namespace Selection

/-- Whether a name passes a filter. Every name passes a filter that is absent or empty; otherwise it
has to be an item of a list, a part of a text or the name of a member. -/
def passes (names : Value) (name : String) : Bool :=
  match names with
  | .list items => items.isEmpty || items.any fun
    | .text item => item = name
    | _ => false
  | .text s => s.isEmpty || name.toList <:+: s.toList
  | .object members => members.isEmpty || (Entries.keys members).contains name
  | _ => true

/-- Whether a rule passes both filters. -/
def selects (s : Selection) (r : Rule) : Bool :=
  passes s.ruleIds r.id && passes s.categories r.category

/-- A filter that does not count as false asks whether it includes a name. -/
theorem includes_eq_passes {names : Value} (hfilter : names.IsFilter)
    (htruthy : names.truthy = true) (name : String) :
    names.includes (.text name) = .ok (passes names name) := by
  cases names with
  | list items =>
    have hitems : items.isEmpty = false := by simpa [Value.truthy] using htruthy
    rw [Value.includes, passes, hitems, Bool.false_or]
    congr 2
    funext item
    cases item <;> first | rfl | exact decide_eq_decide.mpr eq_comm
  | text s =>
    have hs : s.isEmpty = false := by simpa [Value.truthy] using htruthy
    rw [Value.includes, passes, hs, Bool.false_or, decide_eq_decide.mpr Text.offsetCount_pos_iff]
  | object members =>
    have hmembers : members.isEmpty = false := by simpa [Value.truthy] using htruthy
    have hname : (Entries.get? name members).isSome = (Entries.keys members).contains name := by
      rw [Bool.eq_iff_iff, Entries.isSome_get?_iff, List.contains_iff_mem]
    rw [passes, hmembers, Bool.false_or, ← hname]
    rfl
  | _ => exact Bool.noConfusion (htruthy.symm.trans hfilter)

theorem passes_of_truthy_eq_false {names : Value} (h : names.truthy = false) (name : String) :
    passes names name = true := by
  cases names with
  | list items => simp_all [Value.truthy, passes]
  | text s => simp_all [Value.truthy, passes]
  | object members => simp_all [Value.truthy, passes]
  | _ => rfl

theorem filter_eq {names : Value} (h : names.IsFilter) (name : Rule → String) (rules : List Rule) :
    filter names name rules = .ok (rules.filter fun r => passes names (name r)) := by
  rw [filter]
  split
  · rename_i htruthy
    exact filterM_ok fun r _ => includes_eq_passes h htruthy (name r)
  · rename_i htruthy
    have hall (r : Rule) : passes names (name r) = true :=
      passes_of_truthy_eq_false (Bool.not_eq_true _ ▸ htruthy) (name r)
    rw [List.filter_eq_self.mpr fun r _ => hall r]

/-- The rules that pass both filters are selected, in their order. -/
theorem apply_eq {s : Selection} (hids : s.ruleIds.IsFilter) (hcategories : s.categories.IsFilter)
    (rules : List Rule) : s.apply rules = .ok (rules.filter s.selects) := by
  rw [apply, filter_eq hids]
  change filter s.categories Rule.category _ = _
  rw [filter_eq hcategories, List.filter_filter]
  congr 2
  funext r
  exact Bool.and_comm _ _

end Selection

/-! ### Contributions -/

namespace Rule

/-- Whether a rule raises on a context. -/
def raises (ctx : Context) (r : Rule) : Bool :=
  !(r.scan ctx).isOk

/-- The smells that a rule contributes: none if it raises. -/
def contribution (ctx : Context) (r : Rule) : List Smell :=
  (r.scan ctx).toOption.getD []

/-- The error that a rule contributes: one if it raises. -/
def error? (ctx : Context) (r : Rule) : Option RuleError :=
  match r.scan ctx with
  | .ok _ => none
  | .error cause => some ⟨r.id, cause⟩

/-- The rules up to the first one that raises, that one included. -/
def untilRaise (ctx : Context) (rules : List Rule) : List Rule :=
  rules.takeWhile (fun r => !r.raises ctx) ++ (rules.dropWhile fun r => !r.raises ctx).take 1

variable {ctx : Context} {r : Rule}

/-- A rule contributes its smells or an error. -/
theorem outcome_cases (ctx : Context) (r : Rule) :
    (r.raises ctx = false ∧ r.outcome ctx = .ok (r.contribution ctx) ∧ r.error? ctx = none) ∨
    (r.raises ctx = true ∧ r.contribution ctx = [] ∧
      ∃ e, r.outcome ctx = .error e ∧ r.error? ctx = some e ∧ e.ruleId = r.id) := by
  rw [raises, outcome, contribution, error?]
  cases r.scan ctx with
  | ok smells => exact .inl ⟨rfl, rfl, rfl⟩
  | error cause => exact .inr ⟨rfl, rfl, _, rfl, rfl, rfl⟩

theorem untilRaise_cons (ctx : Context) (r : Rule) (rest : List Rule) :
    untilRaise ctx (r :: rest) = r :: if r.raises ctx then [] else untilRaise ctx rest := by
  rw [untilRaise]
  cases h : r.raises ctx with
  | true => simp [h]
  | false => simp [h, untilRaise]

theorem untilRaise_eq_self {rules : List Rule} (h : ∀ r ∈ rules, r.raises ctx = false) :
    untilRaise ctx rules = rules := by
  induction rules with
  | nil => rfl
  | cons r rest ih =>
    obtain ⟨hr, hrest⟩ := List.forall_mem_cons.mp h
    rw [untilRaise_cons, hr, ih hrest]
    rfl

end Rule

namespace RunResult

/-- A result that holds the contributions of some rules in their order. -/
structure Holds (ctx : Context) (rules : List Rule) (result : RunResult) : Prop where
  smells : result.smells = rules.flatMap (Rule.contribution ctx)
  errors : result.errors = rules.filterMap (Rule.error? ctx)
  /-- There is one error for each rule that raises. -/
  ruleIds : result.errors.map RuleError.ruleId = (rules.filter (Rule.raises ctx)).map Rule.id
  executed : result.executed = rules.length

variable {ctx : Context} {rules : List Rule} {result : RunResult}

theorem holds_nil (ctx : Context) : Holds ctx [] {} :=
  ⟨rfl, rfl, rfl, rfl⟩

theorem Holds.addFirst (h : result.Holds ctx rules) (r : Rule) :
    (addFirst (r.outcome ctx) result).Holds ctx (r :: rules) := by
  obtain ⟨hraises, houtcome, herror⟩ | ⟨hraises, hnone, e, houtcome, herror, hid⟩ :=
    r.outcome_cases ctx
  · rw [houtcome]
    constructor
    · rw [List.flatMap_cons, ← h.smells]
      rfl
    · rw [List.filterMap_cons_none herror, ← h.errors]
      rfl
    · rw [List.filter_cons_of_neg (by rw [hraises]; exact Bool.false_ne_true), ← h.ruleIds]
      rfl
    · exact congrArg (· + 1) h.executed
  · rw [houtcome]
    constructor
    · rw [List.flatMap_cons, hnone, List.nil_append, ← h.smells]
      rfl
    · rw [List.filterMap_cons_some herror, ← h.errors]
      rfl
    · rw [List.filter_cons_of_pos hraises, List.map_cons, ← h.ruleIds, ← hid]
      rfl
    · exact congrArg (· + 1) h.executed

/-- A run that goes on holds the contributions of all rules. -/
theorem holds_ofOutcomes_true (ctx : Context) (rules : List Rule) :
    (ofOutcomes true (rules.map (Rule.outcome ctx))).Holds ctx rules := by
  induction rules with
  | nil => exact holds_nil ctx
  | cons r rest ih =>
    have hrest := ih.addFirst r
    rw [List.map_cons]
    cases hr : r.outcome ctx with
    | ok smells =>
      rw [hr] at hrest
      exact hrest
    | error e =>
      rw [hr] at hrest
      exact hrest

/-- A run that does not go on holds the contributions up to the first error. -/
theorem holds_ofOutcomes_false (ctx : Context) (rules : List Rule) :
    (ofOutcomes false (rules.map (Rule.outcome ctx))).Holds ctx (Rule.untilRaise ctx rules) := by
  induction rules with
  | nil => exact holds_nil ctx
  | cons r rest ih =>
    rw [List.map_cons, Rule.untilRaise_cons]
    obtain ⟨hraises, houtcome, -⟩ | ⟨hraises, -, e, houtcome, -⟩ := r.outcome_cases ctx
    · have hrest := ih.addFirst r
      rw [houtcome] at hrest ⊢
      rw [hraises]
      exact hrest
    · have hlast := (holds_nil ctx).addFirst r
      rw [houtcome] at hlast ⊢
      rw [hraises]
      exact hlast

/-- If no rule raises, it does not matter whether the run would go on. -/
theorem holds_ofOutcomes_of_forall (h : ∀ r ∈ rules, r.raises ctx = false) (goesOn : Bool) :
    (ofOutcomes goesOn (rules.map (Rule.outcome ctx))).Holds ctx rules := by
  cases goesOn with
  | true => exact holds_ofOutcomes_true ctx rules
  | false =>
    have hholds := holds_ofOutcomes_false ctx rules
    rwa [Rule.untilRaise_eq_self h] at hholds

theorem Holds.errors_eq_nil (h : result.Holds ctx rules)
    (hraises : ∀ r ∈ rules, r.raises ctx = false) : result.errors = [] := by
  have hids : result.errors.map RuleError.ruleId = [] := by
    rw [h.ruleIds, List.filter_eq_nil_iff.mpr fun r hr => by rw [hraises r hr]; exact nofun]
    rfl
  exact List.map_eq_nil_iff.mp hids

/-- What rules contribute that do not raise is all that there is. -/
theorem flatMap_contribution_filter (ctx : Context) (rules : List Rule) :
    (rules.filter fun r => !r.raises ctx).flatMap (Rule.contribution ctx) =
      rules.flatMap (Rule.contribution ctx) := by
  induction rules with
  | nil => rfl
  | cons r rest ih =>
    rw [List.filter_cons, List.flatMap_cons, ← ih]
    obtain ⟨hraises, -⟩ | ⟨hraises, hnone, -⟩ := r.outcome_cases ctx
    · rw [hraises]
      rfl
    · rw [hraises, hnone]
      rfl

end RunResult

/-! ### Runs -/

namespace Engine

/-- The engine without the rules of some identifiers. -/
def without (e : Engine) (ids : List String) : Engine :=
  ids.foldl (fun e id => (e.unregister id).2) e

variable {e : Engine} {ctx : Context} {selection : Selection} {rules : List Rule} {parallel : Value}

theorem rules_without (h : e.Keyed) (ids : List String) :
    (e.without ids).rules = e.rules.filter fun r => r.id ∉ ids := by
  induction ids generalizing e with
  | nil => exact (List.filter_eq_self.mpr fun r _ => by simp).symm
  | cons id ids ih =>
    rw [without, List.foldl_cons]
    change ((e.unregister id).2.without ids).rules = _
    rw [ih (h.remove id), h.rules_unregister, List.filter_filter]
    refine List.filter_congr fun r _ => ?_
    simp only [List.mem_cons, not_or, ne_eq, Bool.decide_and]
    exact Bool.and_comm _ _

theorem config_without (e : Engine) (ids : List String) : (e.without ids).config = e.config := by
  induction ids generalizing e with
  | nil => rfl
  | cons id ids ih => exact ih (e.unregister id).2

theorem runsTogether_congr {e e' : Engine}
    (h : e.config.performance = e'.config.performance) (parallel : Value) :
    e.runsTogether parallel = e'.runsTogether parallel := by
  unfold runsTogether
  rw [h]

/-- Without the rules that raise, those are selected that do not raise. -/
theorem selected_without (h : e.Keyed) {ids : List String}
    (hids : ∀ r ∈ e.rules.filter selection.selects, r.id ∈ ids ↔ r.raises ctx = true) :
    (e.without ids).rules.filter selection.selects =
      (e.rules.filter selection.selects).filter fun r => !r.raises ctx := by
  rw [rules_without h]
  calc (e.rules.filter fun r => decide (r.id ∉ ids)).filter selection.selects
      = (e.rules.filter selection.selects).filter fun r => decide (r.id ∉ ids) := by
        rw [List.filter_filter, List.filter_filter]
        exact List.filter_congr fun r _ => Bool.and_comm _ _
    _ = _ := by
        refine List.filter_congr fun r hr => ?_
        simp only [decide_not, hids r hr, Bool.decide_eq_true]

/-- A run that does not use the pool takes the outcome of every selected rule. -/
theorem runWith_inTurn (hrules : selection.apply e.rules = .ok rules)
    (hturn : e.runsTogether parallel = true → rules.length ≤ 1) (schedule : Pool.Schedule) :
    e.runWith schedule ctx selection parallel =
      .ok (.ofOutcomes e.config.continueOnError.truthy (rules.map (Rule.outcome ctx))) := by
  have hpool : ¬(e.runsTogether parallel && decide (1 < rules.length)) = true := by
    intro h
    obtain ⟨htogether, hlength⟩ := Bool.and_eq_true_iff.mp h
    exact Nat.not_lt.mpr (hturn htogether) (of_decide_eq_true hlength)
  rw [runWith, hrules]
  change (do
    let outcomes ← if (e.runsTogether parallel && decide (1 < rules.length)) = true then
        outcomesTogether schedule e ctx rules
      else pure (rules.map (Rule.outcome ctx))
    pure (RunResult.ofOutcomes e.config.continueOnError.truthy outcomes)) = _
  rw [if_neg hpool]
  rfl

/-- A run that does not use the pool holds the contributions of the rules that pass both filters, in
the order of their registration, and it ends with the first error if it does not go on. The counter
of failures grows by the number of errors. If it goes on, rules that raise could as well have been
unregistered before. And whatever of the context was looked up by earlier rules and kept for later
ones, every rule contributes what it yields on its own on a context that nothing was asked for. -/
theorem run_inTurn (he : e.Built) (selection : Selection) (ctx : Context) (parallel : Value)
    (hids : selection.ruleIds.IsFilter) (hcategories : selection.categories.IsFilter)
    (hturn : e.runsTogether parallel = true → (e.rules.filter selection.selects).length ≤ 1) :
    let chosen := e.rules.filter selection.selects
    let goesOn := e.config.continueOnError.truthy
    ∃ result, e.run ctx selection parallel = .ok result ∧
      result.Holds ctx (if goesOn then chosen else Rule.untilRaise ctx chosen) ∧
      (∀ (d : Diagnostics) (k : Int), d.count "rule_failures" = .int k →
        (d.noteRuleErrors result).count "rule_failures" = .int (k + result.errors.length)) ∧
      (goesOn = true → ∀ ids : List String, (∀ r ∈ chosen, r.id ∈ ids ↔ r.raises ctx = true) →
        ∃ result', (e.without ids).run ctx selection parallel = .ok result' ∧
          result'.smells = result.smells) ∧
      ∀ course : Rule → Inquiry, (∀ r ∈ chosen, r.Follows ctx (course r)) →
        ∀ m : Memory, m.Sound ctx →
          result = .ofOutcomes goesOn (outcomesRemembering ctx course chosen m).1 ∧
          (outcomesRemembering ctx course chosen m).1 =
            chosen.map fun r => r.report ((course r).remembering ctx .empty).1 := by
  intro chosen goesOn
  have hchosen : selection.apply e.rules = .ok chosen :=
    Selection.apply_eq hids hcategories e.rules
  refine ⟨_, runWith_inTurn hchosen hturn Pool.waits, ?_, ?_, ?_, ?_⟩
  · change RunResult.Holds ctx _ (.ofOutcomes goesOn _)
    cases goesOn with
    | true => exact RunResult.holds_ofOutcomes_true ctx chosen
    | false => exact RunResult.holds_ofOutcomes_false ctx chosen
  · intro d k hd
    exact Diagnostics.count_add (c := .rules) hd _
  · intro hgoesOn ids hraising
    have hrest := selected_without he.keyed hraising
    have hlength : (e.without ids).runsTogether parallel = true →
        (chosen.filter fun r => !r.raises ctx).length ≤ 1 := by
      intro htogether
      rw [runsTogether_congr (congrArg Config.performance (e.config_without ids))] at htogether
      exact Nat.le_trans (List.length_filter_le _ _) (hturn htogether)
    refine ⟨_, runWith_inTurn ((Selection.apply_eq hids hcategories _).trans (by rw [hrest]))
      hlength Pool.waits, ?_⟩
    have htruthy : e.config.continueOnError.truthy = true := hgoesOn
    rw [config_without, htruthy, (RunResult.holds_ofOutcomes_true ctx _).smells,
      (RunResult.holds_ofOutcomes_true ctx _).smells, RunResult.flatMap_contribution_filter]
  · intro course hfollows m hm
    obtain ⟨houtcomes, -⟩ := outcomesRemembering_eq hfollows hm
    refine ⟨by rw [houtcomes], ?_⟩
    rw [houtcomes]
    refine List.map_congr_left fun r hr => ?_
    exact (report_remembering (hfollows r hr) (Memory.sound_empty ctx)).symm

/-- A rule that looks at the lines of a source before it ends in a given way. -/
def looking (id : String) (found : Except Failure (List String)) : Rule where
  id := id
  name := id
  category := "Test"
  order := 0
  find := fun _ ctx => do
    let _ ← ctx.lines
    found

/-- An engine with three rules, of which the second one raises. -/
def threeLooking (goesOn : Bool) : Engine where
  config := { continueOnError := .bool goesOn }
  registry := [("A", looking "A" (.ok ["a"])), ("B", looking "B" (.error (.fault .missingMember))),
    ("C", looking "C" (.ok ["c"]))]

theorem built_threeLooking (goesOn : Bool) : (threeLooking goesOn).Built := by
  have hfirst : Built ⟨(threeLooking goesOn).config, [("A", looking "A" (.ok ["a"]))]⟩ :=
    (Built.empty (threeLooking goesOn).config).register (r := looking "A" (.ok ["a"])) rfl
  have hsecond : Built ⟨(threeLooking goesOn).config, [("A", looking "A" (.ok ["a"])),
      ("B", looking "B" (.error (.fault .missingMember)))]⟩ :=
    hfirst.register (r := looking "B" (.error (.fault .missingMember))) rfl
  exact hsecond.register (r := looking "C" (.ok ["c"])) rfl

/-- The course of a rule that asks for the lines first. -/
def linesFirst (ctx : Context) (r : Rule) : Inquiry :=
  .need .lines fun _ => .done (r.find (ctx.threshold r.id) ctx)

/-- The second of three rules raises, and the run goes on behind it or ends there. The lines that
the first of them has asked for are kept. -/
theorem run_inTurn_threeLooking :
    let ctx : Context := .ofSource (.text ['x']) none .firstBrace
    (∃ result, (threeLooking true).run ctx {} (.bool false) = .ok result ∧
      result.smells.map Smell.name = [.text "A", .text "C"] ∧ result.executed = 3 ∧
      (∃ result', ((threeLooking true).without ["B"]).run ctx {} (.bool false) = .ok result' ∧
        result'.smells = result.smells) ∧
      result = .ofOutcomes true
        (outcomesRemembering ctx (linesFirst ctx) (threeLooking true).rules .empty).1) ∧
    ∃ result, (threeLooking false).run ctx {} (.bool false) = .ok result ∧
      result.smells.map Smell.name = [.text "A"] ∧ result.executed = 2 := by
  intro ctx
  constructor
  · obtain ⟨result, hrun, hholds, -, hwithout, hshared⟩ :=
      run_inTurn (built_threeLooking true) {} ctx (.bool false) rfl rfl nofun
    have hraising := hwithout rfl ["B"] (by decide)
    have hfollows : ∀ r ∈ (threeLooking true).rules, r.Follows ctx (linesFirst ctx r) := by
      intro r _
      rfl
    refine ⟨result, hrun, ?_, hholds.executed, hraising, ?_⟩
    · rw [hholds.smells]
      rfl
    · exact (hshared (linesFirst ctx) hfollows .empty (Memory.sound_empty ctx)).1
  · obtain ⟨result, hrun, hholds, -⟩ :=
      run_inTurn (built_threeLooking false) {} ctx (.bool false) rfl rfl nofun
    refine ⟨result, hrun, ?_, hholds.executed⟩
    rw [hholds.smells]
    rfl

end Engine

end CodeHealth
