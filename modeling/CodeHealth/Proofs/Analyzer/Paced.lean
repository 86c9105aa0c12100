import CodeHealth.Analyzer.Basic
import CodeHealth.Proofs.Diagnostics.Counters
import CodeHealth.Proofs.Engine.Loading
import CodeHealth.Proofs.Engine.Results
import CodeHealth.Proofs.Rule.Catalog

/-!
# Analyzers at any pace

How long a rule takes and which worker gets along first is up to the machine. A `Pace` fixes both,
and `Analyzer.ofConfigAt` is the analyzer of a configuration on such a machine. The analyzer of the
library itself is that at the pace at which no rule takes any time (`ofConfigAt_default`), so what
holds at every pace holds of it.
-/

namespace CodeHealth

/-- How long each rule takes, and which waits end in time on a pool. -/
structure Pace where
  schedule : Pool.Schedule := Pool.waits
  /-- How many seconds a rule takes, by its identifier. -/
  duration : String → Rat := fun _ => 0

namespace Pace

/-- No wait expires, however long it may take. -/
def InTime (p : Pace) : Prop :=
  ∀ (limit : Option Rat) (workers : Nat) (ids : List String),
    (∀ seconds, limit = some seconds → 0 ≤ seconds) →
    p.schedule limit workers (ids.map p.duration) = List.replicate ids.length true

def rule (p : Pace) (r : Rule) : Rule :=
  { r with duration := p.duration r.id }

def catalog (p : Pace) : List Rule :=
  Catalog.rules.map p.rule

theorem nodup_ids (p : Pace) : (p.catalog.map Rule.id).Nodup := by
  rw [catalog, List.map_map]
  exact Catalog.nodup_ids

/-- Which rules are enabled does not depend on the pace. -/
theorem filter_catalog (p : Pace) (config : Config) :
    p.catalog.filter config.enables = (Catalog.rules.filter config.enables).map p.rule :=
  List.filter_map

/-- What comes of a rule does not depend on the pace. -/
theorem map_outcome (p : Pace) (ctx : Context) (rules : List Rule) :
    (rules.map p.rule).map (Rule.outcome ctx) = rules.map (Rule.outcome ctx) := by
  rw [List.map_map]
  rfl

theorem catalog_default : ({} : Pace).catalog = Catalog.rules := by
  have hrule : ∀ r ∈ Catalog.rules, ({} : Pace).rule r = r := by
    intro r hr
    have hduration : r.duration = 0 := Catalog.duration_eq_zero hr
    cases r
    exact congrArg _ hduration.symm
  rw [catalog, List.map_congr_left hrule, List.map_id']

end Pace

namespace Analyzer

/-- An engine with all rules of the catalog that a configuration enables, at a pace. -/
def engineAt (p : Pace) (config : Config) : Except Fault Engine := do
  let (engine, loaded) := Engine.load { config } p.catalog
  let _ ← loaded
  return engine

def ofEngineAt (p : Pace) (config : Config) (scanner : Scanner) (engine : Engine) : Analyzer where
  config := config
  scanner := scanner
  runRules ctx parallel := engine.runWith p.schedule ctx {} parallel

def ofConfigAt (p : Pace) (config : Config) : Except Failure Analyzer := do
  config.validate
  let engine ← engineAt p config
  return ofEngineAt p config (← Config.selectScanner config.structureScanner) engine

theorem engineAt_default (config : Config) : engineAt {} config = engine config := by
  rw [engineAt, engine, Pace.catalog_default]

theorem ofConfigAt_default (config : Config) : ofConfigAt {} config = ofConfig config := by
  rw [ofConfigAt, engineAt_default]
  rfl

variable {p : Pace} {config : Config}

theorem eq_ofEngineAt_of_ofConfigAt {a : Analyzer} (h : ofConfigAt p config = .ok a) :
    ∃ scanner engine, Config.selectScanner config.structureScanner = .ok scanner ∧
      engineAt p config = .ok engine ∧ a = ofEngineAt p config scanner engine := by
  obtain ⟨_, -, h⟩ := exists_of_bind_eq_ok h
  obtain ⟨engine, hengine, h⟩ := exists_of_bind_eq_ok h
  obtain ⟨scanner, hscanner, h⟩ := exists_of_bind_eq_ok h
  exact ⟨scanner, engine, hscanner, Fault.eq_ok_of_lift hengine, (Except.ok.inj h).symm⟩

/-- The engine of a configuration runs the enabled rules of the catalog, in canonical order. -/
theorem rules_engineAt {engine : Engine} (h : engineAt p config = .ok engine) :
    engine.rules = p.catalog.filter config.enables ∧ engine.config = config := by
  obtain ⟨count, hcount, h⟩ := exists_of_bind_eq_ok h
  obtain rfl := Except.ok.inj h
  exact ⟨Engine.rules_load_empty p.nodup_ids hcount, Engine.config_load _ _⟩

section Analysis

variable {scanner : Scanner} {engine : Engine} {d : Diagnostics} {s : Text}
variable {parallel elapsed : Value}

/-- An analysis runs the rules and puts the results together with the other measures. Nothing but
the failures of rules is counted. -/
theorem profile_eq (p : Pace) (config : Config) (scanner : Scanner) (engine : Engine)
    (d : Diagnostics) (s : Text) (parallel : Value) :
    (ofEngineAt p config scanner engine).profile d (.text s) parallel =
      match Fault.lift (engine.runWith p.schedule (.ofSource (.text s) (some config) scanner) {}
        parallel) with
      | .error e => (.error e, d)
      | .ok result =>
        (Fault.lift (Profile.aggregate config.scoring (.nat s.clean.complexity)
          (.double (s.duplication config.normalizeWhitespace.truthy)) result.smells
          (.nat s.lines.length)), d.noteRuleErrors result) :=
  rfl

/-- The profile of an analysis, without the diagnostics. -/
theorem profile_ofEngineAt (p : Pace) (config : Config) (scanner : Scanner) (engine : Engine)
    (d : Diagnostics) (s : Text) (parallel : Value) :
    ((ofEngineAt p config scanner engine).profile d (.text s) parallel).1 = Fault.lift (do
      let result ←
        engine.runWith p.schedule (.ofSource (.text s) (some config) scanner) {} parallel
      Profile.aggregate config.scoring (.nat s.clean.complexity)
        (.double (s.duplication config.normalizeWhitespace.truthy)) result.smells
        (.nat s.lines.length)) := by
  rw [profile_eq]
  cases engine.runWith p.schedule (.ofSource (.text s) (some config) scanner) {} parallel with
  | error f => rfl
  | ok result => rfl

/-- Where durations can be kept, recording one does not change what an analysis answers. -/
theorem fst_analyze {bound? : Option Nat} (hd : d.sampleBound? = .ok bound?) :
    ((ofEngineAt p config scanner engine).analyze d (.text s) parallel elapsed).1 =
      ((ofEngineAt p config scanner engine).profile d (.text s) parallel).1 := by
  have hkept : ((ofEngineAt p config scanner engine).profile d (.text s) parallel).2.sampleBound? =
      .ok bound? := by
    rw [profile_eq]
    cases engine.runWith p.schedule (.ofSource (.text s) (some config) scanner) {} parallel with
    | error f => exact hd
    | ok result =>
      rw [← hd]
      exact Diagnostics.sampleBound?_note d _ _
  rw [analyze]
  dsimp only
  rw [Diagnostics.record, hkept]
  rfl

/-- What an analysis answers comes of a run of the rules. -/
theorem exists_run_of_analyze {profile : Profile}
    (h : ((ofEngineAt p config scanner engine).analyze d (.text s) parallel elapsed).1 =
      .ok profile) :
    ∃ result, engine.runWith p.schedule (.ofSource (.text s) (some config) scanner) {} parallel =
        .ok result ∧
      Profile.aggregate config.scoring (.nat s.clean.complexity)
        (.double (s.duplication config.normalizeWhitespace.truthy)) result.smells
        (.nat s.lines.length) = .ok profile := by
  have hprofile : ((ofEngineAt p config scanner engine).profile d (.text s) parallel).1 =
      .ok profile := by
    rw [analyze] at h
    dsimp only at h
    split at h
    · exact h
    · contradiction
  rw [profile_ofEngineAt] at hprofile
  exact exists_of_bind_eq_ok (Fault.eq_ok_of_lift hprofile)

end Analysis

end Analyzer

end CodeHealth
