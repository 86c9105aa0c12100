import CodeHealth.Diagnostics.Basic
import CodeHealth.Engine.Basic
import CodeHealth.Profile.Basic
import CodeHealth.Rule.Catalog
import CodeHealth.Source.Decision
import CodeHealth.Source.Duplication

/-!
# The analysis of a source

An analysis cleans the source, measures complexity and duplication, runs the rules and puts the
results together in a profile. The first three steps recover from a failure: a source that cannot be
cleaned is taken as it is, and a measure that cannot be taken is that of an empty source. So do
single rules, which contribute nothing then. Each recovery is counted in the diagnostics, which are
handed from step to step; a failure that is not recovered ends the analysis and leaves the counts in
place.

The measures depend on the source alone, and the diagnostics never influence a profile.
-/

namespace CodeHealth

namespace Source

/-- The complexity of a clean source. What is not a text counts as a failure and has the least
complexity. -/
def complexity : Source → Except Fault Nat
  | .text s => .ok s.complexity
  | .notText => .error .notText

/-- The share of repeated lines. -/
def duplication (ignoreBlanks : Bool) : Source → Except Fault Double
  | .text s => .ok (s.duplication ignoreBlanks)
  | .notText => .error .notSplittable

end Source

/-- The result of a step that may fail, together with the diagnostics after it. -/
abbrev Step (α : Type) := Except Failure α × Diagnostics

inductive Counter where
  | preprocessing
  /-- Sources whose complexity could not be measured. -/
  | complexity
  /-- Sources whose duplication could not be measured. -/
  | duplication
  | rules
  | accepted
  | refused
  | failed
deriving Repr, DecidableEq

def Counter.name : Counter → String
  | .preprocessing => "preprocess_failures"
  | .complexity => "complexity_failures"
  | .duplication => "duplication_failures"
  | .rules => "rule_failures"
  | .accepted => "requests_ok"
  | .refused => "requests_invalid"
  | .failed => "requests_failed"

namespace Diagnostics

def add (d : Diagnostics) (c : Counter) (times : Nat) : Diagnostics :=
  d.note c.name times

/-- A result, or a substitute for it whose use is counted. -/
def recover {α ε : Type} (d : Diagnostics) (c : Counter) (substitute : α) :
    Except ε α → α × Diagnostics
  | .ok a => (a, d)
  | .error _ => (substitute, d.add c 1)

/-- The complexity of a clean source, one on failure. -/
def measureComplexity (d : Diagnostics) (clean : Source) : Nat × Diagnostics :=
  d.recover .complexity 1 clean.complexity

/-- The duplication of a source, zero on failure. -/
def measureDuplication (d : Diagnostics) (ignoreBlanks : Bool) (raw : Source) :
    Double × Diagnostics :=
  d.recover .duplication .zero (raw.duplication ignoreBlanks)

/-- Counts the failures of rules. -/
def noteRuleErrors (d : Diagnostics) (r : RunResult) : Diagnostics :=
  d.add .rules r.errors.length

end Diagnostics

/-- An analyzer: a valid configuration with the rules and the scanner that it selects. The first and
the third step of an analysis can be replaced. -/
structure Analyzer where
  config : Config
  scanner : Scanner
  preprocess : Source → Except Failure Text := fun raw => .ok raw.clean
  /-- Runs the rules, at the same time or one after the other. -/
  runRules : Context → (parallel : Value) → Except Failure RunResult

namespace Analyzer

/-- An engine with all rules of the catalog that a configuration enables. -/
def engine (config : Config) : Except Fault Engine := do
  let (engine, loaded) := Engine.load { config } Catalog.rules
  let _ ← loaded
  return engine

def ofEngine (config : Config) (scanner : Scanner) (engine : Engine) : Analyzer where
  config := config
  scanner := scanner
  runRules ctx parallel := engine.run ctx {} parallel

/-- The analyzer of a configuration, which has to be valid. -/
def ofConfig (config : Config) : Except Failure Analyzer := do
  config.validate
  let engine ← engine config
  return ofEngine config (← Config.selectScanner config.structureScanner) engine

def context (a : Analyzer) (raw clean : Source) : Context :=
  ⟨raw, clean, some a.config, a.scanner⟩

def profile (a : Analyzer) (d : Diagnostics) (raw : Source) (parallel : Value) : Step Profile :=
  let (clean, d) := d.recover .preprocessing raw (Source.text <$> a.preprocess raw)
  let (complexity, d) := d.measureComplexity clean
  let (duplication, d) := d.measureDuplication a.config.normalizeWhitespace.truthy raw
  match a.runRules (a.context raw clean) parallel with
  | .error e => (.error e, d)
  | .ok result =>
    let profile : Except Failure Profile := do
      let lines ← raw.lines
      Profile.aggregate a.config.scoring (.nat complexity) (.double duplication) result.smells
        (.nat lines.length)
    (profile, d.noteRuleErrors result)

def timedOperation : String := "analyze"

/-- Analyzes a source, and records how many milliseconds it took. -/
def analyze (a : Analyzer) (d : Diagnostics) (raw : Source) (parallel : Value := .null)
    (elapsed : Value := .int 0) : Step Profile :=
  let (profile, d) := a.profile d raw parallel
  match d.record timedOperation elapsed with
  | .ok d => (profile, d)
  | .error f => (.error f, d)

end Analyzer

def analyzeSource (raw : Source) (config : Config) : Except Failure Profile := do
  let analyzer ← Analyzer.ofConfig config
  (analyzer.analyze {} raw).1

end CodeHealth
