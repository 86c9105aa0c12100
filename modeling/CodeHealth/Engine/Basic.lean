import CodeHealth.Engine.Pool
import CodeHealth.Rule.Basic

/-!
# The engine

The engine holds the registered rules in the order of registration and runs them on a context. A
rule that fails contributes an error and no smells. Its failure is no failure of the run, which goes
on with the next rule or ends there, as the configuration says.

Rules may run at the same time. The results are put together in the order of registration all the
same, so that the only trace of it is a rule that took too long: it contributes an error instead of
its own result. Before they are started the lines, methods and classes of the source are looked for;
if that fails, so does the run. It also fails if a limit is too long for a wait.
-/

namespace CodeHealth

structure RuleError where
  ruleId : String
  cause : Failure

/-- What comes of one rule. -/
abbrev Outcome := Except RuleError (List Smell)

structure RunResult where
  /-- The smells, in the order of the rules. -/
  smells : List Smell := []
  /-- The failures, in the order of the rules. -/
  errors : List RuleError := []
  executed : Nat := 0

namespace RunResult

/-- The result of the first outcomes, with that of one more rule before them. -/
def addFirst (outcome : Outcome) (r : RunResult) : RunResult :=
  match outcome with
  | .ok smells => { r with smells := smells ++ r.smells, executed := r.executed + 1 }
  | .error e => { r with errors := e :: r.errors, executed := r.executed + 1 }

/-- Puts outcomes together in order. Unless the run goes on after failures, the first failure is the
last contribution. -/
def ofOutcomes (goesOn : Bool) : List Outcome → RunResult
  | [] => {}
  | .error e :: rest => addFirst (.error e) (if goesOn then ofOutcomes goesOn rest else {})
  | .ok smells :: rest => addFirst (.ok smells) (ofOutcomes goesOn rest)

end RunResult

def Rule.outcome (ctx : Context) (r : Rule) : Outcome :=
  match r.scan ctx with
  | .ok smells => .ok smells
  | .error cause => .error ⟨r.id, cause⟩

/-- Which of the registered rules run. A filter is a list of names or, as a text, names its parts;
one that counts as false lets everything pass. -/
structure Selection where
  ruleIds : Value := .null
  categories : Value := .null

namespace Selection

def filter (names : Value) (name : Rule → String) (rules : List Rule) : Except Fault (List Rule) :=
  if names.truthy then rules.filterM fun r => names.includes (.text (name r)) else .ok rules

def apply (s : Selection) (rules : List Rule) : Except Fault (List Rule) := do
  filter s.categories Rule.category (← filter s.ruleIds Rule.id rules)

end Selection

/-- The registered rules and the configuration under which they run. -/
structure Engine where
  config : Config := {}
  /-- The rules by identifier, in the order of registration. -/
  registry : Entries String Rule := []

namespace Engine

def rules (e : Engine) : List Rule :=
  e.registry.values

def rule? (e : Engine) (id : String) : Option Rule :=
  Entries.get? id e.registry

def rulesIn (e : Engine) (category : String) : List Rule :=
  e.rules.filter (·.category = category)

/-- Registers a rule, if the configuration enables it, and tells whether it did. A rule of the same
identifier is replaced and keeps its place. -/
def register (e : Engine) (r : Rule) : Except Fault (Bool × Engine) := do
  if (← e.config.isEnabled (.text r.id) (.text r.category)).truthy then
    return (true, { e with registry := Entries.put r.id r e.registry })
  else
    return (false, e)

/-- Removes a rule, and tells whether it was registered. -/
def unregister (e : Engine) (id : String) : Bool × Engine :=
  ((e.rule? id).isSome, { e with registry := Entries.remove id e.registry })

/-- Registers rules one after the other and counts those that are enabled. A fault ends it, and the
rules before it stay registered. -/
def load (e : Engine) : List Rule → Engine × Except Fault Nat
  | [] => (e, .ok 0)
  | r :: rest =>
    match e.register r with
    | .error f => (e, .error f)
    | .ok (registered, e) =>
      let (e, count) := load e rest
      (e, (· + if registered then 1 else 0) <$> count)

/-! ### Running rules at the same time -/

/-- How many workers a number of rules gets: no more than there are rules, and at least one. Part of
a worker counts as a whole one. -/
def workerCount (maxWorkers : Value) (ruleCount : Nat) : Except Fault Nat := do
  match (← maxWorkers.min (.nat ruleCount)).number?.map Number.exact with
  | some (.finite q) => return max 1 q.ceil.toNat
  | _ => return 1

def waitLimit : (seconds : Double) → Option Rat
  | .finite q => some (if q < 0 then 0 else q)
  | .infinite false => none
  | _ => some 0

/-- The longest limit of a wait, in seconds. -/
def longestLimit : Rat := 9223372036854775 / 1000000

/-- Refuses a limit that is too long for a wait. Where nothing takes any time, nothing has to be
waited for, and the limit does not matter. -/
def checkLimit (seconds : Double) (rules : List Rule) : Except Fault Unit :=
  if (Double.finite longestLimit).lt seconds && rules.any fun r => 0 < r.duration then
    .error .outOfRange
  else .ok ()

/-- The outcomes of rules, where each wait ended in time or not. -/
def collect (ctx : Context) (seconds : Double) : List Rule → (inTime : List Bool) → List Outcome :=
  List.zipWith fun r inTime =>
    if inTime then r.outcome ctx else .error ⟨r.id, .timedOut seconds⟩

/-- The outcomes of rules that run at the same time. -/
def outcomesTogether (schedule : Pool.Schedule) (e : Engine) (ctx : Context) (rules : List Rule) :
    Except Fault (List Outcome) := do
  let workers ← workerCount e.config.performance.maxParallelWorkers rules.length
  let seconds ← e.config.performance.parallelRuleTimeoutMs.div (.double (.finite 1000))
  let _ ← ctx.lines
  let _ ← ctx.blocks .method
  let _ ← ctx.blocks .classBlock
  checkLimit seconds rules
  let inTime := schedule (waitLimit seconds) workers (rules.map Rule.duration)
  return collect ctx seconds rules inTime

/-! ### Running -/

/-- Whether rules run at the same time: as told, or else as the configuration says. -/
def runsTogether (e : Engine) (parallel : Value) : Bool :=
  match parallel with
  | .null => e.config.performance.parallelExecution.truthy
  | v => v.truthy

/-- Runs the selected rules on a context, on a pool with a given schedule if they run at the same
time. A single rule is never run on a pool. -/
def runWith (schedule : Pool.Schedule) (e : Engine) (ctx : Context) (selection : Selection)
    (parallel : Value) : Except Fault RunResult := do
  let rules ← selection.apply e.rules
  let outcomes ←
    if e.runsTogether parallel && 1 < rules.length then outcomesTogether schedule e ctx rules
    else pure (rules.map (Rule.outcome ctx))
  return .ofOutcomes e.config.continueOnError.truthy outcomes

def run (e : Engine) (ctx : Context) (selection : Selection := {}) (parallel : Value := .null) :
    Except Fault RunResult :=
  runWith Pool.waits e ctx selection parallel

end Engine

end CodeHealth
