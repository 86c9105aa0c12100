import CodeHealth.Config.Section
import CodeHealth.Problem

/-!
# The scoring policy

The policy says how the three measures are weighted, from where on complexity and smells count as
bad as can be, below which ratio a debt is high, and to how many decimal places ratios are written.
The ratio is a measure of health. The least complexity is one, and it counts: with the default
policy a text without findings scores 0.97.
-/

namespace CodeHealth

/-- How the three measures are put together into one ratio. -/
structure Scoring where
  complexityWeight : Value := .double (.nearest (3 / 10))
  duplicationWeight : Value := .double (.nearest (3 / 10))
  /-- The weight of the number of smells. -/
  smellWeight : Value := .double (.nearest (4 / 10))
  /-- The complexity from which on its term is zero. -/
  complexityCap : Value := .int 10
  /-- The number of smells from which on its term is zero. -/
  smellCap : Value := .int 10
  /-- The ratio below which the debt is high. -/
  highDebtThreshold : Value := .double (.nearest (7 / 10))
  /-- The number of decimal places of a ratio. -/
  precision : Value := .int 2

namespace Scoring

def ofValue (v : Value) : Except Fault Scoring := do
  let d : Scoring := {}
  return {
    complexityWeight :=
      ← FieldName.read ⟨"complexityWeight", "complexity_weight"⟩ d.complexityWeight v
    duplicationWeight :=
      ← FieldName.read ⟨"duplicationWeight", "duplication_weight"⟩ d.duplicationWeight v
    smellWeight := ← FieldName.read ⟨"smellWeight", "smell_weight"⟩ d.smellWeight v
    complexityCap := ← FieldName.read ⟨"complexityCap", "complexity_cap"⟩ d.complexityCap v
    smellCap := ← FieldName.read ⟨"smellCap", "smell_cap"⟩ d.smellCap v
    highDebtThreshold :=
      ← FieldName.read ⟨"highDebtThreshold", "high_debt_threshold"⟩ d.highDebtThreshold v
    precision := ← FieldName.read ⟨"precision", "precision"⟩ d.precision v }

def toValue (s : Scoring) : Value :=
  .object
    [("complexityWeight", s.complexityWeight), ("duplicationWeight", s.duplicationWeight),
     ("smellWeight", s.smellWeight), ("complexityCap", s.complexityCap), ("smellCap", s.smellCap),
     ("highDebtThreshold", s.highDebtThreshold), ("precision", s.precision)]

/-- How far from one the sum of the weights may be, both absolutely and in proportion. -/
def weightTolerance : Double :=
  .nearest (1 / 1000000000)

/-- Whether a number is one up to the tolerance. -/
def isNearlyOne (x : Double) : Bool :=
  if x.eq (.finite 1) then true
  else
    match x with
    | .infinite _ => false
    | x =>
      let difference := (Double.finite 1).sub x
      let distance := if difference.isNegative then difference.neg else difference
      let magnitude := if x.isNegative then x.neg else x
      distance.le (weightTolerance.mul (.finite 1)) || distance.le (weightTolerance.mul magnitude)
        || distance.le weightTolerance

/-- Accepts a policy whose weights sum to one, whose caps are at least one, whose threshold is a
ratio and whose precision is not negative. The conditions are checked in this order. A problem shows
the value in question, unless the value has too many digits. -/
def validate (s : Scoring) : Except Failure Unit := do
  let total ← (← s.complexityWeight.add s.duplicationWeight).add s.smellWeight
  let x ← (← total.number .notReal).rounded
  if !isNearlyOne x then
    throw <| .problem <| .configuration
      (.text ("Scoring weights must sum to 1.0, got " ++ (← total.shown))) .null .null
      [("complexityWeight", s.complexityWeight), ("duplicationWeight", s.duplicationWeight),
       ("smellWeight", s.smellWeight)]
  let complexityCapLow ← s.complexityCap.lt (.int 1)
  let capLow ← if complexityCapLow then pure true else s.smellCap.lt (.int 1)
  if capLow then
    throw <| .problem <| .configuration (.text "complexityCap and smellCap must be at least 1")
  let notBelow ← (Value.double (.finite 0)).le s.highDebtThreshold
  let within ← if notBelow then s.highDebtThreshold.le (.double (.finite 1)) else pure false
  if !within then
    throw <| .problem <| .configuration
      (.text ("highDebtThreshold must be within [0, 1], got " ++ (← s.highDebtThreshold.shown)))
  if ← s.precision.lt (.int 0) then
    throw <| .problem <| .configuration (.text "precision must not be negative")

end Scoring

end CodeHealth
