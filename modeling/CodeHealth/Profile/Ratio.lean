import CodeHealth.Config.Scoring
import CodeHealth.Value.Rounded

/-!
# The debt ratio

Complexity, duplication and the number of smells give a term each, which is one where nothing is
wrong and zero where the measure has reached its cap. The ratio is the weighted sum of the terms,
all in floating point arithmetic. Terms and sum are kept within zero and one.

A ratio below the threshold of the policy is a high debt.
-/

namespace CodeHealth

namespace Double

def zero : Double := .finite 0

def one : Double := .finite 1

/-- The number within zero and one that is closest. What is no number becomes one. -/
def clamp (x : Double) : Double :=
  if x.lt one then (if zero.lt x then x else zero) else one

end Double

namespace Value

/-- The number within zero and one that is closest to a value. -/
def clamp (v : Value) : Except Fault Double :=
  return (← v.number (.unordered "<" · .double)).exact.clamp

end Value

inductive Assessment where
  | high
  | low
deriving Repr, DecidableEq

def Assessment.label : Assessment → String
  | .high => "High technical debt detected"
  | .low => "Low technical debt detected"

namespace Scoring

/-- The term of the complexity: the distance to its cap as a share of the cap. -/
def complexityTerm (s : Scoring) (complexity : Value) : Except Fault Double := do
  let cap := s.complexityCap
  return (← (← cap.sub (← complexity.min cap)).div cap).clamp

/-- The term of the duplication: the share of lines that repeat no other one. -/
def duplicationTerm (duplication : Value) : Except Fault Double := do
  (← (Value.int 1).sub duplication).clamp

/-- The term of the number of smells: what is missing to its cap as a share of the cap. -/
def smellTerm (s : Scoring) (smells : Value) : Except Fault Double := do
  let share ← smells.div s.smellCap
  let share := if Double.one.lt share then .one else share
  return (Double.one.sub share).clamp

/-- The weighted sum of the terms before it is rounded. -/
def ratio (s : Scoring) (complexity duplication smells : Value) : Except Fault Double := do
  let complexityTerm ← s.complexityTerm complexity
  let duplicationTerm ← duplicationTerm duplication
  let smellTerm ← s.smellTerm smells
  let complexityPart ← s.complexityWeight.mul (.double complexityTerm)
  let duplicationPart ← s.duplicationWeight.mul (.double duplicationTerm)
  let smellPart ← s.smellWeight.mul (.double smellTerm)
  (← (← complexityPart.add duplicationPart).add smellPart).clamp

def assess (s : Scoring) (ratio : Value) : Except Fault Assessment := do
  return if ← ratio.lt s.highDebtThreshold then .high else .low

end Scoring

end CodeHealth
