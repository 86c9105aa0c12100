import CodeHealth.Profile.Ratio
import CodeHealth.Smell

/-!
# Profiles

A profile is the result of an analysis: the three measures, the smells by category, the debt ratio
and its assessment. Its *payload* is the JSON object that answers a request. There the two ratios
are texts with a fixed number of decimal places; all other numbers stay as they are.

The debt ratio of a profile is rounded before it is assessed, so that the assessment agrees with the
ratio that is shown. A profile is only made of measures that can be reported: a complexity without
too many digits, and a duplication that can be written with decimal places.
-/

namespace CodeHealth

structure Profile where
  /-- One more than the number of decision points. -/
  complexity : Value
  /-- The share of lines that repeat another one. -/
  duplication : Value
  lines : Value
  smells : SmellGroups := []
  smellCount : Value := .int 0
  debt : Value := .double .one
  assessment : Value := .text Assessment.low.label
  /-- The number of decimal places of the ratios in the payload. -/
  precision : Value := .int 2

namespace Profile

def isHigh (p : Profile) : Bool :=
  p.assessment.same (.text Assessment.high.label)

/-- Refuses measures that cannot be shown, the duplication with two decimal places. -/
def checkShown (complexity duplication : Value) : Except Fault Unit := do
  let _ ← complexity.shown
  let _ ← (← duplication.number .notReal).rounded
  return ()

/-- The profile of measures and smells under a policy. -/
def aggregate (s : Scoring) (complexity duplication : Value) (smells : List Smell)
    (lines : Value := .int 0) : Except Fault Profile := do
  let smellCount := Value.nat smells.length
  let ratio ← s.ratio complexity duplication smellCount
  let debt := Value.double (← (Value.double ratio).roundHalfUp s.precision).toDouble
  let assessment ← s.assess debt
  checkShown complexity duplication
  return {
    complexity, duplication, lines, smellCount, debt
    smells := ← Smell.group smells
    assessment := .text assessment.label
    precision := s.precision }

/-- The answer to a request. The ratios are written out already. -/
structure Payload where
  /-- One more than the number of decision points. -/
  complexity : Value
  /-- The share of lines that repeat another one, written out. -/
  duplication : String
  lines : Value
  smells : SmellGroups
  smellCount : Value
  debt : String
  assessment : Value

def payload (p : Profile) : Except Fault Payload := do
  return {
    complexity := p.complexity
    duplication := (← p.duplication.roundHalfUp p.precision).display
    lines := p.lines
    smells := p.smells
    smellCount := p.smellCount
    debt := (← p.debt.roundHalfUp p.precision).display
    assessment := p.assessment }

end Profile

namespace Smell

def toValue (s : Smell) : Value :=
  .object
    [("category", s.category), ("name", s.name), ("description", s.description),
     ("detected", s.detected)]

end Smell

namespace Profile.Payload

/-- The answer as a JSON object, apart from the way in which the smells are listed. -/
def toValueWith (listed : SmellGroups → Value) (p : Payload) : Value :=
  .object
    [("cyclomaticComplexity", p.complexity), ("duplicationRatio", .text p.duplication),
     ("linesOfCode", p.lines), ("codeSmells", listed p.smells), ("smellsCount", p.smellCount),
     ("technicalDebtRatio", .text p.debt), ("assessment", p.assessment)]

/-- The answer as a JSON object, where the smells are an object by category. -/
def toValue : Payload → Value :=
  toValueWith fun groups =>
    .object <| groups.map fun (category, smells) =>
      (category.display, .list (smells.map Smell.toValue))

end Profile.Payload

end CodeHealth
