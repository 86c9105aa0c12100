import CodeHealth.Profile.Basic
import CodeHealth.Value.Display

/-!
# The report of a profile

The report is meant for a reader at a terminal: the measures, the assessment, and then the smells of
each category under its name.
-/

namespace CodeHealth.Profile

/-- The lines about the smells of a category, with an empty line before them. -/
def categoryLines (category : Value) (smells : List Smell) : List String :=
  "" :: s!"{category.display} ({smells.length})"
    :: smells.map fun s => s!"  - {s.name.display}: {s.description.display}"

/-- The line of an assessment, which has to be a text. -/
def assessmentLine : Value → Except Fault String
  | .text s => .ok s
  | v => .error (.notLine v.kind)

/-- The report of a profile. -/
def report (p : Profile) : Except Fault String := do
  let payload ← p.payload
  let measures :=
    ["Cyclomatic complexity: " ++ payload.complexity.display,
     "Duplication ratio:     " ++ payload.duplication,
     "Lines of code:         " ++ payload.lines.display,
     "Code smells:           " ++ payload.smellCount.display,
     "Technical debt ratio:  " ++ payload.debt,
     "", ← assessmentLine payload.assessment]
  let groups := p.smells.flatMap fun (category, smells) => categoryLines category smells
  return "\n".intercalate (measures ++ groups)

end CodeHealth.Profile
