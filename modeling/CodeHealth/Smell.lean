import CodeHealth.Value.Arithmetic

/-!
# Code smells

A smell is one finding of one rule. Findings are listed in the order in which the rules made them,
and shown in groups by category, the categories in the order of their first finding.

The parts of a smell that a rule finds are texts. A caller may make one of any values, and then
categories that are equal are one category, whatever their kind.
-/

namespace CodeHealth

structure Smell where
  category : Value
  name : Value
  description : Value
  /-- Whether it was found. A rule reports nothing else. -/
  detected : Value := .bool true

/-- Smells by category, in the order in which the categories first came. -/
abbrev SmellGroups := List (Value × List Smell)

namespace SmellGroups

/-- Writes to the group of a category what `f` makes of its present smells. -/
def alter (category : Value) (f : Option (List Smell) → List Smell) : SmellGroups → SmellGroups
  | [] => [(category, f none)]
  | (c, smells) :: rest =>
    if c.same category then (c, f (some smells)) :: rest
    else (c, smells) :: alter category f rest

def add (groups : SmellGroups) (s : Smell) : SmellGroups :=
  groups.alter s.category fun smells => smells.getD [] ++ [s]

def put (groups : SmellGroups) (category : Value) (smells : List Smell) : SmellGroups :=
  groups.alter category fun _ => smells

def ofSmells (smells : List Smell) : SmellGroups :=
  smells.foldl add []

end SmellGroups

namespace Smell

/-- The smells of each category, where every category can be looked up. -/
def group (smells : List Smell) : Except Fault SmellGroups := do
  smells.forM fun s => s.category.checkKey
  return .ofSmells smells

end Smell

end CodeHealth
