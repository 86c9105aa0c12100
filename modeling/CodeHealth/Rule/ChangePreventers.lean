import CodeHealth.Rule.Basic

/-!
# Code in which one change entails many

Several classes together with many words `extends` suggest hierarchies that grow side by side. Both
numbers have to exceed their limits.
-/

namespace CodeHealth.Rule

/-- Finds hierarchies that grow side by side. -/
def parallelInheritance : Rule where
  id := "CHANGE_PREVENTERS.PARALLEL_INHERITANCE"
  name := "Parallel Inheritance Hierarchies"
  category := Category.changePreventers.name
  order := 10
  find threshold ctx := do
    let minClasses ← threshold .parallelInheritanceMinClasses
    let classes ← ctx.blocks .classBlock
    if ← (Value.nat classes.length).le minClasses then return []
    let minExtends ← threshold .parallelInheritanceMinExtends
    let s ← ctx.raw.searched
    let clauses := Text.scan (Text.wholeWord "extends".toList) s
    if ← (Value.nat clauses.length).le minExtends then return []
    return ["Multiple inheritance hierarchies detected"]

end CodeHealth.Rule
