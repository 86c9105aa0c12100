import CodeHealth.Rule.Basic

/-!
# Code that has grown too large

Methods and classes are measured by the lines that they span, and methods by their parameters as
well. Each block above its limit is a finding of its own.
-/

namespace CodeHealth.Rule

def longMethod : Rule where
  id := "BLOATERS.LONG_METHOD"
  name := "Long Method"
  category := Category.bloaters.name
  order := 10
  description :=
    "Detects function or method bodies spanning more lines than the long_method_lines threshold. "
      ++ "Long methods are harder to read and usually do more than one thing."
  find threshold ctx := do
    let limit ← threshold .longMethodLines
    oversized Block.lineCount limit s!"Method has more than {limit.display} lines of code"
      (← ctx.blocks .method)

def longParameterList : Rule where
  id := "BLOATERS.LONG_PARAMETER_LIST"
  name := "Long Parameter List"
  category := Category.bloaters.name
  order := 20
  find threshold ctx := do
    let limit ← threshold .longParameterCount
    oversized Block.parameterCount limit s!"Method has more than {limit.display} parameters"
      (← ctx.blocks .method)

def largeClass : Rule where
  id := "BLOATERS.LARGE_CLASS"
  name := "Large Class"
  category := Category.bloaters.name
  order := 30
  description := "Detects class bodies spanning more lines than the large_class_lines threshold."
  find threshold ctx := do
    let limit ← threshold .largeClassLines
    oversized Block.lineCount limit s!"Class has more than {limit.display} lines of code"
      (← ctx.blocks .classBlock)

end CodeHealth.Rule
