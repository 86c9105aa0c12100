import CodeHealth.Config.Section

/-!
# The thresholds of the rules

Every rule compares what it measures with a threshold. The thresholds have names, under which the
parameters of a single rule may set them differently, and default values.
-/

namespace CodeHealth

inductive Threshold where
  | longMethodLines
  | longParameterCount
  | largeClassLines
  | temporaryFieldMinUses
  | parallelInheritanceMinClasses
  | parallelInheritanceMinExtends
  | commentRatio
  | duplicateWindowLines
  | duplicateMinChars
  | featureEnvyCalls
deriving Repr, DecidableEq

namespace Threshold

def all : List Threshold :=
  [.longMethodLines, .longParameterCount, .largeClassLines, .temporaryFieldMinUses,
   .parallelInheritanceMinClasses, .parallelInheritanceMinExtends, .commentRatio,
   .duplicateWindowLines, .duplicateMinChars, .featureEnvyCalls]

def fieldName : Threshold → FieldName
  | .longMethodLines => ⟨"longMethodLines", "long_method_lines"⟩
  | .longParameterCount => ⟨"longParameterCount", "long_parameter_count"⟩
  | .largeClassLines => ⟨"largeClassLines", "large_class_lines"⟩
  | .temporaryFieldMinUses => ⟨"temporaryFieldMinUses", "temporary_field_min_uses"⟩
  | .parallelInheritanceMinClasses =>
    ⟨"parallelInheritanceMinClasses", "parallel_inheritance_min_classes"⟩
  | .parallelInheritanceMinExtends =>
    ⟨"parallelInheritanceMinExtends", "parallel_inheritance_min_extends"⟩
  | .commentRatio => ⟨"commentRatio", "comment_ratio"⟩
  | .duplicateWindowLines => ⟨"duplicateWindowLines", "duplicate_window_lines"⟩
  | .duplicateMinChars => ⟨"duplicateMinChars", "duplicate_min_chars"⟩
  | .featureEnvyCalls => ⟨"featureEnvyCalls", "feature_envy_calls"⟩

def ofName? (name : String) : Option Threshold :=
  all.find? (·.fieldName.snake = name)

def default : Threshold → Value
  | .longMethodLines => .int 20
  | .longParameterCount => .int 4
  | .largeClassLines => .int 100
  | .temporaryFieldMinUses => .int 3
  | .parallelInheritanceMinClasses => .int 1
  | .parallelInheritanceMinExtends => .int 2
  | .commentRatio => .double (.nearest (3 / 10))
  | .duplicateWindowLines => .int 3
  | .duplicateMinChars => .int 50
  | .featureEnvyCalls => .int 5

end Threshold

structure Thresholds where
  get : Threshold → Value := Threshold.default

namespace Thresholds

def set (t : Thresholds) (name : Threshold) (v : Value) : Thresholds :=
  ⟨fun other => if other = name then v else t.get other⟩

@[simp] theorem get_set (t : Thresholds) (name other : Threshold) (v : Value) :
    (t.set name v).get other = if other = name then v else t.get other := rfl

def ofValue (v : Value) : Except Fault Thresholds :=
  Threshold.all.foldlM (fun t name => do
    return t.set name (← name.fieldName.read name.default v)) {}

def toValue (t : Thresholds) : Value :=
  .object (Threshold.all.map fun name => (name.fieldName.camel, t.get name))

end Thresholds

end CodeHealth
