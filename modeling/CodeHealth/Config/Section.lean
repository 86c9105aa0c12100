import CodeHealth.Value.Arithmetic

/-!
# Sections of a configuration

A section is read field by field. A field may be spelled in two ways, as `longMethodLines` or as
`long_method_lines`; the first spelling wins where both are present, and a field that is absent has
its default. Members of other names are ignored.
-/

namespace CodeHealth

/-- The two spellings of a field. -/
structure FieldName where
  /-- As in `longMethodLines`. -/
  camel : String
  /-- As in `long_method_lines`. -/
  snake : String
deriving Repr, DecidableEq

namespace FieldName

/-- The value under a spelling that is known to occur. A text or a list that contains the spelling
has no value for it. -/
def valueAt (spelling : String) : Value → Except Fault Value
  | .object members => .ok ((Entries.get? spelling members).getD .null)
  | v => .error (.notIndexedByName v.kind)

def read (f : FieldName) (default : Value) (section_ : Value) : Except Fault Value := do
  if ← section_.includes (.text f.camel) then valueAt f.camel section_
  else if ← section_.includes (.text f.snake) then valueAt f.snake section_
  else return default

end FieldName

end CodeHealth
