import CodeHealth.Number.Numeral
import CodeHealth.Value.Basic

/-!
# What can go wrong

A `Fault` says why an operation on values has no result: operands of kinds that do not go together,
a member that is not there, a division by zero, a number out of range. `Fault.typeName` and
`Fault.message` are the two forms in which a report shows it.

A `Problem` is an error prepared for a reader: it carries a category, the message of the response, a
suggestion and details, and the status of the response. A `Failure` is whatever may end an
operation: one of these two, an error raised on purpose by a part that the caller supplied, or a
rule that took too long.
-/

namespace CodeHealth

/-- Why an operation on values has no result. -/
inductive Fault where
  /-- An arithmetic operation on kinds that it does not join. -/
  | unsupported (op : String) (left right : ValueKind)
  /-- A comparison of kinds that have no common order. -/
  | unordered (op : String) (left right : ValueKind)
  /-- A sign change of something that is not a number. -/
  | notNegatable (kind : ValueKind)
  | notReal (kind : ValueKind)
  /-- A number that decimal arithmetic can take was needed. -/
  | notDecimal (kind : ValueKind)
  | notWhole (kind : ValueKind)
  | notIterable (kind : ValueKind)
  /-- Something that may contain other things was needed. -/
  | notContainer (kind : ValueKind)
  /-- Only a text can be part of a text. -/
  | notPart (kind : ValueKind)
  /-- A line of a report was needed. -/
  | notLine (kind : ValueKind)
  /-- A list or a text has no members with names. -/
  | notIndexedByName (kind : ValueKind)
  /-- A list or an object cannot be looked up in a table. -/
  | unhashable (kind : ValueKind)
  /-- A source text was needed, for searching or for splitting. -/
  | notText
  /-- A value has no lines because it is not a text. -/
  | notSplittable
  /-- An object was needed in order to look up a member. -/
  | noMembers (kind : ValueKind)
  /-- There is no threshold of this name. -/
  | unknownThreshold (name : String)
  | missingArgument
  /-- There is no member of a name that has to be there. -/
  | missingMember
  | spareArgument
  | divisionByZero
  /-- A whole number that is too large for a floating point number. -/
  | tooLarge
  /-- A number outside the range of its use. -/
  | outOfRange
  /-- A place that is wider than any text. -/
  | tooWide
  /-- A quotient that is too large for a floating point number. -/
  | quotientTooLarge
  /-- A decimal number that needs more digits than decimal arithmetic has. -/
  | tooPrecise
  /-- A number of places so negative that no decimal number has it. -/
  | tooCoarse
  /-- A text that is not a decimal numeral. -/
  | notNumeral
  /-- A whole number in a text with more digits than are read. -/
  | tooLongToRead (digits : Nat)
  /-- A whole number with more digits than are written into a text. -/
  | tooLongToShow
  /-- A value outside the set of admissible ones. -/
  | inadmissible
  /-- A file that should be written stands where a directory is needed, or the other way round. -/
  | obstructed (directory : Bool)
deriving Repr, DecidableEq

namespace Fault

/-- The type under which a fault is reported. -/
def typeName : Fault → String
  | .noMembers _ | .notSplittable | .unknownThreshold _ => "AttributeError"
  | .divisionByZero => "ZeroDivisionError"
  | .tooLarge | .quotientTooLarge | .outOfRange => "OverflowError"
  | .tooWide => "MemoryError"
  | .tooPrecise | .notNumeral => "InvalidOperation"
  | .tooCoarse => "Overflow"
  | .inadmissible | .tooLongToRead _ | .tooLongToShow => "ValueError"
  | .missingMember => "KeyError"
  | .obstructed directory => if directory then "IsADirectoryError" else "FileExistsError"
  | _ => "TypeError"

/-- The message under which a fault is reported. -/
def message : Fault → String
  | .unsupported op left right =>
    s!"unsupported operand type(s) for {op}: '{left.name}' and '{right.name}'"
  | .unordered op left right =>
    s!"'{op}' not supported between instances of '{left.name}' and '{right.name}'"
  | .notNegatable kind => s!"bad operand type for unary -: '{kind.name}'"
  | .notReal kind => s!"must be real number, not {kind.name}"
  | .notDecimal kind => s!"conversion from {kind.name} to Decimal is not supported"
  | .notWhole kind => s!"'{kind.name}' object cannot be interpreted as an integer"
  | .notIterable kind => s!"'{kind.name}' object is not iterable"
  | .notContainer kind => s!"argument of type '{kind.name}' is not iterable"
  | .notPart kind => s!"'in <string>' requires string as left operand, not {kind.name}"
  | .notLine kind => s!"a line has to be a text, not {kind.name}"
  | .notIndexedByName .text => "string indices must be integers, not 'str'"
  | .notIndexedByName _ => "list indices must be integers or slices, not str"
  | .unhashable kind => s!"unhashable type: '{kind.name}'"
  | .notText => "expected string or bytes-like object"
  | .notSplittable => "the source has no lines"
  | .noMembers kind => s!"'{kind.name}' object has no attribute 'get'"
  | .unknownThreshold name => s!"there is no threshold '{name}'"
  | .missingArgument => "a required argument is missing"
  | .missingMember => "there is no such member"
  | .spareArgument => "an argument is left over"
  | .divisionByZero => "division by zero"
  | .tooLarge => "int too large to convert to float"
  | .outOfRange => "the number is out of range"
  | .tooWide => ""
  | .quotientTooLarge => "integer division result too large for a float"
  | .tooPrecise => "[<class 'decimal.InvalidOperation'>]"
  | .tooCoarse => "[<class 'decimal.Overflow'>]"
  | .notNumeral => "[<class 'decimal.ConversionSyntax'>]"
  | .tooLongToRead digits =>
    s!"Exceeds the limit ({digitLimit} digits) for integer string conversion: value has {digits} "
      ++ "digits; use sys.set_int_max_str_digits() to increase the limit"
  | .tooLongToShow =>
    s!"Exceeds the limit ({digitLimit} digits) for integer string conversion; use "
      ++ "sys.set_int_max_str_digits() to increase the limit"
  | .inadmissible => "the value is not admissible"
  | .obstructed directory => if directory then "Is a directory" else "File exists"

end Fault

end CodeHealth
