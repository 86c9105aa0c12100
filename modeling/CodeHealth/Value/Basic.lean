import CodeHealth.Entries
import CodeHealth.Number.Double

/-!
# Values of settings and requests

Settings, thresholds and request bodies are written as JSON, and any value may stand anywhere. A
`Value` is such a value. Whole numbers and floating point numbers are different things, and so are
numbers and truth values; an object keeps its members in order.

A setting is checked where it is used. An operation that has no meaning for the value that it meets
answers with a `Fault`, which names the kinds of value involved.
-/

namespace CodeHealth

inductive Value where
  | null
  | bool (b : Bool)
  | int (n : Int)
  | double (x : Double)
  | text (s : String)
  | list (items : List Value)
  /-- An object with its members in order. -/
  | object (members : List (String × Value))
deriving Inhabited

inductive ValueKind where
  | null
  | bool
  | int
  | double
  | text
  | list
  | object
deriving Repr, DecidableEq

def ValueKind.name : ValueKind → String
  | .null => "NoneType"
  | .bool => "bool"
  | .int => "int"
  | .double => "float"
  | .text => "str"
  | .list => "list"
  | .object => "dict"

namespace Value

def kind : Value → ValueKind
  | .null => .null
  | .bool _ => .bool
  | .int _ => .int
  | .double _ => .double
  | .text _ => .text
  | .list _ => .list
  | .object _ => .object

def nat (n : Nat) : Value :=
  .int n

/-- Whether a value counts as true. Zeros, the absent value and empty texts, lists and objects do
not. -/
def truthy : Value → Bool
  | .null => false
  | .bool b => b
  | .int n => n ≠ 0
  | .double x => !x.isZero
  | .text s => !s.isEmpty
  | .list items => !items.isEmpty
  | .object members => !members.isEmpty

end Value

end CodeHealth
