import CodeHealth.Fault
import CodeHealth.Number.Shortest
import CodeHealth.Text.Quoted

/-!
# Values in messages

A message shows a text as it is and a number in its shortest form. Inside a list or an object a text
stands in quotes, so that the items remain apart.

A whole number is only shown up to a number of digits. `shown` refuses a value with a longer number
in it. It is used where any value may come up. `display` does not look at the digits; it is used for
counts and for numbers that have been converted before. It is also used for the limits of rules, in
reports and in logs, where numbers are assumed to have fewer digits.
-/

namespace CodeHealth.Value

mutual

/-- A value as a part of a list or an object. -/
def displayInside : Value → String
  | .null => "None"
  | .bool b => if b then "True" else "False"
  | .int n => toString n
  | .double x => x.display
  | .text s => String.ofList (Text.quoted s.toList)
  | .list items => "[" ++ ", ".intercalate (displayItems items) ++ "]"
  | .object members => "\x7b" ++ ", ".intercalate (displayMembers members) ++ "\x7d"

def displayItems : List Value → List String
  | [] => []
  | v :: rest => displayInside v :: displayItems rest

def displayMembers : List (String × Value) → List String
  | [] => []
  | (k, v) :: rest =>
    (String.ofList (Text.quoted k.toList) ++ ": " ++ displayInside v) :: displayMembers rest

end

/-- A value in a message. -/
def display : Value → String
  | .text s => s
  | v => displayInside v

/-- A value as a part of a list or an object, in ASCII. -/
def displayAscii (v : Value) : String :=
  String.ofList (Text.asciiEscaped v.displayInside.toList)

mutual

/-- Whether all whole numbers in a value have few enough digits to be shown. -/
def isShowable : Value → Bool
  | .int n => (decimalDigits n.natAbs).length ≤ digitLimit
  | .list items => areShowable items
  | .object members => hasShowable members
  | _ => true

def areShowable : List Value → Bool
  | [] => true
  | v :: rest => isShowable v && areShowable rest

def hasShowable : List (String × Value) → Bool
  | [] => true
  | (_, v) :: rest => isShowable v && hasShowable rest

end

/-- A value in a message, unless a number in it is too long. -/
def shown (v : Value) : Except Fault String :=
  if v.isShowable then .ok v.display else .error .tooLongToShow

@[simp] theorem display_text (s : String) : display (.text s) = s := rfl

end CodeHealth.Value
