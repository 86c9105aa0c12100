import CodeHealth.Fault
import CodeHealth.Text.Search

/-!
# Arithmetic and order on values

Two whole numbers are added, subtracted and multiplied exactly. As soon as a floating point number
takes part, a whole number is first rounded to one, and it is a fault if it is too large. Truth
values count as zero and one. A quotient is always a floating point number; that of two whole
numbers is rounded once. Comparisons never round.

Texts and lists can be joined and repeated, and are ordered by their first difference. Everything
else is a fault that names the kinds involved.
-/

namespace CodeHealth

inductive Number where
  | int (n : Int)
  | double (x : Double)
deriving DecidableEq

namespace Number

/-- The number as it is, for exact comparison and rounding. -/
def exact : Number → Double
  | .int n => .finite n
  | .double x => x

def rounded : Number → Except Fault Double
  | .int n =>
    match Double.ofInt? n with
    | some x => .ok x
    | none => .error .tooLarge
  | .double x => .ok x

def toValue : Number → Value
  | .int n => .int n
  | .double x => .double x

/-- An operation that is exact on whole numbers and rounds otherwise. -/
def combine (onInts : Int → Int → Int) (onDoubles : Double → Double → Double) :
    Number → Number → Except Fault Number
  | .int a, .int b => .ok (.int (onInts a b))
  | a, b => return .double (onDoubles (← a.rounded) (← b.rounded))

def div : Number → Number → Except Fault Double
  | .int a, .int b =>
    if b = 0 then .error .divisionByZero
    else
      match Double.ofQuotient a b with
      | .infinite _ => .error .quotientTooLarge
      | x => .ok x
  | a, b => do
    let x ← a.rounded
    let y ← b.rounded
    if y.isZero then .error .divisionByZero else .ok (x.div y)

end Number

namespace Value

/-- The number that a value is. Truth values are zero and one. -/
def number? : Value → Option Number
  | .bool b => some (.int (if b then 1 else 0))
  | .int n => some (.int n)
  | .double x => some (.double x)
  | _ => none

/-- The number that a value is, or a fault. -/
def number (onFault : ValueKind → Fault) (v : Value) : Except Fault Number :=
  match v.number? with
  | some n => .ok n
  | none => .error (onFault v.kind)

/-- An operation on two numbers, by its symbol. -/
def arithmetic (symbol : String) (onInts : Int → Int → Int) (onDoubles : Double → Double → Double)
    (a b : Value) : Except Fault Value :=
  match a.number?, b.number? with
  | some x, some y => (x.combine onInts onDoubles y).map Number.toValue
  | _, _ => .error (.unsupported symbol a.kind b.kind)

/-- The sum of two numbers; texts and lists are joined. -/
def add : Value → Value → Except Fault Value
  | .text a, .text b => .ok (.text (a ++ b))
  | .list a, .list b => .ok (.list (a ++ b))
  | a, b => arithmetic "+" (· + ·) Double.add a b

def sub (a b : Value) : Except Fault Value :=
  arithmetic "-" (· - ·) Double.sub a b

def mul (a b : Value) : Except Fault Value :=
  arithmetic "*" (· * ·) Double.mul a b

/-- The product of a count with a number; a text or a list is repeated as often. -/
def times (count : Nat) : Value → Except Fault Value
  | .text s => .ok (.text (String.join (List.replicate count s)))
  | .list items => .ok (.list (List.replicate count items).flatten)
  | v => mul (nat count) v

def div (a b : Value) : Except Fault Double :=
  match a.number?, b.number? with
  | some x, some y => x.div y
  | _, _ => .error (.unsupported "/" a.kind b.kind)

def neg (v : Value) : Except Fault Value := do
  match ← v.number .notNegatable with
  | .int n => return .int (-n)
  | .double x => return .double x.neg

mutual

/-- Whether two values are equal. Numbers are compared by their value, whatever their kind; members
of an object may stand in any order. -/
def same : Value → Value → Bool
  | .null, .null => true
  | .text a, .text b => a = b
  | .list xs, .list ys => sameItems xs ys
  | .object xs, .object ys => xs.length = ys.length && sameMembers xs ys
  | a, b =>
    match a.number?, b.number? with
    | some x, some y => x.exact.eq y.exact
    | _, _ => false

def sameItems : List Value → List Value → Bool
  | [], [] => true
  | x :: xs, y :: ys => same x y && sameItems xs ys
  | _, _ => false

/-- Whether every member of the first object is one of the second. -/
def sameMembers : List (String × Value) → List (String × Value) → Bool
  | [], _ => true
  | (k, x) :: xs, ys =>
    (match Entries.get? k ys with
      | some y => same x y
      | none => false) && sameMembers xs ys

end

inductive Comparison where
  | lt
  | le
  | gt
  | ge
deriving Repr, DecidableEq

def Comparison.symbol : Comparison → String
  | .lt => "<"
  | .le => "<="
  | .gt => ">"
  | .ge => ">="

def Comparison.onDoubles : Comparison → Double → Double → Bool
  | .lt, x, y => x.lt y
  | .le, x, y => x.le y
  | .gt, x, y => y.lt x
  | .ge, x, y => y.le x

/-- A comparison of texts, by their first difference. -/
def Comparison.onTexts : Comparison → String → String → Bool
  | .lt, a, b => a < b
  | .le, a, b => !(b < a)
  | .gt, a, b => b < a
  | .ge, a, b => !(a < b)

/-- A comparison of lists of which one is a beginning of the other, by their lengths. -/
def Comparison.onLengths : Comparison → Nat → Nat → Bool
  | .lt, m, n => m < n
  | .le, m, n => m ≤ n
  | .gt, m, n => n < m
  | .ge, m, n => n ≤ m

mutual

/-- Whether a comparison holds. -/
def compare (op : Comparison) : Value → Value → Except Fault Bool
  | .text a, .text b => .ok (op.onTexts a b)
  | .list xs, .list ys => compareItems op xs ys
  | a, b =>
    match a.number?, b.number? with
    | some x, some y => .ok (op.onDoubles x.exact y.exact)
    | _, _ => .error (.unordered op.symbol a.kind b.kind)

/-- Compares two lists at their first difference. -/
def compareItems (op : Comparison) : List Value → List Value → Except Fault Bool
  | x :: xs, y :: ys => if same x y then compareItems op xs ys else compare op x y
  | xs, ys => .ok (op.onLengths xs.length ys.length)

end

def lt (a b : Value) : Except Fault Bool := compare .lt a b

def gt (a b : Value) : Except Fault Bool := compare .gt a b

def le (a b : Value) : Except Fault Bool := compare .le a b

/-- The smaller of two values, the first of two equal ones. -/
def min (a b : Value) : Except Fault Value :=
  return if ← lt b a then b else a

/-- What can be looked up in a table. A list or an object cannot. -/
def checkKey : Value → Except Fault Unit
  | .list _ => .error (.unhashable .list)
  | .object _ => .error (.unhashable .object)
  | _ => .ok ()

/-- The entry of a name, where only a text can be a name. -/
def lookUp? {β : Type} (name : Value) (entries : Entries String β) : Except Fault (Option β) := do
  name.checkKey
  match name with
  | .text s => return Entries.get? s entries
  | _ => return none

@[simp] theorem lookUp?_text {β : Type} (s : String) (entries : Entries String β) :
    lookUp? (.text s) entries = .ok (Entries.get? s entries) := rfl

/-- The value of a member, for something that has members. -/
def member? (name : String) : Value → Except Fault (Option Value)
  | .object members => .ok (Entries.get? name members)
  | v => .error (.noMembers v.kind)

/-- The value of a member, or a default where the member is absent. -/
def memberD (name : String) (v default : Value) : Except Fault Value :=
  return (← v.member? name).getD default

/-- Whether a value occurs in another one: as a part of a text, as an item of a list, or as the name
of a member. Only a text can be part of a text. -/
def includes : (whole part : Value) → Except Fault Bool
  | .text s, .text w => .ok (0 < Text.offsetCount w.toList s.toList)
  | .text _, v => .error (.notPart v.kind)
  | .list items, v => .ok (items.any (same v))
  | .object members, v => return (← v.lookUp? members).isSome
  | v, _ => .error (.notContainer v.kind)

end Value

end CodeHealth
