import CodeHealth.Value.Decimal

/-!
# Rounding a value to decimal places

A ratio is shown with a fixed number of decimal places. The exact value of a number is rounded once,
half up, and a text is read as a decimal numeral first. A negative number of places rounds before
the point.

What has no number of places stays what it is, or is a fault: the result that is no number remains
one, unless it signals, and an infinite number cannot be rounded. A decimal number has 28 digits at
most, and so has the diagnostic number of a result that is none.
-/

namespace CodeHealth

/-- A number brought to a fixed number of places, or no number at all. -/
inductive Rounded where
  | fixed (f : Fixed)
  /-- No number, with a sign and a diagnostic number nevertheless. -/
  | nan (negative : Bool) (payload : Nat)
deriving DecidableEq, Repr

namespace Rounded

def display : Rounded → String
  | .fixed f => f.display
  | .nan negative payload =>
    (if negative then "-NaN" else "NaN") ++ if payload = 0 then "" else toString payload

def toDouble : Rounded → Double
  | .fixed f => f.toDouble
  | .nan _ _ => .nan

end Rounded

namespace Value

/-- The least power of ten that a decimal number has, as a number of places. -/
def maxPlaces : Int := 1000026

def places (v : Value) : Except Fault Int := do
  match ← v.neg with
  | .int exponent =>
    if exponent.natAbs > 2000054 then throw .tooPrecise
    else if exponent ≥ 1000000 then throw .tooCoarse
    else return Min.min (-exponent) maxPlaces
  | v => throw (.notDecimal v.kind)

/-- A value rounded half up to a number of places. -/
def roundHalfUp (v precision : Value) : Except Fault Rounded := do
  let decimal ← Decimal.ofValue v
  let places ← precision.places
  let fixed? ←
    match decimal with
    | .number negative q => pure (Fixed.round? negative q places)
    | .numeral n => pure (Fixed.ofNumeral? n places)
    | .infinite => pure none
    | .nan true _ _ => pure none
    | .nan false negative payload => return .nan negative (payload % Fixed.coefficientBound)
  match fixed? with
  | some f => return .fixed f
  | none => throw .tooPrecise

end Value

end CodeHealth
