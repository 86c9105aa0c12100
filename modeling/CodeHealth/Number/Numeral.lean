import CodeHealth.Number.Double

/-!
# Decimal numerals

A numeral is a sign, a coefficient and a power of ten, the way a number is written down. Reading a
numeral as a `Double` rounds its exact value once.

`Fixed` is a numeral with a given number of decimal places. A number is brought to it by rounding
half up: its exact value is rounded to the nearest multiple of the last place, and a tie goes away
from zero. A coefficient has at most 28 digits; a number that would need more has no such form.
-/

namespace CodeHealth

/-- The digits of a natural number, without leading zeros. -/
def decimalDigits (n : Nat) : List Char :=
  Nat.toDigits 10 n

/-- The number of digits up to which a whole number is read from a text or written into one. -/
def digitLimit : Nat := 4300

/-- Whether a character is one of the ten ASCII digits. -/
def isDecimalDigit (c : Char) : Bool :=
  '0' ≤ c && c ≤ '9'

/-- The natural number that a row of digits stands for. -/
def digitsValue (ds : List Char) : Nat :=
  ds.foldl (fun n d => 10 * n + (d.toNat - '0'.toNat)) 0

structure Numeral where
  /-- Whether a minus sign stands before it. -/
  negative : Bool
  /-- All digits, read as one natural number. -/
  coefficient : Nat
  /-- The power of ten that the coefficient is multiplied by. -/
  exponent : Int
deriving DecidableEq, Repr

namespace Numeral

/-- The exact value. -/
def magnitude (n : Numeral) : Rat :=
  n.coefficient * (10 : Rat) ^ n.exponent

/-- The nearest `Double`. A numeral of more than 310 digits before its point is infinite, and one
with more than 330 zeros behind it is a zero; the power of ten is not computed for either. -/
def toDouble (n : Numeral) : Double :=
  let size : Int := (decimalDigits n.coefficient).length + n.exponent
  if n.coefficient = 0 ∨ size < -330 then .ofMagnitude n.negative 0
  else if 310 < size then .infinite n.negative
  else .ofMagnitude n.negative n.magnitude

end Numeral

/-- A decimal number with a fixed number of places. A negative number of places counts the zeros
before the point that are not significant. -/
structure Fixed where
  /-- Whether a minus sign stands before it. -/
  negative : Bool
  /-- All significant digits, read as one natural number. -/
  coefficient : Nat
  /-- The number of digits behind the point. -/
  places : Int
deriving DecidableEq, Repr

namespace Fixed

/-- The number of digits that a coefficient may have. -/
def maxDigits : Nat := 28

/-- The least number with more digits than a coefficient may have. -/
def coefficientBound : Nat := Nat.pow 10 maxDigits

/-- The coefficient of a magnitude at a number of places, ties away from zero. -/
def roundedCoefficient (q : Rat) (places : Int) : Nat :=
  (q * (10 : Rat) ^ places + 1 / 2).floor.toNat

/-- The magnitude `q` with a sign, rounded half up. -/
def round? (negative : Bool) (q : Rat) (places : Int) : Option Fixed :=
  let k := roundedCoefficient q places
  if k < coefficientBound then some ⟨negative, k, places⟩ else none

/-- A numeral, rounded half up. The power of ten is not computed if the numeral has more digits
before its last place than a coefficient may have, or if it lies far below that place. -/
def ofNumeral? (n : Numeral) (places : Int) : Option Fixed :=
  let size : Int := (decimalDigits n.coefficient).length + n.exponent + places
  if n.coefficient = 0 ∨ size < 0 then some ⟨n.negative, 0, places⟩
  else if maxDigits + 1 < size then none
  else round? n.negative n.magnitude places

def toNumeral (f : Fixed) : Numeral :=
  ⟨f.negative, f.coefficient, -f.places⟩

def toDouble (f : Fixed) : Double :=
  f.toNumeral.toDouble

/-- The digits before the point and those behind it. -/
def parts (f : Fixed) : List Char × List Char :=
  let ds := decimalDigits f.coefficient
  if 0 ≤ f.places then
    let places := f.places.toNat
    let padded := List.replicate (places + 1 - ds.length) '0' ++ ds
    (padded.take (padded.length - places), padded.drop (padded.length - places))
  else if f.coefficient = 0 then (['0'], [])
  else (ds ++ List.replicate (-f.places).toNat '0', [])

/-- The plain decimal notation: exactly the given number of digits behind the point, and no point
without such digits. -/
def display (f : Fixed) : String :=
  let (whole, fraction) := f.parts
  String.ofList <|
    (if f.negative then ['-'] else []) ++ whole ++ if fraction.isEmpty then [] else '.' :: fraction

end Fixed

end CodeHealth
