import CodeHealth.Number.Numeral

/-!
# Digits of a magnitude

A magnitude is a rational that is not negative. Its digits are those of a whole number on a decimal
grid: on the grid of a number of places, or on the grid that leaves a number of significant digits.
The nearest point of the grid is taken, and of two nearest ones the even one.

`Digits` holds significant digits together with the power of ten of the first of them. There are two
ways of writing them: with the point where it belongs, or with the point behind the first digit and
the power of ten at the end. The power of ten has a sign and two digits at least.
-/

namespace CodeHealth

structure Digits where
  /-- The digits, the first one in front. -/
  digits : List Char
  /-- The power of ten of the first digit. -/
  exponent : Int
deriving DecidableEq, Repr

namespace Digits

/-- The exponent `e` with `10 ^ e ≤ q < 10 ^ (e + 1)`, for positive `q`. The decimal lengths of the
numerator and of the denominator leave two candidates. -/
def floorLog10 (q : Rat) : Int :=
  let e : Int := ((decimalDigits q.num.natAbs).length : Int) - (decimalDigits q.den).length
  if (10 : Rat) ^ e ≤ q then e else e - 1

def onGrid (q : Rat) (places : Int) : Nat :=
  (Double.roundHalfEven (q * (10 : Rat) ^ places)).toNat

/-- A magnitude with a number of significant digits. Rounding up to the next power of ten moves the
first digit. -/
def significant (q : Rat) (count : Nat) : Digits :=
  if q = 0 then ⟨List.replicate count '0', 0⟩
  else
    let exponent := floorLog10 q
    let ds := decimalDigits (onGrid q (count - 1 - exponent))
    if count < ds.length then ⟨ds.take count, exponent + 1⟩ else ⟨ds, exponent⟩

/-- The digits without zeros at their end. -/
def stripped (d : Digits) : Digits :=
  { d with digits := (d.digits.reverse.dropWhile (· = '0')).reverse }

/-- The digits before the point and those behind it, with the point where it belongs. -/
def positional (d : Digits) : List Char × List Char :=
  if 0 ≤ d.exponent then
    let width := d.exponent.toNat + 1
    (d.digits.take width ++ List.replicate (width - d.digits.length) '0', d.digits.drop width)
  else (['0'], List.replicate (-d.exponent - 1).toNat '0' ++ d.digits)

/-- The digits before the point and those behind it, with the point behind the first digit. -/
def scientific (d : Digits) : List Char × List Char :=
  (d.digits.take 1, d.digits.drop 1)

def power (d : Digits) : List Char :=
  let ds := decimalDigits d.exponent.natAbs
  'e' :: (if d.exponent < 0 then '-' else '+') :: List.replicate (2 - ds.length) '0' ++ ds

/-- The digits before the point and those behind it. The point is left out where no digits follow
it, unless it is `kept`. -/
def pointed (kept : Bool) (parts : List Char × List Char) : List Char :=
  parts.1 ++ if parts.2.isEmpty && !kept then [] else '.' :: parts.2

/-! ### Three notations of a magnitude -/

def fixedText (q : Rat) (places : Nat) (pointKept : Bool) : List Char :=
  pointed pointKept (Fixed.parts ⟨false, onGrid q places, places⟩)

def scientificText (q : Rat) (places : Nat) (pointKept : Bool) : List Char :=
  let d := significant q (places + 1)
  pointed pointKept d.scientific ++ d.power

/-- A number of significant digits that is enough for every number of the format. -/
def enough : Nat := 1100

/-- A magnitude with a number of significant digits, one at least. It has a power of ten if its
first digit stands farther behind the point than in the fourth place, or if not all digits before
the point are significant. Zeros at its end are left out, unless everything is `kept`. -/
def generalText (q : Rat) (count : Nat) (kept : Bool) : List Char :=
  let count := if count = 0 then 1 else count
  let d := if kept then significant q count else (significant q (min count enough)).stripped
  if -4 ≤ d.exponent ∧ d.exponent < count then pointed kept d.positional
  else pointed kept d.scientific ++ d.power

end Digits

end CodeHealth
