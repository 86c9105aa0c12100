import CodeHealth.Number.Numeral
import CodeHealth.Text.DigitTable
import CodeHealth.Value.Arithmetic

/-!
# Values as decimal numbers

Decimal arithmetic takes whole numbers and floating point numbers for exactly what they are. It also
takes a text, which is read as a numeral, and a list of a sign, the digits and the power of ten.

A numeral may be written with the decimal digits of any script. Besides numerals there are the
spellings of infinite numbers and of results that are no number; the latter may carry a diagnostic
number, and they may be signalling, which means that no operation takes them.
-/

namespace CodeHealth

inductive Decimal where
  | number (negative : Bool) (magnitude : Rat)
  | numeral (n : Numeral)
  | infinite
  | nan (signalling negative : Bool) (payload : Nat)

namespace Decimal

/-! ### Numerals within bounds -/

/-- The greatest power of ten of the first digit of a number. -/
def maxExponent : Int := 999999999999999999

/-- The least power of ten of the last digit of a number. -/
def minExponent : Int := -1999999999999999997

/-- A numeral as a number, if its power of ten is within bounds. -/
def ofNumeral? (n : Numeral) : Option Decimal :=
  let ds := decimalDigits n.coefficient
  if minExponent ≤ n.exponent ∧ n.exponent + (ds.length - 1) ≤ maxExponent then some (.numeral n)
  else none

/-! ### Texts -/

/-- A character of a numeral, in lower case, or as an ASCII digit if it is a digit. Other characters
stand for themselves. -/
def plainChar (c : Char) : Char :=
  match Text.digitValue? c with
  | some n => Char.ofNat ('0'.toNat + n)
  | none => c.toLower

/-- The power of ten at the end of a numeral, if there is nothing else. -/
def power? : Text → Option Int
  | [] => some 0
  | 'e' :: s =>
    let (negative, ds) :=
      match s with
      | '-' :: ds => (true, ds)
      | '+' :: ds => (false, ds)
      | ds => (false, ds)
    if ds ≠ [] ∧ ds.all isDecimalDigit then
      some (if negative then -(digitsValue ds : Int) else digitsValue ds)
    else none
  | _ => none

/-- The digits of a numeral and of its power of ten, read after the sign. -/
def unsigned? (negative : Bool) (s : Text) : Option Numeral := do
  let whole := s.takeWhile isDecimalDigit
  let rest := s.dropWhile isDecimalDigit
  let (fraction, rest) :=
    match rest with
    | '.' :: rest => (rest.takeWhile isDecimalDigit, rest.dropWhile isDecimalDigit)
    | rest => ([], rest)
  let digits := whole ++ fraction
  guard (digits ≠ [])
  return ⟨negative, digitsValue digits, (← power? rest) - fraction.length⟩

/-- No number, with the digits of its diagnostic number. -/
def nan? (signalling negative : Bool) (ds : Text) : Option Decimal :=
  if ds.all isDecimalDigit then some (.nan signalling negative (digitsValue ds)) else none

/-- A number without its sign. -/
def afterSign? (negative : Bool) (s : Text) : Option Decimal :=
  if s = "inf".toList ∨ s = "infinity".toList then some .infinite
  else
    match s with
    | 'n' :: 'a' :: 'n' :: ds => nan? false negative ds
    | 's' :: 'n' :: 'a' :: 'n' :: ds => nan? true negative ds
    | s => unsigned? negative s >>= ofNumeral?

/-- The number that a text stands for. Blanks around it and underscores anywhere do not matter, nor
does the case of letters. -/
def ofText? (s : Text) : Option Decimal :=
  match ((Text.trim s).filter (· ≠ '_')).map plainChar with
  | '-' :: rest => afterSign? true rest
  | '+' :: rest => afterSign? false rest
  | rest => afterSign? false rest

/-! ### Lists -/

/-- The whole number that a part of a list is. It has to be a small one. -/
def part : Value → Except Fault Int
  | .bool b => .ok (if b then 1 else 0)
  | .int n =>
    if -9223372036854775808 ≤ n ∧ n < 9223372036854775808 then .ok n else .error .outOfRange
  | _ => .error .inadmissible

/-- The sign in a list: one for a negative number and zero for any other. -/
def sign (v : Value) : Except Fault Bool := do
  match ← part v with
  | 0 => return false
  | 1 => return true
  | _ => throw .inadmissible

def digit (v : Value) : Except Fault Nat := do
  let n ← part v
  if 0 ≤ n ∧ n < 10 then return n.toNat else throw .inadmissible

/-- The digits in a list, read as one natural number. -/
def coefficient : Value → Except Fault Nat
  | .list items => return (← items.mapM digit).foldl (fun n d => 10 * n + d) 0
  | _ => throw .inadmissible

/-- The number of a sign, digits and a power of ten. In place of the power of ten may stand a
letter, for an infinite number or for no number. -/
def ofParts (signPart digitsPart powerPart : Value) : Except Fault Decimal := do
  let negative ← sign signPart
  match powerPart with
  | .text "F" => return (fun _ => .infinite) (← coefficient digitsPart)
  | .text "n" => return .nan false negative (← coefficient digitsPart)
  | .text "N" => return .nan true negative (← coefficient digitsPart)
  | powerPart =>
    let exponent ← part powerPart
    match ofNumeral? ⟨negative, ← coefficient digitsPart, exponent⟩ with
    | some d => return d
    | none => throw .notNumeral

/-- The decimal number that a value stands for. -/
def ofValue : Value → Except Fault Decimal
  | .bool b => .ok (.number false (if b then 1 else 0))
  | .int n => .ok (.number (n < 0) n.natAbs)
  | .double (.finite q) => .ok (.number (q < 0) q.abs)
  | .double .negZero => .ok (.number true 0)
  | .double (.infinite _) => .ok .infinite
  | .double .nan => .ok (.nan false false 0)
  | .text s =>
    match ofText? s.toList with
    | some d => .ok d
    | none => .error .notNumeral
  | .list [signPart, digitsPart, powerPart] => ofParts signPart digitsPart powerPart
  | .list _ => .error .inadmissible
  | v => .error (.notDecimal v.kind)

end Decimal

end CodeHealth
