import CodeHealth.Number.Digits

/-!
# The shortest numeral that reads back

A `Double` is written with as few significant digits as determine it among all numbers of the
format. For one digit, two digits and so on, the two neighbours of its value on that decimal grid
are tried, and the first grid with a neighbour that reads back as the number wins. If both
neighbours do, the nearer one is taken, and of two equally near ones the even one. Seventeen digits
always suffice; behind them the exact expansion stands ready, which ends because the denominator is
a power of two, so that what is written always reads back.

Numbers from `0.0001` up to below `10 ^ 16` are written in positional notation with at least one
digit behind the point, all others with a power of ten of at least two digits.
-/

namespace CodeHealth

namespace Double

/-- The numeral with `count` significant digits that reads back as the positive number `q`. -/
def numeralOfLength? (q : Rat) (count : Nat) : Option Numeral :=
  let exponent := Digits.floorLog10 q - (count - 1)
  let scaled := q / (10 : Rat) ^ exponent
  let below := scaled.floor.toNat
  let numeral (k : Nat) : Numeral := ⟨false, k, exponent⟩
  let readsBack (k : Nat) : Bool := (numeral k).toDouble = .finite q
  match readsBack below, readsBack (below + 1) with
  | true, true =>
    let excess := scaled - below
    if excess < 1 / 2 ∨ excess = 1 / 2 ∧ below % 2 = 0 then some (numeral below)
    else some (numeral (below + 1))
  | true, false => some (numeral below)
  | false, true => some (numeral (below + 1))
  | false, false => none

/-- All digits of a positive number whose denominator is a power of two. -/
def exactNumeral (q : Rat) : Numeral :=
  ⟨false, q.num.natAbs * Nat.pow 5 q.den.log2, -(q.den.log2 : Int)⟩

/-- The shortest numeral that reads back as the positive number `q`. -/
def shortestNumeral (q : Rat) : Numeral :=
  ((List.range 17).findSome? fun i => numeralOfLength? q (i + 1)).getD (exactNumeral q)

/-- The written form of a positive number. -/
def magnitudeText (q : Rat) : List Char :=
  let n := shortestNumeral q
  let all := decimalDigits n.coefficient
  let d := Digits.stripped ⟨all, n.exponent + (all.length - 1)⟩
  if -4 ≤ d.exponent ∧ d.exponent < 16 then
    let (whole, fraction) := d.positional
    Digits.pointed false (whole, if fraction.isEmpty then ['0'] else fraction)
  else Digits.pointed false d.scientific ++ d.power

/-- The written form of a number. -/
def display : Double → String
  | .finite q =>
    if q = 0 then "0.0"
    else if q < 0 then String.ofList ('-' :: magnitudeText (-q))
    else String.ofList (magnitudeText q)
  | .negZero => "-0.0"
  | .infinite negative => if negative then "-inf" else "inf"
  | .nan => "nan"

end Double

end CodeHealth
