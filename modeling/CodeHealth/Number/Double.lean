/-!
# Binary floating point numbers, exactly

A `Double` is a number of the IEEE 754 format binary64, held as the rational number that it stands
for. Every operation is computed in exact rational arithmetic and rounded once, to the nearest
number of the format, a tie going to the neighbour with the even significand. Statements about
results are therefore statements about rationals and about one rounding function.

`nearest` chooses a grid by the binary order of magnitude of its argument, such that numbers on the
grid have at most 53 binary digits, and rounds to the nearest point of that grid. The grid never
becomes finer than `2 ^ -1074`, and a result of `2 ^ 1024` or more is infinite.

The number zero carries a sign, which shows in its written form and in the sign of products and
quotients. Positive zero is `finite 0`; negative zero is a case of its own.

The type admits every rational as a finite value, so that an integer or a decimal numeral can be
compared and rounded as exactly what it is. The arithmetic operations answer with numbers of the
format only.
-/

namespace CodeHealth

/-- A number that binary64 arithmetic works on. -/
inductive Double where
  /-- The finite number with this value; positive zero among them. -/
  | finite (value : Rat)
  | negZero
  /-- Beyond all finite numbers, on the negative side or on the positive one. -/
  | infinite (negative : Bool)
  /-- The result of an operation that has none. -/
  | nan
deriving DecidableEq

namespace Double

/-! ### Rounding -/

/-- The nearest integer, and of two nearest ones the even one. -/
def roundHalfEven (q : Rat) : Int :=
  let below := q.floor
  let excess := q - below
  if excess < 1 / 2 then below
  else if 1 / 2 < excess then below + 1
  else if below % 2 = 0 then below
  else below + 1

/-- The exponent `e` with `2 ^ e ≤ q < 2 ^ (e + 1)`, for positive `q`. The binary lengths of the
numerator and of the denominator leave two candidates. -/
def floorLog2 (q : Rat) : Int :=
  let e : Int := (q.num.natAbs.log2 : Int) - (q.den.log2 : Int)
  if (2 : Rat) ^ e ≤ q then e else e - 1

/-- The exponent of the grid on which a positive number is rounded. -/
def gridExponent (q : Rat) : Int :=
  max (floorLog2 q - 52) (-1074)

/-- The nearest point of the grid of a positive number. -/
def roundOnGrid (q : Rat) : Rat :=
  let step := (2 : Rat) ^ gridExponent q
  roundHalfEven (q / step) * step

/-- The number nearest to a magnitude, with a sign. -/
def ofMagnitude (negative : Bool) (q : Rat) : Double :=
  let r := if 0 < q then roundOnGrid q else 0
  if (2 : Rat) ^ (1024 : Nat) ≤ r then .infinite negative
  else if r = 0 then (if negative then .negZero else .finite 0)
  else .finite (if negative then -r else r)

def nearest (q : Rat) : Double :=
  ofMagnitude (q < 0) q.abs

/-! ### Parts of a number -/

def toRat? : Double → Option Rat
  | .finite q => some q
  | .negZero => some 0
  | .infinite _ | .nan => none

def isNegative : Double → Bool
  | .finite q => q < 0
  | .negZero => true
  | .infinite negative => negative
  | .nan => false

def isZero (x : Double) : Bool :=
  x.toRat? = some 0

/-- An integer as a number, unless it is too large. -/
def ofInt? (n : Int) : Option Double :=
  match nearest n with
  | .infinite _ => none
  | x => some x

/-! ### Order

A comparison with `nan` never holds, and the two zeros are equal. -/

def lt : Double → Double → Bool
  | .nan, _ | _, .nan => false
  | .infinite a, .infinite b => a && !b
  | .infinite a, _ => a
  | _, .infinite b => !b
  | x, y => x.toRat?.getD 0 < y.toRat?.getD 0

def eq : Double → Double → Bool
  | .nan, _ | _, .nan => false
  | .infinite a, .infinite b => a = b
  | .infinite _, _ | _, .infinite _ => false
  | x, y => x.toRat?.getD 0 = y.toRat?.getD 0

/-- Whether `x` lies below `y` or has its value. -/
def le (x y : Double) : Bool :=
  x.lt y || x.eq y

/-! ### Arithmetic -/

def neg : Double → Double
  | .finite q => if q = 0 then .negZero else .finite (-q)
  | .negZero => .finite 0
  | .infinite negative => .infinite (!negative)
  | .nan => .nan

/-- The sum. Two negative zeros make a negative zero; every other sum that is zero is positive. -/
def add : Double → Double → Double
  | .nan, _ | _, .nan => .nan
  | .infinite a, .infinite b => if a = b then .infinite a else .nan
  | .infinite a, _ => .infinite a
  | _, .infinite b => .infinite b
  | .negZero, .negZero => .negZero
  | x, y => nearest (x.toRat?.getD 0 + y.toRat?.getD 0)

def sub (x y : Double) : Double :=
  x.add y.neg

/-- The product, whose sign is negative when the signs differ. -/
def mul (x y : Double) : Double :=
  let negative := x.isNegative != y.isNegative
  match x, y with
  | .nan, _ | _, .nan => .nan
  | .infinite _, y => if y.isZero then .nan else .infinite negative
  | x, .infinite _ => if x.isZero then .nan else .infinite negative
  | x, y => ofMagnitude negative (x.toRat?.getD 0 * y.toRat?.getD 0).abs

/-- The quotient by a number that is not zero. -/
def div (x y : Double) : Double :=
  let negative := x.isNegative != y.isNegative
  match x, y with
  | .nan, _ | _, .nan => .nan
  | .infinite _, .infinite _ => .nan
  | .infinite _, _ => .infinite negative
  | _, .infinite _ => ofMagnitude negative 0
  | x, y => ofMagnitude negative (x.toRat?.getD 0 / y.toRat?.getD 0).abs

/-- The quotient of two integers, the second not zero. It is rounded once, whatever the size of the
integers. -/
def ofQuotient (a b : Int) : Double :=
  ofMagnitude (decide (a < 0) != decide (b < 0)) ((a : Rat) / b).abs

end Double

end CodeHealth
