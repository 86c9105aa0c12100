import CodeHealth.Log.Directive
import CodeHealth.Number.Digits
import CodeHealth.Value.Arithmetic
import CodeHealth.Value.Display

/-!
# Arguments in their places

The letter of a directive says how an argument is shown, as a `Conversion`. Its flags, its width and
its precision make up the `Layout` of the place.

A text is cut to the precision and filled up with blanks. A number has a sign, perhaps a mark of its
base, and digits; the precision says how many digits it has. It is filled up with blanks before the
sign, or with zeros behind the mark. An argument on the left of its place is always filled up with
blanks, on its right.
-/

namespace CodeHealth

namespace Message

inductive Conversion where
  /-- Any value, as in a message. -/
  | display
  /-- Any value, as inside a list. -/
  | inside
  /-- Any value, as inside a list, in ASCII. -/
  | ascii
  /-- A number without its fraction. -/
  | whole
  /-- A whole number in base eight. -/
  | octal
  /-- A whole number in base sixteen. -/
  | hexadecimal (upper : Bool)
  /-- A number with a power of ten. -/
  | scientific (upper : Bool)
  /-- A number with a fixed number of places. -/
  | fixed (upper : Bool)
  /-- A number with a number of significant digits. -/
  | general (upper : Bool)
  /-- A character, or its code point. -/
  | character
deriving DecidableEq, Repr

namespace Conversion

/-- The conversion of a letter. -/
def ofLetter? : Char → Option Conversion
  | 's' => some .display
  | 'r' => some .inside
  | 'a' => some .ascii
  | 'd' | 'i' | 'u' => some .whole
  | 'o' => some .octal
  | 'x' => some (.hexadecimal false)
  | 'X' => some (.hexadecimal true)
  | 'e' => some (.scientific false)
  | 'E' => some (.scientific true)
  | 'f' => some (.fixed false)
  | 'F' => some (.fixed true)
  | 'g' => some (.general false)
  | 'G' => some (.general true)
  | 'c' => some .character
  | _ => none

end Conversion

/-- The place of an argument. -/
structure Layout where
  /-- The flags. -/
  flags : Flags := {}
  /-- The least number of characters. -/
  width : Nat := 0
  /-- The number of digits, or the greatest number of characters of a text. -/
  precision? : Option Nat := none
deriving DecidableEq, Repr

namespace Layout

/-- The number of digits of a whole number that no precision may reach. -/
def digitBound : Nat := 2147483645

def padded (l : Layout) (s : Text) : Text :=
  let blanks := List.replicate (l.width - s.length) ' '
  if l.flags.left then s ++ blanks else blanks ++ s

/-- A text filled up with blanks is as long as its place, or longer. -/
theorem length_padded (l : Layout) (s : Text) :
    (l.padded s).length = s.length + (l.width - s.length) := by
  unfold padded
  split
  · rw [List.length_append, List.length_replicate]
  · rw [List.length_append, List.length_replicate, Nat.add_comm]

/-- A text cut to the precision and filled up with blanks. -/
def text (l : Layout) (s : Text) : Text :=
  l.padded <|
    match l.precision? with
    | some n => s.take n
    | none => s

/-- A number, given by its sign, the mark of its base and its digits. -/
def number (l : Layout) (negative : Bool) (mark digits : Text) : Text :=
  let sign :=
    if negative then ['-']
    else if l.flags.plus then ['+']
    else if l.flags.blank then [' ']
    else []
  let before := sign ++ mark
  if l.flags.zeros && !l.flags.left then
    before ++ List.replicate (l.width - before.length - digits.length) '0' ++ digits
  else l.padded (before ++ digits)

/-- A whole number in a base. Zeros make up for missing digits. -/
def whole (l : Layout) (base : Nat) (mark : Text) (n : Int) : Except Fault Text :=
  let digits := Nat.toDigits base n.natAbs
  match l.precision? with
  | some p =>
    if digitBound ≤ p then .error .outOfRange
    else .ok (l.number (n < 0) mark (List.replicate (p - digits.length) '0' ++ digits))
  | none => .ok (l.number (n < 0) mark digits)

/-- A whole number in base eight or sixteen, with the mark of the base if it is asked for. -/
def marked (l : Layout) (base : Nat) (mark : Text) (v : Value) : Except Fault Text :=
  match v.number? with
  | some (.int n) => l.whole base (if l.flags.alternate then mark else []) n
  | _ => .error (.notWhole v.kind)

/-- A floating point number, given the notation of its magnitude for a precision, which is six
unless told otherwise. -/
def double (l : Layout) (magnitude : Rat → Nat → Bool → Text) (v : Value) : Except Fault Text := do
  let x ← (← v.number .notReal).rounded
  let digits :=
    match x with
    | .infinite _ => "inf".toList
    | .nan => "nan".toList
    | x => magnitude (x.toRat?.getD 0).abs (l.precision?.getD 6) l.flags.alternate
  return l.number x.isNegative [] digits

/-- Letters in upper case where they are asked for. -/
def cased (upper : Bool) (s : Text) : Text :=
  if upper then s.map Char.toUpper else s

/-- The character that a value stands for. -/
def character : Value → Except Fault Char
  | .text s =>
    match s.toList with
    | [c] => .ok c
    | _ => .error (.notWhole .text)
  | v =>
    match v.number? with
    | some (.int n) =>
      if 0 ≤ n ∧ n < 0x110000 then .ok (Char.ofNat n.toNat) else .error .outOfRange
    | _ => .error (.notWhole v.kind)

/-- A number without its fraction. -/
def truncated : Number → Except Fault Int
  | .int n => .ok n
  | .double (.infinite _) => .error .tooLarge
  | .double .nan => .error .inadmissible
  | .double x =>
    let q := x.toRat?.getD 0
    .ok (if q < 0 then -(-q).floor else q.floor)

/-- The text that takes the place of a value. -/
def render (l : Layout) (v : Value) : Conversion → Except Fault Text
  | .display => .ok (l.text v.display.toList)
  | .inside => .ok (l.text v.displayInside.toList)
  | .ascii => .ok (l.text v.displayAscii.toList)
  | .whole => do l.whole 10 [] (← truncated (← v.number .notReal))
  | .octal => l.marked 8 ['0', 'o'] v
  | .hexadecimal upper => cased upper <$> l.marked 16 ['0', 'x'] v
  | .scientific upper => cased upper <$> l.double Digits.scientificText v
  | .fixed upper => cased upper <$> l.double Digits.fixedText v
  | .general upper => cased upper <$> l.double Digits.generalText v
  | .character => do return l.padded [← character v]

end Layout

end Message

end CodeHealth
