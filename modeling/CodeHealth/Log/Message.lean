import CodeHealth.Log.Layout

/-!
# Messages with arguments

The directives of a message are filled from left to right. A directive that names its argument looks
it up; every other one takes the next argument, and so does an asterisk in place of a width or a
precision. All arguments have to be taken in the end, except that arguments with names may be left.

A single object that is not empty holds arguments with names. As long as no name has been looked up
the object itself is the next argument, once; afterwards the argument that a directive names is, and
it may be taken by an asterisk of that directive.

What is wrong with a message is reported in the order in which it is filled: the argument of a
directive has to be there before its letter is looked at.
-/

namespace CodeHealth

namespace Message

inductive Arguments where
  /-- Arguments that are taken one after the other. -/
  | positional (values : List Value)
  /-- Arguments with names, and the one that is next. -/
  | named (members : Entries String Value) (next? : Option Value)

namespace Arguments

/-- The arguments in a list. A single object that is not empty holds arguments with names. -/
def ofList : List Value → Arguments
  | [.object (m :: members)] => named (m :: members) (some (.object (m :: members)))
  | values => positional values

/-- The next argument, and the arguments that are left. -/
def take : Arguments → Except Fault (Value × Arguments)
  | .positional (v :: rest) => .ok (v, .positional rest)
  | .named members (some v) => .ok (v, .named members none)
  | .positional [] | .named _ none => .error .missingArgument

/-- The arguments with the one of a name as the next one. -/
def lookUp (name : String) : Arguments → Except Fault Arguments
  | .named members _ =>
    match Entries.get? name members with
    | some v => .ok (.named members (some v))
    | none => .error .missingMember
  | .positional _ => .error .missingArgument

/-- Arguments without names have to be taken. -/
def finish : Arguments → Except Fault Unit
  | .positional (_ :: _) => .error .spareArgument
  | .positional [] | .named _ _ => .ok ()

end Arguments

namespace Extent

/-- The greatest width in digits, and the greatest one that an argument may have. -/
def maxWidth : Nat := 9223372036854775807

def maxPrecision : Nat := 2147483647

/-- The greatest width that a place can have. -/
def maxPlace : Nat := 10000000000

/-- The number that an extent stands for, and the arguments that are left. -/
def resolve (bound : Nat) (args : Arguments) : Extent → Except Fault (Int × Arguments)
  | .number n => if n ≤ bound then .ok (n, args) else .error .inadmissible
  | .argument => do
    let (v, args) ← args.take
    match v.number? with
    | some (.int n) =>
      if -(bound : Int) - 1 ≤ n ∧ n ≤ bound then .ok (n, args) else .error .outOfRange
    | _ => .error (.notWhole v.kind)

/-- The number that an extent stands for, if there is one. -/
def resolve? (bound : Nat) (args : Arguments) :
    Option Extent → Except Fault (Option Int × Arguments)
  | some e => do
    let (n, args) ← e.resolve bound args
    return (some n, args)
  | none => .ok (none, args)

end Extent

namespace Directive

/-- The layout with a width and a precision. A negative width puts the argument on the left, and has
no effect otherwise if its magnitude is too great for a width; a negative precision counts as
zero. -/
def layout (d : Directive) (width? precision? : Option Int) : Layout :=
  let width := width?.getD 0
  { flags := { d.flags with left := d.flags.left || width < 0 }
    width := if width.natAbs ≤ Extent.maxWidth then width.natAbs else 0
    precision? := precision?.map Int.toNat }

/-- The text that takes the place of a directive, and the arguments that are left. -/
def fill (d : Directive) (args : Arguments) : Except Fault (Text × Arguments) := do
  let args ←
    match d.name? with
    | some name => args.lookUp name
    | none => pure args
  let (width?, args) ← Extent.resolve? Extent.maxWidth args d.width?
  let (precision?, args) ← Extent.resolve? Extent.maxPrecision args d.precision?
  match d.letter? with
  | none => throw .inadmissible
  | some letter =>
    let (v, args) ← args.take
    match Conversion.ofLetter? letter with
    | none => throw .inadmissible
    | some conversion =>
      let l := d.layout width? precision?
      if Extent.maxPlace < l.width then
        let _ ← Layout.render { l with width := 0 } v conversion
        throw .tooWide
      return (← l.render v conversion, args)

end Directive

/-- The pieces of a message with arguments in their places. -/
def fill : List Piece → Arguments → Except Fault Text
  | [], args => do
    args.finish
    return []
  | .literal c :: rest, args => return c :: (← fill rest args)
  | .directive d :: rest, args => do
    let (text, args) ← d.fill args
    return text ++ (← fill rest args)
  | .unclosed :: _, .positional _ => .error .missingArgument
  | .unclosed :: _, .named _ _ => .error .inadmissible

/-- A message with its arguments in place. A message without arguments is left as it is. -/
def format (message : Value) (args : List Value) : Except Fault String := do
  let text := message.display
  if args.isEmpty then return text
  return String.ofList (← fill (pieces text.toList) (.ofList args))

end Message

end CodeHealth
