import CodeHealth.Number.Numeral
import CodeHealth.Text.Encoding
import CodeHealth.Value.Basic

/-!
# Reading JSON text

The grammar is that of JSON with three additions: the words `NaN`, `Infinity` and `-Infinity` are
floating point numbers. A number with a point or a power of ten is a floating point number, any
other one is whole. Of several members with one name the last value counts, at the place of the
first. Controls inside a string are refused, and so is anything behind the value.

A whole number may have so many digits that it is not read. This is a defect of its own, apart from
those that make a text malformed. Whichever comes first ends the reading.

A string may name a character beyond U+FFFF by two escapes, one for each half of a surrogate pair.
Half of a pair on its own stands for no character and is read as U+FFFD, so a string that keeps it
is outside of what is modelled. So is a text whose values are nested more deeply than the stack of a
reader allows: here the depth does not matter.

The readers take a bound on their recursion, which `Value.ofJson` computes from the length of the
text: every bracket and every item takes at least one character, and two calls at most.
-/

namespace CodeHealth

namespace Json

/-- Why a text is not read. -/
inductive Defect where
  | malformed
  /-- A whole number has more digits than are read. -/
  | tooLong (digits : Nat)
deriving Repr, DecidableEq

/-- A part that has to be there. -/
def expect {α : Type} : Option α → Except Defect α
  | some a => .ok a
  | none => .error .malformed

/-- Whether a character may stand between the parts of a JSON text. -/
def isSpace (c : Char) : Bool :=
  c = ' ' || c = '\t' || c = '\n' || c = '\r'

def skip (s : Text) : Text :=
  s.dropWhile isSpace

/-! ### Strings -/

/-- The character that an escape of one letter stands for. -/
def shortEscape? : Char → Option Char
  | '"' => some '"'
  | '\\' => some '\\'
  | '/' => some '/'
  | 'b' => some '\x08'
  | 'f' => some '\x0c'
  | 'n' => some '\n'
  | 'r' => some '\r'
  | 't' => some '\t'
  | _ => none

/-- The value of a hexadecimal digit of either case. -/
def hexDigit? (c : Char) : Option Nat :=
  if '0' ≤ c ∧ c ≤ '9' then some (c.toNat - '0'.toNat)
  else if 'a' ≤ c ∧ c ≤ 'f' then some (c.toNat - 'a'.toNat + 10)
  else if 'A' ≤ c ∧ c ≤ 'F' then some (c.toNat - 'A'.toNat + 10)
  else none

/-- The value of four hexadecimal digits. -/
def hexUnit? (a b c d : Char) : Option Nat := do
  return ((← hexDigit? a) * 16 + (← hexDigit? b)) * 256
    + ((← hexDigit? c) * 16 + (← hexDigit? d))

/-- The code points and surrogates of a string behind its opening quote, and the text behind the
closing one. -/
def stringUnits? : Text → Option (List Nat × Text)
  | [] => none
  | c :: rest =>
    if c = '"' then some ([], rest)
    else if c = '\\' then
      match rest with
      | [] => none
      | e :: rest =>
        match shortEscape? e with
        | some c => (stringUnits? rest).map fun (units, rest) => (c.toNat :: units, rest)
        | none =>
          if e = 'u' then
            match rest with
            | h₁ :: h₂ :: h₃ :: h₄ :: rest =>
              match hexUnit? h₁ h₂ h₃ h₄ with
              | some n => (stringUnits? rest).map fun (units, rest) => (n :: units, rest)
              | none => none
            | _ => none
          else none
    else if c.toNat < 0x20 then none
    else (stringUnits? rest).map fun (units, rest) => (c.toNat :: units, rest)

/-- The string behind an opening quote, and the text behind the closing one. -/
def string? (s : Text) : Option (String × Text) :=
  (stringUnits? s).map fun (units, rest) => (String.ofList (Text.charsOfUnits units), rest)

/-! ### Numbers -/

/-- The digits that a text begins with, and the text behind them. -/
def digits (s : Text) : Text × Text :=
  (s.takeWhile isDecimalDigit, s.dropWhile isDecimalDigit)

/-- The digits behind a point, if there is a point with digits behind it. -/
def fraction? : Text → Option (Text × Text)
  | '.' :: rest =>
    let (ds, rest) := digits rest
    if ds.isEmpty then none else some (ds, rest)
  | _ => none

/-- The power of ten that a text begins with. -/
def power? : Text → Option (Int × Text)
  | [] => none
  | e :: rest =>
    if e = 'e' ∨ e = 'E' then
      let (negative, rest) :=
        match rest with
        | '-' :: rest => (true, rest)
        | '+' :: rest => (false, rest)
        | _ => (false, rest)
      let (ds, rest) := digits rest
      if ds.isEmpty then none
      else some (if negative then -(digitsValue ds : Int) else digitsValue ds, rest)
    else none

/-- The whole part of a number: zero alone, or digits that do not begin with zero. -/
def whole? (s : Text) : Option (Text × Text) :=
  match digits s with
  | ([], _) => none
  | ('0' :: _, _) => some (['0'], s.drop 1)
  | (ds, rest) => some (ds, rest)

/-- The number that a text begins with, apart from its sign. -/
def readUnsigned (negative : Bool) (s : Text) : Except Defect (Value × Text) := do
  let (ds, rest) ← expect (whole? s)
  match fraction? rest, power? rest with
  | some (fs, rest), _ =>
    let (exponent, rest) := (power? rest).getD (0, rest)
    let n : Numeral := ⟨negative, digitsValue (ds ++ fs), exponent - fs.length⟩
    return (.double n.toDouble, rest)
  | none, some (exponent, rest) =>
    let n : Numeral := ⟨negative, digitsValue ds, exponent⟩
    return (.double n.toDouble, rest)
  | none, none =>
    if digitLimit < ds.length then throw (.tooLong ds.length)
    let n : Int := digitsValue ds
    return (.int (if negative then -n else n), rest)

def readNumber : Text → Except Defect (Value × Text)
  | '-' :: rest => readUnsigned true rest
  | s => readUnsigned false s

/-- The words that are values. -/
def words : List (Text × Value) :=
  [("null".toList, .null), ("true".toList, .bool true), ("false".toList, .bool false),
   ("NaN".toList, .double .nan), ("Infinity".toList, .double (.infinite false)),
   ("-Infinity".toList, .double (.infinite true))]

/-- The word that a text begins with, as a value. -/
def word? (s : Text) : Option (Value × Text) :=
  words.findSome? fun word => (Text.after? word.1 s).map fun rest => (word.2, rest)

def readScalar (s : Text) : Except Defect (Value × Text) :=
  match word? s with
  | some p => .ok p
  | none => readNumber s

/-! ### Values -/

mutual

/-- The value that a text begins with, and the text behind it. -/
def readValue : (bound : Nat) → Text → Except Defect (Value × Text)
  | 0, _ => .error .malformed
  | bound + 1, s =>
    match s with
    | '"' :: rest => do
      let (s, rest) ← expect (string? rest)
      return (.text s, rest)
    | '[' :: rest =>
      match skip rest with
      | ']' :: rest => .ok (.list [], rest)
      | rest => do
        let (items, rest) ← readItems bound rest
        return (.list items, rest)
    | '\x7b' :: rest =>
      match skip rest with
      | '\x7d' :: rest => .ok (.object [], rest)
      | rest => do
        let (members, rest) ← readMembers bound rest
        return (.object (Entries.putAll [] members), rest)
    | _ => readScalar s

/-- The items up to the closing bracket, and the text behind it. -/
def readItems : (bound : Nat) → Text → Except Defect (List Value × Text)
  | 0, _ => .error .malformed
  | bound + 1, s => do
    let (v, rest) ← readValue bound s
    match skip rest with
    | ',' :: rest =>
      let (items, rest) ← readItems bound (skip rest)
      return (v :: items, rest)
    | ']' :: rest => return ([v], rest)
    | _ => throw .malformed

/-- The members up to the closing brace, and the text behind it. -/
def readMembers : (bound : Nat) → Text → Except Defect (List (String × Value) × Text)
  | 0, _ => .error .malformed
  | bound + 1, s =>
    match s with
    | '"' :: rest => do
      let (name, rest) ← expect (string? rest)
      match skip rest with
      | ':' :: rest =>
        let (v, rest) ← readValue bound (skip rest)
        match skip rest with
        | ',' :: rest =>
          let (members, rest) ← readMembers bound (skip rest)
          return ((name, v) :: members, rest)
        | '\x7d' :: rest => return ([(name, v)], rest)
        | _ => throw .malformed
      | _ => throw .malformed
    | _ => .error .malformed

end

end Json

namespace Value

/-- The value that a JSON text stands for. -/
def ofJson (s : Text) : Except Json.Defect Value := do
  let (v, rest) ← Json.readValue (2 * s.length + 2) (Json.skip s)
  if (Json.skip rest).isEmpty then return v else throw .malformed

/-- The value of a JSON text without a defect. -/
def ofJson? (s : Text) : Option Value :=
  (ofJson s).toOption

end Value

end CodeHealth
