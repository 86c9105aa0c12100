import CodeHealth.Text.Basic

/-!
# Bytes as text

Files, the standard input and request bodies arrive as bytes. UTF-8 is read in two ways. The strict
reading has no result if any byte is out of place. The lenient one puts U+FFFD in place of every
longest piece that begins a character without completing it, and of every byte that begins none.

JSON text is read from UTF-8, UTF-16 or UTF-32, in either byte order. There a surrogate may stand on
its own. A text has characters only, so U+FFFD is read in its place: texts that keep such surrogates
are not modelled.
-/

namespace CodeHealth

namespace Text

/-- Whether a number is the first half of a surrogate pair. -/
def isHighSurrogate (n : Nat) : Bool :=
  0xD800 ≤ n && n < 0xDC00

/-- Whether a number is the second half of a surrogate pair. -/
def isLowSurrogate (n : Nat) : Bool :=
  0xDC00 ≤ n && n < 0xE000

/-- The characters that code points and surrogate pairs stand for. -/
def charsOfUnits : List Nat → Text
  | [] => []
  | [n] => [if isHighSurrogate n || isLowSurrogate n then '\ufffd' else Char.ofNat n]
  | n :: m :: rest =>
    if isHighSurrogate n then
      if isLowSurrogate m then
        Char.ofNat (0x10000 + (n - 0xD800) * 0x400 + (m - 0xDC00)) :: charsOfUnits rest
      else '\ufffd' :: charsOfUnits (m :: rest)
    else if isLowSurrogate n then '\ufffd' :: charsOfUnits (m :: rest)
    else Char.ofNat n :: charsOfUnits (m :: rest)

end Text

/-- A sequence of bytes. -/
abbrev Bytes := List UInt8

namespace Bytes

/-- A text in UTF-8. -/
def ofText (s : Text) : Bytes :=
  s.flatMap String.utf8EncodeChar

/-- The bounds of the bytes that follow a leading byte in UTF-8, and the value that the leading byte
contributes. The second byte of some sequences has narrower bounds, which exclude surrogates,
numbers beyond U+10FFFF and sequences longer than necessary. -/
def continuations? (lead : Nat) : Option (Nat × List (Nat × Nat)) :=
  let any := (0x80, 0xBF)
  if lead < 0x80 then some (lead, [])
  else if lead < 0xC2 then none
  else if lead < 0xE0 then some (lead - 0xC0, [any])
  else if lead = 0xE0 then some (0, [(0xA0, 0xBF), any])
  else if lead = 0xED then some (0xD, [(0x80, 0x9F), any])
  else if lead < 0xF0 then some (lead - 0xE0, [any, any])
  else if lead = 0xF0 then some (0, [(0x90, 0xBF), any, any])
  else if lead < 0xF4 then some (lead - 0xF0, [any, any, any])
  else if lead = 0xF4 then some (4, [(0x80, 0x8F), any, any])
  else none

/-- Takes the bytes that follow a leading byte, as far as they are within their bounds. The answer
is the code point, if all are, and their number. -/
def follow (value : Nat) : List (Nat × Nat) → Bytes → Option Nat × Nat
  | [], _ => (some value, 0)
  | _ :: _, [] => (none, 0)
  | (first, last) :: bounds, b :: rest =>
    if first ≤ b.toNat ∧ b.toNat ≤ last then
      let (result, taken) := follow (value * 0x40 + (b.toNat - 0x80)) bounds rest
      (result, taken + 1)
    else (none, 0)

/-- The character that a sequence of bytes begins with in UTF-8, if it begins with one, and the
number of bytes behind the first that belong to it or to its beginning. -/
def utf8Char (lead : UInt8) (rest : Bytes) : Option Char × Nat :=
  match continuations? lead.toNat with
  | none => (none, 0)
  | some (value, bounds) =>
    let (code?, taken) := follow value bounds rest
    (code?.map Char.ofNat, taken)

/-- The characters from a position on, where a piece that is no character counts as absent. The
first argument is the number of bytes that belong to the last piece. -/
def utf8From : Nat → Bytes → List (Option Char)
  | _, [] => []
  | owned + 1, _ :: rest => utf8From owned rest
  | 0, lead :: rest =>
    let (c?, taken) := utf8Char lead rest
    c? :: utf8From taken rest

/-- The text that bytes stand for in UTF-8. -/
def utf8? (b : Bytes) : Option Text :=
  (utf8From 0 b).mapM id

/-- The text that bytes stand for in UTF-8, with U+FFFD in place of what is no character. -/
def utf8Lenient (b : Bytes) : Text :=
  (utf8From 0 b).map (·.getD '\ufffd')

def pairs? (bigEndian : Bool) : Bytes → Option (List Nat)
  | [] => some []
  | [_] => none
  | a :: b :: rest =>
    let n := if bigEndian then a.toNat * 0x100 + b.toNat else b.toNat * 0x100 + a.toNat
    (pairs? bigEndian rest).map (n :: ·)

def utf16? (bigEndian : Bool) (b : Bytes) : Option Text :=
  (pairs? bigEndian b).map Text.charsOfUnits

def quadruples? (bigEndian : Bool) : Bytes → Option (List Nat)
  | [] => some []
  | a :: b :: c :: d :: rest =>
    let value (w x y z : UInt8) := ((w.toNat * 0x100 + x.toNat) * 0x100 + y.toNat) * 0x100 + z.toNat
    let n := if bigEndian then value a b c d else value d c b a
    (quadruples? bigEndian rest).map (n :: ·)
  | _ => none

/-- The character with a number, which is U+FFFD for a surrogate. -/
def charOfCode? (n : Nat) : Option Char :=
  if 0x110000 ≤ n then none
  else if Text.isHighSurrogate n || Text.isLowSurrogate n then some '\ufffd'
  else some (Char.ofNat n)

def utf32? (bigEndian : Bool) (b : Bytes) : Option Text :=
  quadruples? bigEndian b >>= List.mapM charOfCode?

/-- Bytes in UTF-8 with U+FFFD in place of every surrogate. -/
def withoutSurrogates : Bytes → Bytes
  | 0xED :: b :: c :: rest =>
    if 0xA0 ≤ b ∧ b ≤ 0xBF ∧ 0x80 ≤ c ∧ c ≤ 0xBF then
      0xEF :: 0xBF :: 0xBD :: withoutSurrogates rest
    else 0xED :: withoutSurrogates (b :: c :: rest)
  | a :: rest => a :: withoutSurrogates rest
  | [] => []

def after? : (beginning b : Bytes) → Option Bytes
  | [], b => some b
  | _ :: _, [] => none
  | x :: beginning, y :: b => if x = y then after? beginning b else none

/-- The JSON text that bytes stand for. The encoding is told by a byte order mark, or else by which
of the first four bytes are zero, the first character being an ASCII one. -/
def jsonText? (b : Bytes) : Option Text :=
  match after? [0, 0, 0xFE, 0xFF] b, after? [0xFF, 0xFE, 0, 0] b, after? [0xFE, 0xFF] b,
    after? [0xFF, 0xFE] b, after? [0xEF, 0xBB, 0xBF] b with
  | some rest, _, _, _, _ => utf32? true rest
  | _, some rest, _, _, _ => utf32? false rest
  | _, _, some rest, _, _ => utf16? true rest
  | _, _, _, some rest, _ => utf16? false rest
  | _, _, _, _, some rest => utf8? rest.withoutSurrogates
  | none, none, none, none, none =>
    match b with
    | [0, _] => utf16? true b
    | [_, 0] => utf16? false b
    | 0 :: y :: _ :: _ :: _ => if y = 0 then utf32? true b else utf16? true b
    | _ :: 0 :: z :: w :: _ => if z = 0 ∧ w = 0 then utf32? false b else utf16? false b
    | _ => utf8? b.withoutSurrogates

end Bytes

end CodeHealth
