import CodeHealth.Text.Basic
import CodeHealth.Text.UnprintableTable

/-!
# Texts in quotes

A text inside a list or an object is shown in quotes. The quotes are single ones, unless the text
holds single quotes and no double ones. Backslashes and the quote itself are escaped, the common
controls have their short escapes, and every other character without a printed form is written with
two, four or eight hexadecimal digits.
-/

namespace CodeHealth.Text

/-- Whether a character has a printed form. Of all separators only the ASCII space has one. -/
def isPrintable (c : Char) : Bool :=
  let n := c.toNat
  if n < 0x80 then 0x20 ≤ n && n < 0x7F else !UnprintableTable.ranges.member n

/-- A number in lower-case hexadecimal digits, filled up with zeros. -/
def hexadecimal (width n : Nat) : List Char :=
  let ds := Nat.toDigits 16 n
  List.replicate (width - ds.length) '0' ++ ds

/-- A character by its code point, with two, four or eight hexadecimal digits. -/
def codeEscape (c : Char) : List Char :=
  if c.toNat < 0x100 then '\\' :: 'x' :: hexadecimal 2 c.toNat
  else if c.toNat < 0x10000 then '\\' :: 'u' :: hexadecimal 4 c.toNat
  else '\\' :: 'U' :: hexadecimal 8 c.toNat

/-- A character between quotes `q`. -/
def quotedChar (q c : Char) : List Char :=
  if c = q ∨ c = '\\' then ['\\', c]
  else if c = '\n' then ['\\', 'n']
  else if c = '\r' then ['\\', 'r']
  else if c = '\t' then ['\\', 't']
  else if isPrintable c then [c]
  else codeEscape c

/-- A text in ASCII: every other character is written by its code point. -/
def asciiEscaped (s : Text) : Text :=
  s.flatMap fun c => if c.toNat < 0x80 then [c] else codeEscape c

def quoteFor (s : Text) : Char :=
  if '\x27' ∈ s ∧ '"' ∉ s then '"' else '\x27'

def quoted (s : Text) : Text :=
  let q := quoteFor s
  q :: s.flatMap (quotedChar q) ++ [q]

end CodeHealth.Text
