import CodeHealth.Number.Shortest
import CodeHealth.Text.Quoted
import CodeHealth.Value.Basic

/-!
# Values as JSON text

The text of a value is ASCII: every character from U+007F on is written with four hexadecimal
digits, one beyond U+FFFF as two of these. A floating point number is written in its shortest form;
the two infinities and the number that is none have names.

A whole number is written however many digits it has. One that has been read has few enough to be
read again.

`compact` puts a whole value on one line. `indented` starts a line for every item and every member,
two spaces further in than the bracket around it; an empty list or object stays on its line.
-/

namespace CodeHealth

namespace Json

/-- The four hexadecimal digits of a UTF-16 unit. -/
def unitEscape (n : Nat) : Text :=
  '\\' :: 'u' :: Text.hexadecimal 4 n

/-- A character inside a JSON string. -/
def charText (c : Char) : Text :=
  if c = '"' then ['\\', '"']
  else if c = '\\' then ['\\', '\\']
  else if c = '\n' then ['\\', 'n']
  else if c = '\r' then ['\\', 'r']
  else if c = '\t' then ['\\', 't']
  else if c = '\x0c' then ['\\', 'f']
  else if c = '\x08' then ['\\', 'b']
  else if 0x20 ≤ c.toNat ∧ c.toNat < 0x7F then [c]
  else if c.toNat < 0x10000 then unitEscape c.toNat
  else
    unitEscape (0xD800 + (c.toNat - 0x10000) / 0x400)
      ++ unitEscape (0xDC00 + (c.toNat - 0x10000) % 0x400)

def stringText (s : String) : Text :=
  '"' :: s.toList.flatMap charText ++ ['"']

/-- A floating point number in JSON text. -/
def doubleText : Double → Text
  | .infinite negative => if negative then "-Infinity".toList else "Infinity".toList
  | .nan => "NaN".toList
  | x => x.display.toList

/-- How items and members are set apart. -/
inductive Layout where
  | compact
  /-- A line for each, indented by two spaces for each bracket around it. -/
  | indented
deriving Repr, DecidableEq

namespace Layout

/-- What stands before the first item inside `depth` brackets, and after the last one outside. -/
def lineBreak (layout : Layout) (depth : Nat) : Text :=
  match layout with
  | .compact => []
  | .indented => '\n' :: List.replicate (2 * depth) ' '

/-- What stands between two items inside `depth` brackets. -/
def separator (layout : Layout) (depth : Nat) : Text :=
  match layout with
  | .compact => [',', ' ']
  | .indented => ',' :: layout.lineBreak depth

end Layout

mutual

/-- The text of a value inside `depth` brackets. -/
def valueText (layout : Layout) (depth : Nat) : Value → Text
  | .null => "null".toList
  | .bool b => if b then "true".toList else "false".toList
  | .int n => (toString n).toList
  | .double x => doubleText x
  | .text s => stringText s
  | .list items =>
    if items.isEmpty then ['[', ']']
    else
      '[' :: layout.lineBreak (depth + 1) ++ itemsText layout (depth + 1) items
        ++ layout.lineBreak depth ++ [']']
  | .object members =>
    if members.isEmpty then ['\x7b', '\x7d']
    else
      '\x7b' :: layout.lineBreak (depth + 1) ++ membersText layout (depth + 1) members
        ++ layout.lineBreak depth ++ ['\x7d']

def itemsText (layout : Layout) (depth : Nat) : List Value → Text
  | [] => []
  | v :: rest =>
    valueText layout depth v
      ++ (if rest.isEmpty then [] else layout.separator depth ++ itemsText layout depth rest)

def membersText (layout : Layout) (depth : Nat) : List (String × Value) → Text
  | [] => []
  | (k, v) :: rest =>
    stringText k ++ ':' :: ' ' :: valueText layout depth v
      ++ (if rest.isEmpty then [] else layout.separator depth ++ membersText layout depth rest)

end

end Json

namespace Value

def toJson (layout : Json.Layout) (v : Value) : String :=
  String.ofList (Json.valueText layout 0 v)

end Value

end CodeHealth
