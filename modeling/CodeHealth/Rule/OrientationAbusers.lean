import CodeHealth.Rule.Basic

/-!
# Object orientation that is only half applied

Two rules belong here. One looks for a `switch` in the clean copy of the source, where polymorphism
might take its place. The other looks for fields that are declared but hardly used.

A declaration of a field is, all separated by blanks, an optional word of visibility, a type and a
name, with a semicolon behind it. Where there is no word of visibility, the declaration begins with
the blanks behind some other word. A name that is set apart from its semicolon is not counted.
-/

namespace CodeHealth

/-- Recognises the word `switch`, blanks or none, and an opening parenthesis. -/
def switchHead : Recogniser Unit := fun before s => do
  guard (Text.startsWord before)
  let rest ← Text.after? "switch".toList s
  let rest ← Header.afterBlanks? '(' rest
  return (s.length - rest.length, ())

structure FieldDeclaration where
  name : Text
  /-- Whether the semicolon follows the name immediately. -/
  closed : Bool
deriving Repr, DecidableEq

namespace FieldDeclaration

/-- The words that say who sees a field. -/
def visibilities : List Text :=
  ["private".toList, "protected".toList, "public".toList]

/-- The text behind a word of visibility, or behind the end of any other word. -/
def behindVisibility? (before : Option Char) (s : Text) : Option Text :=
  if Text.startsWord before then visibilities.findSome? (Text.after? · s) else some s

/-- A word with blanks before it, and the text behind it. -/
def spacedWord? (s : Text) : Option (Text × Text) := do
  guard (s.head?.any Text.isBlank)
  let s := s.dropWhile Text.isBlank
  let word := s.takeWhile Text.isWord
  guard (word ≠ [])
  return (word, s.dropWhile Text.isWord)

def recognise : Recogniser FieldDeclaration := fun before s => do
  let rest ← behindVisibility? before s
  let (_, rest) ← spacedWord? rest
  let (name, rest) ← spacedWord? rest
  let closed := rest.head? = some ';'
  let rest ← Header.afterBlanks? ';' rest
  return (s.length - rest.length, ⟨name, closed⟩)

end FieldDeclaration

def Text.fieldNames (s : Text) : List Text :=
  (s.scan FieldDeclaration.recognise).filterMap fun hit =>
    if hit.value.closed then some hit.value.name else none

namespace Rule

def switchStatements : Rule where
  id := "OO_ABUSERS.SWITCH_STATEMENTS"
  name := "Switch Statements"
  category := Category.orientationAbusers.name
  order := 10
  find _ ctx := do
    if (Text.scan switchHead (← ctx.clean.searched)).isEmpty then return []
    else return ["Switch statements found. Consider using polymorphism"]

/-- Finds fields whose name occurs too rarely, their declaration included. An occurrence inside a
longer word counts as one. -/
def temporaryField : Rule where
  id := "OO_ABUSERS.TEMPORARY_FIELD"
  name := "Temporary Field"
  category := Category.orientationAbusers.name
  order := 20
  description :=
    "Detects field declarations whose identifier occurs fewer than temporary_field_min_uses times "
      ++ "in the whole source, declaration included."
  find threshold ctx := do
    let minUses ← threshold .temporaryFieldMinUses
    let s ← ctx.raw.searched
    let rare ← s.fieldNames.filterM fun name =>
      Fault.lift ((Value.nat (Text.count name s)).lt minUses)
    return rare.map fun _ => "Field is used in very few places"

end Rule

end CodeHealth
