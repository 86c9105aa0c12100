import CodeHealth.Entries
import CodeHealth.Source.Clean

/-!
# Decision points and complexity

Complexity is estimated without a control-flow graph: every decision token of the clean text adds
one to a base of one. Tokens are found from left to right without overlap. At a position `else if`
is tried before the plain words, so that its `if` is counted once, under the pair.

The words count only where they stand alone. The marks `?`, `&&` and `||` count wherever they stand,
and a run of three `&` holds one `&&`.
-/

namespace CodeHealth

/-- The tokens that count as decision points. -/
inductive Decision where
  | elseIf
  | ifWord
  | whileWord
  | forWord
  | caseWord
  | catchWord
  | returnWord
  | ternary
  | and
  | or
deriving Repr, DecidableEq

namespace Decision

/-- The name under which a decision point is counted. -/
def label : Decision → String
  | .elseIf => "else if"
  | .ifWord => "if"
  | .whileWord => "while"
  | .forWord => "for"
  | .caseWord => "case"
  | .catchWord => "catch"
  | .returnWord => "return"
  | .ternary => "ternary"
  | .and => "&&"
  | .or => "||"

def words : List (Decision × Text) :=
  [(.ifWord, "if".toList), (.whileWord, "while".toList), (.forWord, "for".toList),
   (.caseWord, "case".toList), (.catchWord, "catch".toList), (.returnWord, "return".toList)]

def marks : List (Decision × Text) :=
  [(.ternary, "?".toList), (.and, "&&".toList), (.or, "||".toList)]

/-- Recognises `else`, blanks and `if` as whole words. -/
def elseIf? : Recogniser Decision := fun before s => do
  guard (Text.startsWord before)
  let rest ← Text.after? "else".toList s
  let gap := rest.takeWhile Text.isBlank
  guard (gap ≠ [])
  let rest ← Text.after? "if".toList (rest.dropWhile Text.isBlank)
  guard (Text.endsWord rest)
  return ("else".length + gap.length + "if".length, .elseIf)

def begins? : Recogniser Decision := fun before s =>
  elseIf? before s
    <|> words.findSome? (fun (d, w) => (Text.wholeWord w before s).map fun (size, _) => (size, d))
    <|> marks.findSome? (fun (d, w) => (Text.exactly w before s).map fun (size, _) => (size, d))

end Decision

namespace Text

/-- The decision points of a text, from left to right. -/
def decisions (s : Text) : List Decision :=
  (scan Decision.begins? s).map Hit.value

/-- How often each decision point comes, in the order of first occurrence. -/
def decisionCounts (s : Text) : Entries Decision Nat :=
  Entries.tally s.decisions

/-- The complexity of a clean text: one more than its decision points. -/
def complexity (s : Text) : Nat :=
  1 + s.decisionCounts.total

end Text

end CodeHealth
