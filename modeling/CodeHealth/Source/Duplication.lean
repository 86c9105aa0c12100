import CodeHealth.Number.Double
import CodeHealth.Source.Clean

/-!
# Duplicated lines

The duplication of a text is the share of its lines that repeat another one: one minus the number of
different lines divided by the number of lines. Lines are compared as they stand, or without the
blanks around them. Blank lines count, and so does the empty line behind a final newline.
-/

namespace CodeHealth

namespace Text

def comparedLines (ignoreBlanks : Bool) (s : Text) : List Text :=
  if ignoreBlanks then s.lines.map trim else s.lines

def distinctCount (ls : List Text) : Nat :=
  ls.eraseDups.length

/-- One minus the share of different elements, in floating point arithmetic. -/
def repeatedShare (ls : List Text) : Double :=
  (Double.finite 1).sub (Double.ofQuotient (distinctCount ls) ls.length)

/-- The share of the lines that repeat another one. -/
def duplication (ignoreBlanks : Bool) (s : Text) : Double :=
  repeatedShare (s.comparedLines ignoreBlanks)

end Text

end CodeHealth
