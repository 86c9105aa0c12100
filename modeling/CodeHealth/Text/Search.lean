import CodeHealth.Text.Basic

/-!
# Leftmost matches that do not overlap

A `Recogniser` is asked at one position: it sees the character before that position and the text
from there on, and answers how many characters it takes and what it found. `scan` asks it at every
position from left to right. After a match it goes on behind the characters taken, so matches never
overlap, and a position inside a match is never asked.

The scan walks the text once and counts down the characters that the last match still owns. Its
recursion is therefore on the text itself, and statements about it are proved by induction on the
text with that counter generalised.
-/

namespace CodeHealth

/-- Looks for something that begins at one position. The answer holds the number of characters it
takes, which is positive, and what was found. -/
abbrev Recogniser (α : Type) := (before : Option Char) → Text → Option (Nat × α)

/-- One match: where it starts, how many characters it takes, and what it found. -/
structure Hit (α : Type) where
  start : Nat
  size : Nat
  value : α
deriving Repr, DecidableEq

namespace Text

variable {α : Type}

/-- The matches from a position on. The first argument is the number of characters that still belong
to an earlier match, the second the character before the position, the third its offset. -/
def scanFrom (m : Recogniser α) : Nat → Option Char → Nat → Text → List (Hit α)
  | _, _, _, [] => []
  | owned + 1, _, at_, c :: rest => scanFrom m owned (some c) (at_ + 1) rest
  | 0, before, at_, c :: rest =>
    match m before (c :: rest) with
    | some (size, value) => ⟨at_, size, value⟩ :: scanFrom m (size - 1) (some c) (at_ + 1) rest
    | none => scanFrom m 0 (some c) (at_ + 1) rest

/-- The leftmost matches of a recogniser that do not overlap, in order. -/
def scan (m : Recogniser α) (s : Text) : List (Hit α) :=
  scanFrom m 0 none 0 s

@[simp] theorem scan_nil (m : Recogniser α) : scan m [] = [] := rfl

def exactly (w : Text) : Recogniser Unit := fun _ s =>
  (after? w s).map fun _ => (w.length, ())

/-- Recognises a fixed word that is not part of a longer one. -/
def wholeWord (w : Text) : Recogniser Unit := fun before s =>
  if startsWord before then
    match after? w s with
    | some rest => if endsWord rest then some (w.length, ()) else none
    | none => none
  else none

/-- The number of occurrences of `w` that do not overlap, counted from the left. -/
def count (w s : Text) : Nat :=
  (scan (exactly w) s).length

/-- The number of offsets at which `w` occurs, overlapping or not. The empty text occurs at every
offset, the end included. -/
def offsetCount (w : Text) : Text → Nat
  | [] => if w = [] then 1 else 0
  | c :: rest => (if w.isPrefixOf (c :: rest) then 1 else 0) + offsetCount w rest

/-- Whether `w` occurs in `s` at two different offsets at least. -/
def recurs (w s : Text) : Bool :=
  2 ≤ offsetCount w s

end Text

end CodeHealth
