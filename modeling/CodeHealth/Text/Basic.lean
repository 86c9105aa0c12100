import CodeHealth.Text.WordTable

/-!
# Source text and its character classes

The analyses read a text as the list of its characters, so a position is a number of characters and
never of bytes. Two classes matter to them. *Blanks* separate words: they are the characters with
the Unicode whitespace property together with the four information separators. *Word characters*
make up identifiers and keywords: letters and numbers of every script, and the underscore.

The classes are disjoint (`isWord_eq_false_of_isBlank`). A recogniser that takes a run of blanks and
then a run of word characters therefore has one way to proceed only.
-/

namespace CodeHealth

/-- A text is its characters in order. -/
abbrev Text := List Char

namespace Text

/-- The code points that separate words. -/
def blankRanges : Ranges :=
  [(0x09, 0x0D), (0x1C, 0x20), (0x85, 0x85), (0xA0, 0xA0), (0x1680, 0x1680), (0x2000, 0x200A),
   (0x2028, 0x2029), (0x202F, 0x202F), (0x205F, 0x205F), (0x3000, 0x3000)]

/-- Whether a character separates words. -/
def isBlank (c : Char) : Bool :=
  blankRanges.member c.toNat

/-- The ASCII digits, letters and the underscore. -/
def asciiWordRanges : Ranges :=
  [(0x30, 0x39), (0x41, 0x5A), (0x5F, 0x5F), (0x61, 0x7A)]

/-- Whether a code point may stand in an identifier. -/
def isWordCode (n : Nat) : Bool :=
  if n < 0x80 then asciiWordRanges.member n else WordTable.ranges.member n

/-- Whether a character may stand in an identifier. -/
def isWord (c : Char) : Bool :=
  isWordCode c.toNat

/-- No code point of a blank run is a word character. -/
theorem isWordCode_eq_false_of_mem_blankRanges :
    ∀ run ∈ blankRanges, ∀ k ∈ List.range (run.2 + 1 - run.1), isWordCode (run.1 + k) = false := by
  decide +kernel

/-- Blanks and word characters are disjoint. -/
theorem isWord_eq_false_of_isBlank {c : Char} (h : isBlank c = true) : isWord c = false := by
  obtain ⟨run, hmem, hlo, hhi⟩ := Ranges.exists_of_member h
  have hk : c.toNat - run.1 ∈ List.range (run.2 + 1 - run.1) := by
    rw [List.mem_range]
    omega
  have := isWordCode_eq_false_of_mem_blankRanges run hmem _ hk
  rwa [Nat.add_sub_cancel' hlo] at this

/-- Whether a word may start at a position, judged by the character before it. -/
def startsWord (before : Option Char) : Bool :=
  !before.any isWord

def endsWord (rest : Text) : Bool :=
  !rest.head?.any isWord

def after? : (w s : Text) → Option Text
  | [], s => some s
  | _ :: _, [] => none
  | a :: w, c :: s => if a = c then after? w s else none

/-- `after?` finds exactly the beginnings. -/
theorem after?_eq_some_iff {w s rest : Text} : after? w s = some rest ↔ s = w ++ rest := by
  induction w generalizing s with
  | nil => simp [after?, eq_comm]
  | cons a w ih =>
    cases s with
    | nil => simp [after?]
    | cons c s =>
      by_cases h : a = c
      · simp [after?, h, ih]
      · simp [after?, h, Ne.symm h]

def trim (s : Text) : Text :=
  (s.dropWhile isBlank).reverse.dropWhile isBlank |>.reverse

/-- The lines of a text. The empty text has one empty line, and a final newline opens another. -/
def lines (s : Text) : List Text :=
  s.splitOn '\n'

def unlines (ls : List Text) : Text :=
  ['\n'].intercalate ls

/-- Every line ending written as one newline: a carriage return counts as a newline, and so does a
carriage return together with the newline after it. -/
def unifyNewlines : Text → Text
  | [] => []
  | '\r' :: '\n' :: rest => '\n' :: unifyNewlines rest
  | '\r' :: rest => '\n' :: unifyNewlines rest
  | c :: rest => c :: unifyNewlines rest

end Text

end CodeHealth
