import CodeHealth.Source.Lexeme

/-!
# Methods and classes

A block begins with a header. The header of a method is the word `function` or `def`, blanks, a
name, parameters in parentheses and an opening brace; that of a class is the word `class`, blanks, a
name and an opening brace. Blanks may stand before a parenthesis or a brace. Nothing else is known
about the language, so where a block ends is a matter of convention, and there are two of them.

The *first-brace* scanner ends a block at the first closing brace behind its header, whatever stands
between, and goes on behind the block. A header without a closing brace behind it is no block.

The *balanced* scanner ends a block at the brace that closes the one of its header. Braces in
literals and comments do not count. It goes on right behind the header, so blocks inside a block are
found as well; a block that is never closed is left out.
-/

namespace CodeHealth

inductive BlockKind where
  | method
  | classBlock
deriving Repr, DecidableEq

def BlockKind.name : BlockKind → String
  | .method => "method"
  | .classBlock => "class"

structure Block where
  /-- Whether it is a method or a class. -/
  kind : BlockKind
  name : Text
  /-- All of its text, from the first word of the header to the closing brace. -/
  text : Text
  /-- The text between the parentheses of the header. -/
  parameters : Text
  start : Nat
deriving Repr, DecidableEq

namespace Block

def lineCount (b : Block) : Nat :=
  b.text.lines.length

/-- The number of pieces that commas cut the parameters into. Empty parameters are one piece. -/
def parameterCount (b : Block) : Nat :=
  (b.parameters.splitOn ',').length

end Block

structure Header where
  name : Text
  parameters : Text
  rest : Text
deriving Repr, DecidableEq

namespace Header

/-- Removes blanks and then a given character. -/
def afterBlanks? (c : Char) (s : Text) : Option Text :=
  Text.after? [c] (s.dropWhile Text.isBlank)

/-- The name behind a keyword, and the text behind it. At least one blank stands between. -/
def name? (s : Text) : Option (Text × Text) := do
  guard (s.head?.any Text.isBlank)
  let s := s.dropWhile Text.isBlank
  let name := s.takeWhile Text.isWord
  guard (name ≠ [])
  return (name, s.dropWhile Text.isWord)

def ofMethod? (s : Text) : Option Header := do
  let s ← Text.after? "function".toList s <|> Text.after? "def".toList s
  let (name, s) ← name? s
  let s ← afterBlanks? '(' s
  let parameters := s.takeWhile (· != ')')
  let s ← Text.after? [')'] (s.dropWhile (· != ')'))
  let s ← afterBlanks? '\x7b' s
  return ⟨name, parameters, s⟩

def ofClass? (s : Text) : Option Header := do
  let s ← Text.after? "class".toList s
  let (name, s) ← name? s
  let s ← afterBlanks? '\x7b' s
  return ⟨name, [], s⟩

def begins? : BlockKind → Text → Option Header
  | .method => ofMethod?
  | .classBlock => ofClass?

def recognise (kind : BlockKind) : Recogniser Header := fun before s => do
  guard (Text.startsWord before)
  let header ← begins? kind s
  return (s.length - header.rest.length, header)

end Header

/-- The two conventions about the end of a block. -/
inductive Scanner where
  | firstBrace
  /-- At the closing brace that belongs to the opening one. -/
  | balanced
deriving Repr, DecidableEq

namespace Scanner

def name : Scanner → String
  | .firstBrace => "regex"
  | .balanced => "brace"

/-- All scanners, in the order of their names. -/
def all : List Scanner :=
  [.balanced, .firstBrace]

def ofName? (name : String) : Option Scanner :=
  all.find? (·.name = name)

/-- Recognises a block that ends at the first closing brace behind its header. -/
def firstBraceBlock (kind : BlockKind) : Recogniser Header := fun before s => do
  let (size, header) ← Header.recognise kind before s
  let body := header.rest.takeWhile (· != '\x7d')
  guard (body.length < header.rest.length)
  return (size + body.length + 1, header)

/-- The number of characters up to the brace that brings the nesting down to zero, that brace
included, from inside `depth` open braces. -/
def closing? (depth : Nat) : List Token → Option Nat
  | [] => none
  | .code '\x7b' :: rest => (closing? (depth + 1) rest).map (· + 1)
  | .code '\x7d' :: rest => if depth ≤ 1 then some 1 else (closing? (depth - 1) rest).map (· + 1)
  | t :: rest => (closing? depth rest).map (· + t.text.length)

/-- The length of the block that begins with an opening brace, through the brace that closes it. -/
def balancedLength? (s : Text) : Option Nat :=
  closing? 0 s.tokens

/-- The blocks of a kind in a text, from left to right. -/
def blocks (scanner : Scanner) (kind : BlockKind) (s : Text) : List Block :=
  match scanner with
  | .firstBrace =>
    (Text.scan (firstBraceBlock kind) s).map fun hit =>
      ⟨kind, hit.value.name, (s.drop hit.start).take hit.size, hit.value.parameters, hit.start⟩
  | .balanced =>
    (Text.scan (Header.recognise kind) s).filterMap fun hit =>
      (balancedLength? ('\x7b' :: hit.value.rest)).map fun size =>
        ⟨kind, hit.value.name, (s.drop hit.start).take (hit.size - 1 + size),
          hit.value.parameters, hit.start⟩

end Scanner

end CodeHealth
