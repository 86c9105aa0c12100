import CodeHealth.Text.Search

/-!
# Literals and comments

A *lexeme* is a stretch of source text whose content is not code: a quoted literal on one line, a
comment that runs to the end of its line, or a comment between `/*` and the next `*/`. Whichever of
them starts first wins, so a comment mark inside a literal means nothing, nor does a quote inside a
comment.

In a literal a backslash takes the character after it along, whatever it is, a newline excepted. A
literal that meets a newline or the end of the text before its closing quote is none at all: its
quote is plain text. So is `/*` without a `*/` behind it.

`tokens` reads a text from left to right as plain characters and lexemes, and loses nothing
(`flatMap_text_tokens`).
-/

namespace CodeHealth

inductive LexemeKind where
  /-- Between two equal quotes, both included. -/
  | literal
  /-- From `//` up to the end of the line, which is not included. -/
  | lineComment
  /-- From `/*` to `*/`, both included. -/
  | blockComment
deriving Repr, DecidableEq

structure Lexeme where
  /-- What it is. -/
  kind : LexemeKind
  /-- All of its characters, delimiters included. -/
  text : Text
deriving Repr, DecidableEq

namespace Lexeme

/-- Whether a character opens and closes literals. -/
def isQuote (c : Char) : Bool :=
  c = '"' || c = '\x27'

/-- The rest of a literal behind its opening quote `q`, through the closing quote. -/
def literalTail? (q : Char) : Text → Option Text
  | [] => none
  | c :: rest =>
    if c = q then some [c]
    else if c = '\n' then none
    else if c = '\\' then
      match rest with
      | [] => none
      | d :: rest => if d = '\n' then none else (literalTail? q rest).map (c :: d :: ·)
    else (literalTail? q rest).map (c :: ·)

/-- The rest of a block comment behind its `/*`, through the first `*/`. -/
def blockTail? : Text → Option Text
  | [] => none
  | c :: rest =>
    if c = '*' ∧ rest.head? = some '/' then some ['*', '/']
    else (blockTail? rest).map (c :: ·)

def comment? : Text → Option Lexeme
  | '/' :: '/' :: rest => some ⟨.lineComment, '/' :: '/' :: rest.takeWhile (· != '\n')⟩
  | '/' :: '*' :: rest => (blockTail? rest).map fun t => ⟨.blockComment, '/' :: '*' :: t⟩
  | _ => none

def literal? : Text → Option Lexeme
  | [] => none
  | q :: rest =>
    if isQuote q then (literalTail? q rest).map fun t => ⟨.literal, q :: t⟩ else none

def begins? (s : Text) : Option Lexeme :=
  literal? s <|> comment? s

theorem exists_append_of_literalTail? {q : Char} {s t : Text} (h : literalTail? q s = some t) :
    ∃ rest, s = t ++ rest := by
  fun_induction literalTail? q s generalizing t with
  | case2 rest =>
    obtain rfl := Option.some.inj h
    exact ⟨rest, rfl⟩
  | case6 d rest _ _ _ ih =>
    obtain ⟨u, hu, rfl⟩ := Option.map_eq_some_iff.mp h
    obtain ⟨more, rfl⟩ := ih hu
    exact ⟨more, rfl⟩
  | case7 c rest _ _ _ ih =>
    obtain ⟨u, hu, rfl⟩ := Option.map_eq_some_iff.mp h
    obtain ⟨more, rfl⟩ := ih hu
    exact ⟨more, rfl⟩
  | _ => contradiction

theorem exists_append_of_blockTail? {s t : Text} (h : blockTail? s = some t) :
    ∃ rest, s = t ++ rest := by
  fun_induction blockTail? s generalizing t with
  | case1 => contradiction
  | case2 c rest hc =>
    obtain ⟨rfl, hrest⟩ := hc
    obtain rfl := Option.some.inj h
    cases rest with
    | nil => simp at hrest
    | cons d more =>
      obtain rfl : d = '/' := by simpa using hrest
      exact ⟨more, rfl⟩
  | case3 c rest _ ih =>
    obtain ⟨u, hu, rfl⟩ := Option.map_eq_some_iff.mp h
    obtain ⟨more, rfl⟩ := ih hu
    exact ⟨more, rfl⟩

theorem exists_append_of_comment? {s : Text} {l : Lexeme} (h : comment? s = some l) :
    l.text ≠ [] ∧ ∃ rest, s = l.text ++ rest := by
  unfold comment? at h
  split at h
  · rename_i rest
    obtain rfl := Option.some.inj h
    exact ⟨List.cons_ne_nil _ _, rest.dropWhile (· != '\n'), by simp⟩
  · obtain ⟨t, ht, rfl⟩ := Option.map_eq_some_iff.mp h
    obtain ⟨more, rfl⟩ := exists_append_of_blockTail? ht
    exact ⟨List.cons_ne_nil _ _, more, rfl⟩
  · contradiction

theorem exists_append_of_literal? {s : Text} {l : Lexeme} (h : literal? s = some l) :
    l.text ≠ [] ∧ ∃ rest, s = l.text ++ rest := by
  unfold literal? at h
  split at h
  · contradiction
  · split at h
    · obtain ⟨t, ht, rfl⟩ := Option.map_eq_some_iff.mp h
      obtain ⟨more, rfl⟩ := exists_append_of_literalTail? ht
      exact ⟨List.cons_ne_nil _ _, more, rfl⟩
    · contradiction

/-- A lexeme is made of the characters that the text begins with, and of at least one. -/
theorem exists_append_of_begins? {s : Text} {l : Lexeme} (h : begins? s = some l) :
    l.text ≠ [] ∧ ∃ rest, s = l.text ++ rest := by
  unfold begins? at h
  cases hl : literal? s with
  | some l' =>
    obtain rfl : l' = l := by simpa [hl] using h
    exact exists_append_of_literal? hl
  | none => exact exists_append_of_comment? (by simpa [hl] using h)

end Lexeme

/-- One piece of source text: a character of code, or a lexeme. -/
inductive Token where
  /-- A character of code. -/
  | code (c : Char)
  /-- A literal or a comment. -/
  | lexeme (l : Lexeme)
deriving Repr, DecidableEq

namespace Token

def text : Token → Text
  | .code c => [c]
  | .lexeme l => l.text

@[simp] theorem text_code (c : Char) : (code c).text = [c] := rfl
@[simp] theorem text_lexeme (l : Lexeme) : (lexeme l).text = l.text := rfl

/-- The tokens from a position on. The first argument is the number of characters that still belong
to the last lexeme. -/
def ofTextFrom : Nat → Text → List Token
  | _, [] => []
  | owned + 1, _ :: rest => ofTextFrom owned rest
  | 0, c :: rest =>
    match Lexeme.begins? (c :: rest) with
    | some l => .lexeme l :: ofTextFrom (l.text.length - 1) rest
    | none => .code c :: ofTextFrom 0 rest

theorem flatMap_text_ofTextFrom (owned : Nat) (s : Text) :
    (ofTextFrom owned s).flatMap text = s.drop owned := by
  fun_induction ofTextFrom owned s with
  | case1 => simp
  | case2 _ _ _ ih => simpa using ih
  | case3 c rest l hl ih =>
    obtain ⟨hne, more, hmore⟩ := Lexeme.exists_append_of_begins? hl
    obtain ⟨d, t, ht⟩ := List.exists_cons_of_ne_nil hne
    rw [ht, List.cons_append] at hmore
    obtain ⟨rfl, rfl⟩ := List.cons.inj hmore
    simp only [ht, List.length_cons, Nat.add_sub_cancel, List.drop_left] at ih
    simp [ht, ih]
  | case4 c rest _ ih => simpa using ih

end Token

namespace Text

/-- A source text as code characters, literals and comments, from left to right. -/
def tokens (s : Text) : List Token :=
  Token.ofTextFrom 0 s

/-- The tokens of a text hold all of its characters, in order. -/
theorem flatMap_text_tokens (s : Text) : s.tokens.flatMap Token.text = s := by
  simpa [tokens] using Token.flatMap_text_ofTextFrom 0 s

def commentCount (s : Text) : Nat :=
  (scan (fun _ rest => (Lexeme.comment? rest).map fun l => (l.text.length, l)) s).length

end Text

end CodeHealth
