import CodeHealth.Source.Lexeme

/-!
# Blanking out what is not code

Keywords and operators are looked for in a *clean* copy of the source, where every lexeme has been
replaced by as little as keeps its surroundings apart. A literal and a comment on one line become a
single space, so that the code before and the code behind do not grow together. A block comment over
several lines becomes its newlines, so that lines stay where they are. A line comment vanishes: the
newline behind it is not part of it and keeps the lines apart.
-/

namespace CodeHealth

namespace Lexeme

/-- What stands in the clean copy in place of a lexeme. -/
def blanked (l : Lexeme) : Text :=
  match l.kind with
  | .lineComment => []
  | .literal | .blockComment =>
    let newlines := l.text.filter (· = '\n')
    if newlines.isEmpty then [' '] else newlines

end Lexeme

namespace Token

/-- What stands in the clean copy in place of a token. -/
def cleaned : Token → Text
  | .code c => [c]
  | .lexeme l => l.blanked

@[simp] theorem cleaned_code (c : Char) : (code c).cleaned = [c] := rfl
@[simp] theorem cleaned_lexeme (l : Lexeme) : (lexeme l).cleaned = l.blanked := rfl

end Token

namespace Text

/-- The clean copy of a source text. -/
def clean (s : Text) : Text :=
  s.tokens.flatMap Token.cleaned

@[simp] theorem clean_nil : clean [] = [] := rfl

end Text

end CodeHealth
