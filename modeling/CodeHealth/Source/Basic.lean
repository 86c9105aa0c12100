import CodeHealth.Fault
import CodeHealth.Source.Clean

/-!
# What is handed in for analysis

A request may carry anything in place of a source text. The analyses are asked all the same, and
each of them decides what it makes of something that is not a text: its clean copy is empty, and to
search it or to take its lines is a fault.
-/

namespace CodeHealth

/-- What is handed in for analysis: a text, or something else that no analysis can read. -/
inductive Source where
  | text (s : Text)
  | notText
deriving Repr, DecidableEq

namespace Source

def ofValue : Value → Source
  | .text s => .text s.toList
  | _ => .notText

def clean : Source → Text
  | .text s => s.clean
  | .notText => []

@[simp] theorem clean_text (s : Text) : (text s).clean = s.clean := rfl
@[simp] theorem clean_notText : notText.clean = [] := rfl

/-- The text of a source, for searching. -/
def searched : Source → Except Fault Text
  | .text s => .ok s
  | .notText => .error .notText

def lines : Source → Except Fault (List Text)
  | .text s => .ok s.lines
  | .notText => .error .notSplittable

@[simp] theorem searched_text (s : Text) : (text s).searched = .ok s := rfl
@[simp] theorem lines_text (s : Text) : (text s).lines = .ok s.lines := rfl

end Source

end CodeHealth
