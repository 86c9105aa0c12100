import CodeHealth.Number.Numeral
import CodeHealth.Text.Basic

/-!
# Places for arguments in a message

A message is a row of pieces: characters that stand for themselves and directives, the places for
arguments. A directive begins with a percent sign and ends with a letter that says how the argument
is shown. Between them may stand, in this order, the name of the argument in parentheses, flags, a
width, a point with a precision, and a size letter that means nothing. Two percent signs in a row
stand for one.

A name may itself hold parentheses, as long as they are balanced. A width and a precision are either
written in digits or, as an asterisk, taken from the arguments.

A name together with its closing parenthesis and the text behind it is the text that was read
(`eq_of_upToClosing`). A directive leaves no more text than there was (`Directive.length_read_le`),
so that a message has finitely many pieces.
-/

namespace CodeHealth

namespace Message

/-- What the flags of a directive ask for. -/
structure Flags where
  /-- The argument stands on the left of its place. -/
  left : Bool := false
  /-- The place is filled with zeros. -/
  zeros : Bool := false
  /-- A plus sign stands before a number that is not negative. -/
  plus : Bool := false
  /-- A blank stands before a number that is not negative. -/
  blank : Bool := false
  /-- Bases are marked, and points are kept. -/
  alternate : Bool := false
deriving DecidableEq, Repr

namespace Flags

def ofText (s : Text) : Flags :=
  { left := '-' ∈ s, zeros := '0' ∈ s, plus := '+' ∈ s, blank := ' ' ∈ s, alternate := '#' ∈ s }

def isFlag (c : Char) : Bool :=
  c ∈ ['-', '0', '+', ' ', '#']

end Flags

/-- A width or a precision in a directive. -/
inductive Extent where
  /-- A number in digits. -/
  | number (n : Nat)
  /-- The next argument. -/
  | argument
deriving DecidableEq, Repr

/-- A place for an argument. -/
structure Directive where
  /-- The name of the argument. -/
  name? : Option String := none
  /-- The flags. -/
  flags : Flags := {}
  /-- The least number of characters. -/
  width? : Option Extent := none
  /-- The number of digits, or the greatest number of characters of a text. -/
  precision? : Option Extent := none
  /-- The letter, which is missing where the text ends before it. -/
  letter? : Option Char := none
deriving DecidableEq, Repr

/-- A piece of a message. -/
inductive Piece where
  /-- A character that stands for itself. -/
  | literal (c : Char)
  /-- A place for an argument. -/
  | directive (d : Directive)
  /-- A name without its closing parenthesis; there is no piece behind it. -/
  | unclosed
deriving DecidableEq, Repr

/-! ### Reading -/

/-- The text up to the closing parenthesis that belongs to `depth + 1` opening ones before it, and
the text behind that parenthesis. -/
def upToClosing (depth : Nat) : Text → Option (Text × Text)
  | [] => none
  | c :: s =>
    if c = ')' then
      match depth with
      | 0 => some ([], s)
      | depth + 1 => (upToClosing depth s).map fun (name, rest) => (c :: name, rest)
    else
      (upToClosing (if c = '(' then depth + 1 else depth) s).map fun (name, rest) =>
        (c :: name, rest)

/-- The name, its closing parenthesis and the rest make up the text. -/
theorem eq_of_upToClosing {s name rest : Text} {depth : Nat}
    (h : upToClosing depth s = some (name, rest)) : s = name ++ ')' :: rest := by
  induction s generalizing depth name with
  | nil => simp [upToClosing] at h
  | cons c s ih =>
    unfold upToClosing at h
    split at h
    · rename_i hc
      subst hc
      cases depth with
      | zero =>
        obtain ⟨rfl, rfl⟩ : [] = name ∧ s = rest := by simpa using h
        rfl
      | succ depth =>
        obtain ⟨⟨inner, _⟩, hin, heq⟩ := Option.map_eq_some_iff.mp h
        obtain ⟨rfl, rfl⟩ := Prod.mk.inj heq
        rw [ih hin]
        rfl
    · obtain ⟨⟨inner, _⟩, hin, heq⟩ := Option.map_eq_some_iff.mp h
      obtain ⟨rfl, rfl⟩ := Prod.mk.inj heq
      rw [ih hin]
      rfl

/-- A width or a precision at the beginning of a text, and the text behind it. -/
def Extent.read : Text → Option Extent × Text
  | '*' :: s => (some .argument, s)
  | s =>
    match s.takeWhile isDecimalDigit with
    | [] => (none, s)
    | ds => (some (.number (digitsValue ds)), s.dropWhile isDecimalDigit)

/-- A point with a precision at the beginning of a text, and the text behind it. A point alone asks
for the precision zero. -/
def Extent.readPrecision : Text → Option Extent × Text
  | '.' :: s => ((Extent.read s).1.getD (.number 0), (Extent.read s).2)
  | s => (none, s)

/-- The text behind a size letter, if there is one. -/
def afterSize : Text → Text
  | c :: s => if c ∈ ['h', 'l', 'L'] then s else c :: s
  | [] => []

/-- The directive behind a percent sign and a name, and the text behind it. -/
def Directive.readNamed (name? : Option String) (s : Text) : Directive × Text :=
  let flags := Flags.ofText (s.takeWhile Flags.isFlag)
  let (width?, s) := Extent.read (s.dropWhile Flags.isFlag)
  let (precision?, s) := Extent.readPrecision s
  let s := afterSize s
  ({ name?, flags, width?, precision?, letter? := s.head? }, s.tail)

/-- The directive behind a percent sign, and the text behind it, unless the name of its argument is
not closed. -/
def Directive.read : Text → Option (Directive × Text)
  | '(' :: s =>
    (upToClosing 0 s).map fun (name, rest) => readNamed (some (String.ofList name)) rest
  | s => some (readNamed none s)

theorem Extent.length_read_le (s : Text) : (Extent.read s).2.length ≤ s.length := by
  unfold Extent.read
  split
  · simp
  · split
    · exact Nat.le_refl _
    · exact (List.dropWhile_suffix _).length_le

theorem Extent.length_readPrecision_le (s : Text) : (readPrecision s).2.length ≤ s.length := by
  unfold readPrecision
  split
  · exact Nat.le_succ_of_le (length_read_le _)
  · exact Nat.le_refl _

theorem length_afterSize_le (s : Text) : (afterSize s).length ≤ s.length := by
  unfold afterSize
  split
  · split <;> simp
  · exact Nat.le_refl _

/-- A directive leaves no more text than there was behind its percent sign. -/
theorem Directive.length_readNamed_le (name? : Option String) (s : Text) :
    (readNamed name? s).2.length ≤ s.length := by
  have flags := (List.dropWhile_suffix Flags.isFlag (l := s)).length_le
  have width := Extent.length_read_le (s.dropWhile Flags.isFlag)
  have precision := Extent.length_readPrecision_le (Extent.read (s.dropWhile Flags.isFlag)).2
  have size := length_afterSize_le
    (Extent.readPrecision (Extent.read (s.dropWhile Flags.isFlag)).2).2
  simp only [readNamed, List.length_tail]
  omega

theorem Directive.length_read_le {s rest : Text} {d : Directive} (h : read s = some (d, rest)) :
    rest.length ≤ s.length := by
  unfold read at h
  split at h
  · obtain ⟨⟨name, after⟩, hclose, heq⟩ := Option.map_eq_some_iff.mp h
    have hafter : (readNamed (some (String.ofList name)) after).2 = rest := congrArg Prod.snd heq
    have := length_readNamed_le (some (String.ofList name)) after
    rw [hafter] at this
    rw [eq_of_upToClosing hclose]
    simp only [List.length_cons, List.length_append]
    omega
  · have hrest : (readNamed none s).2 = rest := congrArg Prod.snd (Option.some.inj h)
    exact hrest ▸ length_readNamed_le none s

/-- The pieces of a message. -/
def pieces : Text → List Piece
  | [] => []
  | '%' :: '%' :: s => .literal '%' :: pieces s
  | '%' :: s =>
    match h : Directive.read s with
    | some (d, rest) =>
      have : rest.length ≤ s.length := Directive.length_read_le h
      .directive d :: pieces rest
    | none => [.unclosed]
  | c :: s => .literal c :: pieces s
termination_by s => s.length

end Message

end CodeHealth
