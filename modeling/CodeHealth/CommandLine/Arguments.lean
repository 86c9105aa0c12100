import CodeHealth.Entries

/-!
# Words of a command line

A word that begins with two dashes is an option by its long name, possibly with a value behind an
equality sign. One dash begins a row of options by their short names. An option that needs a value
takes the rest of its word or else the next word, whatever that is. The word `--` ends the options,
and a single dash is no option.

Words that are no options are *operands*. They may stand among the options, unless a command follows
the first of them: then everything from there on is left to that command.
-/

namespace CodeHealth

structure OptionSpec where
  names : List String
  hasValue : Bool := false
deriving Repr, DecidableEq

structure Arguments where
  /-- The options in order, by the first of their names, with their values. -/
  options : Entries String String := []
  operands : List String := []
deriving Repr, DecidableEq

namespace Arguments

def addOption (name value : String) (a : Arguments) : Arguments :=
  { a with options := (name, value) :: a.options }

def addOperand (word : String) (a : Arguments) : Arguments :=
  { a with operands := word :: a.operands }

def spec? (specs : List OptionSpec) (name : String) : Option (String × Bool) := do
  let spec ← specs.find? (name ∈ ·.names)
  return (← spec.names.head?, spec.hasValue)

inductive Word where
  | endOfOptions
  /-- A long name, and the value behind the equality sign. -/
  | long (name : String) (value : Option String)
  | short (letters : List Char)
  | operand
deriving Repr, DecidableEq

/-- The kind of a word. -/
def Word.ofString (word : String) : Word :=
  match word.toList with
  | ['-', '-'] => .endOfOptions
  | '-' :: '-' :: rest =>
    let name := String.ofList ('-' :: '-' :: rest.takeWhile (· ≠ '='))
    match rest.dropWhile (· ≠ '=') with
    | [] => .long name none
    | _ :: value => .long name (some (String.ofList value))
  | '-' :: c :: rest => .short (c :: rest)
  | _ => .operand

/-- The options in a row of short names. The last of them may be left waiting for its value, which
is the next word. -/
def shortOptions (specs : List OptionSpec) :
    List Char → Option (Entries String String × Option String)
  | [] => some ([], none)
  | c :: rest => do
    let (name, hasValue) ← spec? specs (String.ofList ['-', c])
    if hasValue then
      if rest.isEmpty then return ([], some name)
      else return ([(name, String.ofList rest)], none)
    else
      let (options, waiting) ← shortOptions specs rest
      return ((name, "") :: options, waiting)

/-- Reads words. The first argument is the option that the next word is the value of. There is no
result if an option is unknown, lacks its value or has one that it does not take. -/
def read? (specs : List OptionSpec) (mixed : Bool) :
    (waiting : Option String) → List String → Option Arguments
  | none, [] => some {}
  | some _, [] => none
  | some name, word :: rest => (read? specs mixed none rest).map (addOption name word)
  | none, word :: rest =>
    match Word.ofString word with
    | .endOfOptions => some { operands := rest }
    | .operand =>
      if mixed then (read? specs mixed none rest).map (addOperand word)
      else some { operands := word :: rest }
    | .long name value =>
      match spec? specs name, value with
      | some (name, true), some value => (read? specs mixed none rest).map (addOption name value)
      | some (name, true), none => read? specs mixed (some name) rest
      | some (name, false), none => (read? specs mixed none rest).map (addOption name "")
      | _, _ => none
    | .short letters =>
      match shortOptions specs letters with
      | none => none
      | some (options, waiting) =>
        (read? specs mixed waiting rest).map fun a => { a with options := options ++ a.options }

def ofWords? (specs : List OptionSpec) (mixed : Bool) (words : List String) : Option Arguments :=
  read? specs mixed none words

def has (a : Arguments) (name : String) : Bool :=
  a.options.has name

def value? (a : Arguments) (name : String) : Option String :=
  Entries.get? name a.options.reverse

end Arguments

end CodeHealth
