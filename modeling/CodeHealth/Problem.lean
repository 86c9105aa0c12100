import CodeHealth.Fault
import CodeHealth.Value.Display

/-!
# Errors for a reader

A `Problem` belongs to one of three categories: a malformed request, a configuration that cannot be
used, or a failure during the analysis. A response shows its message only; the terminal shows the
suggestion and the details as well, in color where the terminal has it.

A `Failure` is whatever may end an operation. Seen from the outside each of them has a type and a
message, and `Failure.problem` turns it into the problem that a response reports.
-/

namespace CodeHealth

inductive ProblemCategory where
  | validation
  | configuration
  | internal
deriving Repr, DecidableEq

def ProblemCategory.name : ProblemCategory → String
  | .validation => "validation"
  | .configuration => "configuration"
  | .internal => "internal"

def ProblemCategory.ofName? : String → Option ProblemCategory
  | "validation" => some .validation
  | "configuration" => some .configuration
  | "internal" => some .internal
  | _ => none

structure Problem where
  category : ProblemCategory
  message : Value
  suggestion : Value := .null
  details : Option (Entries String Value) := some []
  /-- The status of a response that reports it. -/
  status : Value := .int 500

namespace Problem

def requestSuggestion : String :=
  "Send a JSON object of the form \x7b\"code\": \"<source>\"\x7d"

def codeNotText : String :=
  "Invalid input: code must be a string"

def bodyNotObject : String :=
  "Invalid input: request body must be a JSON object"

def invalidRequest (message : Value := .text codeNotText)
    (details : Option (Entries String Value) := none) : Problem :=
  ⟨.validation, message, .text requestSuggestion, details, .int 400⟩

/-- A failure during the analysis. The type of its cause is a detail, if there is a cause. -/
def internal (message : String) (cause : Option String) : Problem :=
  { category := .internal
    message := .text ("Internal server error: " ++ message)
    details := cause.map fun typeName => [("exception_type", .text typeName)] }

/-- The suggestion for a configuration that cannot be used, when there is no better one. -/
def configurationSuggestion : String :=
  "Check your configuration file syntax and values"

/-- A configuration that cannot be used. A suggestion or a file name that counts as false is as good
as absent. -/
def configuration (message : Value) (file suggestion : Value := .null)
    (details : Entries String Value := []) : Problem :=
  let details := if file.truthy then Entries.put "config_file" file details else details
  { category := .configuration
    message
    suggestion := if suggestion.truthy then suggestion else .text configurationSuggestion
    details := if details.isEmpty then none else some details }

/-- The escape sequences that color a message: for the word "Error", for the word "Suggestion", for
details, and for the end of each. -/
structure Palette where
  error : String
  suggestion : String
  detail : String
  reset : String

def Palette.terminal : Palette :=
  ⟨"\x1b[91m", "\x1b[96m", "\x1b[2m", "\x1b[0m"⟩

def Palette.plain : Palette :=
  ⟨"", "", "", ""⟩

/-- The problem on a terminal: the message, the suggestion and a line for each detail. -/
def format (p : Problem) (colors : Palette) : String :=
  let heading := colors.error ++ "Error:" ++ colors.reset ++ " " ++ p.message.display
  let advice :=
    if p.suggestion.truthy then
      [colors.suggestion ++ "Suggestion:" ++ colors.reset ++ " " ++ p.suggestion.display]
    else []
  let details := (p.details.getD []).map fun (key, value) =>
    colors.detail ++ "  " ++ key ++ ": " ++ value.display ++ colors.reset
  "\n".intercalate (heading :: advice ++ details)

end Problem

/-- Whatever may end an operation. -/
inductive Failure where
  /-- An operation met values that it has no result for. -/
  | fault (f : Fault)
  | problem (p : Problem)
  /-- An error raised by a part that the caller supplied, with its type and its message. -/
  | raised (typeName message : String)
  /-- A rule that was waited for no longer than this number of seconds. -/
  | timedOut (seconds : Double)

namespace Failure

/-- The type under which a failure is reported. -/
def typeName : Failure → String
  | .fault f => f.typeName
  | .problem p =>
    match p.category with
    | .validation => "InvalidRequestError"
    | .configuration => "ConfigurationError"
    | .internal => "InternalAnalysisError"
  | .raised typeName _ => typeName
  | .timedOut _ => "TimeoutError"

def message : Failure → String
  | .fault f => f.message
  | .problem p => p.format .plain
  | .raised _ message => message
  | .timedOut seconds => "Rule timed out after " ++ seconds.display ++ "s"

def toProblem : Failure → Problem
  | .problem p => p
  | f => .internal f.message (some f.typeName)

end Failure

instance : Coe Fault Failure := ⟨.fault⟩

/-- A result of an operation on values as one that may fail in any way. -/
def Fault.lift {α : Type} : Except Fault α → Except Failure α
  | .ok a => .ok a
  | .error f => .error (.fault f)

instance : MonadLift (Except Fault) (Except Failure) := ⟨Fault.lift⟩

end CodeHealth
