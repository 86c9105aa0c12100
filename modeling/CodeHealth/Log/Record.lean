import CodeHealth.Json.Printer
import CodeHealth.Log.Message

/-!
# Log records and their formats

A record is shown in one of three formats: as a JSON object, as a short line for a terminal, or as a
detailed line for a file. The JSON object has the additional fields of the record that are about
analyses; others are left out. An error that is attached to a record follows on lines of its own in
the two text formats.

The time of a record is handed in as the text that is to be shown.
-/

namespace CodeHealth

inductive Level where
  | notSet
  | debug
  | info
  | warning
  | error
  | critical
deriving Repr, DecidableEq

namespace Level

def name : Level → String
  | .notSet => "NOTSET"
  | .debug => "DEBUG"
  | .info => "INFO"
  | .warning => "WARNING"
  | .error => "ERROR"
  | .critical => "CRITICAL"

/-- The level of a name. Two levels have a second name. -/
def ofName? : String → Option Level
  | "NOTSET" => some .notSet
  | "DEBUG" => some .debug
  | "INFO" => some .info
  | "WARNING" | "WARN" => some .warning
  | "ERROR" => some .error
  | "CRITICAL" | "FATAL" => some .critical
  | _ => none

def severity : Level → Int
  | .notSet => 0
  | .debug => 10
  | .info => 20
  | .warning => 30
  | .error => 40
  | .critical => 50

end Level

structure LogRecord where
  logger : Value := .text "debt_analyzer.service"
  level : Level := .info
  /-- The path of the file that it comes from. -/
  file : Value := .text "service.py"
  line : Value := .int 1
  function : Value := .text "run"
  message : Value
  arguments : List Value := []
  fields : Entries String Value := []
  /-- The type and the message of an attached error. -/
  error : Option (String × String) := none

namespace LogRecord

/-- A name without what begins with its last point. Points at its beginning do not count. -/
def withoutExtension (name : Text) : Text :=
  let points := name.takeWhile (· = '.')
  let rest := name.dropWhile (· = '.')
  let upToPoint := (rest.reverse.dropWhile (· ≠ '.')).reverse
  if upToPoint.isEmpty then name else points ++ upToPoint.dropLast

/-- The module that a record comes from: the name of the file, without directories and extension. It
is unknown if the path is not a text. -/
def module (r : LogRecord) : String :=
  match r.file with
  | .text path => String.ofList (withoutExtension (((path.toList.splitOn '/').getLast?).getD []))
  | _ => "Unknown module"

def errorText (error : String × String) : String :=
  let (typeName, message) := error
  if message.isEmpty then typeName else typeName ++ ": " ++ message

/-- The names of the additional fields that a JSON object shows, in order. -/
def shownFields : List String :=
  ["duration_ms", "operation", "rule_id", "input_length"]

def toJson (time : String) (r : LogRecord) : Except Fault String := do
  let message ← Message.format r.message r.arguments
  let fields := shownFields.filterMap fun name =>
    (Entries.get? name r.fields).map fun v => (name, v)
  let error := r.error.toList.map fun e => ("exception", Value.text (errorText e))
  let object := Value.object <|
    [("timestamp", .text time), ("level", .text r.level.name), ("logger", r.logger),
     ("module", .text r.module), ("function", r.function), ("line", r.line),
     ("message", .text message)] ++ fields ++ error
  return object.toJson .compact

def withError (r : LogRecord) (line : String) : String :=
  match r.error with
  | none => line
  | some e =>
    (if line.toList.getLast? = some '\n' then line else line ++ "\n") ++ errorText e

def toShort (r : LogRecord) : Except Fault String := do
  let message ← Message.format r.message r.arguments
  return r.withError (r.level.name ++ " | " ++ message)

def toDetailed (time : String) (r : LogRecord) : Except Fault String := do
  let message ← Message.format r.message r.arguments
  let level := r.level.name ++ String.ofList (List.replicate (8 - r.level.name.length) ' ')
  let line ← Message.Layout.render {} r.line .whole
  return r.withError <|
    time ++ " | " ++ level ++ " | " ++ r.logger.display ++ ":" ++ r.function.display ++ ":"
      ++ String.ofList line ++ " - " ++ message

end LogRecord

end CodeHealth
