import CodeHealth.Log.Record

/-!
# Where records go

Records go to the terminal and, if asked for, to a file. The file gets all records from the level of
debugging on. The terminal gets those from its own level on: errors only where it should be quiet,
everything where it should be verbose, and otherwise as told. Quiet wins over verbose. One choice of
format holds for both.

A level is told by its name or as a number, which may lie between two levels or beyond them all.
Null lets every record pass.

A record whose message cannot be put together is left out.
-/

namespace CodeHealth

inductive LogFormat where
  | json
  | short
  | detailed
deriving Repr, DecidableEq

def LogRecord.format (time : String) (r : LogRecord) : LogFormat → Except Fault String
  | .json => r.toJson time
  | .short => r.toShort
  | .detailed => r.toDetailed time

structure LogLimit where
  /-- How severe a record has to be. -/
  severity : Int
  name : String
deriving Repr, DecidableEq

namespace LogLimit

def ofLevel (level : Level) : LogLimit :=
  ⟨level.severity, level.name⟩

/-- The limit at a number, which is named by what is written for it if no level has it. -/
def ofSeverity (severity : Int) (written : String) : LogLimit :=
  let levels : List Level := [.notSet, .debug, .info, .warning, .error, .critical]
  match levels.find? (·.severity = severity) with
  | some level => ofLevel level
  | none => ⟨severity, "Level " ++ written⟩

def ofValue : Value → Except Fault LogLimit
  | .null => .ok (ofLevel .notSet)
  | .text name =>
    match Level.ofName? name with
    | some level => .ok (ofLevel level)
    | none => .error .inadmissible
  | .bool b => .ok (ofSeverity (if b then 1 else 0) (Value.bool b).display)
  | .int n => .ok (ofSeverity n (Value.int n).display)
  | _ => .error .inadmissible

end LogLimit

structure LogHandler where
  level : LogLimit
  /-- The format in which it shows records. -/
  format : LogFormat
deriving Repr, DecidableEq

namespace LogHandler

/-- What a receiver shows of records, a line break behind each. -/
def output (h : LogHandler) (time : String) (records : List LogRecord) : String :=
  String.join <| records.filterMap fun r =>
    if h.level.severity ≤ r.level.severity then
      (r.format time h.format).toOption.map (· ++ "\n")
    else none

end LogHandler

structure LogSetup where
  console : LogHandler
  file : Option LogHandler
deriving Repr, DecidableEq

namespace LogSetup

def loggerName : String := "debt_analyzer"

def consoleLevel (level : Value) (quiet verbose : Bool) : Value :=
  if quiet then .text Level.error.name else if verbose then .text Level.debug.name else level

def create (level : Value) (quiet verbose json withFile : Bool) : Except Fault LogSetup := do
  let level ← LogLimit.ofValue (consoleLevel level quiet verbose)
  return {
    console := ⟨level, if json then .json else .short⟩
    file :=
      if withFile then some ⟨.ofLevel .debug, if json then .json else .detailed⟩ else none }

def levels (s : LogSetup) : List LogLimit :=
  s.console.level :: s.file.toList.map LogHandler.level

end LogSetup

end CodeHealth
