import CodeHealth.CommandLine.Arguments
import CodeHealth.Rule.Basic

/-!
# Commands

There are four commands: to analyze a source, to answer a request, to list or run the rules, and to
show or save the configuration. Options about logging stand before the name of the command, its own
options behind it. The name decides how the words behind it are read, which happens only after the
logging has been set up. Words that fit none of this have no reading; whether the files that they
name are there is not decided here.
-/

namespace CodeHealth

/-- What is asked for, with files by their written paths. -/
inductive Command where
  /-- Analyze a source and show a report, or a JSON object. -/
  | analyze (source : String) (parallel : Option Bool) (json : Bool)
  | request
  /-- List the rules of a category or of all, or run them on a source. -/
  | rules (category : Option String) (source : Option String)
  /-- Show the configuration of a project, and possibly save it. -/
  | config (project : Option String) (save isLocal : Bool)
deriving Repr, DecidableEq

inductive CommandName where
  | analyze
  | request
  | rules
  | config
deriving Repr, DecidableEq

def CommandName.ofWord? : String → Option CommandName
  | "analyze" => some .analyze
  | "request" => some .request
  | "rules" => some .rules
  | "config" => some .config
  | _ => none

structure LogOptions where
  /-- Whether everything is logged to the terminal. -/
  verbose : Bool
  quiet : Bool
  json : Bool
  /-- A file that records go to as well. -/
  file : Option String
deriving Repr, DecidableEq

inductive Invocation where
  | version
  /-- A command, with the words behind its name. -/
  | command (log : LogOptions) (name : CommandName) (words : List String)
deriving Repr, DecidableEq

namespace Command

def configSpec : OptionSpec := ⟨["--config"], true⟩

def standardInput : String := "-"

/-- The later of two contrary options. -/
def lastOf (yes no : String) (a : Arguments) : Option Bool :=
  a.options.reverse.findSome? fun (name, _) =>
    if name = yes then some true else if name = no then some false else none

/-- Reads what follows the name of a command: a configuration file and what is asked for. -/
def read? (name : CommandName) (words : List String) : Option (Option String × Command) := do
  match name with
  | .analyze =>
    let a ← Arguments.ofWords?
      [configSpec, ⟨["--parallel"], false⟩, ⟨["--sequential"], false⟩, ⟨["--json"], false⟩]
      true words
    guard (a.operands.length ≤ 1)
    return (a.value? "--config",
      .analyze (a.operands.headD standardInput) (lastOf "--parallel" "--sequential" a)
        (a.has "--json"))
  | .request =>
    let a ← Arguments.ofWords? [configSpec] true words
    guard a.operands.isEmpty
    return (a.value? "--config", .request)
  | .rules =>
    let a ← Arguments.ofWords? [configSpec, ⟨["--category"], true⟩, ⟨["--run"], true⟩] true words
    guard a.operands.isEmpty
    let category := a.value? "--category"
    guard (category.all fun c => c ∈ Category.all.map Category.name)
    return (a.value? "--config", .rules category (a.value? "--run"))
  | .config =>
    let a ← Arguments.ofWords?
      [configSpec, ⟨["--project"], true⟩, ⟨["--save"], false⟩, ⟨["--local"], false⟩] true words
    guard a.operands.isEmpty
    return (a.value? "--config", .config (a.value? "--project") (a.has "--save") (a.has "--local"))

end Command

namespace Invocation

def globalSpecs : List OptionSpec :=
  [⟨["--verbose", "-v"], false⟩, ⟨["--quiet", "-q"], false⟩, ⟨["--log-format"], true⟩,
   ⟨["--log-file"], true⟩, ⟨["--version"], false⟩]

/-- Reads a command line up to the name of the command. A request for the version comes before
everything else. -/
def read? (words : List String) : Option Invocation := do
  let a ← Arguments.ofWords? globalSpecs false words
  if a.has "--version" then return .version
  let format := (a.value? "--log-format").getD "text"
  guard (format = "text" ∨ format = "json")
  match a.operands with
  | [] => none
  | word :: rest =>
    let name ← CommandName.ofWord? word
    let log : LogOptions :=
      { verbose := a.has "--verbose", quiet := a.has "--quiet", json := format = "json",
        file := a.value? "--log-file" }
    return .command log name rest

end Invocation

end CodeHealth
