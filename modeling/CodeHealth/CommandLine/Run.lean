import CodeHealth.Analyzer.Request
import CodeHealth.CommandLine.Command
import CodeHealth.Config.Files
import CodeHealth.Profile.Report

/-!
# Running a command

A command works on a tree of files and on the bytes of the standard input. It leaves an exit status,
texts for the standard output and for the terminal, and the tree with what it has written. A command
line that cannot be read and a file that is missing are misuse, with status two and no output. A
problem of the configuration is shown on the terminal and ends the command with status one; any
other failure ends it in the same way without being shown here.

Sources and requests are read leniently as UTF-8, with every line ending as one newline.
-/

namespace CodeHealth

structure CommandPlace where
  tree : FileTree
  here : FilePath
  /-- The directory with the configuration for all projects. -/
  shared : FilePath
  input : Bytes

structure CommandResult where
  status : Nat
  output : String := ""
  terminal : String := ""
  /-- A failure that ended the command and is not shown. -/
  failure : Option Failure := none
  tree : FileTree

namespace CommandPlace

def namedFile? (c : CommandPlace) (path : String) : Option FilePath :=
  (c.tree.resolve? c.here path).filter fun p => (c.tree.file? p).isSome

def namedDirectory? (c : CommandPlace) (path : String) : Option FilePath :=
  (c.tree.resolve? c.here path).filter c.tree.isDirectory

/-- Bytes as a source or as a request. -/
def decode (b : Bytes) : Text :=
  Text.unifyNewlines b.utf8Lenient

def source? (c : CommandPlace) (path : String) : Option Text :=
  if path = Command.standardInput then some (decode c.input)
  else (c.namedFile? path >>= c.tree.file?).map decode

def misuse (c : CommandPlace) : CommandResult :=
  { status := 2, tree := c.tree }

def failed (c : CommandPlace) : Failure → CommandResult
  | .problem p => { status := 1, terminal := p.format .plain ++ "\n", tree := c.tree }
  | f => { status := 1, failure := some f, tree := c.tree }

def crashed (c : CommandPlace) (f : Failure) : CommandResult :=
  { status := 1, failure := some f, tree := c.tree }

def shown (c : CommandPlace) (text : String) (status : Nat := 0) : CommandResult :=
  { status, output := text ++ "\n", tree := c.tree }

def config (c : CommandPlace) (project : FilePath) (explicit : Option FilePath) :
    Except Failure Config := do
  let config ← Config.load c.tree { shared := c.shared, project, explicit }
  config.validate
  return config

def analyze (c : CommandPlace) (configFile : Option FilePath) (source : Text)
    (parallel : Option Bool) (json : Bool) : CommandResult :=
  match c.config c.here configFile >>= Analyzer.ofConfig with
  | .error f => c.failed f
  | .ok analyzer =>
    let parallel := (parallel.map Value.bool).getD .null
    let text : Except Failure String := do
      let profile ← (analyzer.analyze {} (.text source) parallel).1
      if json then return (← profile.payload).toValue.toJson .indented
      else profile.report
    match text with
    | .ok text => c.shown text
    | .error f => c.crashed f

def responseStatus : (status : Value) → Nat
  | .int 200 => 0
  | .int 400 => 2
  | _ => 1

def request (c : CommandPlace) (configFile : Option FilePath) : CommandResult :=
  match c.config c.here configFile >>= Analyzer.ofConfig with
  | .error f => c.failed f
  | .ok analyzer =>
    let body := RequestBody.value (.text (String.ofList (decode c.input)))
    match (analyzer.handleRequest {} body).1 with
    | .ok response => c.shown (response.toValue.toJson .compact) (responseStatus response.status)
    | .error f => c.crashed f

/-- A text filled up to a width with blanks. -/
def column (width : Nat) (s : String) : String :=
  s ++ String.ofList (List.replicate (width - s.length) ' ')

def ruleLine (r : Rule) : String :=
  column 42 r.id ++ " " ++ column 28 r.category ++ " " ++ r.name ++ "\n"

/-- A run as a JSON object. Its time is the caller's to measure. -/
def runValue (r : RunResult) (elapsed : Value) : Value :=
  .object
    [("smells", .list (r.smells.map Smell.toValue)),
     ("errors", .list (r.errors.map fun e =>
       .object
         [("rule_id", .text e.ruleId), ("error_message", .text e.cause.message),
          ("exception_type", .text e.cause.typeName)])),
     ("execution_time_ms", elapsed),
     ("rules_executed", .nat r.executed)]

/-- Lists the rules, or runs them on a source. -/
def rules (c : CommandPlace) (configFile : Option FilePath) (category : Option String)
    (source : Option Text) : CommandResult :=
  let prepared : Except Failure (Config × Scanner) := do
    let config ← c.config c.here configFile
    return (config, ← Config.selectScanner config.structureScanner)
  match prepared with
  | .error f => c.failed f
  | .ok (config, scanner) =>
    let text : Except Failure String := do
      let engine ← Analyzer.engine config
      match source with
      | some s =>
        let ctx := Context.ofSource (.text s) (some config) scanner
        let categories := (category.map fun name => Value.list [.text name]).getD .null
        let result ← engine.run ctx { categories }
        return (runValue result (.int 0)).toJson .indented ++ "\n"
      | none =>
        let selected := (category.map engine.rulesIn).getD engine.rules
        return String.join (selected.map ruleLine)
    match text with
    | .ok output => { status := 0, output, tree := c.tree }
    | .error f => c.crashed f

/-- Shows the configuration of a project, after saving it if asked to. -/
def showConfig (c : CommandPlace) (configFile : Option FilePath) (project : FilePath)
    (save isLocal : Bool) : CommandResult :=
  match c.config project configFile with
  | .error f => c.failed f
  | .ok config =>
    let saved := if save then config.save c.tree project isLocal else .ok c.tree
    match saved with
    | .error f => c.crashed f
    | .ok tree =>
      let path := "/".intercalate (ConfigPlaces.projectFile project isLocal)
      { status := 0
        output := config.toValue.toJson .indented ++ "\n"
        terminal := if save then "Saved configuration to " ++ path ++ "\n" else ""
        tree }

def versionText : String := "debt-analyzer, version 1.0.0"

/-- Opens the log file. It cannot be opened without its directory. Empty names and single points in
its path lead nowhere. -/
def openLog (c : CommandPlace) (path : String) : Option (Except Fault CommandPlace) :=
  if (c.namedDirectory? path).isSome then none
  else
    let (first, names) := FileTree.start c.here path
    match c.tree.follow first (names.filter fun name => name ≠ "" ∧ name ≠ ".") with
    | none => some (.error .inadmissible)
    | some p =>
      if c.tree.isDirectory p.dropLast && !c.tree.isDirectory p then
        if (c.tree.file? p).isSome then some (.ok c)
        else some ((c.tree.write p []).map fun tree => { c with tree })
      else some (.error .inadmissible)

/-- Runs a command whose configuration file is there. -/
def runCommand (c : CommandPlace) (configFile : Option FilePath) : Command → CommandResult
  | .analyze source parallel json =>
    match c.source? source with
    | some s => c.analyze configFile s parallel json
    | none => c.misuse
  | .request => c.request configFile
  | .rules category none => c.rules configFile category none
  | .rules category (some source) =>
    match c.source? source with
    | some s => c.rules configFile category (some s)
    | none => c.misuse
  | .config none save isLocal => c.showConfig configFile c.here save isLocal
  | .config (some project) save isLocal =>
    match c.namedDirectory? project with
    | some p => c.showConfig configFile p save isLocal
    | none => c.misuse

def runNamed (c : CommandPlace) (name : CommandName) (words : List String) : CommandResult :=
  match Command.read? name words with
  | none => c.misuse
  | some (none, command) => c.runCommand none command
  | some (some path, command) =>
    match c.namedFile? path with
    | some p => c.runCommand (some p) command
    | none => c.misuse

def run (c : CommandPlace) (words : List String) : CommandResult :=
  match Invocation.read? words with
  | none => c.misuse
  | some .version => c.shown versionText
  | some (.command log name words) =>
    match (log.file.map c.openLog).getD (some (.ok c)) with
    | none => c.misuse
    | some (.error f) => c.crashed f
    | some (.ok c) => c.runNamed name words

end CommandPlace

end CodeHealth
