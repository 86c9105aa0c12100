import CodeHealth.Config.Scoring
import CodeHealth.Config.Thresholds
import CodeHealth.Source.Block

/-!
# Configurations

A configuration says which rules run and how their findings are counted. It is read from a JSON
object, member by member, and written back as one. A value of the wrong kind stays in the
configuration and is a fault where it is used; only where a section has to be an object is a value
of another kind a fault at once.

Configurations are put on top of each other with `merge`. A later one replaces the sections of an
earlier one as a whole, except that the settings of single rules are united and that the enabled
categories of the earlier one remain in force where the later one does not name any.
-/

namespace CodeHealth

structure RuleSettings where
  enabled : Value := .bool true
  /-- Thresholds that are different for this rule. -/
  parameters : Value := .object []
deriving Inhabited

namespace RuleSettings

def ofValue (v : Value) : Except Fault RuleSettings := do
  return {
    enabled := ← v.memberD "enabled" (.bool true)
    parameters := ← v.memberD "parameters" (.object []) }

/-- The settings as a member of a configuration. Parameters that count as false are left out. -/
def toValue (r : RuleSettings) : Value :=
  .object <|
    ("enabled", r.enabled) :: if r.parameters.truthy then [("parameters", r.parameters)] else []

end RuleSettings

/-- How the rules are executed, and how long an input may be. -/
structure Performance where
  /-- Whether rules run at the same time. -/
  parallelExecution : Value := .bool false
  /-- How many rules run at the same time at most. -/
  maxParallelWorkers : Value := .int 4
  /-- How many milliseconds a rule is waited for. -/
  parallelRuleTimeoutMs : Value := .double (.finite 30000)
  /-- How many characters an input may have; zero stands for any number. -/
  maxInputChars : Value := .int 0
deriving Inhabited

namespace Performance

def ofValue (v : Value) : Except Fault Performance := do
  let d : Performance := {}
  return {
    parallelExecution := ← v.memberD "parallelExecution" d.parallelExecution
    maxParallelWorkers := ← v.memberD "maxParallelWorkers" d.maxParallelWorkers
    parallelRuleTimeoutMs := ← v.memberD "parallelRuleTimeoutMs" d.parallelRuleTimeoutMs
    maxInputChars := ← v.memberD "maxInputChars" d.maxInputChars }

def toValue (p : Performance) : Value :=
  .object
    [("parallelExecution", p.parallelExecution), ("maxParallelWorkers", p.maxParallelWorkers),
     ("parallelRuleTimeoutMs", p.parallelRuleTimeoutMs), ("maxInputChars", p.maxInputChars)]

end Performance

/-- Which rules run and how their findings are counted. -/
structure Config where
  /-- The categories whose rules run; absent for all. -/
  enabledCategories : Value := .null
  /-- The name of the scanner that finds methods and classes. -/
  structureScanner : Value := .text "regex"
  /-- Whether a run goes on after a rule that failed. -/
  continueOnError : Value := .bool true
  /-- Whether lines that differ in the blanks around them count as equal. -/
  normalizeWhitespace : Value := .bool false
  scoring : Scoring := {}
  thresholds : Thresholds := {}
  performance : Performance := {}
  /-- Settings of single rules, by the identifier of the rule. -/
  rules : Entries String RuleSettings := []

namespace Config

def rulesOfValue : Value → Except Fault (Entries String RuleSettings)
  | .object members =>
    members.foldlM (fun rules (id, v) => do
      return Entries.put id (← RuleSettings.ofValue v) rules) []
  | v => .error (.noMembers v.kind)

/-- A section of a configuration, or its default where the section is absent. -/
def sectionD {α : Type} (name : String) (default : α) (read : Value → Except Fault α)
    (v : Value) : Except Fault α := do
  match ← v.member? name with
  | some v => read v
  | none => return default

def ofValue (v : Value) : Except Fault Config := do
  let d : Config := {}
  return {
    enabledCategories := ← v.memberD "enabledCategories" d.enabledCategories
    structureScanner := ← v.memberD "structureScanner" d.structureScanner
    continueOnError := ← v.memberD "continueOnError" d.continueOnError
    normalizeWhitespace := ← v.memberD "normalizeWhitespace" d.normalizeWhitespace
    scoring := ← sectionD "scoring" d.scoring Scoring.ofValue v
    thresholds := ← sectionD "thresholds" d.thresholds Thresholds.ofValue v
    performance := ← sectionD "performance" d.performance Performance.ofValue v
    rules := ← sectionD "rules" d.rules rulesOfValue v }

def toValue (c : Config) : Value :=
  .object
    [("enabledCategories", c.enabledCategories), ("structureScanner", c.structureScanner),
     ("continueOnError", c.continueOnError), ("normalizeWhitespace", c.normalizeWhitespace),
     ("scoring", c.scoring.toValue), ("thresholds", c.thresholds.toValue),
     ("performance", c.performance.toValue),
     ("rules", .object (c.rules.map fun (id, r) => (id, r.toValue)))]

/-- The elements of a value that has elements: the items of a list, the characters of a text, the
names of the members of an object. -/
def elements : Value → Except Fault (List Value)
  | .list items => .ok items
  | .text s => .ok (s.toList.map fun c => .text (String.ofList [c]))
  | .object members => .ok (members.map fun (k, _) => .text k)
  | v => .error (.notIterable v.kind)

/-- The enabled categories of a configuration with another one on top of it. -/
def mergedCategories (below : Value) : (above : Value) → Except Fault Value
  | .null => .ok below
  | above => .list <$> elements above

/-- A configuration with another one on top of it. -/
def merge (below above : Config) : Except Fault Config := do
  return { above with
    enabledCategories := ← mergedCategories below.enabledCategories above.enabledCategories
    rules := Entries.putAll below.rules above.rules }

/-- Whether a selection of categories admits the rules of a category. Without a selection every
category is admitted, and rules without a category always are. -/
def admits (categories category : Value) : Except Fault Bool :=
  match categories with
  | .null => .ok true
  | categories => if category.truthy then categories.includes category else .ok true

def settings (c : Config) (id : Value) : Except Fault RuleSettings :=
  return (← id.lookUp? c.rules).getD {}

/-- Whether a rule runs: not if its category is left out, and otherwise as its settings say. -/
def isEnabled (c : Config) (id category : Value) : Except Fault Value := do
  if ← admits c.enabledCategories category then return (← c.settings id).enabled
  else return .bool false

/-- A parameter of a rule, or a default where the rule has no such parameter. -/
def parameter (c : Config) (id name default : Value) : Except Fault Value := do
  match (← c.settings id).parameters with
  | .object members => return (← name.lookUp? members).getD default
  | v => throw (.noMembers v.kind)

def scannerMessage (name : String) : String :=
  "Unknown structure scanner: " ++ name

def scannerSuggestion : String :=
  "Use one of: " ++ ", ".intercalate (Scanner.all.map Scanner.name)

/-- The scanner of a name, if there is one of that name. A list or an object is no name at all. -/
def scanner? : Value → Except Fault (Option Scanner)
  | .text name => .ok (Scanner.ofName? name)
  | .list _ => .error (.unhashable .list)
  | .object _ => .error (.unhashable .object)
  | _ => .ok none

def selectScanner (name : Value) : Except Failure Scanner := do
  match ← scanner? name with
  | some scanner => return scanner
  | none =>
    throw <| .problem <| .configuration (.text (scannerMessage (← name.shown))) .null
      (.text scannerSuggestion) [("structure_scanner", name)]

/-- Accepts a configuration with an acceptable policy and an existing scanner. -/
def validate (c : Config) : Except Failure Unit := do
  c.scoring.validate
  if (← scanner? c.structureScanner).isNone then
    throw <| .problem <| .configuration (.text (scannerMessage (← c.structureScanner.shown))) .null
      (.text scannerSuggestion)

end Config

end CodeHealth
