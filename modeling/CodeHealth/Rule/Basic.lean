import CodeHealth.Config.Basic
import CodeHealth.Smell
import CodeHealth.Source.Basic

/-!
# Rules

A rule looks for one kind of smell. It sees the source, its clean copy and the thresholds that apply
to it, and answers with a description for each finding; category and name of the smells are those of
the rule. A rule keeps nothing from one scan to the next, so rules can run in any order.

Rules are listed by category, in the order of `Category.all`, and within a category by their own
order. A category that is not among these comes last.
-/

namespace CodeHealth

structure Category where
  name : String
deriving Repr, DecidableEq

namespace Category

/-- Code that has grown too large. -/
def bloaters : Category := ⟨"Bloaters"⟩

/-- Object orientation that is only half applied. -/
def orientationAbusers : Category := ⟨"Object-Orientation Abusers"⟩

/-- Code in which one change entails many. -/
def changePreventers : Category := ⟨"Change Preventers"⟩

/-- Code that is not needed. -/
def dispensables : Category := ⟨"Dispensables"⟩

/-- Code that is tied too closely to other code. -/
def couplers : Category := ⟨"Couplers"⟩

def all : List Category :=
  [bloaters, orientationAbusers, changePreventers, dispensables, couplers]

def position (name : String) : Nat :=
  all.findIdx (·.name = name)

end Category

/-- What a rule looks at. -/
structure Context where
  /-- The source as it was handed in. -/
  raw : Source
  clean : Source
  config : Option Config
  scanner : Scanner

namespace Context

def ofSource (raw : Source) (config : Option Config) (scanner : Scanner) : Context :=
  ⟨raw, .text raw.clean, config, scanner⟩

def lines (ctx : Context) : Except Fault (List Text) :=
  ctx.raw.lines

def blocks (ctx : Context) (kind : BlockKind) : Except Fault (List Block) :=
  return ctx.scanner.blocks kind (← ctx.raw.searched)

/-- The value of a threshold for a rule: that of the rule's own parameters where they have one, and
otherwise that of the thresholds for all rules. -/
def threshold (ctx : Context) (ruleId : String) (t : Threshold) : Except Fault Value :=
  match ctx.config with
  | none => .ok t.default
  | some c => c.parameter (.text ruleId) (.text t.fieldName.snake) (c.thresholds.get t)

end Context

structure Rule where
  id : String
  name : String
  category : String
  /-- Its place among the rules of the category. -/
  order : Int
  description : String := s!"Rule {id}: {name}"
  /-- Describes each finding. The first argument holds the thresholds that apply to the rule. -/
  find : (Threshold → Except Fault Value) → Context → Except Failure (List String)
  /-- How many seconds a scan takes. Only a run with a time limit looks at it. -/
  duration : Rat := 0

namespace Rule

def sortKey (r : Rule) : Nat × Int :=
  (Category.position r.category, r.order)

/-- Whether a rule stands no later than another one. -/
def noLater (r s : Rule) : Bool :=
  let (p, m) := r.sortKey
  let (q, n) := s.sortKey
  p < q || p = q && m ≤ n

def scan (r : Rule) (ctx : Context) : Except Failure (List Smell) := do
  return (← r.find (ctx.threshold r.id) ctx).map fun description =>
    { category := .text r.category, name := .text r.name, description := .text description }

/-- Keeps the blocks whose size lies above a limit, and describes each of them in the same way. -/
def oversized (size : Block → Nat) (limit : Value) (description : String) (blocks : List Block) :
    Except Fault (List String) := do
  let large ← blocks.filterM fun b => (Value.nat (size b)).gt limit
  return large.map fun _ => description

end Rule

end CodeHealth
