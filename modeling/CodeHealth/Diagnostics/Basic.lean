import CodeHealth.Sorting.Basic
import CodeHealth.Value.Arithmetic

/-!
# Counters and timing samples

An analysis recovers from failures where it can, and a caller would never learn of them. They are
counted here by name. Durations are recorded as well, by the name of the operation; of each
operation only the latest ones are kept.

The statistics of an operation are about the durations that are kept. Percentiles are interpolated
between neighbours in the sorted durations. Durations and amounts are supposed to be numbers, which
is checked where they are added up.
-/

namespace CodeHealth

structure DurationStats where
  count : Nat
  average : Double
  least : Value
  greatest : Value
  median : Value
  /-- The duration below which 95 of 100 lie. -/
  percentile95 : Value

namespace DurationStats

def below (a b : Value) : Bool :=
  (Value.lt a b).toOption.getD false

/-- The sum of durations from the left, beginning with a whole zero. -/
def sum (xs : List Value) : Except Fault Value :=
  xs.foldlM Value.add (.int 0)

/-- The place of a percentile among sorted elements, counted from zero and with a fraction. -/
def rank (percent : Nat) (count : Nat) : Double :=
  (Double.ofQuotient percent 100).mul (.nearest (count - 1))

/-- The element at a rank, or the interpolated number between the two elements around it. -/
def percentile (percent : Nat) (sorted : List Value) : Except Fault Value := do
  let rank := rank percent sorted.length
  let index := (rank.toRat?.getD 0).floor.toNat
  let lower := sorted.getD index (.int 0)
  match sorted[index + 1]? with
  | none => return lower
  | some upper =>
    let fraction := Value.double (rank.sub (.nearest index))
    lower.add (← fraction.mul (← upper.sub lower))

/-- The statistics of some durations, unless there are none. -/
def ofSamples (samples : List Value) : Except Fault (Option DurationStats) := do
  let _ ← samples.mapM fun v => v.number .notReal
  let sorted := Sorting.sort below samples
  match sorted.head?, sorted.getLast? with
  | some least, some greatest =>
    let average ← (← sum samples).div (.nat samples.length)
    let median ← percentile 50 sorted
    let percentile95 ← percentile 95 sorted
    return some { count := samples.length, average, least, greatest, median, percentile95 }
  | _, _ => return none

def toValue (s : DurationStats) : Value :=
  .object
    [("count", .nat s.count), ("avg_ms", .double s.average), ("min_ms", s.least),
     ("max_ms", s.greatest), ("p50_ms", s.median), ("p95_ms", s.percentile95)]

end DurationStats

structure Diagnostics where
  /-- How many durations of an operation are kept; null for all. -/
  maxSamples : Value := .int 1000
  /-- The counters in the order of their first increments. -/
  counters : Entries String Number := []
  /-- The latest durations of each operation, the operations in the order of their first ones. -/
  durations : Entries String (List Value) := []

namespace Diagnostics

def count (d : Diagnostics) (name : String) : Number :=
  (Entries.get? name d.counters).getD (.int 0)

/-- Adds to a counter. The counter is there from its first increment on, even if what should be
added is no number. -/
def increment (d : Diagnostics) (name : String) (amount : Value := .int 1) :
    Except Fault Unit × Diagnostics :=
  let present := d.count name
  match amount.number (.unsupported "+=" .int) >>= present.combine (· + ·) Double.add with
  | .ok total => (.ok (), { d with counters := Entries.put name total d.counters })
  | .error f => (.error f, { d with counters := Entries.put name present d.counters })

/-- Adds one to a counter, as often as told. -/
def note (d : Diagnostics) (name : String) : (times : Nat) → Diagnostics
  | 0 => d
  | times + 1 => note (d.increment name).2 name times

/-- How many durations of an operation are kept, if that is bounded. -/
def sampleBound? (d : Diagnostics) : Except Fault (Option Nat) :=
  match d.maxSamples, d.maxSamples.number? with
  | .null, _ => .ok none
  | _, some (.int n) =>
    if n < -9223372036854775808 ∨ 9223372036854775807 < n then .error .outOfRange
    else if n < 0 then .error .inadmissible
    else .ok (some n.toNat)
  | v, _ => .error (.notWhole v.kind)

def latest (bound? : Option Nat) (samples : List Value) : List Value :=
  match bound? with
  | none => samples
  | some bound => samples.drop (samples.length - bound)

/-- Records a duration. A number of durations to keep that cannot be one is refused at the first
duration. -/
def record (d : Diagnostics) (operation : String) (duration : Value) :
    Except Fault Diagnostics := do
  let bound? ← d.sampleBound?
  return { d with
    durations := Entries.alter operation
      (fun kept => latest bound? (kept.getD [] ++ [duration])) d.durations }

def samples (d : Diagnostics) (operation : String) : List Value :=
  (Entries.get? operation d.durations).getD []

def stats (d : Diagnostics) (operation : String) : Except Fault (Option DurationStats) :=
  DurationStats.ofSamples (d.samples operation)

/-- The statistics of an operation as a JSON object, which is empty if there are none. -/
def statsValue (d : Diagnostics) (operation : String) : Except Fault Value := do
  match ← d.stats operation with
  | some s => return s.toValue
  | none => return .object []

def snapshot (d : Diagnostics) : Except Fault Value := do
  let counters := d.counters.map fun (name, n) => (name, n.toValue)
  let timings ← d.durations.keys.mapM fun operation => return (operation, ← d.statsValue operation)
  return .object [("counters", .object counters), ("timings", .object timings)]

def reset (d : Diagnostics) : Diagnostics :=
  { d with counters := [], durations := [] }

end Diagnostics

end CodeHealth
