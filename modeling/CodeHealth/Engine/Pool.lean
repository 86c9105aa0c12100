/-!
# Waiting for tasks on a pool of workers

Tasks are handed to a pool all at once and in order. A worker that is free takes the next task. The
results are awaited in the same order, each from the moment at which the wait for the one before it
ended, and no longer than a limit. A task that has not even begun when its wait ends is withdrawn;
one that has begun keeps its worker busy to its end.

Time is counted in seconds from the moment at which the tasks are handed over. The number of workers
and the duration of every task determine which waits end in time.
-/

namespace CodeHealth.Pool

/-- The later of two moments. -/
def later (a b : Rat) : Rat :=
  if a ≤ b then b else a

/-- The earliest of some moments, or a given one if there are none. -/
def earliest (otherwise : Rat) : List Rat → Rat
  | [] => otherwise
  | t :: rest => rest.foldl (fun a b => if a ≤ b then a else b) t

/-- Whether each wait ends in time. The first argument is the limit, if there is one, the second the
moment at which the next wait begins, the third when each worker becomes free. -/
def waitsFrom (limit : Option Rat) : (now : Rat) → (free : List Rat) → List Rat → List Bool
  | _, _, [] => []
  | now, free, duration :: rest =>
    let start := earliest now free
    let finish := start + duration
    let busy := finish :: free.erase start
    match limit with
    | none => true :: waitsFrom limit (later now finish) busy rest
    | some seconds =>
      if finish ≤ now + seconds then true :: waitsFrom limit (later now finish) busy rest
      else
        let now := now + seconds
        false :: waitsFrom limit now (if now < start then free else busy) rest

/-- Decides for tasks of given durations, on a number of workers and under a limit, whether the wait
for each of them ends in time. -/
abbrev Schedule := (limit : Option Rat) → (workers : Nat) → (durations : List Rat) → List Bool

/-- Whether the wait for each task ends in time, for tasks of given durations on a number of
workers. -/
def waits : Schedule := fun limit workers durations =>
  waitsFrom limit 0 (List.replicate workers 0) durations

theorem length_waitsFrom (limit : Option Rat) (now : Rat) (free durations : List Rat) :
    (waitsFrom limit now free durations).length = durations.length := by
  fun_induction waitsFrom limit now free durations <;> simp_all

/-- Every task is waited for. -/
theorem length_waits (limit : Option Rat) (workers : Nat) (durations : List Rat) :
    (waits limit workers durations).length = durations.length :=
  length_waitsFrom limit 0 _ durations

end CodeHealth.Pool
