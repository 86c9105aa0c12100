/-!
# Counting by leaps

How many elements of a list, from its head on, pass a test that no element passes after one has
failed it. The places that are looked at lie at growing distances, until an element fails; the last
gap is halved until one place is left. So the count is cheap where it is small.

A list can also stand for one that is read from its end. Of two places in the middle of a gap the
upper one is looked at; seen from the other end, that is the lower one.
-/

namespace CodeHealth.Sorting

/-- The end that a list is read from. -/
inductive End where
  | front
  | back
deriving DecidableEq

/-- The place in the middle between two places. -/
def End.middle (side : End) (low high : Nat) : Nat :=
  match side with
  | .front => (low + high) / 2
  | .back => (low + high - 1) / 2

theorem End.le_middle {low high : Nat} (side : End) (h : low < high) :
    low ≤ side.middle low high := by
  cases side <;> simp only [middle] <;> omega

theorem End.middle_lt {low high : Nat} (side : End) (h : low < high) :
    side.middle low high < high := by
  cases side <;> simp only [middle] <;> omega

/-- The gap that holds the first place to fail: at or above the first number, up to the second. -/
def gap (passes : Nat → Bool) (count : Nat) (passed next : Nat) : Nat × Nat :=
  if next < count ∧ passes next then gap passes count next (2 * next + 1)
  else (passed + 1, Nat.min next count)
termination_by count - next

/-- The first place of a gap to fail, or its end. -/
def bisect (side : End) (passes : Nat → Bool) (low high : Nat) : Nat :=
  if h : low < high then
    if passes (side.middle low high) then bisect side passes (side.middle low high + 1) high
    else bisect side passes low (side.middle low high)
  else high
termination_by high - low
decreasing_by
  · have := side.le_middle h
    omega
  · have := side.middle_lt h
    omega

/-- How many elements pass, from the head on. -/
def leading {α : Type} (side : End) (passes : α → Bool) (xs : List α) : Nat :=
  if xs.head?.any passes then
    let (low, high) := gap (fun i => xs[i]?.any passes) xs.length 0 1
    bisect side (fun i => xs[i]?.any passes) low high
  else 0

end CodeHealth.Sorting
