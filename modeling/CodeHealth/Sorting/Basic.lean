import CodeHealth.Sorting.Merge
import CodeHealth.Sorting.Run

/-!
# Sorting

A list falls into runs, and neighbouring runs are merged until one is left. Which ones are merged
first depends on where the runs lie: a boundary between two runs has a depth, the level at which
halving the list again and again separates the middles of the two runs. Deep boundaries go first,
so the merges come close to a balanced tree.

For a strict order whose incomparable elements are interchangeable, all stable ways of sorting
agree. The steps matter only where some elements compare with no other, not even in the order of
their ranks; then the result is still a permutation (`perm_sort`).
-/

namespace CodeHealth.Sorting

variable {α : Type}

/-- The least length of a run in a list of a length: the list's length, halved upwards until it is
at most 64, so that there are about as many runs of it as a power of two. -/
def leastRun (count : Nat) : Nat :=
  let parts := Nat.pow 2 (count.log2 - 5)
  (count + parts - 1) / parts

/-- The level at which halving a range separates two places. Both are given doubled. -/
def depth (count left right : Nat) : Nat :=
  let separated (level : Nat) : Bool :=
    left * Nat.pow 2 level / count != right * Nat.pow 2 level / count
  ((List.range count).find? separated).getD count + 1

/-- A run that waits to be merged with the one after it. -/
structure Waiting (α : Type) where
  start : Nat
  run : List α
  /-- The depth of the boundary to the run before it; zero for the first run. -/
  depth : Nat

def Waiting.elements (waiting : List (Waiting α)) : List α :=
  waiting.flatMap Waiting.run

/-- Waiting runs, the latest first, and the patience of the merges. -/
structure Pending (α : Type) where
  waiting : List (Waiting α)
  patience : Nat

namespace Pending

/-- Merges the latest run with the one before it as long as the boundary between the two lies
deeper than the next one. -/
def settle (before : α → α → Bool) (depth : Nat) (patience : Nat) : List (Waiting α) → Pending α
  | right :: left :: earlier =>
    if depth < right.depth then
      let merged := merge before patience left.run right.run
      settle before depth merged.2 ({ left with run := merged.1 } :: earlier)
    else { waiting := right :: left :: earlier, patience }
  | waiting => { waiting, patience }
termination_by waiting => waiting.length

/-- Adds the next run of a list with so many elements, after the merges of deeper boundaries. -/
def push (before : α → α → Bool) (count : Nat) (pending : Pending α) (run : List α) :
    Pending α :=
  match pending.waiting with
  | [] => { pending with waiting := [{ start := 0, run, depth := 0 }] }
  | last :: _ =>
    let start := last.start + last.run.length
    let depth := depth count (last.start + start) (start + (start + run.length))
    let settled := settle before depth pending.patience pending.waiting
    { settled with waiting := { start, run, depth } :: settled.waiting }

/-- The merged run of all that wait. Of the latest three, the last or the first two are merged,
depending on which of the outer ones is shorter. -/
def mergeAll (before : α → α → Bool) (patience : Nat) : List (Waiting α) → List α
  | [] => []
  | [last] => last.run
  | [right, left] => (merge before patience left.run right.run).1
  | right :: middle :: left :: earlier =>
    if left.run.length < right.run.length then
      let merged := merge before patience left.run middle.run
      mergeAll before merged.2 (right :: { left with run := merged.1 } :: earlier)
    else
      let merged := merge before patience middle.run right.run
      mergeAll before merged.2 ({ middle with run := merged.1 } :: left :: earlier)
termination_by waiting => waiting.length

end Pending

/-- A list in order. -/
def sort (before : α → α → Bool) (xs : List α) : List α :=
  let pending := (runs before (leastRun xs.length) xs).foldl
    (Pending.push before xs.length) { waiting := [], patience := worthwhile }
  Pending.mergeAll before pending.patience pending.waiting

namespace Pending

/-- A merge of two waiting runs keeps the elements of all. -/
theorem perm_merge_append (before : α → α → Bool) (patience : Nat) (left right : Waiting α)
    (earlier : List (Waiting α)) :
    ((merge before patience left.run right.run).1 ++ Waiting.elements earlier).Perm
      (Waiting.elements (right :: left :: earlier)) := by
  simp only [Waiting.elements, List.flatMap_cons]
  rw [← List.append_assoc]
  exact ((perm_merge before patience _ _).trans List.perm_append_comm).append_right _

theorem perm_settle (before : α → α → Bool) (depth patience : Nat) (waiting : List (Waiting α)) :
    (Waiting.elements (settle before depth patience waiting).waiting).Perm
      (Waiting.elements waiting) := by
  fun_induction settle before depth patience waiting with
  | case1 patience right left earlier _ merged ih =>
    exact ih.trans (perm_merge_append before patience left right earlier)
  | case2 => exact .refl _
  | case3 => exact .refl _

theorem perm_push (before : α → α → Bool) (count : Nat) (pending : Pending α) (run : List α) :
    (Waiting.elements (pending.push before count run).waiting).Perm
      (Waiting.elements pending.waiting ++ run) := by
  refine List.Perm.trans ?_ List.perm_append_comm
  unfold push
  split
  · rename_i h
    rw [h]
    exact .refl _
  · exact (perm_settle before _ _ _).append_left _

theorem perm_foldl_push (before : α → α → Bool) (count : Nat) (pending : Pending α)
    (runs : List (List α)) :
    (Waiting.elements (runs.foldl (push before count) pending).waiting).Perm
      (Waiting.elements pending.waiting ++ runs.flatten) := by
  induction runs generalizing pending with
  | nil => simp
  | cons run runs ih =>
    refine (ih _).trans (((perm_push before count pending run).append_right _).trans ?_)
    rw [List.append_assoc, List.flatten_cons]

theorem perm_mergeAll (before : α → α → Bool) (patience : Nat) (waiting : List (Waiting α)) :
    (mergeAll before patience waiting).Perm (Waiting.elements waiting) := by
  fun_induction mergeAll before patience waiting with
  | case1 => exact .refl _
  | case2 => simp [Waiting.elements]
  | case3 patience right left =>
    have := perm_merge_append before patience left right []
    rwa [Waiting.elements, List.flatMap_nil, List.append_nil] at this
  | case4 patience right middle left earlier _ merged ih =>
    exact ih.trans ((perm_merge_append before patience left middle earlier).append_left right.run)
  | case5 patience right middle left earlier _ merged ih =>
    exact ih.trans (perm_merge_append before patience middle right (left :: earlier))

end Pending

/-- Sorting loses nothing and adds nothing. -/
theorem perm_sort (before : α → α → Bool) (xs : List α) : (sort before xs).Perm xs := by
  refine (Pending.perm_mergeAll before _ _).trans ((Pending.perm_foldl_push before _ _ _).trans ?_)
  exact perm_flatten_runs before _ xs

end CodeHealth.Sorting
