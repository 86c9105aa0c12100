import CodeHealth.Sorting.Gallop

/-!
# Merging two runs

Two neighbouring runs become one. What lies at the far ends of the two in any case stays where it
is. The rest is merged from the front or, if the left run is the longer one, from the back; then
both runs are reversed and the order is turned round.

Elements are compared one by one at first. When one run has won often enough in a row, the merge
goes on by leaps: it counts the elements of one run that go before the head of the other, and moves
them at once. It does so for as long as that moves many elements. How often is enough is learned
from merge to merge.

No element is lost or added (`perm_merge`).
-/

namespace CodeHealth.Sorting

variable {α : Type}

/-- Whether an element comes before another one when both are read from a side. -/
def End.precedes (side : End) (before : α → α → Bool) (x y : α) : Bool :=
  match side with
  | .front => before x y
  | .back => before y x

/-- How a merge goes on. -/
inductive Pace where
  /-- One by one, after so many elements in a row from the opening or from the closing run. -/
  | single (opened closed : Nat)
  | leaps

/-- How many elements a leap moves at least if it was worth it. -/
def worthwhile : Nat := 7

structure Merge (α : Type) where
  merged : List α
  /-- The rest of the run whose first element came first. -/
  opening : List α
  /-- The rest of the run whose last element comes last. -/
  closing : List α
  pace : Pace
  /-- How many elements in a row from one run lead to leaps. -/
  patience : Nat

namespace Merge

/-- A merge whose first element is the head of the opening run. -/
def start (patience : Nat) (opening closing : List α) : Merge α :=
  { merged := opening.take 1, opening := opening.drop 1, closing, pace := .single 0 0, patience }

/-- Whether what is left is in order: the opening run, and at most one element to come last. -/
def finished (m : Merge α) : Bool :=
  m.opening.isEmpty || (m.closing.drop 1).isEmpty

def remaining (m : Merge α) : Nat :=
  m.opening.length + m.closing.length

def elements (m : Merge α) : List α :=
  m.merged ++ (m.opening ++ m.closing)

/-- The pace after so many elements in a row from the opening or from the closing run. -/
def paceAfter (m : Merge α) (opened closed : Nat) : Pace :=
  if m.patience ≤ opened + closed then .leaps else .single opened closed

/-- Moves the lesser of the two heads. Of equal ones that of the closing run goes first. -/
def takeOne (before : α → α → Bool) (side : End) (opened closed : Nat) (m : Merge α) : Merge α :=
  match m.opening, m.closing with
  | x :: opening, y :: closing =>
    if side.precedes before x y then
      { m with merged := x :: m.merged, opening, pace := m.paceAfter (opened + 1) 0 }
    else
      { m with merged := y :: m.merged, closing, pace := m.paceAfter 0 (closed + 1) }
  | _, _ => m

/-- Moves what goes before the head of the closing run, and that head. The number is without it. -/
def leapOpening (before : α → α → Bool) (side : End) (m : Merge α) : Nat × Merge α :=
  match m.closing with
  | [] => (0, m)
  | y :: closing =>
    let moved := leading side (fun x => side.precedes before x y) m.opening
    (moved, { m with
      merged := y :: ((m.opening.take moved).reverse ++ m.merged)
      opening := m.opening.drop moved
      closing })

/-- Moves what goes before the head of the opening run, and that head. The number is without it. -/
def leapClosing (before : α → α → Bool) (side : End) (m : Merge α) : Nat × Merge α :=
  match m.opening with
  | [] => (0, m)
  | x :: opening =>
    let moved := leading side (fun y => !side.precedes before x y) m.closing
    (moved, { m with
      merged := x :: ((m.closing.take moved).reverse ++ m.merged)
      closing := m.closing.drop moved
      opening })

/-- A leap in the run on the left. It closes a merge from the front and opens one from the back. -/
def leapLeft (before : α → α → Bool) (side : End) (m : Merge α) : Nat × Merge α :=
  match side with
  | .front => m.leapClosing before side
  | .back => m.leapOpening before side

def leapRight (before : α → α → Bool) (side : End) (m : Merge α) : Nat × Merge α :=
  match side with
  | .front => m.leapOpening before side
  | .back => m.leapClosing before side

/-- Goes on by leaps, a little more readily, if one of the last two was worth it. -/
def afterLeaps (left right : Nat) (m : Merge α) : Merge α :=
  if m.finished then m
  else if worthwhile ≤ left ∨ worthwhile ≤ right then
    { m with patience := if 1 < m.patience then m.patience - 1 else m.patience }
  else { m with patience := m.patience + 1, pace := .single 0 0 }

/-- A leap in the run on the left, then one in the run on the right. -/
def leapBoth (before : α → α → Bool) (side : End) (m : Merge α) : Merge α :=
  let left := m.leapLeft before side
  if left.2.finished then left.2
  else
    let right := left.2.leapRight before side
    right.2.afterLeaps left.1 right.1

/-- One step of a merge. -/
def step (before : α → α → Bool) (side : End) (m : Merge α) : Merge α :=
  match m.pace with
  | .single opened closed => m.takeOne before side opened closed
  | .leaps => m.leapBoth before side

theorem finished_eq_false_iff (m : Merge α) :
    m.finished = false ↔ m.opening ≠ [] ∧ 2 ≤ m.closing.length := by
  rw [finished, Bool.or_eq_false_iff, List.isEmpty_eq_false_iff, List.isEmpty_eq_false_iff]
  exact and_congr_right fun _ => (not_congr List.drop_eq_nil_iff).trans Nat.not_le

theorem remaining_takeOne_lt (before : α → α → Bool) (side : End) (opened closed : Nat)
    {m : Merge α} (h : m.finished = false) :
    (m.takeOne before side opened closed).remaining < m.remaining := by
  obtain ⟨hopening, hclosing⟩ := (finished_eq_false_iff m).mp h
  obtain ⟨x, opening, ho⟩ := List.exists_cons_of_ne_nil hopening
  obtain ⟨y, closing, hc⟩ := List.exists_cons_of_length_pos (Nat.zero_lt_of_lt hclosing)
  rw [takeOne, ho, hc]
  dsimp only
  split <;> simp [remaining, *]

theorem remaining_leapOpening_lt (before : α → α → Bool) (side : End) {m : Merge α}
    (h : m.finished = false) : (m.leapOpening before side).2.remaining < m.remaining := by
  obtain ⟨_, h⟩ := (finished_eq_false_iff m).mp h
  unfold leapOpening
  split
  · simp_all
  · simp only [remaining, List.length_drop, *, List.length_cons]
    omega

theorem remaining_leapClosing_lt (before : α → α → Bool) (side : End) {m : Merge α}
    (h : m.finished = false) : (m.leapClosing before side).2.remaining < m.remaining := by
  obtain ⟨h, _⟩ := (finished_eq_false_iff m).mp h
  unfold leapClosing
  split
  · simp_all
  · simp only [remaining, List.length_drop, *, List.length_cons]
    omega

@[simp] theorem remaining_afterLeaps (left right : Nat) (m : Merge α) :
    (m.afterLeaps left right).remaining = m.remaining := by
  unfold afterLeaps
  split
  · rfl
  · split <;> rfl

theorem remaining_leapBoth_lt (before : α → α → Bool) (side : End) {m : Merge α}
    (h : m.finished = false) : (m.leapBoth before side).remaining < m.remaining := by
  have hleft : (m.leapLeft before side).2.remaining < m.remaining := by
    cases side
    · exact remaining_leapClosing_lt before _ h
    · exact remaining_leapOpening_lt before _ h
  rw [leapBoth]
  split
  · exact hleft
  · rename_i hleft'
    rw [Bool.not_eq_true] at hleft'
    rw [remaining_afterLeaps]
    refine Nat.lt_trans ?_ hleft
    cases side
    · exact remaining_leapOpening_lt before _ hleft'
    · exact remaining_leapClosing_lt before _ hleft'

/-- Each step of an unfinished merge moves an element. -/
theorem remaining_step_lt (before : α → α → Bool) (side : End) {m : Merge α}
    (h : m.finished = false) : (m.step before side).remaining < m.remaining := by
  unfold step
  split
  · exact remaining_takeOne_lt before side _ _ h
  · exact remaining_leapBoth_lt before side h

/-- The merged run, the latest first, and the patience that is learned. -/
def finish (before : α → α → Bool) (side : End) (m : Merge α) : List α × Nat :=
  if m.finished then ((m.opening ++ m.closing).reverse ++ m.merged, m.patience)
  else finish before side (m.step before side)
termination_by m.remaining
decreasing_by exact remaining_step_lt before side (by simp_all)

theorem perm_start (patience : Nat) (opening closing : List α) :
    (start patience opening closing).elements.Perm (opening ++ closing) := by
  rw [elements, start, ← List.append_assoc, List.take_append_drop]

theorem perm_takeOne (before : α → α → Bool) (side : End) (opened closed : Nat) (m : Merge α) :
    (m.takeOne before side opened closed).elements.Perm m.elements := by
  unfold takeOne
  split
  · split
    · simp only [elements, *]
      exact List.perm_middle.symm
    · simp only [elements, *]
      refine List.Perm.trans ?_ (List.perm_middle.append_left _).symm
      exact List.perm_middle.symm
  · exact .refl _

/-- What a leap moves is not lost. -/
theorem perm_leap (moved : Nat) (y : α) (merged xs ys : List α) :
    (y :: ((xs.take moved).reverse ++ merged) ++ (xs.drop moved ++ ys)).Perm
      (merged ++ (xs ++ y :: ys)) := by
  have hmoved : ((xs.take moved).reverse ++ merged ++ (xs.drop moved ++ ys)).Perm
      (merged ++ (xs ++ ys)) := by
    refine (List.perm_append_comm.append_right (xs.drop moved ++ ys)).trans ?_
    rw [List.append_assoc]
    refine List.Perm.append_left _ ?_
    refine ((List.reverse_perm _).append_right _).trans ?_
    rw [← List.append_assoc, List.take_append_drop]
  refine (hmoved.cons y).trans ?_
  rw [← List.append_assoc, ← List.append_assoc]
  exact List.perm_middle.symm

theorem perm_leapOpening (before : α → α → Bool) (side : End) (m : Merge α) :
    (m.leapOpening before side).2.elements.Perm m.elements := by
  unfold leapOpening
  split
  · exact .refl _
  · simp only [elements, *]
    exact perm_leap _ _ _ _ _

theorem perm_leapClosing (before : α → α → Bool) (side : End) (m : Merge α) :
    (m.leapClosing before side).2.elements.Perm m.elements := by
  unfold leapClosing
  split
  · exact .refl _
  · simp only [elements, *]
    refine (List.perm_append_comm.append_left _).trans ?_
    refine (perm_leap _ _ _ _ _).trans ?_
    exact List.perm_append_comm.append_left _

theorem perm_leapBoth (before : α → α → Bool) (side : End) (m : Merge α) :
    (m.leapBoth before side).elements.Perm m.elements := by
  have hleft : (m.leapLeft before side).2.elements.Perm m.elements := by
    cases side
    · exact perm_leapClosing before _ m
    · exact perm_leapOpening before _ m
  have hright (m : Merge α) : (m.leapRight before side).2.elements.Perm m.elements := by
    cases side
    · exact perm_leapOpening before _ m
    · exact perm_leapClosing before _ m
  have hafter (left right : Nat) (m : Merge α) :
      (m.afterLeaps left right).elements = m.elements := by
    unfold afterLeaps
    split
    · rfl
    · split <;> rfl
  rw [leapBoth]
  split
  · exact hleft
  · rw [hafter]
    exact (hright _).trans hleft

theorem perm_finish (before : α → α → Bool) (side : End) (m : Merge α) :
    (m.finish before side).1.Perm m.elements := by
  fun_induction finish before side m with
  | case1 m _ =>
    exact ((List.reverse_perm _).append_right _).trans List.perm_append_comm
  | case2 m _ ih =>
    refine ih.trans ?_
    unfold step
    split
    · exact perm_takeOne before side _ _ m
    · exact perm_leapBoth before side m

end Merge

/-- Merges two runs. The patience says when leaps begin, and is learned. -/
def merge (before : α → α → Bool) (patience : Nat) (xs ys : List α) : List α × Nat :=
  match ys.head? with
  | none => (xs, patience)
  | some y =>
    let low := leading .front (fun x => !before y x) xs
    let left := xs.drop low
    match left.getLast? with
    | none => (xs ++ ys, patience)
    | some x =>
      let middle := ys.length - leading .back (fun y => !before y x) ys.reverse
      let right := ys.take middle
      if left.length ≤ right.length then
        let (run, patience) := (Merge.start patience right left).finish before .front
        (xs.take low ++ run.reverse ++ ys.drop middle, patience)
      else
        let (run, patience) :=
          (Merge.start patience left.reverse right.reverse).finish before .back
        (xs.take low ++ run ++ ys.drop middle, patience)

/-- Merging two runs loses nothing and adds nothing. -/
theorem perm_merge (before : α → α → Bool) (patience : Nat) (xs ys : List α) :
    (merge before patience xs ys).1.Perm (xs ++ ys) := by
  have split (low middle : Nat) {run : List α} (h : run.Perm (xs.drop low ++ ys.take middle)) :
      (xs.take low ++ run ++ ys.drop middle).Perm (xs ++ ys) := by
    refine ((h.append_left _).append_right _).trans ?_
    simp only [List.append_assoc, List.take_append_drop]
    rw [← List.append_assoc, List.take_append_drop]
  unfold merge
  split
  · simp_all
  · dsimp only
    split
    · exact .refl _
    · split
      · refine split _ _ ((List.reverse_perm _).trans ((Merge.perm_finish _ _ _).trans ?_))
        exact (Merge.perm_start _ _ _).trans List.perm_append_comm
      · refine split _ _ ((Merge.perm_finish _ _ _).trans ((Merge.perm_start _ _ _).trans ?_))
        exact (List.reverse_perm _).append (List.reverse_perm _)

end CodeHealth.Sorting
