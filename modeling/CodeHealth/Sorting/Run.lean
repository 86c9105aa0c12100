/-!
# Runs

A list falls into runs: stretches that are in order already, or strictly in reverse order, and are
then turned round. A run that is short is filled up from what follows; every further element is
inserted behind the elements that it does not precede. Its place is found by bisection.

The runs hold the elements of the list, each as often as the list does (`perm_flatten_runs`).
-/

namespace CodeHealth.Sorting

variable {α : Type}

/-- Inserts an element into a list in order. The middle of the list decides on which side. -/
def insert (before : α → α → Bool) (x : α) (xs : List α) : List α :=
  match _h : xs.drop (xs.length / 2) with
  | [] => [x]
  | y :: above =>
    if before x y then insert before x (xs.take (xs.length / 2)) ++ y :: above
    else xs.take (xs.length / 2) ++ y :: insert before x above
termination_by xs.length
decreasing_by
  all_goals
    have hlength := congrArg List.length _h
    simp only [List.length_drop, List.length_cons, List.length_take] at hlength ⊢
    omega

/-- Splits what follows an element into the run that continues it and the rest. -/
def splitRun (continues : α → α → Bool) (x : α) : List α → List α × List α
  | [] => ([], [])
  | y :: rest =>
    if continues x y then
      let (run, rest) := splitRun continues y rest
      (y :: run, rest)
    else ([], y :: rest)

/-- The run that a list begins with, in order, and the rest. -/
def firstRun (before : α → α → Bool) : List α → List α × List α
  | [] => ([], [])
  | [x] => ([x], [])
  | x :: y :: rest =>
    if before y x then
      let (run, rest) := splitRun (fun a b => before b a) x (y :: rest)
      ((x :: run).reverse, rest)
    else
      let (run, rest) := splitRun (fun a b => !before b a) x (y :: rest)
      (x :: run, rest)

/-- The first run, filled up to a least length as far as there are elements, and the rest. -/
def filledRun (before : α → α → Bool) (least : Nat) (xs : List α) : List α × List α :=
  let (run, rest) := firstRun before xs
  let missing := least - run.length
  ((rest.take missing).foldl (fun run x => insert before x run) run, rest.drop missing)

theorem perm_insert (before : α → α → Bool) (x : α) (xs : List α) :
    (insert before x xs).Perm (x :: xs) := by
  fun_induction insert before x xs with
  | case1 xs h =>
    have hlength := congrArg List.length h
    simp only [List.length_drop, List.length_nil] at hlength
    obtain rfl : xs = [] := List.eq_nil_of_length_eq_zero (by omega)
    rfl
  | case2 xs y above h _ ih =>
    have hxs : xs.take (xs.length / 2) ++ y :: above = xs := by rw [← h, List.take_append_drop]
    have := ih.append_right (y :: above)
    rwa [List.cons_append, hxs] at this
  | case3 xs y above h _ ih =>
    have hxs : xs.take (xs.length / 2) ++ y :: above = xs := by rw [← h, List.take_append_drop]
    refine ((ih.cons y).trans (List.Perm.swap x y above)).append_left _ |>.trans ?_
    exact List.perm_middle.trans (by rw [hxs])

theorem append_splitRun (continues : α → α → Bool) (x : α) (xs : List α) :
    (splitRun continues x xs).1 ++ (splitRun continues x xs).2 = xs := by
  fun_induction splitRun continues x xs <;> simp_all

theorem perm_firstRun (before : α → α → Bool) (xs : List α) :
    ((firstRun before xs).1 ++ (firstRun before xs).2).Perm xs := by
  match xs with
  | [] => exact .refl _
  | [x] => exact .refl _
  | x :: y :: rest =>
    rw [firstRun]
    split
    · refine ((List.reverse_perm _).append_right _).trans ?_
      rw [List.cons_append, append_splitRun]
    · rw [List.cons_append, append_splitRun]

theorem firstRun_ne_nil (before : α → α → Bool) (x : α) (xs : List α) :
    (firstRun before (x :: xs)).1 ≠ [] := by
  cases xs with
  | nil => simp [firstRun]
  | cons y rest => rw [firstRun]; split <;> simp

theorem perm_foldl_insert (before : α → α → Bool) (sorted rest : List α) :
    (rest.foldl (fun sorted x => insert before x sorted) sorted).Perm (sorted ++ rest) := by
  induction rest generalizing sorted with
  | nil => simp
  | cons x rest ih =>
    refine (ih _).trans ?_
    refine ((perm_insert before x sorted).append_right rest).trans ?_
    rw [List.cons_append]
    exact List.perm_middle.symm

theorem perm_filledRun (before : α → α → Bool) (least : Nat) (xs : List α) :
    ((filledRun before least xs).1 ++ (filledRun before least xs).2).Perm xs := by
  have hfill := perm_foldl_insert before (firstRun before xs).1
    ((firstRun before xs).2.take (least - (firstRun before xs).1.length))
  refine (hfill.append_right _).trans ?_
  simp only [filledRun]
  rw [List.append_assoc, List.take_append_drop]
  exact perm_firstRun before xs

/-- A filled run takes at least one element. -/
theorem length_filledRun_lt (before : α → α → Bool) (least : Nat) (x : α) (xs : List α) :
    (filledRun before least (x :: xs)).2.length < (x :: xs).length := by
  have hlength := (perm_firstRun before (x :: xs)).length_eq
  have hpos := List.length_pos_iff.mpr (firstRun_ne_nil before x xs)
  have hdrop : (filledRun before least (x :: xs)).2.length
      ≤ (firstRun before (x :: xs)).2.length := by
    simp only [filledRun, List.length_drop]
    omega
  rw [List.length_append] at hlength
  omega

def runs (before : α → α → Bool) (least : Nat) : List α → List (List α)
  | [] => []
  | x :: xs =>
    (filledRun before least (x :: xs)).1 :: runs before least (filledRun before least (x :: xs)).2
termination_by xs => xs.length
decreasing_by exact length_filledRun_lt before least x xs

theorem perm_flatten_runs (before : α → α → Bool) (least : Nat) (xs : List α) :
    (runs before least xs).flatten.Perm xs := by
  fun_induction runs before least xs with
  | case1 => rfl
  | case2 x xs ih =>
    rw [List.flatten_cons]
    exact (ih.append_left _).trans (perm_filledRun before least (x :: xs))

end CodeHealth.Sorting
