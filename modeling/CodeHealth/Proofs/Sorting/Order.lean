import CodeHealth.Proofs.Sorting.Merging
import CodeHealth.Sorting.Basic

/-!
# Sorting puts in order

Every run of a list is in order, and stays so while it is filled up and merged with others
(`ordered_sort`). Where elements that do not compare with each other are equal, a list in order is
determined by its elements: the steps of the sort leave no trace, and a list sorts as any other
arrangement of the same elements does (`sort_eq_of_perm`).
-/

namespace CodeHealth.Sorting

variable {α : Type} {before : α → α → Bool}

/-! ### Runs -/

theorem ordered_insert (hbefore : Weak before) {xs : List α} (hxs : Ordered before xs) (x : α) :
    Ordered before (insert before x xs) := by
  fun_induction insert before x xs with
  | case1 => exact List.pairwise_singleton _ x
  | case2 xs y above hdrop hxy ih =>
    have hsplit : xs = xs.take (xs.length / 2) ++ y :: above := by
      rw [← hdrop, List.take_append_drop]
    rw [hsplit] at hxs
    obtain ⟨htake, habove, hbelow⟩ := List.pairwise_append.mp hxs
    refine (ih htake).append_cons habove hbefore fun z hz => ?_
    obtain rfl | hz := List.mem_cons.mp ((perm_insert before x _).mem_iff.mp hz)
    · exact hbefore.asymm hxy
    · exact hbelow z hz y List.mem_cons_self
  | case3 xs y above hdrop hxy ih =>
    have hsplit : xs = xs.take (xs.length / 2) ++ y :: above := by
      rw [← hdrop, List.take_append_drop]
    rw [hsplit] at hxs
    obtain ⟨htake, habove, hbelow⟩ := List.pairwise_append.mp hxs
    obtain ⟨hhead, habove⟩ := List.pairwise_cons.mp habove
    refine Ordered.append_cons htake (List.pairwise_cons.mpr ⟨fun z hz => ?_, ih habove⟩) hbefore
      fun z hz => hbelow z hz y List.mem_cons_self
    obtain rfl | hz := List.mem_cons.mp ((perm_insert before x _).mem_iff.mp hz)
    · exact Bool.eq_false_iff.mpr hxy
    · exact hhead z hz

/-- In a run every element stands in a transitive relation to all that follow it. -/
theorem pairwise_splitRun {continues : α → α → Bool} (r : α → α → Prop)
    (hr : ∀ {x y}, continues x y = true → r x y) (htrans : ∀ {x y z}, r x y → r y z → r x z) (x : α)
    (xs : List α) : (x :: (splitRun continues x xs).1).Pairwise r := by
  fun_induction splitRun continues x xs with
  | case1 x => exact List.pairwise_singleton _ x
  | case2 x y rest hxy run rest' hsplit ih =>
    rw [hsplit] at ih
    refine List.pairwise_cons.mpr ⟨fun z hz => ?_, ih⟩
    obtain rfl | hz := List.mem_cons.mp hz
    · exact hr hxy
    · exact htrans (hr hxy) ((List.pairwise_cons.mp ih).1 z hz)
  | case3 x y rest hxy => exact List.pairwise_singleton _ x

theorem ordered_firstRun (hbefore : Weak before) (xs : List α) :
    Ordered before (firstRun before xs).1 := by
  match xs with
  | [] => exact List.Pairwise.nil
  | [x] => exact List.pairwise_singleton _ x
  | x :: y :: rest =>
    rw [firstRun]
    split
    · refine List.pairwise_reverse.mpr ?_
      exact pairwise_splitRun (fun a b => before a b = false) (fun h => hbefore.asymm h)
        (fun h h' => hbefore.trans h' h) x (y :: rest)
    · exact pairwise_splitRun (fun a b => before b a = false) (fun h => (Bool.not_eq_true' _).mp h)
        (fun h h' => hbefore.trans h h') x (y :: rest)

theorem ordered_filledRun (hbefore : Weak before) (least : Nat) (xs : List α) :
    Ordered before (filledRun before least xs).1 := by
  have hfill (rest run : List α) (hrun : Ordered before run) :
      Ordered before (rest.foldl (fun run x => insert before x run) run) := by
    induction rest generalizing run with
    | nil => exact hrun
    | cons x rest ih => exact ih _ (ordered_insert hbefore hrun x)
  exact hfill _ _ (ordered_firstRun hbefore xs)

theorem ordered_of_mem_runs (hbefore : Weak before) (least : Nat) (xs : List α) :
    ∀ run ∈ runs before least xs, Ordered before run := by
  fun_induction runs before least xs with
  | case1 => exact fun _ hrun => absurd hrun List.not_mem_nil
  | case2 x xs ih =>
    exact List.forall_mem_cons.mpr ⟨ordered_filledRun hbefore least (x :: xs), ih⟩

/-! ### Runs that wait -/

namespace Pending

/-- Whether all runs that wait are in order. -/
def Sound (before : α → α → Bool) (waiting : List (Waiting α)) : Prop :=
  ∀ w ∈ waiting, Ordered before w.run

variable {waiting : List (Waiting α)}

theorem sound_settle (hbefore : Weak before) (depth patience : Nat) (h : Sound before waiting) :
    Sound before (settle before depth patience waiting).waiting := by
  fun_induction settle before depth patience waiting with
  | case1 patience right left earlier _ merged ih =>
    obtain ⟨hright, hleft, hearlier⟩ :=
      List.forall_mem_cons.mp h |>.imp_right List.forall_mem_cons.mp
    exact ih (List.forall_mem_cons.mpr ⟨ordered_merge hbefore hleft hright patience, hearlier⟩)
  | case2 => exact h
  | case3 => exact h

theorem sound_push (hbefore : Weak before) (count : Nat) {pending : Pending α} {run : List α}
    (h : Sound before pending.waiting) (hrun : Ordered before run) :
    Sound before (pending.push before count run).waiting := by
  unfold push
  split
  · exact List.forall_mem_cons.mpr ⟨hrun, nofun⟩
  · exact List.forall_mem_cons.mpr ⟨hrun, sound_settle hbefore _ _ h⟩

theorem sound_foldl_push (hbefore : Weak before) (count : Nat) {pending : Pending α}
    {runs : List (List α)} (h : Sound before pending.waiting)
    (hruns : ∀ run ∈ runs, Ordered before run) :
    Sound before (runs.foldl (push before count) pending).waiting := by
  induction runs generalizing pending with
  | nil => exact h
  | cons run runs ih =>
    obtain ⟨hrun, hruns⟩ := List.forall_mem_cons.mp hruns
    exact ih (sound_push hbefore count h hrun) hruns

theorem ordered_mergeAll (hbefore : Weak before) (patience : Nat) (h : Sound before waiting) :
    Ordered before (mergeAll before patience waiting) := by
  fun_induction mergeAll before patience waiting with
  | case1 => exact List.Pairwise.nil
  | case2 patience last => exact h last List.mem_cons_self
  | case3 patience right left =>
    obtain ⟨hright, hleft, -⟩ := List.forall_mem_cons.mp h |>.imp_right List.forall_mem_cons.mp
    exact ordered_merge hbefore hleft hright patience
  | case4 patience right middle left earlier _ merged ih =>
    obtain ⟨hright, hmiddle, hleft, hearlier⟩ := List.forall_mem_cons.mp h |>.imp_right fun h =>
      List.forall_mem_cons.mp h |>.imp_right List.forall_mem_cons.mp
    exact ih (List.forall_mem_cons.mpr ⟨hright, List.forall_mem_cons.mpr
      ⟨ordered_merge hbefore hleft hmiddle patience, hearlier⟩⟩)
  | case5 patience right middle left earlier _ merged ih =>
    obtain ⟨hright, hmiddle, hrest⟩ :=
      List.forall_mem_cons.mp h |>.imp_right List.forall_mem_cons.mp
    exact ih (List.forall_mem_cons.mpr ⟨ordered_merge hbefore hmiddle hright patience, hrest⟩)

end Pending

/-! ### Sorted lists -/

/-- Sorting puts a list in order. -/
theorem ordered_sort (hbefore : Weak before) (xs : List α) : Ordered before (sort before xs) :=
  Pending.ordered_mergeAll hbefore _ (Pending.sound_foldl_push hbefore _ nofun
    (ordered_of_mem_runs hbefore _ xs))

/-- Where elements that do not compare are equal, a list in order is the sorted one. -/
theorem sort_eq_of_perm (hbefore : Weak before)
    (heq : ∀ x y, before x y = false → before y x = false → x = y) {xs ys : List α}
    (hperm : ys.Perm xs) (hys : Ordered before ys) : sort before xs = ys :=
  List.Perm.eq_of_pairwise (fun x y _ _ hxy hyx => heq x y hyx hxy) (ordered_sort hbefore xs) hys
    ((perm_sort before xs).trans hperm.symm)

end CodeHealth.Sorting
