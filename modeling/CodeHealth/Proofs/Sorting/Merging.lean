import CodeHealth.Sorting.Merge

/-!
# Merging keeps the order

Two runs in order are merged into one in order (`ordered_merge`), as long as elements that do not
compare with each other are interchangeable. From whichever side a merge goes on, and whether it
moves elements one by one or by leaps, what it has merged stays in order in front of what is left of
either run (`Merge.Sound`).

To count by leaps is to count one by one, where no element passes after one has failed
(`of_mem_take_leading`, `of_mem_drop_leading`).
-/

namespace CodeHealth.Sorting

variable {α : Type} {before : α → α → Bool}

/-! ### Order -/

/-- A strict order in which elements that do not compare with each other are interchangeable. -/
structure Weak (before : α → α → Bool) : Prop where
  asymm {x y : α} : before x y = true → before y x = false
  trans {x y z : α} : before y x = false → before z y = false → before z x = false

/-- Whether no element of a list comes before one that stands in front of it. -/
def Ordered (before : α → α → Bool) (xs : List α) : Prop :=
  xs.Pairwise fun x y => before y x = false

theorem Weak.irrefl (h : Weak before) (x : α) : before x x = false :=
  Bool.eq_false_iff.mpr fun hx => Bool.eq_false_iff.mp (h.asymm hx) hx

theorem Weak.flip (h : Weak before) : Weak fun x y => before y x where
  asymm hxy := h.asymm hxy
  trans hxy hyz := h.trans hyz hxy

/-- Read from either side, the order is one of the same sort. -/
theorem Weak.precedes (h : Weak before) (side : End) : Weak (side.precedes before) := by
  cases side with
  | front => exact h
  | back => exact h.flip

theorem ordered_reverse {xs : List α} :
    Ordered (fun x y => before y x) xs.reverse ↔ Ordered before xs :=
  List.pairwise_reverse

/-! ### Counting by leaps -/

section Leading

variable {passes : Nat → Bool} {side : End}

/-- Whether a place is the first one to fail. -/
def FirstFailure (passes : Nat → Bool) (place : Nat) : Prop :=
  (∀ i < place, passes i = true) ∧ passes place = false

/-- Halving a gap ends at the first place to fail. -/
theorem firstFailure_bisect (hmono : ∀ i j, i ≤ j → passes j = true → passes i = true)
    {low high : Nat} (hle : low ≤ high) (hlow : ∀ i < low, passes i = true)
    (hhigh : passes high = false) : FirstFailure passes (bisect side passes low high) := by
  fun_induction bisect side passes low high with
  | case1 low high hlt hpasses ih =>
    refine ih (side.middle_lt hlt) (fun i hi => ?_) hhigh
    exact hmono i _ (Nat.le_of_lt_succ hi) hpasses
  | case2 low high hlt hfails ih =>
    exact ih (side.le_middle hlt) hlow (Bool.eq_false_iff.mpr hfails)
  | case3 low high hge =>
    obtain rfl : low = high := by omega
    exact ⟨hlow, hhigh⟩

/-- The gap that leaps end in holds the first place to fail. -/
theorem gap_spec (hmono : ∀ i j, i ≤ j → passes j = true → passes i = true)
    {count passed next : Nat} (hcount : passes count = false) (hpassed : passes passed = true)
    (hlt : passed < next) :
    (gap passes count passed next).1 ≤ (gap passes count passed next).2 ∧
      (∀ i < (gap passes count passed next).1, passes i = true) ∧
      passes (gap passes count passed next).2 = false := by
  have hpast : ∀ i, count ≤ i → passes i = false := by
    intro i hi
    refine Bool.eq_false_iff.mpr fun hpasses => ?_
    rw [hmono count i hi hpasses] at hcount
    contradiction
  fun_induction gap passes count passed next with
  | case1 passed next hnext ih => exact ih hnext.2 (by omega)
  | case2 passed next hnext =>
    have hbound : passed < count := by
      refine Nat.lt_of_not_le fun hle => ?_
      rw [hpast passed hle] at hpassed
      contradiction
    refine ⟨Nat.le_min.mpr ⟨hlt, hbound⟩,
      fun i hi => hmono i passed (Nat.le_of_lt_succ hi) hpassed, ?_⟩
    by_cases hin : next < count
    · change passes (Nat.min next count) = false
      have hmin : Nat.min next count = next := Nat.min_eq_left (Nat.le_of_lt hin)
      rw [hmin]
      exact Bool.eq_false_iff.mpr fun hpasses => hnext ⟨hin, hpasses⟩
    · exact hpast _ (Nat.le_min.mpr ⟨Nat.le_of_not_lt hin, Nat.le_refl count⟩)

variable {p : α → Bool} {xs : List α}

theorem any_getElem?_mono (h : xs.Pairwise fun x y => p y = true → p x = true) (i j : Nat)
    (hij : i ≤ j) (hj : xs[j]?.any p = true) : xs[i]?.any p = true := by
  obtain ⟨y, hy, hp⟩ := (Option.any_eq_true p _).mp hj
  obtain ⟨hlt, rfl⟩ := List.getElem?_eq_some_iff.mp hy
  refine (Option.any_eq_true p _).mpr ⟨xs[i], List.getElem?_eq_getElem (by omega), ?_⟩
  obtain rfl | hlt' := Nat.eq_or_lt_of_le hij
  · exact hp
  · exact List.pairwise_iff_getElem.mp h i j _ hlt hlt' hp

theorem firstFailure_leading (h : xs.Pairwise fun x y => p y = true → p x = true) :
    FirstFailure (fun i => xs[i]?.any p) (leading side p xs) := by
  have hmono := any_getElem?_mono h
  have hcount : xs[xs.length]?.any p = false := by
    rw [List.getElem?_eq_none (Nat.le_refl xs.length)]
    rfl
  rw [leading]
  split
  · rename_i hhead
    rw [List.head?_eq_getElem?] at hhead
    obtain ⟨hle, hlow, hhigh⟩ := gap_spec hmono hcount hhead Nat.zero_lt_one
    exact firstFailure_bisect hmono hle hlow hhigh
  · rename_i hhead
    rw [List.head?_eq_getElem?] at hhead
    exact ⟨nofun, Bool.eq_false_iff.mpr hhead⟩

/-- What is counted passes. -/
theorem of_mem_take_leading (h : xs.Pairwise fun x y => p y = true → p x = true) {x : α}
    (hx : x ∈ xs.take (leading side p xs)) : p x = true := by
  obtain ⟨i, hi, rfl⟩ := List.mem_take_iff_getElem.mp hx
  have hpasses : xs[i]?.any p = true := (firstFailure_leading h).1 i (Nat.lt_min.mp hi).1
  rwa [List.getElem?_eq_getElem (by omega)] at hpasses

/-- What is not counted fails. -/
theorem of_mem_drop_leading (h : xs.Pairwise fun x y => p y = true → p x = true) {x : α}
    (hx : x ∈ xs.drop (leading side p xs)) : p x = false := by
  obtain ⟨i, hi, rfl⟩ := List.mem_drop_iff_getElem.mp hx
  refine Bool.eq_false_iff.mpr fun hp => ?_
  have hfails : xs[leading side p xs]?.any p = false := (firstFailure_leading h).2
  have hpasses := any_getElem?_mono h (leading side p xs) (leading side p xs + i)
    (Nat.le_add_right _ _)
    ((Option.any_eq_true p _).mpr ⟨_, List.getElem?_eq_getElem (by omega), hp⟩)
  rw [hpasses] at hfails
  contradiction

end Leading

/-! ### What is merged -/

section Lists

variable {xs ys : List α} {y : α}

theorem Ordered.sublist (h : Ordered before ys) (hsub : xs.Sublist ys) : Ordered before xs :=
  List.Pairwise.sublist hsub h

/-- What does not go behind the head of a list does not go behind the rest of it. -/
theorem Ordered.le_of_le_head (hys : Ordered before (y :: ys)) (hbefore : Weak before) {x : α}
    (hxy : before y x = false) : ∀ z ∈ y :: ys, before z x = false := by
  intro z hz
  obtain rfl | hz := List.mem_cons.mp hz
  · exact hxy
  · exact hbefore.trans hxy ((List.pairwise_cons.mp hys).1 z hz)

/-- What does not go behind the head of a list can stand in front of it. -/
theorem Ordered.append_cons (hxs : Ordered before xs) (hys : Ordered before (y :: ys))
    (hbefore : Weak before) (hle : ∀ x ∈ xs, before y x = false) :
    Ordered before (xs ++ y :: ys) := by
  refine List.pairwise_append.mpr ⟨hxs, hys, fun x hx => ?_⟩
  exact hys.le_of_le_head hbefore (hle x hx)

theorem Ordered.le_getLast (hxs : Ordered before xs) (hbefore : Weak before)
    (hx : xs.getLast? = some y) : ∀ a ∈ xs, before y a = false := by
  obtain ⟨front, rfl⟩ := List.getLast?_eq_some_iff.mp hx
  intro a ha
  obtain ha | ha := List.mem_append.mp ha
  · exact (List.pairwise_append.mp hxs).2.2 a ha y List.mem_cons_self
  · rw [List.mem_singleton.mp ha]
    exact hbefore.irrefl y

/-- What comes before an element stands in front of what does not. -/
theorem Ordered.pairwise_before (h : Ordered before xs) (hbefore : Weak before) (y : α) :
    xs.Pairwise fun a b => before b y = true → before a y = true := by
  refine h.imp fun {a b} hab hb => ?_
  refine (Bool.eq_false_or_eq_true _).resolve_right fun ha => ?_
  rw [hbefore.trans ha hab] at hb
  contradiction

/-- What an element does not come before stands in front of what it does. -/
theorem Ordered.pairwise_not_before (h : Ordered before xs) (hbefore : Weak before) (x : α) :
    xs.Pairwise fun a b => (!before x b) = true → (!before x a) = true := by
  refine h.imp fun {a b} hab hb => ?_
  rw [Bool.not_eq_true'] at hb ⊢
  exact hbefore.trans hab hb

end Lists

namespace Merge

/-- What is merged, the latest first, stands in order in front of what is left of either run, and
the last element of all is left in the closing run as long as that run has any. -/
structure Sound (before : α → α → Bool) (merged opening closing : List α) : Prop where
  ordered_opening : Ordered before (merged.reverse ++ opening)
  ordered_closing : Ordered before (merged.reverse ++ closing)
  le_last : ∀ x ∈ opening, ∀ y ∈ closing.getLast?, before y x = false

namespace Sound

variable {merged moved rest xs ys : List α} {x y : α}

theorem opening (h : Sound before merged xs ys) : Ordered before xs :=
  h.ordered_opening.sublist (List.sublist_append_right _ _)

theorem closing (h : Sound before merged xs ys) : Ordered before ys :=
  h.ordered_closing.sublist (List.sublist_append_right _ _)

/-- The head of one run goes behind what is moved from the other one. -/
theorem ordered_moved (hbefore : Weak before)
    (hmoved : Ordered before (merged.reverse ++ (moved ++ rest)))
    (hhead : Ordered before (merged.reverse ++ y :: ys)) (hle : ∀ x ∈ moved, before y x = false)
    (hge : ∀ x ∈ rest, before x y = false) :
    Ordered before ((y :: (moved.reverse ++ merged)).reverse ++ rest) ∧
      Ordered before ((y :: (moved.reverse ++ merged)).reverse ++ ys) := by
  have hfront : Ordered before (merged.reverse ++ moved) :=
    hmoved.sublist ((List.sublist_append_left moved rest).append_left _)
  have hrest : Ordered before rest :=
    hmoved.sublist ((List.sublist_append_right moved rest).trans (List.sublist_append_right _ _))
  have hys : Ordered before (y :: ys) := hhead.sublist (List.sublist_append_right _ _)
  have hbelow : ∀ x ∈ merged.reverse ++ moved, before y x = false := by
    intro x hx
    obtain hx | hx := List.mem_append.mp hx
    · exact (List.pairwise_append.mp hhead).2.2 x hx y List.mem_cons_self
    · exact hle x hx
  have hreverse (zs : List α) : (y :: (moved.reverse ++ merged)).reverse ++ zs =
      (merged.reverse ++ moved) ++ y :: zs := by
    simp
  rw [hreverse, hreverse]
  exact ⟨hfront.append_cons (List.pairwise_cons.mpr ⟨hge, hrest⟩) hbefore hbelow,
    hfront.append_cons hys hbefore hbelow⟩

theorem moveOpening (hbefore : Weak before) (h : Sound before merged (moved ++ rest) (y :: ys))
    (hle : ∀ x ∈ moved, before y x = false) (hge : ∀ x ∈ rest, before x y = false) :
    Sound before (y :: (moved.reverse ++ merged)) rest ys := by
  obtain ⟨hopening, hclosing⟩ := ordered_moved hbefore h.ordered_opening h.ordered_closing hle hge
  refine ⟨hopening, hclosing, fun x hx z hz => h.le_last x (List.mem_append_right _ hx) z ?_⟩
  rw [List.getLast?_cons, Option.mem_def.mp hz]
  rfl

theorem moveClosing (hbefore : Weak before) (h : Sound before merged (x :: xs) (moved ++ rest))
    (hle : ∀ y ∈ moved, before x y = false) (hge : ∀ y ∈ rest, before y x = false) :
    Sound before (x :: (moved.reverse ++ merged)) xs rest := by
  obtain ⟨hclosing, hopening⟩ := ordered_moved hbefore h.ordered_closing h.ordered_opening hle hge
  refine ⟨hopening, hclosing, fun a ha z hz => h.le_last a (List.mem_cons_of_mem _ ha) z ?_⟩
  rw [List.getLast?_append, Option.mem_def.mp hz]
  rfl

/-- A merge begins with the head of the opening run. -/
theorem start (hxs : Ordered before (x :: xs)) (hys : Ordered before ys)
    (hle : ∀ y ∈ ys, before y x = false)
    (hlast : ∀ a ∈ x :: xs, ∀ y ∈ ys.getLast?, before y a = false) :
    Sound before [x] xs ys where
  ordered_opening := hxs
  ordered_closing := List.pairwise_cons.mpr ⟨hle, hys⟩
  le_last a ha := hlast a (List.mem_cons_of_mem x ha)

/-- What is left is in order where the opening run is used up or one element of the other
is left. -/
theorem ordered_of_finished (hbefore : Weak before) (h : Sound before merged xs ys)
    (hfinished : xs = [] ∨ ys.drop 1 = []) : Ordered before (merged.reverse ++ (xs ++ ys)) := by
  obtain rfl | hdrop := hfinished
  · exact h.ordered_closing
  · cases ys with
    | nil => simpa using h.ordered_opening
    | cons y ys =>
      obtain rfl : ys = [] := hdrop
      rw [← List.append_assoc]
      refine h.ordered_opening.append_cons (List.pairwise_singleton _ y) hbefore fun x hx => ?_
      obtain hx | hx := List.mem_append.mp hx
      · exact (List.pairwise_append.mp h.ordered_closing).2.2 x hx y List.mem_cons_self
      · exact h.le_last x hx y rfl

end Sound

/-! ### One step of a merge -/

variable {side : End} {m : Merge α}

/-- Whether a merge from one side is sound. -/
def SoundFrom (before : α → α → Bool) (side : End) (m : Merge α) : Prop :=
  Sound (side.precedes before) m.merged m.opening m.closing

theorem SoundFrom.takeOne (hbefore : Weak before) (h : m.SoundFrom before side)
    (opened closed : Nat) : (m.takeOne before side opened closed).SoundFrom before side := by
  have hprecedes := hbefore.precedes side
  unfold Merge.takeOne
  split
  · rename_i x opening y closing hopening hclosing
    rw [SoundFrom, hopening, hclosing] at h
    split
    · rename_i hxy
      rw [SoundFrom, hclosing]
      have hnone : ∀ z ∈ ([] : List α), side.precedes before x z = false := nofun
      exact Sound.moveClosing hprecedes h hnone
        (h.closing.le_of_le_head hprecedes (hprecedes.asymm hxy))
    · rename_i hxy
      rw [SoundFrom, hopening]
      have hnone : ∀ z ∈ ([] : List α), side.precedes before y z = false := nofun
      exact Sound.moveOpening hprecedes h hnone
        (h.opening.le_of_le_head hprecedes (Bool.eq_false_iff.mpr hxy))
  · exact h

theorem SoundFrom.leapOpening (hbefore : Weak before) (h : m.SoundFrom before side) :
    (m.leapOpening before side).2.SoundFrom before side := by
  have hprecedes := hbefore.precedes side
  unfold Merge.leapOpening
  split
  · exact h
  · rename_i y closing hclosing
    have hpairwise := h.opening.pairwise_before hprecedes y
    rw [SoundFrom, hclosing] at h
    refine Sound.moveOpening hprecedes (by rwa [List.take_append_drop])
      (fun x hx => ?_) fun x hx => ?_
    · exact hprecedes.asymm (of_mem_take_leading hpairwise hx)
    · exact of_mem_drop_leading hpairwise hx

theorem SoundFrom.leapClosing (hbefore : Weak before) (h : m.SoundFrom before side) :
    (m.leapClosing before side).2.SoundFrom before side := by
  have hprecedes := hbefore.precedes side
  unfold Merge.leapClosing
  split
  · exact h
  · rename_i x opening hopening
    have hpairwise := h.closing.pairwise_not_before hprecedes x
    rw [SoundFrom, hopening] at h
    refine Sound.moveClosing hprecedes (by rwa [List.take_append_drop])
      (fun y hy => ?_) fun y hy => ?_
    · simpa using of_mem_take_leading hpairwise hy
    · exact hprecedes.asymm (by simpa using of_mem_drop_leading hpairwise hy)

theorem SoundFrom.leapBoth (hbefore : Weak before) (h : m.SoundFrom before side) :
    (m.leapBoth before side).SoundFrom before side := by
  have hleft : (m.leapLeft before side).2.SoundFrom before side := by
    cases side with
    | front => exact h.leapClosing hbefore
    | back => exact h.leapOpening hbefore
  have hright {m : Merge α} (h : m.SoundFrom before side) :
      (m.leapRight before side).2.SoundFrom before side := by
    cases side with
    | front => exact h.leapOpening hbefore
    | back => exact h.leapClosing hbefore
  have hafter {m : Merge α} (h : m.SoundFrom before side) (left right : Nat) :
      (m.afterLeaps left right).SoundFrom before side := by
    unfold afterLeaps
    split
    · exact h
    · split <;> exact h
  rw [Merge.leapBoth]
  split
  · exact hleft
  · exact hafter (hright hleft) _ _

/-- Each step of a merge keeps it sound. -/
theorem SoundFrom.step (hbefore : Weak before) (h : m.SoundFrom before side) :
    (m.step before side).SoundFrom before side := by
  unfold Merge.step
  split
  · exact h.takeOne hbefore _ _
  · exact h.leapBoth hbefore

/-- A sound merge ends in order. -/
theorem ordered_finish (hbefore : Weak before) (h : m.SoundFrom before side) :
    Ordered (side.precedes before) (m.finish before side).1.reverse := by
  fun_induction Merge.finish before side m with
  | case1 m hfinished =>
    have hleft : m.opening = [] ∨ m.closing.drop 1 = [] := by
      rwa [finished, Bool.or_eq_true, List.isEmpty_iff, List.isEmpty_iff] at hfinished
    rw [List.reverse_append, List.reverse_reverse]
    exact Sound.ordered_of_finished (hbefore.precedes side) h hleft
  | case2 m _ ih => exact ih (h.step hbefore)

end Merge

/-! ### Two runs -/

section Runs

variable {low left right high run : List α} {x y : α}

/-- Between what lies at the far ends, two runs may be replaced by one. -/
theorem Ordered.replace (hleft : Ordered before (low ++ left))
    (hright : Ordered before (right ++ high)) (hrun : Ordered before run)
    (hperm : run.Perm (left ++ right)) (hlow : ∀ a ∈ low, ∀ b ∈ right ++ high, before b a = false)
    (hhigh : ∀ a ∈ left, ∀ b ∈ high, before b a = false) :
    Ordered before (low ++ run ++ high) := by
  obtain ⟨hlowOrdered, -, hlowLeft⟩ := List.pairwise_append.mp hleft
  obtain ⟨-, hhighOrdered, hrightHigh⟩ := List.pairwise_append.mp hright
  have hlowRun : ∀ a ∈ low, ∀ b ∈ run, before b a = false := by
    intro a ha b hb
    obtain hb | hb := List.mem_append.mp (hperm.mem_iff.mp hb)
    · exact hlowLeft a ha b hb
    · exact hlow a ha b (List.mem_append_left high hb)
  refine List.pairwise_append.mpr ⟨List.pairwise_append.mpr ⟨hlowOrdered, hrun, hlowRun⟩,
    hhighOrdered, fun a ha b hb => ?_⟩
  obtain ha | ha := List.mem_append.mp ha
  · exact hlow a ha b (List.mem_append_right right hb)
  · obtain ha | ha := List.mem_append.mp (hperm.mem_iff.mp ha)
    · exact hhigh a ha b hb
    · exact hrightHigh a ha b hb

/-- From the front: the head of the right run comes first, and the last of the left one last. -/
theorem ordered_merge_front (hbefore : Weak before) (hleft : Ordered before left)
    (hright : Ordered before right) (hx : left.getLast? = some x) (hy : right.head? = some y)
    (hyleft : ∀ a ∈ left, before y a = true) (hrightx : ∀ b ∈ right, before b x = true)
    (patience : Nat) :
    Ordered before ((Merge.start patience right left).finish before .front).1.reverse := by
  obtain ⟨rest, rfl⟩ := List.head?_eq_some_iff.mp hy
  have hstart : Merge.Sound before [y] rest left := by
    refine Merge.Sound.start hright hleft (fun a ha => hbefore.asymm (hyleft a ha))
      fun b hb z hz => ?_
    rw [hx] at hz
    obtain rfl := Option.some.inj hz
    exact hbefore.asymm (hrightx b hb)
  have hsound : (Merge.start patience (y :: rest) left).SoundFrom before .front := hstart
  exact Merge.ordered_finish hbefore hsound

/-- From the back: the last of the left run comes first, and the head of the right one last. -/
theorem ordered_merge_back (hbefore : Weak before) (hleft : Ordered before left)
    (hright : Ordered before right) (hx : left.getLast? = some x) (hy : right.head? = some y)
    (hyleft : ∀ a ∈ left, before y a = true) (hrightx : ∀ b ∈ right, before b x = true)
    (patience : Nat) : Ordered before
      ((Merge.start patience left.reverse right.reverse).finish before .back).1 := by
  rw [← List.head?_reverse] at hx
  rw [← List.getLast?_reverse] at hy
  obtain ⟨rest, hrest⟩ := List.head?_eq_some_iff.mp hx
  have hstart : Merge.Sound (fun x y => before y x) [x] rest right.reverse := by
    refine Merge.Sound.start (hrest ▸ ordered_reverse.mpr hleft) (ordered_reverse.mpr hright)
      (fun b hb => ?_) fun a ha z hz => ?_
    · exact hbefore.asymm (hrightx b (List.mem_reverse.mp hb))
    · rw [hy] at hz
      obtain rfl := Option.some.inj hz
      rw [← hrest] at ha
      exact hbefore.asymm (hyleft a (List.mem_reverse.mp ha))
  have hsound : (Merge.start patience (x :: rest) right.reverse).SoundFrom before .back := hstart
  rw [hrest]
  exact ordered_reverse.mp (Merge.ordered_finish hbefore hsound)

end Runs

/-- What may stay in front of an element, and what comes behind it. -/
theorem leading_front_spec (hbefore : Weak before) {xs : List α} (hxs : Ordered before xs) (y : α) :
    (∀ a ∈ xs.take (leading .front (fun x => !before y x) xs), before y a = false) ∧
      ∀ a ∈ xs.drop (leading .front (fun x => !before y x) xs), before y a = true := by
  have hpairwise := hxs.pairwise_not_before hbefore y
  exact ⟨fun a ha => (Bool.not_eq_true' _).mp (of_mem_take_leading hpairwise ha),
    fun a ha => (Bool.not_eq_false' _).mp (of_mem_drop_leading hpairwise ha)⟩

/-- What comes in front of an element, and what may stay behind it. -/
theorem leading_back_spec (hbefore : Weak before) {ys : List α} (hys : Ordered before ys) (x : α) :
    (∀ b ∈ ys.take (ys.length - leading .back (fun y => !before y x) ys.reverse),
        before b x = true) ∧
      ∀ b ∈ ys.drop (ys.length - leading .back (fun y => !before y x) ys.reverse),
        before b x = false := by
  have hpairwise : ys.reverse.Pairwise fun a b => (!before b x) = true → (!before a x) = true :=
    (ordered_reverse.mpr hys).pairwise_not_before hbefore.flip x
  constructor
  · intro b hb
    rw [← List.mem_reverse, ← List.drop_reverse] at hb
    exact (Bool.not_eq_false' _).mp (of_mem_drop_leading hpairwise hb)
  · intro b hb
    rw [← List.mem_reverse, ← List.take_reverse] at hb
    exact (Bool.not_eq_true' _).mp (of_mem_take_leading hpairwise hb)

/-- Two runs in order are merged into one in order. -/
theorem ordered_merge (hbefore : Weak before) {xs ys : List α} (hxs : Ordered before xs)
    (hys : Ordered before ys) (patience : Nat) :
    Ordered before (merge before patience xs ys).1 := by
  unfold merge
  split
  · exact hxs
  · rename_i y hy
    obtain ⟨rest, hrest⟩ := List.head?_eq_some_iff.mp hy
    have hyle : ∀ b ∈ ys, before b y = false := by
      rw [hrest] at hys ⊢
      exact hys.le_of_le_head hbefore (hbefore.irrefl y)
    obtain ⟨hlow, hyleft⟩ := leading_front_spec hbefore hxs y
    dsimp only
    generalize leading .front (fun x => !before y x) xs = low at hlow hyleft ⊢
    have hleftOrdered : Ordered before (xs.drop low) := hxs.sublist (List.drop_sublist low xs)
    split
    · rename_i hnone
      have hxsle : ∀ a ∈ xs, before y a = false := by
        rw [List.getLast?_eq_none_iff, List.drop_eq_nil_iff] at hnone
        rwa [List.take_of_length_le hnone] at hlow
      rw [hrest] at hys ⊢
      exact hxs.append_cons hys hbefore hxsle
    · rename_i x hx
      obtain ⟨hrightx, hhigh⟩ := leading_back_spec hbefore hys x
      generalize ys.length - leading .back (fun y => !before y x) ys.reverse = middle
        at hhigh hrightx ⊢
      have hrightOrdered : Ordered before (ys.take middle) :=
        hys.sublist (List.take_sublist middle ys)
      -- The head of the right run goes before the last of the left one, and so is not at its far
      -- end.
      have hyx : before y x = true := hyleft x (List.mem_of_getLast? hx)
      have hyhead : (ys.take middle).head? = some y := by
        rw [List.head?_take, hy, if_neg]
        rintro rfl
        rw [hhigh y (List.mem_of_mem_head? hy)] at hyx
        contradiction
      have hreplace {run : List α} (hrun : Ordered before run)
          (hperm : run.Perm (xs.drop low ++ ys.take middle)) :
          Ordered before (xs.take low ++ run ++ ys.drop middle) := by
        refine Ordered.replace (by rwa [List.take_append_drop])
          (by rwa [List.take_append_drop]) hrun hperm (fun a ha b hb => ?_) fun a ha b hb => ?_
        · rw [List.take_append_drop] at hb
          exact hbefore.trans (hlow a ha) (hyle b hb)
        · exact hbefore.trans (hleftOrdered.le_getLast hbefore hx a ha) (hhigh b hb)
      split
      · refine hreplace
          (ordered_merge_front hbefore hleftOrdered hrightOrdered hx hyhead hyleft hrightx
            patience) ?_
        refine (List.reverse_perm _).trans ((Merge.perm_finish _ _ _).trans ?_)
        exact (Merge.perm_start _ _ _).trans List.perm_append_comm
      · refine hreplace
          (ordered_merge_back hbefore hleftOrdered hrightOrdered hx hyhead hyleft hrightx
            patience) ?_
        refine (Merge.perm_finish _ _ _).trans ((Merge.perm_start _ _ _).trans ?_)
        exact (List.reverse_perm _).append (List.reverse_perm _)

end CodeHealth.Sorting
