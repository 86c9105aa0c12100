import CodeHealth.Engine.Basic

/-!
# Rules on a pool, step by step

Whoever runs rules at the same time submits them in order, and then waits for their results in the
same order. A worker may begin with any rule that has been submitted and finish it at any later
time. A wait ends with the result of the rule, or it is over before the rule has come to an end. In
the second case the task is withdrawn, which is without effect where a worker has begun with it
meanwhile, and an error is noted in place of the result. Results are found by the identifiers of the
rules.

The steps of the two sides may come in any order that these conditions admit. The results depend on
nothing but which waits were over too early (`Batch.Run.collected`).
-/

namespace CodeHealth.Engine

/-- What has become of a rule that was submitted. -/
inductive Task where
  /-- No worker has begun with it. -/
  | pending
  | running
  | finished (o : Outcome)
  /-- It was withdrawn before a worker began with it. -/
  | withdrawn

/-- Rules that are run at the same time, and on what. -/
structure Batch where
  rules : List Rule
  ctx : Context
  /-- How long each of them is waited for. -/
  seconds : Double
  workers : Nat

/-- What happens on a pool, on the side of the workers or on the side of the one who waits. -/
inductive Event where
  /-- The next rule is submitted. -/
  | submit
  /-- A worker begins with a task. -/
  | start (i : Nat)
  | finish (i : Nat)
  /-- The result that is waited for is there. -/
  | take
  /-- The wait is over, and the result is not there. -/
  | expire
  /-- The task that was waited for is withdrawn, if that is still possible, and given up. -/
  | cancel

/-- Whether an event ends a wait, and whether in time. -/
def Event.wait? : Event → Option Bool
  | .take => some true
  | .expire => some false
  | _ => none

/-- The waits of a run, one after the other: whether they ended in time. -/
def waits (trace : List Event) : List Bool :=
  trace.filterMap Event.wait?

/-- A moment of a run on a pool. -/
structure Moment where
  /-- The tasks in the order in which they were submitted. -/
  tasks : List Task := []
  /-- The place of a task, by the identifier of its rule. -/
  futures : Entries String Nat := []
  results : List Outcome := []
  /-- Whether the present wait is over already. -/
  givingUp : Bool := false

namespace Task

/-- Whether a worker is busy with a task. -/
def isRunning : Task → Bool
  | running => true
  | _ => false

/-- Whether nothing more will happen to a task. -/
def isSettled : Task → Bool
  | finished _ | withdrawn => true
  | _ => false

def withdraw : Task → Task
  | pending => withdrawn
  | t => t

end Task

namespace Batch

variable (b : Batch)

/-- What is noted of a rule after its wait. -/
def entry (r : Rule) (inTime : Bool) : Outcome :=
  if inTime then r.outcome b.ctx else .error ⟨r.id, .timedOut b.seconds⟩

/-- Whether the task `i` of a rule is the one that is waited for. -/
structure Awaits (m : Moment) (r : Rule) (i : Nat) : Prop where
  submitted : m.tasks.length = b.rules.length
  next : b.rules[m.results.length]? = some r
  future : Entries.get? r.id m.futures = some i

/-- The steps of a run. -/
inductive Step : Moment → Event → Moment → Prop where
  | submit {m : Moment} {r : Rule} : b.rules[m.tasks.length]? = some r →
      Step m .submit { m with
        tasks := m.tasks ++ [.pending]
        futures := Entries.put r.id m.tasks.length m.futures }
  | start {m : Moment} {i : Nat} : m.tasks[i]? = some .pending →
      m.tasks.countP Task.isRunning < b.workers →
      Step m (.start i) { m with tasks := m.tasks.set i .running }
  | finish {m : Moment} {i : Nat} {r : Rule} : m.tasks[i]? = some .running →
      b.rules[i]? = some r →
      Step m (.finish i) { m with tasks := m.tasks.set i (.finished (r.outcome b.ctx)) }
  | take {m : Moment} {r : Rule} {i : Nat} {o : Outcome} : m.givingUp = false →
      b.Awaits m r i → m.tasks[i]? = some (.finished o) →
      Step m .take { m with results := m.results ++ [o] }
  | expire {m : Moment} {r : Rule} {i : Nat} : m.givingUp = false → b.Awaits m r i →
      (∀ o, m.tasks[i]? ≠ some (.finished o)) →
      Step m .expire { m with givingUp := true }
  | cancel {m : Moment} {r : Rule} {i : Nat} : m.givingUp = true → b.Awaits m r i →
      Step m .cancel { m with
        tasks := m.tasks.modify i Task.withdraw
        results := m.results ++ [b.entry r false]
        givingUp := false }

/-- The events of a run from the beginning, and the moment after them. -/
inductive Run : List Event → Moment → Prop where
  | nil : Run [] {}
  | snoc {trace : List Event} {m m' : Moment} {e : Event} :
      Run trace m → b.Step m e m' → Run (trace ++ [e]) m'

/-- What holds throughout a run, for the waits that have come to an end. -/
structure Valid (flags : List Bool) (m : Moment) : Prop where
  tasks_le : m.tasks.length ≤ b.rules.length
  future {i : Nat} {r : Rule} : i < m.tasks.length → b.rules[i]? = some r →
    Entries.get? r.id m.futures = some i
  /-- A result is that of the rule. -/
  finished {i : Nat} {r : Rule} {o : Outcome} : b.rules[i]? = some r →
    m.tasks[i]? = some (.finished o) → o = r.outcome b.ctx
  /-- Only what is waited for no more has been withdrawn. -/
  withdrawn {i : Nat} : m.tasks[i]? = some .withdrawn → i < m.results.length
  results_le : m.results.length ≤ b.rules.length
  givingUp : m.givingUp = true → m.tasks.length = b.rules.length ∧
    m.results.length < b.rules.length ∧ flags[m.results.length]? = some false
  waited : flags.length = m.results.length + m.givingUp.toNat
  entries {i : Nat} {r : Rule} {o : Outcome} : b.rules[i]? = some r → m.results[i]? = some o →
    ∃ inTime, flags[i]? = some inTime ∧ o = b.entry r inTime

/-- Whether a run is over: there is a result for every rule, and all workers are free for good. -/
structure Complete (m : Moment) : Prop where
  results : m.results.length = b.rules.length
  tasks : ∀ t ∈ m.tasks, t.isSettled = true
  submitted : m.tasks.length = b.rules.length

/-! ### What a step preserves -/

variable {b}

theorem valid_empty : b.Valid [] {} where
  tasks_le := Nat.zero_le _
  future hi := absurd hi (Nat.not_lt_zero _)
  finished _ h := by simp at h
  withdrawn h := by simp at h
  results_le := Nat.zero_le _
  givingUp h := by simp at h
  waited := rfl
  entries _ h := by simp at h

section Step

variable {flags : List Bool} {m m' : Moment}

/-- The task that is waited for is the one of the next rule. -/
theorem Awaits.index_eq {r : Rule} {i : Nat} (h : b.Awaits m r i) (hm : b.Valid flags m) :
    i = m.results.length := by
  have hlt : m.results.length < m.tasks.length := by
    rw [h.submitted]
    exact (List.getElem?_eq_some_iff.mp h.next).1
  have hfuture := hm.future hlt h.next
  rw [h.future] at hfuture
  exact Option.some.inj hfuture

theorem index_eq_of_id_eq (hids : (b.rules.map Rule.id).Nodup) {i j : Nat} {r s : Rule}
    (hr : b.rules[i]? = some r) (hs : b.rules[j]? = some s) (h : r.id = s.id) : i = j := by
  obtain ⟨hi, -⟩ := List.getElem?_eq_some_iff.mp hr
  refine (List.getElem?_inj (by simpa using hi) hids).mp ?_
  rw [List.getElem?_map, List.getElem?_map, hr, hs, Option.map_some, Option.map_some, h]

theorem Valid.submit (hm : b.Valid flags m) (hids : (b.rules.map Rule.id).Nodup) {r : Rule}
    (hr : b.rules[m.tasks.length]? = some r) :
    b.Valid flags { m with
      tasks := m.tasks ++ [.pending]
      futures := Entries.put r.id m.tasks.length m.futures } := by
  obtain ⟨hlt, -⟩ := List.getElem?_eq_some_iff.mp hr
  have htask {i : Nat} {t : Task} (ht : (m.tasks ++ [.pending])[i]? = some t) :
      m.tasks[i]? = some t ∨ t = .pending := by
    rw [List.getElem?_append] at ht
    split at ht
    · exact .inl ht
    · exact .inr (List.mem_singleton.mp (List.mem_of_getElem? ht))
  refine ⟨?_, ?_, ?_, ?_, hm.results_le, ?_, hm.waited, hm.entries⟩
  · rw [List.length_append]
    exact hlt
  · intro i s hi hs
    rw [Entries.put, Entries.get?_alter]
    -- Rules of one identifier would share a future, and the first of them would never be awaited.
    by_cases hid : r.id = s.id
    · rw [if_pos hid, index_eq_of_id_eq hids hr hs hid]
    · rw [if_neg hid]
      refine hm.future (Nat.lt_of_le_of_ne ?_ ?_) hs
      · simpa using Nat.le_of_lt_succ (by simpa using hi)
      · rintro rfl
        rw [hr] at hs
        exact hid (congrArg Rule.id (Option.some.inj hs))
  · intro i s o hs ho
    obtain ho | ho := htask ho
    · exact hm.finished hs ho
    · contradiction
  · intro i hi
    obtain hi | hi := htask hi
    · exact hm.withdrawn hi
    · contradiction
  · intro hgiving
    exact absurd (hm.givingUp hgiving).1 (Nat.ne_of_lt hlt)

/-- A worker changes nothing but the task it is busy with. -/
theorem Valid.set (hm : b.Valid flags m) {i : Nat} {t : Task} (hwithdrawn : t ≠ .withdrawn)
    (hfinished : ∀ r o, b.rules[i]? = some r → t = .finished o → o = r.outcome b.ctx) :
    b.Valid flags { m with tasks := m.tasks.set i t } := by
  have htask {j : Nat} {u : Task} (hu : (m.tasks.set i t)[j]? = some u) :
      m.tasks[j]? = some u ∨ i = j ∧ u = t := by
    rw [List.getElem?_set] at hu
    split at hu
    · split at hu
      · exact .inr ⟨‹i = j›, (Option.some.inj hu).symm⟩
      · contradiction
    · exact .inl hu
  have hlength : (m.tasks.set i t).length = m.tasks.length := List.length_set
  refine ⟨?_, ?_, ?_, ?_, hm.results_le, ?_, hm.waited, hm.entries⟩
  · rw [hlength]
    exact hm.tasks_le
  · intro j s hj hs
    exact hm.future (by rwa [hlength] at hj) hs
  · intro j s o hs ho
    obtain hold | ⟨rfl, hnew⟩ := htask ho
    · exact hm.finished hs hold
    · exact hfinished s o hs hnew.symm
  · intro j hj
    obtain hj | ⟨-, hj⟩ := htask hj
    · exact hm.withdrawn hj
    · exact absurd hj.symm hwithdrawn
  · intro hgiving
    rw [hlength]
    exact hm.givingUp hgiving

/-- What is noted of the next rule, after a wait that ended in time or not. -/
theorem Valid.entries_concat (hm : b.Valid flags m) {more : List Bool} {r : Rule} {inTime : Bool}
    (hr : b.rules[m.results.length]? = some r)
    (hflag : (flags ++ more)[m.results.length]? = some inTime) {i : Nat} {s : Rule} {o : Outcome}
    (hs : b.rules[i]? = some s) (ho : (m.results ++ [b.entry r inTime])[i]? = some o) :
    ∃ inTime, (flags ++ more)[i]? = some inTime ∧ o = b.entry s inTime := by
  rw [List.getElem?_append] at ho
  split at ho
  · obtain ⟨inTime', hflag', rfl⟩ := hm.entries hs ho
    refine ⟨inTime', ?_, rfl⟩
    rw [List.getElem?_append_left (List.getElem?_eq_some_iff.mp hflag').1, hflag']
  · have hi : i = m.results.length := by
      have := (List.getElem?_eq_some_iff.mp ho).1
      rw [List.length_singleton] at this
      omega
    subst hi
    rw [hr] at hs
    obtain rfl := Option.some.inj hs
    exact ⟨inTime, hflag, by simpa using ho.symm⟩

theorem Valid.take (hm : b.Valid flags m) (hgiving : m.givingUp = false) {r : Rule} {i : Nat}
    {o : Outcome} (hnext : b.Awaits m r i) (ho : m.tasks[i]? = some (.finished o)) :
    b.Valid (flags ++ [true]) { m with results := m.results ++ [o] } := by
  obtain rfl := hnext.index_eq hm
  obtain rfl : o = b.entry r true := hm.finished hnext.next ho
  obtain ⟨hlt, -⟩ := List.getElem?_eq_some_iff.mp hnext.next
  have hwaited : flags.length = m.results.length := by simpa [hgiving] using hm.waited
  have hflag : (flags ++ [true])[m.results.length]? = some true := by simp [← hwaited]
  refine ⟨hm.tasks_le, hm.future, hm.finished, ?_, ?_, ?_, ?_, hm.entries_concat hnext.next hflag⟩
  · intro i hi
    have := hm.withdrawn hi
    rw [List.length_append, List.length_singleton]
    omega
  · rw [List.length_append]
    exact hlt
  · intro h
    rw [hgiving] at h
    contradiction
  · simp [hgiving, hwaited]

theorem Valid.expire (hm : b.Valid flags m) (hgiving : m.givingUp = false) {r : Rule} {i : Nat}
    (hnext : b.Awaits m r i) : b.Valid (flags ++ [false]) { m with givingUp := true } := by
  obtain ⟨hlt, -⟩ := List.getElem?_eq_some_iff.mp hnext.next
  have hwaited : flags.length = m.results.length := by simpa [hgiving] using hm.waited
  refine ⟨hm.tasks_le, hm.future, hm.finished, hm.withdrawn, hm.results_le, ?_, ?_, ?_⟩
  · intro _
    exact ⟨hnext.submitted, hlt, by simp [← hwaited]⟩
  · simp [hwaited]
  · intro i s o hs ho
    obtain ⟨inTime, hflag, rfl⟩ := hm.entries hs ho
    refine ⟨inTime, ?_, rfl⟩
    rw [List.getElem?_append_left (List.getElem?_eq_some_iff.mp hflag).1, hflag]

theorem Valid.cancel (hm : b.Valid flags m) (hgiving : m.givingUp = true) {r : Rule} {i : Nat}
    (hnext : b.Awaits m r i) : b.Valid flags { m with
      tasks := m.tasks.modify i Task.withdraw
      results := m.results ++ [b.entry r false]
      givingUp := false } := by
  obtain rfl := hnext.index_eq hm
  obtain ⟨-, hlt, hflag⟩ := hm.givingUp hgiving
  have htask {j : Nat} {u : Task}
      (hu : (m.tasks.modify m.results.length Task.withdraw)[j]? = some u) :
      m.tasks[j]? = some u ∨ m.results.length = j ∧ u = .withdrawn := by
    rw [List.getElem?_modify] at hu
    obtain ⟨t, ht, hu⟩ := Option.map_eq_some_iff.mp hu
    split at hu
    · cases t with
      | pending => exact .inr ⟨‹_›, hu.symm⟩
      | _ => exact .inl (hu ▸ ht)
    · exact .inl (hu ▸ ht)
  have hlength : (m.tasks.modify m.results.length Task.withdraw).length = m.tasks.length :=
    List.length_modify ..
  refine ⟨?_, ?_, ?_, ?_, ?_, ?_, ?_, ?_⟩
  · rw [hlength]
    exact hm.tasks_le
  · intro j s hj hs
    exact hm.future (by rwa [hlength] at hj) hs
  · intro j s o hs ho
    obtain hold | ⟨-, hnew⟩ := htask ho
    · exact hm.finished hs hold
    · contradiction
  · intro j hj
    rw [List.length_append, List.length_singleton]
    obtain hold | ⟨rfl, -⟩ := htask hj
    · have := hm.withdrawn hold
      omega
    · omega
  · rw [List.length_append]
    exact hlt
  · intro h
    contradiction
  · have := hm.waited
    simpa [hgiving] using this
  · intro j s o hs ho
    have hflag' : (flags ++ [])[m.results.length]? = some false := by rwa [List.append_nil]
    have := hm.entries_concat hnext.next hflag' hs ho
    rwa [List.append_nil] at this

/-- One step, whatever it is. -/
theorem Step.valid {e : Event} (h : b.Step m e m') (hids : (b.rules.map Rule.id).Nodup)
    (hm : b.Valid flags m) : b.Valid (flags ++ e.wait?.toList) m' := by
  cases h with
  | submit hr => simpa [Event.wait?] using hm.submit hids hr
  | start _ _ =>
    simpa [Event.wait?] using hm.set (t := .running) Task.noConfusion fun _ _ _ h => nomatch h
  | @finish i r _ hr =>
    have := hm.set (i := i) (t := .finished (r.outcome b.ctx)) Task.noConfusion fun s o hs ho => by
      rw [hr] at hs
      obtain rfl := Option.some.inj hs
      exact (Task.finished.inj ho).symm
    simpa [Event.wait?] using this
  | take hgiving hnext ho => exact hm.take hgiving hnext ho
  | expire hgiving hnext _ => exact hm.expire hgiving hnext
  | cancel hgiving hnext => simpa [Event.wait?] using hm.cancel hgiving hnext

end Step

theorem Run.valid {trace : List Event} {m : Moment} (h : b.Run trace m)
    (hids : (b.rules.map Rule.id).Nodup) : b.Valid (waits trace) m := by
  induction h with
  | nil => exact valid_empty
  | @snoc trace m m' e _ hstep ih =>
    have hwaits : waits (trace ++ [e]) = waits trace ++ e.wait?.toList := by
      cases hwait : e.wait? <;> simp [waits, hwait]
    rw [hwaits]
    exact hstep.valid hids ih

/-- The results of a run that is over are determined by which waits ended in time. -/
theorem Run.collected {trace : List Event} {m : Moment} (h : b.Run trace m)
    (hids : (b.rules.map Rule.id).Nodup) (hm : b.Complete m) :
    (waits trace).length = b.rules.length ∧ m.results = b.rules.zipWith b.entry (waits trace) := by
  have hvalid := h.valid hids
  have hgiving : m.givingUp = false := by
    cases hg : m.givingUp with
    | false => rfl
    | true => exact absurd hm.results (Nat.ne_of_lt (hvalid.givingUp hg).2.1)
  have hlength : (waits trace).length = b.rules.length := by
    have := hvalid.waited
    rwa [hgiving, Bool.toNat_false, Nat.add_zero, hm.results] at this
  refine ⟨hlength, List.ext_getElem? fun i => ?_⟩
  rw [List.getElem?_zipWith]
  cases hr : b.rules[i]? with
  | none =>
    have := List.getElem?_eq_none_iff.mp hr
    exact List.getElem?_eq_none_iff.mpr (by rwa [hm.results])
  | some r =>
    obtain ⟨hi, -⟩ := List.getElem?_eq_some_iff.mp hr
    rw [← hm.results] at hi
    obtain ⟨inTime, hflag, ho⟩ := hvalid.entries hr (List.getElem?_eq_getElem hi)
    rw [List.getElem?_eq_getElem hi, hflag, ho]

end Batch

end CodeHealth.Engine
