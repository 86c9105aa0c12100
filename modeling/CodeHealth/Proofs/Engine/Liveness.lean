import CodeHealth.Proofs.Engine.Interleaving

/-!
# Rules on a pool come to an end

As long as there is one worker, no order of steps is a dead end: a run that is not over can go on,
and no wait has to expire for that (`Batch.Valid.exists_step`). Since every step makes the run come
further and there are five steps to a rule at most, every run is over after so many steps
(`Batch.Run.exists_complete`).

Which waits are over too early is free. Any choice is that of some run (`Batch.exists_run`), so that
nothing can be said about the results of a pool beyond what holds for every choice.
-/

namespace CodeHealth.Engine

namespace Batch

variable {b : Batch}

/-! ### No dead end -/

section Progress

variable {flags : List Bool} {m m' : Moment}

/-- As long as a task is not settled there is something to do for a worker. -/
theorem Valid.exists_step_of_unsettled (hm : b.Valid flags m) (hworkers : 0 < b.workers) {i : Nat}
    {t : Task} (ht : m.tasks[i]? = some t) (hunsettled : t.isSettled = false) :
    ∃ e m', e ≠ .expire ∧ b.Step m e m' := by
  have hfinish {j : Nat} (hj : m.tasks[j]? = some .running) :
      ∃ e m', e ≠ .expire ∧ b.Step m e m' := by
    have hlt := Nat.lt_of_lt_of_le (List.getElem?_eq_some_iff.mp hj).1 hm.tasks_le
    exact ⟨.finish j, _, Event.noConfusion, .finish hj (List.getElem?_eq_getElem hlt)⟩
  cases t with
  | running => exact hfinish ht
  | pending =>
    by_cases hfree : m.tasks.countP Task.isRunning < b.workers
    · exact ⟨.start i, _, Event.noConfusion, .start ht hfree⟩
    · -- All workers are busy, so one of them can finish.
      obtain ⟨u, hu, hrunning⟩ := List.countP_pos_iff.mp
        (Nat.lt_of_lt_of_le hworkers (Nat.not_lt.mp hfree))
      obtain ⟨j, hj⟩ := List.mem_iff_getElem?.mp hu
      cases u with
      | running => exact hfinish hj
      | _ => contradiction
  | _ => contradiction

theorem Valid.awaits (hm : b.Valid flags m) (hsubmitted : m.tasks.length = b.rules.length)
    (hlt : m.results.length < b.rules.length) :
    b.Awaits m b.rules[m.results.length] m.results.length :=
  have hnext := List.getElem?_eq_getElem hlt
  ⟨hsubmitted, hnext, hm.future (by rwa [hsubmitted]) hnext⟩

/-- A run that is not over goes on, and no wait has to expire for it. -/
theorem Valid.exists_step (hm : b.Valid flags m) (hworkers : 0 < b.workers)
    (hincomplete : ¬ b.Complete m) : ∃ e m', e ≠ .expire ∧ b.Step m e m' := by
  by_cases hsubmitted : m.tasks.length = b.rules.length
  · by_cases hlt : m.results.length < b.rules.length
    · have hnext := hm.awaits hsubmitted hlt
      cases hgiving : m.givingUp with
      | true => exact ⟨.cancel, _, Event.noConfusion, .cancel hgiving hnext⟩
      | false =>
        have hlt' : m.results.length < m.tasks.length := by rwa [hsubmitted]
        have htask := List.getElem?_eq_getElem hlt'
        cases ht : m.tasks[m.results.length] with
        | finished o =>
          rw [ht] at htask
          exact ⟨.take, _, Event.noConfusion, .take hgiving hnext htask⟩
        | withdrawn =>
          rw [ht] at htask
          exact absurd (hm.withdrawn htask) (Nat.lt_irrefl _)
        | pending =>
          rw [ht] at htask
          exact hm.exists_step_of_unsettled hworkers htask rfl
        | running =>
          rw [ht] at htask
          exact hm.exists_step_of_unsettled hworkers htask rfl
    · have hresults : m.results.length = b.rules.length :=
        Nat.le_antisymm hm.results_le (Nat.not_lt.mp hlt)
      have hunsettled : ¬ ∀ t ∈ m.tasks, t.isSettled = true := fun htasks =>
        hincomplete ⟨hresults, htasks, hsubmitted⟩
      simp only [Classical.not_forall] at hunsettled
      obtain ⟨t, ht, hunsettled⟩ := hunsettled
      obtain ⟨i, hi⟩ := List.mem_iff_getElem?.mp ht
      exact hm.exists_step_of_unsettled hworkers hi (Bool.eq_false_iff.mpr hunsettled)
  · have hlt : m.tasks.length < b.rules.length := Nat.lt_of_le_of_ne hm.tasks_le hsubmitted
    exact ⟨.submit, _, Event.noConfusion, .submit (List.getElem?_eq_getElem hlt)⟩

end Progress

end Batch

/-! ### No run for ever -/

/-- How far a task has come. -/
def Task.stage : Task → Nat
  | pending => 0
  | running => 1
  | finished _ | withdrawn => 2

/-- How far a list of tasks has come. -/
def stages : List Task → Nat
  | [] => 0
  | t :: rest => t.stage + stages rest

theorem stages_append (ts us : List Task) : stages (ts ++ us) = stages ts + stages us := by
  induction ts with
  | nil => simp [stages]
  | cons t ts ih =>
    rw [List.cons_append, stages, stages, ih]
    omega

theorem stages_le (ts : List Task) : stages ts ≤ 2 * ts.length := by
  induction ts with
  | nil => simp [stages]
  | cons t ts ih =>
    have hstage : t.stage ≤ 2 := by cases t <;> simp [Task.stage]
    rw [stages, List.length_cons]
    omega

theorem stages_set {ts : List Task} {i : Nat} {t : Task} (h : ts[i]? = some t) (u : Task) :
    stages (ts.set i u) + t.stage = stages ts + u.stage := by
  induction ts generalizing i with
  | nil => simp at h
  | cons v ts ih =>
    cases i with
    | zero =>
      obtain rfl : v = t := by simpa using h
      rw [List.set_cons_zero, stages, stages]
      omega
    | succ i =>
      have := ih (i := i) (by simpa using h)
      rw [List.set_cons_succ, stages, stages]
      omega

theorem stages_withdraw_le (ts : List Task) (i : Nat) :
    stages ts ≤ stages (ts.modify i Task.withdraw) := by
  induction ts generalizing i with
  | nil => simp
  | cons t ts ih =>
    cases i with
    | zero =>
      have : t.stage ≤ t.withdraw.stage := by cases t <;> simp [Task.stage, Task.withdraw]
      rw [List.modify_zero_cons, stages, stages]
      omega
    | succ i =>
      have := ih i
      rw [List.modify_succ_cons, stages, stages]
      omega

/-- How far a run has come. -/
def Moment.effort (m : Moment) : Nat :=
  m.tasks.length + stages m.tasks + 2 * m.results.length + m.givingUp.toNat

namespace Batch

variable {b : Batch} {m m' : Moment} {trace : List Event}

theorem Step.effort_lt {e : Event} (h : b.Step m e m') : m.effort < m'.effort := by
  rw [Moment.effort, Moment.effort]
  cases h with
  | submit _ =>
    simp only [List.length_append, List.length_singleton, stages_append]
    omega
  | start hpending _ =>
    have := stages_set hpending .running
    simp only [List.length_set, Task.stage] at this ⊢
    omega
  | @finish i r hrunning _ =>
    have := stages_set hrunning (.finished (r.outcome b.ctx))
    simp only [List.length_set, Task.stage] at this ⊢
    omega
  | take _ _ _ =>
    simp only [List.length_append, List.length_singleton]
    omega
  | expire hgiving _ _ =>
    simp only [hgiving, Bool.toNat_false, Bool.toNat_true]
    omega
  | @cancel r i hgiving _ =>
    have := stages_withdraw_le m.tasks i
    simp only [List.length_modify, List.length_append, List.length_singleton, hgiving,
      Bool.toNat_false, Bool.toNat_true]
    omega

theorem Valid.effort_le {flags : List Bool} (hm : b.Valid flags m) :
    m.effort ≤ 5 * b.rules.length := by
  have htasks := hm.tasks_le
  have hresults := hm.results_le
  have hstages := stages_le m.tasks
  rw [Moment.effort]
  cases hgiving : m.givingUp with
  | false =>
    rw [Bool.toNat_false]
    omega
  | true =>
    obtain ⟨-, hlt, -⟩ := hm.givingUp hgiving
    rw [Bool.toNat_true]
    omega

theorem Run.length_le_effort (h : b.Run trace m) : trace.length ≤ m.effort := by
  induction h with
  | nil => exact Nat.zero_le _
  | snoc _ hstep ih =>
    have := hstep.effort_lt
    rw [List.length_append, List.length_singleton]
    omega

/-- There are at most five events to a rule. -/
theorem Run.length_le (h : b.Run trace m) (hids : (b.rules.map Rule.id).Nodup) :
    trace.length ≤ 5 * b.rules.length :=
  Nat.le_trans h.length_le_effort (h.valid hids).effort_le

/-- Every run comes to its end if only no more waits expire. -/
theorem Run.exists_complete (h : b.Run trace m) (hids : (b.rules.map Rule.id).Nodup)
    (hworkers : 0 < b.workers) : ∃ more final, Event.expire ∉ more ∧
      b.Run (trace ++ more) final ∧ b.Complete final := by
  induction hleft : 5 * b.rules.length - m.effort using Nat.strongRecOn generalizing trace m with
  | ind left ih =>
    by_cases hm : b.Complete m
    · exact ⟨[], m, List.not_mem_nil, by rwa [List.append_nil], hm⟩
    · obtain ⟨e, m', he, hstep⟩ := (h.valid hids).exists_step hworkers hm
      have hnext := h.snoc hstep
      have hlt := hstep.effort_lt
      have hle := (hnext.valid hids).effort_le
      obtain ⟨more, final, hmore, hfinal, hcomplete⟩ := ih _ (by omega) hnext rfl
      refine ⟨e :: more, final, ?_, ?_, hcomplete⟩
      · intro hmem
        obtain heq | hmem := List.mem_cons.mp hmem
        · exact he heq.symm
        · exact hmore hmem
      · rwa [List.append_assoc, List.singleton_append] at hfinal

/-! ### Any waits may expire -/

/-- A moment between two waits at which no worker is busy: the first `k` rules have been waited for,
and no worker has begun with the others. -/
structure Paused (b : Batch) (k : Nat) (m : Moment) : Prop where
  submitted : m.tasks.length = b.rules.length
  results : m.results.length = k
  givingUp : m.givingUp = false
  settled {i : Nat} {t : Task} : i < k → m.tasks[i]? = some t → t.isSettled = true
  pending {i : Nat} : k ≤ i → i < b.rules.length → m.tasks[i]? = some .pending

theorem Paused.isRunning_eq_false {k : Nat} (h : b.Paused k m) :
    ∀ t ∈ m.tasks, t.isRunning = false := by
  intro t ht
  obtain ⟨i, hi⟩ := List.mem_iff_getElem?.mp ht
  by_cases hik : i < k
  · have := h.settled hik hi
    cases t <;> first | rfl | contradiction
  · obtain ⟨hlt, -⟩ := List.getElem?_eq_some_iff.mp hi
    rw [h.pending (Nat.not_lt.mp hik) (by rwa [h.submitted] at hlt)] at hi
    obtain rfl := Option.some.inj hi
    rfl

/-- After a step that leaves all tasks alone but the next one, which it settles. -/
theorem Paused.succ {k : Nat} (h : b.Paused k m) {u : Task} (hu : u.isSettled = true) (o : Outcome)
    (futures : Entries String Nat) :
    b.Paused (k + 1) ⟨m.tasks.set k u, futures, m.results ++ [o], false⟩ where
  submitted := by rw [List.length_set, h.submitted]
  results := by rw [List.length_append, List.length_singleton, h.results]
  givingUp := rfl
  settled {i t} hi ht := by
    by_cases hik : i = k
    · subst hik
      rw [List.getElem?_set_self'] at ht
      obtain ⟨-, -, rfl⟩ := Option.map_eq_some_iff.mp ht
      exact hu
    · rw [List.getElem?_set_ne (Ne.symm hik)] at ht
      exact h.settled (by omega) ht
  pending {i} hi hlt := by
    rw [List.getElem?_set_ne (by omega)]
    exact h.pending (by omega) hlt

theorem exists_run_submitted (b : Batch) :
    ∃ trace m, b.Run trace m ∧ waits trace = [] ∧ b.Paused 0 m := by
  suffices h : ∀ n ≤ b.rules.length, ∃ m, b.Run (List.replicate n .submit) m ∧
      m.tasks = List.replicate n .pending ∧ m.results = [] ∧ m.givingUp = false by
    obtain ⟨m, hrun, htasks, hresults, hgiving⟩ := h b.rules.length (Nat.le_refl _)
    refine ⟨_, m, hrun, by simp [waits, Event.wait?], ?_⟩
    refine ⟨by rw [htasks, List.length_replicate], by rw [hresults]; rfl, hgiving, ?_, ?_⟩
    · intro i t hi
      exact absurd hi (Nat.not_lt_zero i)
    · intro i _ hi
      rw [htasks, List.getElem?_replicate_of_lt hi]
  intro n hn
  induction n with
  | zero => exact ⟨{}, .nil, rfl, rfl, rfl⟩
  | succ n ih =>
    obtain ⟨m, hrun, htasks, hresults, hgiving⟩ := ih (by omega)
    have hr : b.rules[m.tasks.length]? = some b.rules[n] := by
      rw [htasks, List.length_replicate]
      exact List.getElem?_eq_getElem hn
    have hnext := hrun.snoc (.submit hr)
    rw [← List.replicate_succ'] at hnext
    refine ⟨_, hnext, ?_, hresults, hgiving⟩
    change m.tasks ++ [.pending] = _
    rw [htasks, List.replicate_succ']

theorem Paused.exists_wait {k : Nat} (h : b.Paused k m) (hrun : b.Run trace m)
    (hids : (b.rules.map Rule.id).Nodup) (hworkers : 0 < b.workers) (hk : k < b.rules.length)
    (inTime : Bool) :
    ∃ more m', b.Run (trace ++ more) m' ∧ waits more = [inTime] ∧ b.Paused (k + 1) m' := by
  have hpending := h.pending (Nat.le_refl k) hk
  have hlt : k < m.tasks.length := by rwa [h.submitted]
  obtain ⟨r, hnext⟩ : ∃ r, b.Awaits m r k := by
    have hresults := h.results
    subst hresults
    exact ⟨_, (hrun.valid hids).awaits h.submitted hk⟩
  have hr : b.rules[k]? = some r := h.results ▸ hnext.next
  cases inTime with
  | true =>
    have hfree : m.tasks.countP Task.isRunning < b.workers := by
      rw [List.countP_eq_zero.mpr fun t ht => by simp [h.isRunning_eq_false t ht]]
      exact hworkers
    have hstart := hrun.snoc (.start hpending hfree)
    have hfinish := hstart.snoc (.finish (i := k) (r := r) (by simp [hlt]) hr)
    have htake := hfinish.snoc (.take (r := r) (i := k) (o := r.outcome b.ctx) h.givingUp
      ⟨by simpa using hnext.submitted, hnext.next, hnext.future⟩ (by simp [hlt]))
    refine ⟨[.start k, .finish k, .take], _, by simpa using htake, rfl, ?_⟩
    have hsettled : (Task.finished (r.outcome b.ctx)).isSettled = true := rfl
    simpa [h.givingUp] using h.succ hsettled (r.outcome b.ctx) m.futures
  | false =>
    have hexpire := hrun.snoc (.expire h.givingUp hnext fun o ho => by
      rw [hpending] at ho
      exact Task.noConfusion (Option.some.inj ho))
    have hcancel := hexpire.snoc (.cancel (r := r) (i := k) rfl
      ⟨hnext.submitted, hnext.next, hnext.future⟩)
    refine ⟨[.expire, .cancel], _, by simpa using hcancel, rfl, ?_⟩
    have hwithdraw : m.tasks.modify k Task.withdraw = m.tasks.set k .withdrawn := by
      refine List.ext_getElem? fun i => ?_
      rw [List.getElem?_modify, List.getElem?_set]
      by_cases hi : k = i
      · subst hi
        rw [hpending, if_pos rfl, if_pos hlt, Option.map_eq_map, Option.map_some, if_pos rfl]
        rfl
      · simp [hi]
    rw [hwithdraw]
    exact h.succ rfl (b.entry r false) m.futures

/-- Every choice of waits that end in time is that of some run. -/
theorem exists_run (hids : (b.rules.map Rule.id).Nodup) (hworkers : 0 < b.workers)
    {flags : List Bool} (hflags : flags.length = b.rules.length) :
    ∃ trace final, b.Run trace final ∧ b.Complete final ∧ waits trace = flags := by
  have hprefix : ∀ k ≤ b.rules.length, ∃ trace m, b.Run trace m ∧ b.Paused k m ∧
      waits trace = flags.take k := by
    intro k hk
    induction k with
    | zero =>
      obtain ⟨trace, m, hrun, hwaits, hpaused⟩ := exists_run_submitted b
      exact ⟨trace, m, hrun, hpaused, hwaits⟩
    | succ k ih =>
      obtain ⟨trace, m, hrun, hpaused, hwaits⟩ := ih (by omega)
      have hlt : k < flags.length := by omega
      obtain ⟨more, m', hrun', hmore, hpaused'⟩ :=
        hpaused.exists_wait hrun hids hworkers (by omega) flags[k]
      refine ⟨_, m', hrun', hpaused', ?_⟩
      rw [waits, List.filterMap_append]
      change waits trace ++ waits more = _
      rw [hwaits, hmore, List.take_append_getElem hlt]
  obtain ⟨trace, final, hrun, hpaused, hwaits⟩ := hprefix b.rules.length (Nat.le_refl _)
  refine ⟨trace, final, hrun, ⟨hpaused.results, fun t ht => ?_, hpaused.submitted⟩, ?_⟩
  · obtain ⟨i, hi⟩ := List.mem_iff_getElem?.mp ht
    have hlt := (List.getElem?_eq_some_iff.mp hi).1
    exact hpaused.settled (by rwa [hpaused.submitted] at hlt) hi
  · rw [hwaits, ← hflags, List.take_length]

end Batch

end CodeHealth.Engine
