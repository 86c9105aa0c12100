import CodeHealth.Problem

/-!
# Operations one after the other

An operation that is made of several ones has a result only if each of them has.
-/

namespace CodeHealth

variable {ε α β : Type}

@[simp] theorem ok_bind (a : α) (f : α → Except ε β) : Except.ok a >>= f = f a :=
  rfl

@[simp] theorem pure_eq_ok (a : α) : (pure a : Except ε α) = .ok a :=
  rfl

theorem exists_of_bind_eq_ok {x : Except ε α} {f : α → Except ε β} {b : β}
    (h : x >>= f = .ok b) : ∃ a, x = .ok a ∧ f a = .ok b := by
  cases x with
  | error e => contradiction
  | ok a => exact ⟨a, rfl, h⟩

/-- An operation with a result hands it to the next one. -/
theorem bind_eq_of_eq_ok {x : Except ε α} {a : α} (hx : x = .ok a) (f : α → Except ε β) :
    x >>= f = f a := by
  rw [hx]
  rfl

theorem exists_bind_eq_ok {x : Except ε α} {f : α → Except ε β} {a : α} (hx : x = .ok a)
    (hf : ∃ b, f a = .ok b) : ∃ b, x >>= f = .ok b := by
  rw [bind_eq_of_eq_ok hx]
  exact hf

theorem exists_of_map_eq_ok {x : Except ε α} {f : α → β} {b : β} (h : x.map f = .ok b) :
    ∃ a, x = .ok a ∧ f a = b := by
  cases x with
  | error e => contradiction
  | ok a => exact ⟨a, rfl, Except.ok.inj h⟩

theorem exists_of_isOk {x : Except ε α} (h : x.isOk = true) : ∃ a, x = .ok a := by
  cases x with
  | error e => contradiction
  | ok a => exact ⟨a, rfl⟩

/-- Where every item has a result, so has the list of them. -/
theorem mapM_eq_ok {f : α → Except ε β} {g : α → β} {xs : List α}
    (h : ∀ x ∈ xs, f x = .ok (g x)) : xs.mapM f = .ok (xs.map g) := by
  induction xs with
  | nil => rfl
  | cons x xs ih =>
    rw [List.mapM_cons, h x List.mem_cons_self, ih fun y hy => h y (List.mem_cons_of_mem x hy)]
    rfl

theorem filterAuxM_ok {p : α → Except ε Bool} {keep : α → Bool} {xs : List α}
    (h : ∀ x ∈ xs, p x = .ok (keep x)) (acc : List α) :
    List.filterAuxM p xs acc = .ok ((xs.filter keep).reverse ++ acc) := by
  induction xs generalizing acc with
  | nil => rfl
  | cons x xs ih =>
    obtain ⟨hx, hxs⟩ := List.forall_mem_cons.mp h
    rw [List.filterAuxM, hx, List.filter_cons]
    change List.filterAuxM p xs (cond (keep x) (x :: acc) acc) = _
    rw [ih hxs]
    cases keep x with
    | true => simp
    | false => rfl

/-- A filter whose test always has an answer keeps what the answers say. -/
theorem filterM_ok {p : α → Except ε Bool} {keep : α → Bool} {xs : List α}
    (h : ∀ x ∈ xs, p x = .ok (keep x)) : xs.filterM p = .ok (xs.filter keep) := by
  rw [List.filterM, filterAuxM_ok h]
  change Except.ok ((xs.filter keep).reverse ++ []).reverse = _
  rw [List.append_nil, List.reverse_reverse]

/-- What every step preserves is preserved by all steps together. -/
theorem foldlM_preserves {P : β → Prop} {step : β → α → Except ε β} {xs : List α}
    (hstep : ∀ b, ∀ x ∈ xs, ∀ b', P b → step b x = .ok b' → P b') {b b' : β} (hb : P b)
    (h : xs.foldlM step b = .ok b') : P b' := by
  induction xs generalizing b with
  | nil => exact Except.ok.inj h ▸ hb
  | cons x xs ih =>
    rw [List.foldlM_cons] at h
    obtain ⟨d, hd, h⟩ := exists_of_bind_eq_ok h
    exact ih (fun b y hy => hstep b y (List.mem_cons_of_mem x hy))
      (hstep b x List.mem_cons_self d hb hd) h

/-- Taking a fault for a failure does not touch results. -/
theorem Fault.eq_ok_of_lift {x : Except Fault α} {a : α} (h : Fault.lift x = .ok a) :
    x = .ok a := by
  cases x with
  | error f => contradiction
  | ok b => exact congrArg Except.ok (Except.ok.inj h)

end CodeHealth
