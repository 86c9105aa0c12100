import CodeHealth.Engine.Basic
import CodeHealth.Proofs.Entries
import CodeHealth.Proofs.Fault

/-!
# Engines as they come about

An engine begins without rules, and rules are registered and removed one by one. It never holds two
rules of one identifier, and a selection of its rules keeps their order. So the rules of a run can
be told apart by their identifiers.
-/

namespace CodeHealth

/-! ### Filters keep the order -/

section Filter

variable {ε α : Type}

theorem sublist_of_filterAuxM {p : α → Except ε Bool} {xs acc ys : List α}
    (h : List.filterAuxM p xs acc = .ok ys) : ys.reverse.Sublist (acc.reverse ++ xs) := by
  induction xs generalizing acc with
  | nil =>
    obtain rfl := Except.ok.inj h
    simp
  | cons x xs ih =>
    rw [List.filterAuxM] at h
    obtain ⟨keep, -, h⟩ := exists_of_bind_eq_ok h
    cases keep with
    | true => simpa using ih h
    | false => exact (ih h).trans ((List.sublist_cons_self x xs).append_left acc.reverse)

theorem sublist_of_filterM {p : α → Except ε Bool} {xs ys : List α} (h : xs.filterM p = .ok ys) :
    ys.Sublist xs := by
  rw [List.filterM] at h
  obtain ⟨kept, hkept, h⟩ := exists_of_bind_eq_ok h
  obtain rfl := Except.ok.inj h
  simpa using sublist_of_filterAuxM hkept

theorem Selection.sublist_of_filter {names : Value} {name : Rule → String} {rules kept : List Rule}
    (h : filter names name rules = .ok kept) : kept.Sublist rules := by
  rw [filter] at h
  split at h
  · exact sublist_of_filterM h
  · obtain rfl := Except.ok.inj h
    exact List.Sublist.refl rules

/-- The selected rules stand in the order in which they are registered. -/
theorem Selection.sublist_of_apply {s : Selection} {rules kept : List Rule}
    (h : s.apply rules = .ok kept) : kept.Sublist rules := by
  obtain ⟨byId, hids, h⟩ := exists_of_bind_eq_ok h
  exact (sublist_of_filter h).trans (sublist_of_filter hids)

end Filter

namespace Engine

/-- An engine that has come about by registering and removing rules. -/
inductive Built : Engine → Prop where
  | empty (config : Config) : Built { config }
  | register {e e' : Engine} {r : Rule} {registered : Bool} :
      Built e → e.register r = .ok (registered, e') → Built e'
  | unregister {e : Engine} (id : String) : Built e → Built (e.unregister id).2

theorem register_of_isEnabled {e : Engine} {r : Rule} {v : Value}
    (h : e.config.isEnabled (.text r.id) (.text r.category) = .ok v) :
    e.register r = .ok (if v.truthy then
      (true, { e with registry := Entries.put r.id r e.registry }) else (false, e)) := by
  rw [register, h]
  change (if v.truthy = true then _ else _) = _
  split
  · rfl
  · rfl

theorem register_of_fault {e : Engine} {r : Rule} {f : Fault}
    (h : e.config.isEnabled (.text r.id) (.text r.category) = .error f) :
    e.register r = .error f := by
  rw [register, h]
  rfl

/-- The registry after a registration. -/
theorem register_cases {e e' : Engine} {r : Rule} {registered : Bool}
    (h : e.register r = .ok (registered, e')) :
    e' = e ∨ e' = { e with registry := Entries.put r.id r e.registry } := by
  obtain ⟨enabled, -, h⟩ := exists_of_bind_eq_ok h
  split at h
  · exact .inr (Prod.mk.inj (Except.ok.inj h)).2.symm
  · exact .inl (Prod.mk.inj (Except.ok.inj h)).2.symm

/-- Every rule is registered under its own identifier, and no two rules under one. -/
structure Keyed (e : Engine) : Prop where
  key_eq : ∀ p ∈ e.registry, p.1 = p.2.id
  nodup : (Entries.keys e.registry).Nodup

theorem Keyed.put {e : Engine} (h : e.Keyed) (r : Rule) :
    Keyed { e with registry := Entries.put r.id r e.registry } where
  key_eq p hp := by
    obtain hp | rfl := Entries.mem_put hp
    · exact h.key_eq p hp
    · rfl
  nodup := Entries.nodup_keys_put h.nodup

theorem Keyed.remove {e : Engine} (h : e.Keyed) (id : String) : (e.unregister id).2.Keyed where
  key_eq p hp := h.key_eq p (List.mem_filter.mp hp).1
  nodup := (Entries.keys_remove_sublist id e.registry).nodup h.nodup

/-- What is removed is the rule of the identifier, and the others keep their order. -/
theorem Keyed.rules_unregister {e : Engine} (h : e.Keyed) (id : String) :
    (e.unregister id).2.rules = e.rules.filter fun r => r.id ≠ id := by
  change Entries.values (Entries.remove id e.registry) = (Entries.values e.registry).filter _
  rw [Entries.values, Entries.values, Entries.remove, List.filter_map]
  refine congrArg _ (List.filter_congr fun entry hentry => ?_)
  rw [h.key_eq entry hentry]
  rfl

theorem Built.keyed {e : Engine} (h : Built e) : e.Keyed := by
  induction h with
  | empty config => exact ⟨fun p hp => absurd hp List.not_mem_nil, List.nodup_nil⟩
  | register _ hregister ih =>
    obtain rfl | rfl := register_cases hregister
    · exact ih
    · exact ih.put _
  | unregister id _ ih => exact ih.remove id

theorem Keyed.keys_eq {e : Engine} (h : e.Keyed) :
    Entries.keys e.registry = e.rules.map Rule.id := by
  rw [rules, Entries.values, Entries.keys, List.map_map]
  exact List.map_congr_left fun p hp => h.key_eq p hp

theorem Keyed.nodup_ids {e : Engine} (h : e.Keyed) : (e.rules.map Rule.id).Nodup :=
  h.keys_eq ▸ h.nodup

/-- The identifiers of selected rules are distinct. -/
theorem Built.nodup_ids_of_apply {e : Engine} (h : Built e) {selection : Selection}
    {rules : List Rule} (hrules : selection.apply e.rules = .ok rules) :
    (rules.map Rule.id).Nodup :=
  ((Selection.sublist_of_apply hrules).map Rule.id).nodup h.keyed.nodup_ids

/-! ### Loading -/

/-- Rules loaded one after the other are rules registered one by one. -/
theorem Built.load {e : Engine} (h : Built e) (rules : List Rule) : Built (e.load rules).1 := by
  induction rules generalizing e with
  | nil => exact h
  | cons r rest ih =>
    rw [Engine.load]
    cases hregister : e.register r with
    | error f => exact h
    | ok answer =>
      obtain ⟨registered, e'⟩ := answer
      exact ih (h.register hregister)

/-- Loading succeeds where the configuration says of every rule whether it runs. -/
theorem exists_load {rules : List Rule} {e : Engine}
    (h : ∀ r ∈ rules, ∃ v, e.config.isEnabled (.text r.id) (.text r.category) = .ok v) :
    ∃ count, (e.load rules).2 = .ok count := by
  induction rules generalizing e with
  | nil => exact ⟨0, rfl⟩
  | cons r rest ih =>
    obtain ⟨⟨v, hv⟩, hrest⟩ := List.forall_mem_cons.mp h
    have hregister : ∃ registered e', e.register r = .ok (registered, e') ∧
        e'.config = e.config := by
      rw [register_of_isEnabled hv]
      split
      · exact ⟨true, _, rfl, rfl⟩
      · exact ⟨false, e, rfl, rfl⟩
    obtain ⟨registered, e', hregister, hconfig⟩ := hregister
    obtain ⟨count, hcount⟩ := ih (e := e') (by rwa [hconfig])
    refine ⟨count + if registered then 1 else 0, ?_⟩
    rw [load, hregister]
    dsimp only
    rw [hcount]
    rfl

end Engine

end CodeHealth
