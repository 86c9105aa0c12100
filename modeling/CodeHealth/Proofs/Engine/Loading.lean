import CodeHealth.Proofs.Engine.Registry

/-!
# What an engine holds after loading

A rule that is registered comes in the place of the rule of its identifier, or behind all others
(`Keyed.rules_put`). Rules of different identifiers that are loaded into an empty engine stand there
in the order in which they came, those that are not enabled left out.
-/

namespace CodeHealth

/-- Whether a configuration says that a rule runs. -/
def Config.enables (c : Config) (r : Rule) : Bool :=
  match c.isEnabled (.text r.id) (.text r.category) with
  | .ok v => v.truthy
  | .error _ => false

namespace Engine

/-- Rules with one more among them: in the place of the rule of the same identifier, or else behind
all of them. -/
def placed (r : Rule) (rules : List Rule) : List Rule :=
  if r.id ∈ rules.map Rule.id then rules.map fun s => if s.id = r.id then r else s
  else rules ++ [r]

variable {e e' : Engine} {r : Rule} {registered : Bool}

theorem config_register (h : e.register r = .ok (registered, e')) : e'.config = e.config := by
  obtain rfl | rfl := register_cases h
  · rfl
  · rfl

theorem config_load (e : Engine) (rules : List Rule) : (e.load rules).1.config = e.config := by
  induction rules generalizing e with
  | nil => rfl
  | cons r rest ih =>
    rw [load]
    cases hregister : e.register r with
    | error f => rfl
    | ok answer => exact (ih answer.2).trans (config_register hregister)

/-- A rule is registered if it is enabled, and otherwise nothing happens. -/
theorem register_ok_cases (h : e.register r = .ok (registered, e')) :
    (registered = true ∧ e.config.enables r = true ∧
      e' = { e with registry := Entries.put r.id r e.registry }) ∨
    (registered = false ∧ e.config.enables r = false ∧ e' = e) := by
  rw [Config.enables]
  cases henabled : e.config.isEnabled (.text r.id) (.text r.category) with
  | error f =>
    rw [register_of_fault henabled] at h
    contradiction
  | ok v =>
    rw [register_of_isEnabled henabled] at h
    cases htruthy : v.truthy with
    | true =>
      rw [htruthy] at h
      obtain ⟨rfl, rfl⟩ := Prod.mk.inj (Except.ok.inj h)
      exact .inl ⟨rfl, htruthy, rfl⟩
    | false =>
      rw [htruthy] at h
      obtain ⟨rfl, rfl⟩ := Prod.mk.inj (Except.ok.inj h)
      exact .inr ⟨rfl, htruthy, rfl⟩

theorem Keyed.rules_put (h : e.Keyed) (r : Rule) :
    rules { e with registry := Entries.put r.id r e.registry } = placed r e.rules := by
  rw [placed, ← h.keys_eq]
  change Entries.values (Entries.put r.id r e.registry) = _
  split
  · rename_i hmem
    rw [Entries.values_put_of_mem h.nodup hmem, rules, Entries.values, List.map_map]
    refine List.map_congr_left fun entry hentry => ?_
    rw [h.key_eq entry hentry]
    rfl
  · rename_i hnot
    rw [Entries.put_of_not_mem hnot, Entries.values, List.map_append]
    rfl

/-- A rule whose identifier is new is registered behind all others, if it is enabled. -/
theorem rules_register (hkeyed : e.Keyed) (hnew : r.id ∉ e.rules.map Rule.id)
    (h : e.register r = .ok (registered, e')) :
    e'.rules = e.rules ++ if e.config.enables r then [r] else [] := by
  obtain ⟨-, henables, rfl⟩ | ⟨-, henables, rfl⟩ := register_ok_cases h
  · rw [hkeyed.rules_put, placed, if_neg hnew, if_pos henables]
  · rw [henables, if_neg Bool.false_ne_true, List.append_nil]

/-- Loading puts the enabled rules behind those that were there before, in their order. -/
theorem rules_load {rules : List Rule} {count : Nat} (hbuilt : e.Built)
    (hids : ((e.rules ++ rules).map Rule.id).Nodup) (h : (e.load rules).2 = .ok count) :
    (e.load rules).1.rules = e.rules ++ rules.filter e.config.enables := by
  induction rules generalizing e count with
  | nil => exact (List.append_nil _).symm
  | cons r rest ih =>
    rw [load] at h ⊢
    cases hregister : e.register r with
    | error f =>
      rw [hregister] at h
      contradiction
    | ok answer =>
      obtain ⟨registered, e'⟩ := answer
      rw [hregister] at h
      have hnew : r.id ∉ e.rules.map Rule.id := by
        rw [List.map_append, List.map_cons, List.nodup_append] at hids
        exact fun hmem => hids.2.2 _ hmem _ List.mem_cons_self rfl
      have hrules := rules_register hbuilt.keyed hnew hregister
      obtain ⟨count', hcount⟩ : ∃ count', (e'.load rest).2 = .ok count' := by
        cases hload : (e'.load rest).2 with
        | ok count' => exact ⟨count', rfl⟩
        | error f =>
          change (· + if registered then 1 else 0) <$> (e'.load rest).2 = _ at h
          rw [hload] at h
          contradiction
      have hsublist : (e'.rules ++ rest).Sublist (e.rules ++ r :: rest) := by
        rw [hrules, List.append_assoc]
        split
        · exact List.Sublist.refl _
        · exact (List.sublist_cons_self r rest).append_left _
      have hrest := ih (hbuilt.register hregister) ((hsublist.map Rule.id).nodup hids) hcount
      change (e'.load rest).1.rules = _
      rw [hrest, hrules, config_register hregister, List.append_assoc, List.filter_cons]
      split
      · rfl
      · rfl

/-- An empty engine holds the enabled rules once they are loaded. -/
theorem rules_load_empty {rules : List Rule} {config : Config} {count : Nat}
    (hids : (rules.map Rule.id).Nodup) (h : (load { config } rules).2 = .ok count) :
    (load { config } rules).1.rules = rules.filter config.enables :=
  rules_load (.empty config) hids h

end Engine

end CodeHealth
