import CodeHealth.Proofs.Engine.Loading

/-!
# The history of a registry

Rules come into an engine one by one or many at once, and they are taken out again. A `Change` is
what a call has done to the registry: to register a rule that is not enabled changes nothing, nor
does it to remove a rule that is not there. Under an identifier the engine holds the rule of the
last change that is about it, or none if that change was a removal.

`Recorded` relates an engine to the changes that have made it. Every registration and every removal
keeps it, and so does any sequence of calls (`Recorded.afterAll`).
-/

namespace CodeHealth

/-! ### Calls and changes -/

inductive RegistryCall where
  /-- To register the rules that discovery has found, one after the other. -/
  | load (found : List Rule)
  | register (r : Rule)
  | unregister (id : String)

/-- What has been done to a registry. -/
inductive Change where
  | registered (r : Rule)
  | removed (id : String)

/-- The identifier that a change is about. -/
def Change.id : Change → String
  | .registered r => r.id
  | .removed id => id

/-- The last change about an identifier. -/
def lastChange? (id : String) (log : List Change) : Option Change :=
  (log.filter fun change => change.id = id).getLast?

theorem lastChange?_append (id : String) (log : List Change) (change : Change) :
    lastChange? id (log ++ [change]) =
      if change.id = id then some change else lastChange? id log := by
  rw [lastChange?, List.filter_append, List.getLast?_append]
  by_cases h : change.id = id
  · simp [h]
  · simp [h, lastChange?]

namespace Engine

/-- The rules that come to be registered when some are handed over one after the other. -/
def accepted (e : Engine) : List Rule → List Rule
  | [] => []
  | r :: rest =>
    match e.register r with
    | .error _ => []
    | .ok (registered, e) => (if registered then [r] else []) ++ accepted e rest

/-- The engine after a call. A registration that is a fault leaves it as it was. -/
def after (e : Engine) : RegistryCall → Engine
  | .load found => (e.load found).1
  | .register r =>
    match e.register r with
    | .error _ => e
    | .ok (_, e) => e
  | .unregister id => (e.unregister id).2

/-- What a call changes. -/
def changes (e : Engine) : RegistryCall → List Change
  | .load found => (e.accepted found).map .registered
  | .register r =>
    match e.register r with
    | .error _ => []
    | .ok (registered, _) => if registered then [.registered r] else []
  | .unregister id => if (e.unregister id).1 then [.removed id] else []

def afterAll (e : Engine) (calls : List RegistryCall) : Engine :=
  calls.foldl after e

/-- What some calls change, in order. -/
def allChanges (e : Engine) : List RegistryCall → List Change
  | [] => []
  | call :: rest => e.changes call ++ allChanges (e.after call) rest

variable {e e' : Engine} {r : Rule} {registered : Bool}

namespace Keyed

variable (h : e.Keyed)
include h

theorem rule?_eq_some_iff {id : String} : e.rule? id = some r ↔ r ∈ e.rules ∧ r.id = id := by
  rw [rule?, Entries.get?_eq_some_iff h.nodup, rules, Entries.values, List.mem_map]
  constructor
  · intro hmem
    exact ⟨⟨(id, r), hmem, rfl⟩, (h.key_eq _ hmem).symm⟩
  · rintro ⟨⟨⟨key, s⟩, hmem, rfl⟩, rfl⟩
    have hkey : key = s.id := h.key_eq _ hmem
    exact hkey ▸ hmem

theorem unregister_eq_true_iff (id : String) :
    (e.unregister id).1 = true ↔ id ∈ e.rules.map Rule.id := by
  rw [← h.keys_eq]
  exact Entries.isSome_get?_iff

end Keyed

/-! ### What the changes have made -/

/-- An engine that some changes have made. -/
structure Recorded (config : Config) (log : List Change) (e : Engine) : Prop where
  config_eq : e.config = config
  keyed : e.Keyed
  enables : ∀ r ∈ e.rules, config.enables r = true
  rule?_eq_some_iff : ∀ id r, e.rule? id = some r ↔ lastChange? id log = some (.registered r)

namespace Recorded

variable {config : Config} {log : List Change}

theorem empty (config : Config) : Recorded config [] { config } where
  config_eq := rfl
  keyed := (Built.empty config).keyed
  enables := fun _ hr => absurd hr List.not_mem_nil
  rule?_eq_some_iff := fun _ _ => ⟨nofun, nofun⟩

theorem register (h : Recorded config log e) (hregister : e.register r = .ok (registered, e')) :
    Recorded config (log ++ if registered then [.registered r] else []) e' := by
  obtain ⟨rfl, henables, rfl⟩ | ⟨rfl, -, rfl⟩ := register_ok_cases hregister
  · refine ⟨h.config_eq, h.keyed.put r, fun s hs => ?_, fun id s => ?_⟩
    · obtain ⟨entry, hentry, rfl⟩ := List.mem_map.mp hs
      obtain hentry | rfl := Entries.mem_put hentry
      · exact h.enables _ (List.mem_map_of_mem hentry)
      · exact h.config_eq ▸ henables
    · have hput : rule? { e with registry := Entries.put r.id r e.registry } id =
          if r.id = id then some r else e.rule? id := Entries.get?_put r.id id r e.registry
      rw [hput, if_pos rfl, lastChange?_append, Change.id]
      split
      · simp
      · exact h.rule?_eq_some_iff id s
  · simpa using h

theorem unregister (h : Recorded config log e) (id : String) :
    Recorded config (log ++ e.changes (.unregister id)) (e.unregister id).2 := by
  refine ⟨h.config_eq, h.keyed.remove id, fun r hr => ?_, fun other r => ?_⟩
  · rw [h.keyed.rules_unregister] at hr
    exact h.enables r (List.mem_filter.mp hr).1
  · have hremove : (e.unregister id).2.rule? other = if id = other then none else e.rule? other :=
      Entries.get?_remove id other e.registry
    rw [hremove, changes]
    by_cases hpresent : (e.unregister id).1 = true
    · rw [if_pos hpresent, lastChange?_append, Change.id]
      split
      · simp
      · exact h.rule?_eq_some_iff other r
    · have habsent : e.rule? id = none := Option.not_isSome_iff_eq_none.mp hpresent
      rw [if_neg hpresent, List.append_nil, ← h.rule?_eq_some_iff]
      split
      · rename_i hid
        rw [← hid, habsent]
      · exact Iff.rfl

theorem load (h : Recorded config log e) (found : List Rule) :
    Recorded config (log ++ (e.accepted found).map .registered) (e.load found).1 := by
  induction found generalizing e log with
  | nil => simpa [accepted, Engine.load] using h
  | cons r rest ih =>
    rw [accepted, Engine.load]
    cases hregister : e.register r with
    | error f => simpa using h
    | ok answer =>
      obtain ⟨registered, e'⟩ := answer
      have hrest := ih (h.register hregister)
      cases registered with
      | true => simpa using hrest
      | false => simpa using hrest

/-- Every call keeps the record. -/
theorem after (h : Recorded config log e) (call : RegistryCall) :
    Recorded config (log ++ e.changes call) (e.after call) := by
  cases call with
  | load found => exact h.load found
  | register r =>
    rw [changes, Engine.after]
    cases hregister : e.register r with
    | error f => simpa using h
    | ok answer => exact h.register hregister
  | unregister id => exact h.unregister id

/-- And so does any number of calls. -/
theorem afterAll (h : Recorded config log e) (calls : List RegistryCall) :
    Recorded config (log ++ e.allChanges calls) (e.afterAll calls) := by
  induction calls generalizing e log with
  | nil => simpa [allChanges, Engine.afterAll] using h
  | cons call rest ih =>
    rw [allChanges, ← List.append_assoc]
    exact ih (h.after call)

end Recorded

/-! ### The registry after any calls -/

/-- Whatever calls there have been: every rule that an engine holds is enabled, no two of them have
the same identifier, and under an identifier stands the rule that was the last to be registered
under it, unless it was removed since. A rule is registered exactly if it is enabled; it comes in
the place of the rule of its identifier or behind all others. A rule is removed exactly if it is
there, and the others keep their order. The rules of a category stand in the order of all rules. -/
theorem registry_afterAll (config : Config) (calls : List RegistryCall) :
    let log := allChanges { config } calls
    let e := afterAll { config } calls
    (e.rules.map Rule.id).Nodup ∧ (∀ r ∈ e.rules, config.enables r = true) ∧
    (∀ r, match config.isEnabled (.text r.id) (.text r.category) with
      | .error f => e.register r = .error f
      | .ok v =>
        if v.truthy then ∃ e', e.register r = .ok (true, e') ∧ e'.config = config ∧
          e'.rules = placed r e.rules
        else e.register r = .ok (false, e)) ∧
    (∀ id, ((e.unregister id).1 = true ↔ id ∈ e.rules.map Rule.id) ∧
      (e.unregister id).2.config = config ∧
      (e.unregister id).2.rules = e.rules.filter fun r => r.id ≠ id) ∧
    (∀ id r, (e.rule? id = some r ↔ r ∈ e.rules ∧ r.id = id) ∧
      (e.rule? id = some r ↔ lastChange? id log = some (.registered r))) ∧
    ∀ category, (e.rulesIn category).Sublist e.rules ∧
      ∀ r, r ∈ e.rulesIn category ↔ r ∈ e.rules ∧ r.category = category := by
  intro log e
  have h : Recorded config log e := (Recorded.empty config).afterAll calls
  refine ⟨h.keyed.nodup_ids, h.enables, fun r => ?_, fun id => ?_, fun id r => ?_,
    fun category => ?_⟩
  · have hconfig := h.config_eq
    cases henabled : config.isEnabled (.text r.id) (.text r.category) with
    | error f => exact register_of_fault (hconfig ▸ henabled)
    | ok v =>
      rw [register_of_isEnabled (hconfig ▸ henabled)]
      dsimp only
      split
      · exact ⟨_, rfl, hconfig, h.keyed.rules_put r⟩
      · rfl
  · exact ⟨h.keyed.unregister_eq_true_iff id, h.config_eq, h.keyed.rules_unregister id⟩
  · exact ⟨h.keyed.rule?_eq_some_iff, h.rule?_eq_some_iff id r⟩
  · exact ⟨List.filter_sublist, fun r => by simp [rulesIn]⟩

/-- Three rules are loaded. One is registered anew and keeps its place, one is removed and comes
back behind the others, and a fourth one is not enabled. -/
theorem registry_afterAll_replaced :
    let rule (id category : String) : Rule :=
      { id, name := id, category, order := 0, find := fun _ _ => .ok [] }
    let config : Config := { rules := [("D", { enabled := .bool false })] }
    let calls : List RegistryCall :=
      [.load [rule "A" "X", rule "B" "X", rule "C" "Y"], .register (rule "B" "Z"), .unregister "A",
       .register (rule "D" "X"), .register (rule "A" "Z"), .unregister "D"]
    let e := afterAll { config } calls
    e.rules.map Rule.id = ["B", "C", "A"] ∧ (e.rules.map Rule.id).Nodup ∧
      e.register (rule "D" "X") = .ok (false, e) ∧ (e.unregister "C").1 = true ∧
      (∃ r, e.rule? "B" = some r ∧ r.category = "Z" ∧ config.enables r = true ∧
        lastChange? "B" (allChanges { config } calls) = some (.registered r)) ∧
      (e.rulesIn "Z").map Rule.id = ["B", "A"] ∧ ∃ r ∈ e.rulesIn "Z", r.id = "A" := by
  intro rule config calls e
  obtain ⟨hnodup, henables, hregister, hunregister, hrule, hcategory⟩ :=
    registry_afterAll config calls
  have hcategories : (e.rule? "A").map Rule.category = some "Z" ∧
      (e.rule? "B").map Rule.category = some "Z" := by decide
  obtain ⟨a, ha, hacategory⟩ := Option.map_eq_some_iff.mp hcategories.1
  obtain ⟨b, hb, hbcategory⟩ := Option.map_eq_some_iff.mp hcategories.2
  obtain ⟨hamem, haid⟩ := (hrule "A" a).1.mp ha
  have hbmem : b ∈ e.rules := ((hrule "B" b).1.mp hb).1
  exact ⟨by decide, hnodup, hregister (rule "D" "X"), (hunregister "C").1.mpr (by decide),
    ⟨b, hb, hbcategory, henables b hbmem, (hrule "B" b).2.mp hb⟩, by decide,
    a, ((hcategory "Z").2 a).mpr ⟨hamem, hacategory⟩, haid⟩

end Engine

end CodeHealth
