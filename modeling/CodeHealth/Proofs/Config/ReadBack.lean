import CodeHealth.Proofs.Config.Sections
import CodeHealth.Proofs.Entries

/-!
# A configuration that is read from what it was written as

Every section is read back as it was written. Only the parameters of single rules are not: those
that count as false are left out, whatever they are, and none are read in their place. Such
parameters make no difference to what is written, so the value of a configuration comes back as it
was (`Config.ofValue_toValue`, `Config.toValue_readBack`).
-/

namespace CodeHealth

theorem FieldName.read_of_get? {name : FieldName} {d v : Value} {members : List (String × Value)}
    (h : Entries.get? name.camel members = some v) : name.read d (.object members) = .ok v := by
  rw [read_object, valueIn, h]
  rfl

theorem Scoring.ofValue_toValue (s : Scoring) : ofValue s.toValue = .ok s :=
  rfl

namespace Thresholds

theorem get?_toValue (t : Thresholds) (name : Threshold) :
    Entries.get? name.fieldName.camel
      (Threshold.all.map fun name => (name.fieldName.camel, t.get name)) = some (t.get name) := by
  cases name <;> simp [Threshold.all, Threshold.fieldName, Entries.get?]

/-- The thresholds with those of some names taken from others. -/
def takeAll (start t : Thresholds) (names : List Threshold) : Thresholds :=
  names.foldl (fun acc name => acc.set name (t.get name)) start

theorem get_takeAll (start t : Thresholds) (names : List Threshold) (name : Threshold) :
    (start.takeAll t names).get name = if name ∈ names then t.get name else start.get name := by
  induction names generalizing start with
  | nil => rfl
  | cons head names ih =>
    change ((start.set head (t.get head)).takeAll t names).get name = _
    rw [ih, get_set]
    by_cases hmem : name ∈ names
    · simp [hmem]
    · by_cases hhead : name = head <;> simp [hmem, hhead]

theorem takeAll_all (start t : Thresholds) : start.takeAll t Threshold.all = t := by
  have hget : (start.takeAll t Threshold.all).get = t.get := by
    funext name
    rw [get_takeAll, if_pos (by cases name <;> decide)]
  exact congrArg Thresholds.mk hget

theorem ofValue_toValue (t : Thresholds) : ofValue t.toValue = .ok t := by
  have hfold : ∀ (names : List Threshold) (start : Thresholds),
      names.foldlM (fun acc name => do
        return Thresholds.set acc name (← name.fieldName.read name.default t.toValue)) start =
      Except.ok (start.takeAll t names) := by
    intro names
    induction names with
    | nil => exact fun start => rfl
    | cons name names ih =>
      intro start
      rw [List.foldlM_cons, toValue, FieldName.read_of_get? (get?_toValue t name)]
      exact ih _
  rw [ofValue, hfold, takeAll_all]

end Thresholds

theorem Performance.ofValue_toValue (p : Performance) : ofValue p.toValue = .ok p :=
  rfl

namespace RuleSettings

/-- The settings as they are read back: parameters that count as false have become none. -/
def readBack (r : RuleSettings) : RuleSettings :=
  { r with parameters := if r.parameters.truthy then r.parameters else .object [] }

@[simp] theorem toValue_readBack (r : RuleSettings) : r.readBack.toValue = r.toValue := by
  unfold toValue
  by_cases h : r.parameters.truthy
  · simp [readBack, h]
  · have hnone : Value.truthy (.object []) = false := rfl
    simp [readBack, h, hnone]

theorem ofValue_toValue (r : RuleSettings) : ofValue r.toValue = .ok r.readBack := by
  unfold readBack toValue
  by_cases h : r.parameters.truthy
  · rw [if_pos h, if_pos h]
    rfl
  · rw [if_neg h, if_neg h]
    rfl

end RuleSettings

namespace Config

def readBack (c : Config) : Config :=
  { c with rules := Entries.mapValues RuleSettings.readBack c.rules }

/-- Of its rules the value of a configuration shows what they are written as. -/
theorem toValue_congr {c : Config} {rules rules' : Entries String RuleSettings}
    (h : Entries.mapValues RuleSettings.toValue rules =
      Entries.mapValues RuleSettings.toValue rules') :
    toValue { c with rules := rules } = toValue { c with rules := rules' } := by
  simp only [Entries.mapValues] at h
  simp [toValue, h]

theorem mapValues_toValue_readBack (rules : Entries String RuleSettings) :
    Entries.mapValues RuleSettings.toValue (Entries.mapValues RuleSettings.readBack rules) =
      Entries.mapValues RuleSettings.toValue rules := by
  simp [Entries.mapValues]

theorem toValue_readBack (c : Config) : c.readBack.toValue = c.toValue :=
  toValue_congr (mapValues_toValue_readBack c.rules)

theorem foldlM_ofValue_toValue (rules start : Entries String RuleSettings) :
    (rules.map fun (id, r) => (id, r.toValue)).foldlM (fun rules (id, v) => do
      return Entries.put id (← RuleSettings.ofValue v) rules) start =
    (Except.ok (start.putAll (Entries.mapValues RuleSettings.readBack rules)) :
      Except Fault _) := by
  induction rules generalizing start with
  | nil => rfl
  | cons entry rules ih =>
    rw [List.map_cons, List.foldlM_cons]
    change (RuleSettings.ofValue entry.2.toValue >>= fun r => Except.ok (start.put entry.1 r)) >>=
      _ = _
    rw [RuleSettings.ofValue_toValue]
    exact ih _

theorem rulesOfValue_toValue {rules : Entries String RuleSettings} (h : rules.keys.Nodup) :
    rulesOfValue (.object (rules.map fun (id, r) => (id, r.toValue))) =
      .ok (Entries.mapValues RuleSettings.readBack rules) := by
  have hnames : (Entries.mapValues RuleSettings.readBack rules).keys.Nodup := by
    rwa [Entries.keys_mapValues]
  rw [rulesOfValue, foldlM_ofValue_toValue, Entries.putAll_nil_left hnames]

/-- What a configuration is written as is read as the same configuration, up to parameters that
count as false. -/
theorem ofValue_toValue {c : Config} (h : c.rules.keys.Nodup) :
    ofValue c.toValue = .ok c.readBack := by
  have hvalue : ofValue c.toValue = (do
      return { c with
        scoring := ← Scoring.ofValue c.scoring.toValue
        thresholds := ← Thresholds.ofValue c.thresholds.toValue
        performance := ← Performance.ofValue c.performance.toValue
        rules := ← rulesOfValue (.object (c.rules.map fun (id, r) => (id, r.toValue))) }) := rfl
  rw [hvalue, Scoring.ofValue_toValue, Thresholds.ofValue_toValue, Performance.ofValue_toValue,
    rulesOfValue_toValue h]
  rfl

end Config

end CodeHealth
