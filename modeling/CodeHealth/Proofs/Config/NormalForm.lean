import CodeHealth.Proofs.Config.ReadBack
import CodeHealth.Proofs.Config.Sections

/-!
# The written form of a configuration

What a configuration is read from may spell its fields in two ways, may have members that mean
nothing, and may have anything for the parameters of a rule. A configuration is written in one way
only: every field under its spelling in camel case, and no parameters where they count as false.
Reading that form gives the configuration back. So whatever a configuration was read from, it is
written in the same way ever after (`Config.toValue_normalForm`).

In the sections that are read field by field, the spelling in camel case is derived from the other
one, and it wins over the other one where both are present.
-/

namespace CodeHealth

/-! ### Spellings -/

namespace FieldName

/-- A text whose letters are small behind a letter and capital elsewhere. The names of fields are
made of ASCII characters. -/
def capitalized : (behindLetter : Bool) → Text → Text
  | _, [] => []
  | behindLetter, c :: rest =>
    (if behindLetter then c.toLower else c.toUpper) :: capitalized c.isAlpha rest

/-- The words between the underscores put together, all but the first capitalized. -/
def camelCase (snake : String) : String :=
  match snake.toList.splitOn '_' with
  | [] => ""
  | word :: words => String.ofList (word ++ words.flatMap (capitalized false))

/-- Whether the first spelling is derived from the second. -/
def Spelled (name : FieldName) : Prop :=
  name.camel = camelCase name.snake

instance (name : FieldName) : Decidable name.Spelled :=
  inferInstanceAs (Decidable (_ = _))

/-- The fields of all sections that are read field by field. -/
def all : List FieldName :=
  Scoring.fields ++ Threshold.all.map Threshold.fieldName

theorem spelled_all : ∀ name ∈ all, name.Spelled := by
  decide +kernel

end FieldName

/-! ### Reading the written form -/

theorem RuleSettings.readBack_eq {r : RuleSettings} (h : r.parameters.IsObject) :
    r.readBack = r := by
  obtain ⟨members, hmembers⟩ := h
  cases members with
  | nil =>
    rw [readBack, hmembers, ite_self, ← hmembers]
  | cons member members =>
    have htruthy : r.parameters.truthy = true := by
      rw [hmembers]
      rfl
    rw [readBack, if_pos htruthy]

namespace Config

/-- Where all parameters are objects, reading the written form loses nothing. -/
theorem readBack_eq {c : Config} (h : ∀ rule ∈ c.rules, rule.2.parameters.IsObject) :
    c.readBack = c := by
  have hsame (rule : String × RuleSettings) (hrule : rule ∈ c.rules) :
      (rule.1, rule.2.readBack) = id rule := by
    rw [RuleSettings.readBack_eq (h rule hrule)]
    rfl
  have hrules : Entries.mapValues RuleSettings.readBack c.rules = c.rules :=
    (List.map_congr_left hsame).trans (List.map_id c.rules)
  rw [readBack, hrules]

theorem nodup_keys_rulesOfValue {v : Value} {rules : Entries String RuleSettings}
    (h : rulesOfValue v = .ok rules) : rules.keys.Nodup := by
  cases v with
  | object members =>
    have hempty : (Entries.keys ([] : Entries String RuleSettings)).Nodup := List.nodup_nil
    refine foldlM_preserves (P := fun rules => (Entries.keys rules).Nodup)
      (fun rules member _ rules' hrules hstep => ?_) hempty h
    obtain ⟨r, -, hstep⟩ := exists_of_bind_eq_ok hstep
    obtain rfl := Except.ok.inj hstep
    exact Entries.nodup_keys_put hrules
  | _ => contradiction

/-- A configuration that has been read mentions every rule once. -/
theorem nodup_keys_ofValue {v : Value} {c : Config} (h : ofValue v = .ok c) :
    c.rules.keys.Nodup := by
  obtain ⟨_, -, h⟩ := exists_of_bind_eq_ok h
  obtain ⟨_, -, h⟩ := exists_of_bind_eq_ok h
  obtain ⟨_, -, h⟩ := exists_of_bind_eq_ok h
  obtain ⟨_, -, h⟩ := exists_of_bind_eq_ok h
  obtain ⟨_, -, h⟩ := exists_of_bind_eq_ok h
  obtain ⟨_, -, h⟩ := exists_of_bind_eq_ok h
  obtain ⟨_, -, h⟩ := exists_of_bind_eq_ok h
  obtain ⟨rules, hrules, h⟩ := exists_of_bind_eq_ok h
  obtain rfl := Except.ok.inj h
  obtain ⟨section?, -, hrules⟩ := exists_of_bind_eq_ok hrules
  cases section? with
  | none => exact Except.ok.inj hrules ▸ List.nodup_nil
  | some v => exact nodup_keys_rulesOfValue hrules

/-- A configuration whose parameters are objects is read from its written form as it was. The
written form of a configuration that was read from any object is read as a configuration that is
written in the same way. The keys of the sections that are read field by field are derived, and a
field that is present in both spellings has the value of the derived one. -/
theorem toValue_normalForm :
    (∀ c : Config, c.rules.keys.Nodup → (∀ rule ∈ c.rules, rule.2.parameters.IsObject) →
      ofValue c.toValue = .ok c) ∧
    (∀ (members : List (String × Value)) (c : Config), ofValue (.object members) = .ok c →
      ∃ c', ofValue c.toValue = .ok c' ∧ c'.toValue = c.toValue) ∧
    ∀ name ∈ FieldName.all, name.Spelled ∧ ∀ (default : Value) (members : List (String × Value)),
      name.read default (.object members) = .ok (name.valueIn default members) := by
  refine ⟨fun c hrules hparameters => ?_, fun members c h => ?_, fun name hname => ?_⟩
  · rw [ofValue_toValue hrules, readBack_eq hparameters]
  · exact ⟨c.readBack, ofValue_toValue (nodup_keys_ofValue h), toValue_readBack c⟩
  · exact ⟨FieldName.spelled_all name hname, name.read_object⟩

/-- A configuration with two rules, and a section in which a cap is spelled in both ways and a
weight in one, beside a member that means nothing and parameters that are none. -/
theorem toValue_normalForm_spellings :
    let own : Config :=
      { enabledCategories := .int 1
        rules := [("B", { enabled := .null, parameters := .object [("lines", .list [])] }),
          ("A", {})] }
    let policy : List (String × Value) :=
      [("smell_cap", .int 1), ("smellCap", .int 2), ("smell_weight", .null), ("other", .int 3)]
    let members : List (String × Value) :=
      [("rules", .object [("B", .object [("parameters", .int 0)]), ("A", .object [])]),
       ("scoring", .object policy)]
    let smellCap : FieldName := ⟨"smellCap", "smell_cap"⟩
    own.rules.keys.Nodup ∧ (∀ rule ∈ own.rules, rule.2.parameters.IsObject) ∧
      ofValue own.toValue = .ok own ∧
      (∃ c, ofValue (.object members) = .ok c ∧ c.scoring.smellCap = .int 2 ∧
        c.scoring.smellWeight = .null ∧ c.rules.keys = ["B", "A"] ∧
        ∃ c', ofValue c.toValue = .ok c' ∧ c'.toValue = c.toValue) ∧
      smellCap ∈ FieldName.all ∧ smellCap.Spelled ∧
      smellCap.read .null (.object policy) = .ok (.int 2) := by
  intro own policy members smellCap
  obtain ⟨hown, hform, hnames⟩ := toValue_normalForm
  have hkeys : own.rules.keys.Nodup := by decide
  have hparameters : ∀ rule ∈ own.rules, rule.2.parameters.IsObject := by
    simp [own, Value.IsObject]
  obtain ⟨c, hc⟩ : ∃ c, ofValue (.object members) = .ok c := ⟨_, rfl⟩
  have hread : c.scoring.smellCap = .int 2 ∧ c.scoring.smellWeight = .null ∧
      c.rules.keys = ["B", "A"] := by
    obtain rfl := Except.ok.inj hc
    exact ⟨rfl, rfl, rfl⟩
  have hname : smellCap ∈ FieldName.all := by decide
  obtain ⟨hspelled, hpolicy⟩ := hnames smellCap hname
  exact ⟨hkeys, hparameters, hown own hkeys hparameters,
    ⟨c, hc, hread.1, hread.2.1, hread.2.2, hform members c hc⟩,
    hname, hspelled, hpolicy .null policy⟩

end Config

end CodeHealth
