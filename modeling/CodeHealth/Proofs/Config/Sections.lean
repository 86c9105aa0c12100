import CodeHealth.Config.Files
import CodeHealth.Proofs.Fault

/-!
# Which configurations can be read

Of the sections of a configuration some are read field by field. Such a section is an object, or a
text or a list in which no field name occurs; any other value is a fault for which the file is
skipped. The remaining sections have to be objects, and so have the settings of every single rule.
That they are not is a fault of another kind, and the file is not skipped for it.

`Reads` says when an operation has a result and whether its faults let a file be skipped. It is
carried from single fields to whole sections, and `Config.ofValue_cases` puts the sections together.
-/

namespace CodeHealth

/-- An operation has a result exactly under a condition, and all of its faults let a file be
skipped, or none of them. -/
def Reads (skipped : Bool) (condition : Prop) {α : Type} (x : Except Fault α) : Prop :=
  (condition ∧ ∃ a, x = .ok a) ∨ (¬condition ∧ ∃ f, x = .error f ∧ Config.isSkipped f = skipped)

namespace Reads

variable {skipped : Bool} {P Q : Prop} {α β : Type}

theorem ok (skipped : Bool) (a : α) : Reads skipped True (Except.ok a) :=
  .inl ⟨trivial, a, rfl⟩

theorem bind {x : Except Fault α} {k : α → Except Fault β} (hx : Reads skipped P x)
    (hk : ∀ a, Reads skipped Q (k a)) : Reads skipped (P ∧ Q) (x >>= k) := by
  obtain ⟨hP, a, rfl⟩ | ⟨hP, f, rfl, hf⟩ := hx
  · obtain ⟨hQ, b, hb⟩ | ⟨hQ, f, hb, hf⟩ := hk a
    · exact .inl ⟨⟨hP, hQ⟩, b, hb⟩
    · exact .inr ⟨fun h => hQ h.2, f, hb, hf⟩
  · exact .inr ⟨fun h => hP h.1, f, rfl, hf⟩

theorem congr {x : Except Fault α} (h : Reads skipped P x) (hPQ : P ↔ Q) : Reads skipped Q x := by
  rwa [propext hPQ] at h

/-- Steps that may fail, one for each element of a list. -/
theorem foldlM {γ : Type} {R : γ → Prop} {step : α → γ → Except Fault α} {xs : List γ}
    (hstep : ∀ a, ∀ x ∈ xs, Reads skipped (R x) (step a x)) (a : α) :
    Reads skipped (∀ x ∈ xs, R x) (xs.foldlM step a) := by
  induction xs generalizing a with
  | nil => exact (ok skipped a).congr (by simp)
  | cons x xs ih =>
    rw [List.foldlM_cons]
    refine (bind (hstep a x List.mem_cons_self) fun a =>
      ih (fun a y hy => hstep a y (List.mem_cons_of_mem x hy)) a).congr ?_
    simp

end Reads

/-! ### Sections that are read field by field -/

namespace FieldName

/-- Whether a field can be looked up in a value. In a text or a list neither of its names
may occur. -/
def ReadableIn (name : FieldName) (v : Value) : Prop :=
  (∃ members, v = .object members) ∨
    v.includes (.text name.camel) = .ok false ∧ v.includes (.text name.snake) = .ok false

theorem includes_cases (v : Value) (s : String) : (∃ b, v.includes (.text s) = .ok b) ∨
    ∃ f, v.includes (.text s) = .error f ∧ Config.isSkipped f = true := by
  cases v with
  | text _ => exact .inl ⟨_, rfl⟩
  | list _ => exact .inl ⟨_, rfl⟩
  | object _ => exact .inl ⟨_, rfl⟩
  | _ => exact .inr ⟨_, rfl, rfl⟩

theorem valueAt_cases (v : Value) (s : String) : (∃ members, v = .object members) ∨
    ∃ f, valueAt s v = .error f ∧ Config.isSkipped f = true := by
  cases v with
  | object members => exact .inl ⟨members, rfl⟩
  | text _ => exact .inr ⟨_, rfl, rfl⟩
  | list _ => exact .inr ⟨_, rfl, rfl⟩
  | _ => exact .inr ⟨_, rfl, rfl⟩

/-- The value of a field among the members of a section: the first spelling wins over the second,
and the second over the default. -/
def valueIn (name : FieldName) (default : Value) (members : List (String × Value)) : Value :=
  ((Entries.get? name.camel members).or (Entries.get? name.snake members)).getD default

theorem read_object (name : FieldName) (default : Value) (members : List (String × Value)) :
    name.read default (.object members) = .ok (name.valueIn default members) := by
  change (if (Entries.get? name.camel members).isSome = true then
      Except.ok ((Entries.get? name.camel members).getD .null) else
    if (Entries.get? name.snake members).isSome = true then
      Except.ok ((Entries.get? name.snake members).getD .null) else Except.ok default) = _
  rw [valueIn]
  cases Entries.get? name.camel members with
  | some v => rfl
  | none =>
    cases Entries.get? name.snake members with
    | some v => rfl
    | none => rfl

theorem reads (name : FieldName) (d v : Value) :
    Reads true (name.ReadableIn v) (name.read d v) := by
  by_cases hobject : ∃ members, v = .object members
  · obtain ⟨members, rfl⟩ := hobject
    exact .inl ⟨.inl ⟨members, rfl⟩, _, read_object name d members⟩
  have hvalueAt (s : String) : ∃ f, valueAt s v = .error f ∧ Config.isSkipped f = true :=
    (valueAt_cases v s).resolve_left hobject
  obtain ⟨camel, hcamel⟩ | ⟨f, hcamel, hf⟩ := includes_cases v name.camel
  · obtain ⟨snake, hsnake⟩ | ⟨f, hsnake, hf⟩ := includes_cases v name.snake
    · unfold ReadableIn read
      rw [hcamel, hsnake]
      cases camel with
      | true =>
        obtain ⟨f, hf⟩ := hvalueAt name.camel
        exact .inr ⟨by simp [hobject], f, hf⟩
      | false =>
        cases snake with
        | true =>
          obtain ⟨f, hf⟩ := hvalueAt name.snake
          exact .inr ⟨by simp [hobject], f, hf⟩
        | false => exact .inl ⟨.inr ⟨rfl, rfl⟩, d, rfl⟩
    · unfold ReadableIn read
      rw [hcamel, hsnake]
      cases camel with
      | true =>
        obtain ⟨f, hf⟩ := hvalueAt name.camel
        exact .inr ⟨by simp [hobject], f, hf⟩
      | false => exact .inr ⟨by simp [hobject], f, rfl, hf⟩
  · unfold ReadableIn read
    rw [hcamel]
    exact .inr ⟨by simp [hobject], f, rfl, hf⟩

end FieldName

/-- Whether every field of a section can be looked up in a value. -/
def Value.IsSection (names : List FieldName) (v : Value) : Prop :=
  ∀ name ∈ names, name.ReadableIn v

def Scoring.fields : List FieldName :=
  [⟨"complexityWeight", "complexity_weight"⟩, ⟨"duplicationWeight", "duplication_weight"⟩,
   ⟨"smellWeight", "smell_weight"⟩, ⟨"complexityCap", "complexity_cap"⟩,
   ⟨"smellCap", "smell_cap"⟩, ⟨"highDebtThreshold", "high_debt_threshold"⟩,
   ⟨"precision", "precision"⟩]

theorem Scoring.reads (v : Value) : Reads true (v.IsSection fields) (Scoring.ofValue v) := by
  refine (Reads.bind (FieldName.reads _ _ v) fun _ => .bind (FieldName.reads _ _ v) fun _ =>
    .bind (FieldName.reads _ _ v) fun _ => .bind (FieldName.reads _ _ v) fun _ =>
    .bind (FieldName.reads _ _ v) fun _ => .bind (FieldName.reads _ _ v) fun _ =>
    .bind (FieldName.reads _ _ v) fun _ => .ok true _).congr ?_
  simp [Value.IsSection, fields]

theorem Thresholds.reads (v : Value) :
    Reads true (v.IsSection (Threshold.all.map Threshold.fieldName)) (Thresholds.ofValue v) := by
  have hstep (t : Thresholds) (name : Threshold) : Reads true (name.fieldName.ReadableIn v ∧ True)
      (do return t.set name (← name.fieldName.read name.default v)) :=
    .bind (FieldName.reads _ _ v) fun _ => .ok true _
  refine (Reads.foldlM (fun t name _ => hstep t name) {}).congr ?_
  simp [Value.IsSection]

/-! ### Sections that have to be objects -/

def Value.IsObject (v : Value) : Prop :=
  ∃ members, v = .object members

theorem RuleSettings.reads (v : Value) : Reads false v.IsObject (RuleSettings.ofValue v) := by
  cases v with
  | object members => exact .inl ⟨⟨members, rfl⟩, _, rfl⟩
  | _ => exact .inr ⟨by simp [Value.IsObject], _, rfl, rfl⟩

theorem Performance.reads (v : Value) : Reads false v.IsObject (Performance.ofValue v) := by
  cases v with
  | object members => exact .inl ⟨⟨members, rfl⟩, _, rfl⟩
  | _ => exact .inr ⟨by simp [Value.IsObject], _, rfl, rfl⟩

/-- Whether a value holds settings of single rules. -/
def Value.HoldsRules (v : Value) : Prop :=
  ∃ members, v = .object members ∧ ∀ member ∈ members, member.2.IsObject

namespace Config

theorem reads_rules (v : Value) : Reads false v.HoldsRules (rulesOfValue v) := by
  cases v with
  | object members =>
    have hstep (rules : Entries String RuleSettings) (member : String × Value) :
        Reads false (member.2.IsObject ∧ True)
          (do return Entries.put member.1 (← RuleSettings.ofValue member.2) rules) :=
      .bind (RuleSettings.reads member.2) fun _ => .ok false _
    refine (Reads.foldlM (fun rules member _ => hstep rules member) []).congr ?_
    simp [Value.HoldsRules]
  | _ => exact .inr ⟨by simp [Value.HoldsRules], _, rfl, rfl⟩

theorem reads_section {skipped : Bool} {α : Type} {P : Value → Prop} {read : Value → Except Fault α}
    (h : ∀ v, Reads skipped (P v) (read v)) (name : String) (default : α)
    (members : List (String × Value)) :
    Reads skipped (∀ v, Entries.get? name members = some v → P v)
      (sectionD name default read (.object members)) := by
  have hmember : (Value.object members).member? name = .ok (Entries.get? name members) := rfl
  rw [sectionD, hmember]
  cases Entries.get? name members with
  | none => exact (Reads.ok skipped default).congr (by simp)
  | some v => exact (h v).congr (by simp)

variable {members : List (String × Value)}

/-- Whether the sections that are read field by field can be read. -/
def HasSections (members : List (String × Value)) : Prop :=
  (∀ v, Entries.get? "scoring" members = some v → v.IsSection Scoring.fields) ∧
    ∀ v, Entries.get? "thresholds" members = some v →
      v.IsSection (Threshold.all.map Threshold.fieldName)

/-- Whether the sections that have to be objects are objects. -/
def HasObjects (members : List (String × Value)) : Prop :=
  (∀ v, Entries.get? "performance" members = some v → v.IsObject) ∧
    ∀ v, Entries.get? "rules" members = some v → v.HoldsRules

/-- The enabled categories that an object names. -/
def categoriesOf (members : List (String × Value)) : Value :=
  (Entries.get? "enabledCategories" members).getD .null

/-- An object is a configuration, or it lets its file be skipped, or it is a fault. -/
theorem ofValue_cases (members : List (String × Value)) :
    (HasSections members ∧ HasObjects members ∧
      ∃ c, ofValue (.object members) = .ok c ∧ c.enabledCategories = categoriesOf members) ∨
    (HasSections members ∧ ¬HasObjects members ∧
      ∃ f, ofValue (.object members) = .error f ∧ isSkipped f = false) ∨
    (¬HasSections members ∧ ∃ f, ofValue (.object members) = .error f ∧ isSkipped f = true) := by
  have hscoring := reads_section Scoring.reads "scoring" {} members
  have hthresholds := reads_section Thresholds.reads "thresholds" {} members
  have hperformance := reads_section Performance.reads "performance" {} members
  have hrules := reads_section reads_rules "rules" [] members
  have hvalue : ofValue (.object members) = (do
      let scoring ← sectionD "scoring" {} Scoring.ofValue (.object members)
      let thresholds ← sectionD "thresholds" {} Thresholds.ofValue (.object members)
      let performance ← sectionD "performance" {} Performance.ofValue (.object members)
      let rules ← sectionD "rules" [] rulesOfValue (.object members)
      return {
        enabledCategories := categoriesOf members
        structureScanner := (Entries.get? "structureScanner" members).getD (.text "regex")
        continueOnError := (Entries.get? "continueOnError" members).getD (.bool true)
        normalizeWhitespace := (Entries.get? "normalizeWhitespace" members).getD (.bool false)
        scoring, thresholds, performance, rules }) := rfl
  rw [hvalue]
  obtain ⟨hs, scoring, hscoring⟩ | ⟨hs, f, hscoring, hf⟩ := hscoring
  · obtain ⟨ht, thresholds, hthresholds⟩ | ⟨ht, f, hthresholds, hf⟩ := hthresholds
    · obtain ⟨hp, performance, hperformance⟩ | ⟨hp, f, hperformance, hf⟩ := hperformance
      · obtain ⟨hr, rules, hrules⟩ | ⟨hr, f, hrules, hf⟩ := hrules
        · rw [hscoring, hthresholds, hperformance, hrules]
          exact .inl ⟨⟨hs, ht⟩, ⟨hp, hr⟩, _, rfl, rfl⟩
        · rw [hscoring, hthresholds, hperformance, hrules]
          exact .inr (.inl ⟨⟨hs, ht⟩, fun h => hr h.2, f, rfl, hf⟩)
      · rw [hscoring, hthresholds, hperformance]
        exact .inr (.inl ⟨⟨hs, ht⟩, fun h => hp h.1, f, rfl, hf⟩)
    · rw [hscoring, hthresholds]
      exact .inr (.inr ⟨fun h => ht h.2, f, rfl, hf⟩)
  · rw [hscoring]
    exact .inr (.inr ⟨fun h => hs h.1, f, rfl, hf⟩)

end Config

end CodeHealth
