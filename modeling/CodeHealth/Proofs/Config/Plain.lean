import CodeHealth.Proofs.Config.Loading
import CodeHealth.Proofs.Json.Characters
import CodeHealth.Proofs.Json.Plain

/-!
# The values of a configuration are plain

Every value of a configuration that was loaded comes from a file or is a default. So all of them are
plain, and the bytes that the configuration is saved as stand for its value
(`Config.fileValue?_toBytes`).

The default policy and the default ways of execution are what is read from an object without
members. What is said of sections that are read therefore holds of these too.
-/

namespace CodeHealth

theorem Value.plain_nearest (q : Rat) : Plain (.double (.nearest q)) :=
  .double (Double.inFormat_ofMagnitude _ _)

/-! ### Members and fields -/

section Fields

variable {v d w : Value} {members : List (String × Value)} {name : String}

theorem Value.plain_object_nil : Plain (.object []) :=
  .object List.nodup_nil fun _ h => absurd h List.not_mem_nil

theorem Value.Plain.getD (h : Plain (.object members)) (hd : d.Plain) :
    ((Entries.get? name members).getD d).Plain := by
  cases hget : Entries.get? name members with
  | none => exact hd
  | some v => cases h with
    | object _ hmembers => exact hmembers _ (Entries.mem_of_get? hget)

theorem Value.Plain.memberD (hv : v.Plain) (hd : d.Plain) (h : v.memberD name d = .ok w) :
    w.Plain := by
  cases v with
  | object members => exact Except.ok.inj h ▸ hv.getD hd
  | _ => contradiction

theorem Value.Plain.read {name : FieldName} (hv : v.Plain) (hd : d.Plain)
    (h : name.read d v = .ok w) : w.Plain := by
  have hvalueAt {spelling : String} (h : FieldName.valueAt spelling v = .ok w) : w.Plain := by
    cases v with
    | object members => exact Except.ok.inj h ▸ hv.getD .null
    | _ => contradiction
  obtain ⟨_, -, h⟩ := exists_of_bind_eq_ok h
  split at h
  · exact hvalueAt h
  · obtain ⟨_, -, h⟩ := exists_of_bind_eq_ok h
    split at h
    · exact hvalueAt h
    · exact Except.ok.inj h ▸ hd

theorem Value.Plain.sectionD {α : Type} {P : α → Prop} {read : Value → Except Fault α}
    {default a : α} (hv : v.Plain) (hread : ∀ w a, w.Plain → read w = .ok a → P a)
    (hdefault : P default) (h : Config.sectionD name default read v = .ok a) : P a := by
  cases v with
  | object members =>
    have hmember : (Value.object members).member? name = .ok (Entries.get? name members) := rfl
    rw [Config.sectionD, hmember] at h
    cases hget : Entries.get? name members with
    | none =>
      rw [hget] at h
      exact Except.ok.inj h ▸ hdefault
    | some w =>
      rw [hget] at h
      cases hv with
      | object _ hmembers => exact hread w a (hmembers _ (Entries.mem_of_get? hget)) h
  | _ => contradiction

end Fields

/-! ### Sections -/

section Sections

variable {v : Value}

theorem Scoring.plain_toValue {s : Scoring} (hv : v.Plain) (h : ofValue v = .ok s) :
    s.toValue.Plain := by
  obtain ⟨_, hcomplexityWeight, h⟩ := exists_of_bind_eq_ok h
  obtain ⟨_, hduplicationWeight, h⟩ := exists_of_bind_eq_ok h
  obtain ⟨_, hsmellWeight, h⟩ := exists_of_bind_eq_ok h
  obtain ⟨_, hcomplexityCap, h⟩ := exists_of_bind_eq_ok h
  obtain ⟨_, hsmellCap, h⟩ := exists_of_bind_eq_ok h
  obtain ⟨_, hhighDebtThreshold, h⟩ := exists_of_bind_eq_ok h
  obtain ⟨_, hprecision, h⟩ := exists_of_bind_eq_ok h
  obtain rfl := Except.ok.inj h
  refine .object (by simp [Entries.keys]) ?_
  simp only [List.forall_mem_cons]
  exact ⟨hv.read (Value.plain_nearest _) hcomplexityWeight,
    hv.read (Value.plain_nearest _) hduplicationWeight,
    hv.read (Value.plain_nearest _) hsmellWeight, hv.read (.int (by decide)) hcomplexityCap,
    hv.read (.int (by decide)) hsmellCap, hv.read (Value.plain_nearest _) hhighDebtThreshold,
    hv.read (.int (by decide)) hprecision, fun _ hmem => absurd hmem List.not_mem_nil⟩

theorem Threshold.plain_default (name : Threshold) : name.default.Plain := by
  cases name with
  | commentRatio => exact Value.plain_nearest _
  | _ => exact .int (by decide)

theorem Thresholds.plain_of_get {t : Thresholds} (h : ∀ name, (t.get name).Plain) :
    t.toValue.Plain := by
  have hkeys : Entries.keys (Threshold.all.map fun name => (name.fieldName.camel, t.get name)) =
      Threshold.all.map fun name => name.fieldName.camel := by
    rw [Entries.keys, List.map_map]
    rfl
  refine .object (by rw [hkeys]; decide) fun member hmem => ?_
  obtain ⟨name, -, rfl⟩ := List.mem_map.mp hmem
  exact h name

theorem Thresholds.plain_toValue {t : Thresholds} (hv : v.Plain) (h : ofValue v = .ok t) :
    t.toValue.Plain := by
  refine plain_of_get <| foldlM_preserves (P := fun t => ∀ name, (Thresholds.get t name).Plain)
    (fun t name _ t' ht hstep other => ?_) Threshold.plain_default h
  obtain ⟨w, hw, hstep⟩ := exists_of_bind_eq_ok hstep
  obtain rfl := Except.ok.inj hstep
  rw [get_set]
  split
  · exact hv.read name.plain_default hw
  · exact ht other

theorem Performance.plain_toValue {p : Performance} (hv : v.Plain) (h : ofValue v = .ok p) :
    p.toValue.Plain := by
  have htimeout : (Value.double (.finite 30000)).Plain :=
    .double ⟨by decide +kernel, by decide +kernel⟩
  obtain ⟨_, hparallelExecution, h⟩ := exists_of_bind_eq_ok h
  obtain ⟨_, hmaxParallelWorkers, h⟩ := exists_of_bind_eq_ok h
  obtain ⟨_, hparallelRuleTimeoutMs, h⟩ := exists_of_bind_eq_ok h
  obtain ⟨_, hmaxInputChars, h⟩ := exists_of_bind_eq_ok h
  obtain rfl := Except.ok.inj h
  refine .object (by simp [Entries.keys]) ?_
  simp only [List.forall_mem_cons]
  exact ⟨hv.memberD (.bool _) hparallelExecution, hv.memberD (.int (by decide)) hmaxParallelWorkers,
    hv.memberD htimeout hparallelRuleTimeoutMs, hv.memberD (.int (by decide)) hmaxInputChars,
    fun _ hmem => absurd hmem List.not_mem_nil⟩

theorem RuleSettings.plain_toValue {r : RuleSettings} (hv : v.Plain) (h : ofValue v = .ok r) :
    r.toValue.Plain := by
  obtain ⟨_, henabled, h⟩ := exists_of_bind_eq_ok h
  obtain ⟨parameters, hparameters, h⟩ := exists_of_bind_eq_ok h
  obtain rfl := Except.ok.inj h
  have henabled := hv.memberD (.bool true) henabled
  have hparameters := hv.memberD Value.plain_object_nil hparameters
  by_cases htruthy : parameters.truthy
  · rw [toValue, if_pos htruthy]
    refine .object (by simp [Entries.keys]) ?_
    simp only [List.forall_mem_cons]
    exact ⟨henabled, hparameters, fun _ hmem => absurd hmem List.not_mem_nil⟩
  · rw [toValue, if_neg htruthy]
    exact .object (by simp [Entries.keys]) (List.forall_mem_singleton.mpr henabled)

end Sections

namespace Config

/-- All values of a configuration are plain, as they are written. -/
structure Plain (c : Config) : Prop where
  enabledCategories : c.enabledCategories.Plain
  structureScanner : c.structureScanner.Plain
  continueOnError : c.continueOnError.Plain
  normalizeWhitespace : c.normalizeWhitespace.Plain
  scoring : c.scoring.toValue.Plain
  thresholds : c.thresholds.toValue.Plain
  performance : c.performance.toValue.Plain
  rules : ∀ rule ∈ c.rules, rule.2.toValue.Plain

theorem plain_rules {v : Value} {rules : Entries String RuleSettings} (hv : v.Plain)
    (h : rulesOfValue v = .ok rules) : ∀ rule ∈ rules, rule.2.toValue.Plain := by
  cases hv with
  | object _ hmembers =>
    refine foldlM_preserves (P := fun rules => ∀ rule ∈ rules, (RuleSettings.toValue rule.2).Plain)
      (fun rules member hmember rules' hrules hstep rule hrule => ?_)
      (fun _ hmem => absurd hmem List.not_mem_nil) h
    obtain ⟨r, hr, hstep⟩ := exists_of_bind_eq_ok hstep
    obtain rfl := Except.ok.inj hstep
    obtain hrule | rfl := Entries.mem_put hrule
    · exact hrules rule hrule
    · exact RuleSettings.plain_toValue (hmembers member hmember) hr
  | _ => contradiction

theorem plain_ofValue {v : Value} {c : Config} (hv : v.Plain) (h : ofValue v = .ok c) :
    c.Plain := by
  obtain ⟨_, henabledCategories, h⟩ := exists_of_bind_eq_ok h
  obtain ⟨_, hstructureScanner, h⟩ := exists_of_bind_eq_ok h
  obtain ⟨_, hcontinueOnError, h⟩ := exists_of_bind_eq_ok h
  obtain ⟨_, hnormalizeWhitespace, h⟩ := exists_of_bind_eq_ok h
  obtain ⟨_, hscoring, h⟩ := exists_of_bind_eq_ok h
  obtain ⟨_, hthresholds, h⟩ := exists_of_bind_eq_ok h
  obtain ⟨_, hperformance, h⟩ := exists_of_bind_eq_ok h
  obtain ⟨_, hrules, h⟩ := exists_of_bind_eq_ok h
  obtain rfl := Except.ok.inj h
  have hempty := Value.plain_object_nil
  exact {
    enabledCategories := hv.memberD .null henabledCategories
    structureScanner := hv.memberD (.text _) hstructureScanner
    continueOnError := hv.memberD (.bool _) hcontinueOnError
    normalizeWhitespace := hv.memberD (.bool _) hnormalizeWhitespace
    scoring := hv.sectionD (P := fun s => (Scoring.toValue s).Plain)
      (fun _ _ => Scoring.plain_toValue) (Scoring.plain_toValue hempty rfl) hscoring
    thresholds := hv.sectionD (P := fun t => (Thresholds.toValue t).Plain)
      (fun _ _ => Thresholds.plain_toValue) (Thresholds.plain_of_get Threshold.plain_default)
      hthresholds
    performance := hv.sectionD (P := fun p => (Performance.toValue p).Plain)
      (fun _ _ => Performance.plain_toValue) (Performance.plain_toValue hempty rfl) hperformance
    rules := hv.sectionD (P := fun rules => ∀ rule ∈ rules, (RuleSettings.toValue rule.2).Plain)
      (fun _ _ => plain_rules) (fun _ hmem => absurd hmem List.not_mem_nil) hrules }

theorem plain_default : Plain {} :=
  { enabledCategories := .null
    structureScanner := .text _
    continueOnError := .bool _
    normalizeWhitespace := .bool _
    scoring := Scoring.plain_toValue Value.plain_object_nil rfl
    thresholds := Thresholds.plain_of_get Threshold.plain_default
    performance := Performance.plain_toValue Value.plain_object_nil rfl
    rules := fun _ hmem => absurd hmem List.not_mem_nil }

/-! ### What is loaded -/

section Loaded

variable {t : FileTree} {b c c' above : Config} {p : FilePath}

theorem plain_elements {v : Value} {items : List Value} (hv : v.Plain)
    (h : elements v = .ok items) : ∀ item ∈ items, item.Plain := by
  cases hv with
  | text s =>
    obtain rfl := Except.ok.inj h
    intro item hitem
    obtain ⟨c, -, rfl⟩ := List.mem_map.mp hitem
    exact .text _
  | list hitems => exact Except.ok.inj h ▸ hitems
  | object _ _ =>
    obtain rfl := Except.ok.inj h
    intro item hitem
    obtain ⟨member, -, rfl⟩ := List.mem_map.mp hitem
    exact .text _
  | _ => contradiction

theorem plain_mergedCategories {below above v : Value} (hbelow : below.Plain) (habove : above.Plain)
    (h : mergedCategories below above = .ok v) : v.Plain := by
  have hlist (h : (Value.list <$> elements above) = .ok v) : v.Plain := by
    cases helements : elements above with
    | error f =>
      rw [helements] at h
      contradiction
    | ok items =>
      rw [helements] at h
      exact Except.ok.inj h ▸ .list (plain_elements habove helements)
  cases above with
  | null => exact Except.ok.inj h ▸ hbelow
  | _ => exact hlist h

theorem Plain.merge (hb : Plain b) (habove : Plain above) (h : b.merge above = .ok c) :
    c.Plain := by
  obtain ⟨v, hv, h⟩ := exists_of_bind_eq_ok h
  obtain rfl := Except.ok.inj h
  exact { habove with
    enabledCategories :=
      plain_mergedCategories hb.enabledCategories habove.enabledCategories hv
    rules := fun rule hrule => (Entries.mem_putAll hrule).elim (hb.rules rule) (habove.rules rule) }

theorem plain_ofBytes {b : Bytes} (h : ofBytes b = .ok (some above)) : above.Plain := by
  unfold ofBytes at h
  split at h
  · rename_i members hmembers
    obtain ⟨s, -, hs⟩ := Option.bind_eq_some_iff.mp hmembers
    have hplain := Value.plain_of_ofJson? hs
    split at h
    · rename_i hvalue
      obtain rfl := Option.some.inj (Except.ok.inj h)
      exact plain_ofValue hplain hvalue
    · split at h
      · exact absurd (Except.ok.inj h) (Option.some_ne_none _).symm
      · contradiction
  · exact absurd (Except.ok.inj h) (Option.some_ne_none _).symm

theorem Plain.mergeFile (hc : Plain c) (h : mergeFile t c p = .ok c') : c'.Plain := by
  cases hfile : t.file? p with
  | none =>
    rw [mergeFile_of_eq_none hfile] at h
    exact Except.ok.inj h ▸ hc
  | some bytes =>
    rw [mergeFile_of_eq_some hfile] at h
    obtain ⟨above?, habove, h⟩ := exists_of_bind_eq_ok h
    cases above? with
    | none => exact Except.ok.inj h ▸ hc
    | some above => exact hc.merge (plain_ofBytes habove) h

theorem plain_load {places : ConfigPlaces} (h : load t places = .ok c) : c.Plain :=
  foldlM_preserves (fun _ _ _ _ hd h => hd.mergeFile h) plain_default h

end Loaded

/-! ### What is saved -/

variable {c : Config}

theorem Plain.toValue (h : c.Plain) (hrules : c.rules.keys.Nodup) : c.toValue.Plain := by
  have hnames : (Entries.keys (Entries.mapValues RuleSettings.toValue c.rules)).Nodup := by
    rwa [Entries.keys_mapValues]
  refine .object (by simp [Entries.keys]) ?_
  simp only [List.forall_mem_cons]
  refine ⟨h.enabledCategories, h.structureScanner, h.continueOnError, h.normalizeWhitespace,
    h.scoring, h.thresholds, h.performance, .object hnames fun member hmember => ?_,
    fun _ hmem => absurd hmem List.not_mem_nil⟩
  obtain ⟨rule, hrule, rfl⟩ := List.mem_map.mp hmember
  exact h.rules rule hrule

/-- The bytes that a configuration is saved as stand for its value. -/
theorem fileValue?_toBytes (h : c.toValue.Plain) : fileValue? c.toBytes = some c.toValue := by
  have htext : ∀ x ∈ (c.toValue.toJson .indented).toList, Json.InText x := by
    rw [Value.toJson, String.toList_ofList]
    exact Json.inText_valueText h .indented 0
  have hascii : ∀ x ∈ (c.toValue.toJson .indented).toList, x.toNat < 0x80 := by
    intro x hx
    obtain rfl | hprinted := htext x hx
    · decide
    · omega
  have hbreaks : '\r' ∉ (c.toValue.toJson .indented).toList :=
    fun hmem => absurd (htext _ hmem) (by decide)
  rw [fileValue?, toBytes, Bytes.utf8?_ofText hascii, Option.bind_eq_bind, Option.bind_some,
    Text.unifyNewlines_eq_self hbreaks, Value.ofJson?_toJson h]

end Config

end CodeHealth
