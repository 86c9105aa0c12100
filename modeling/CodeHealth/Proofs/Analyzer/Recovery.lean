import CodeHealth.Proofs.Analyzer.Independence
import CodeHealth.Proofs.Analyzer.Totality
import CodeHealth.Proofs.Rule.Totality

/-!
# Nothing to recover from

An analysis recovers from rules that raise and from measures that cannot be taken, and counts how
often. With thresholds of the right kinds there is nothing to recover from: whatever the text is
like, every rule of the catalog has an answer for it, so that a run holds the contributions of all
enabled rules and no error, and an analysis leaves the counters as they were
(`Analyzer.run_without_recovery`).
-/

namespace CodeHealth

/-- Whether thresholds have values that they can have, both those for all rules and those in the
settings of single rules. -/
structure Config.SetsThresholds (c : Config) : Prop where
  thresholds : ∀ t : Threshold, t.Admits (c.thresholds.get t)
  parameters : ∀ id settings, Entries.get? id c.rules = some settings →
    ∃ members, settings.parameters = .object members ∧
      ∀ (t : Threshold) (v : Value), Entries.get? t.fieldName.snake members = some v → t.Admits v

theorem Config.parameter_eq_getD {c : Config} {settings : RuleSettings}
    {members : List (String × Value)} {id : Value} (hsettings : c.settings id = .ok settings)
    (hmembers : settings.parameters = .object members) (name : String) (default : Value) :
    c.parameter id (.text name) default = .ok ((Entries.get? name members).getD default) := by
  obtain ⟨enabled, parameters⟩ := settings
  obtain rfl : parameters = .object members := hmembers
  rw [parameter, hsettings]
  rfl

namespace Config.SetsThresholds

variable {c : Config} {ctx : Context} {s clean : Text} {r : Rule}

theorem exists_threshold (h : c.SetsThresholds) (hctx : ctx.config = some c) (id : String)
    (t : Threshold) : ∃ v, ctx.threshold id t = .ok v ∧ t.Admits v := by
  have hsettings : c.settings (.text id) = .ok ((Entries.get? id c.rules).getD {}) := rfl
  rw [Context.threshold, hctx]
  dsimp only
  cases hget : Entries.get? id c.rules with
  | none =>
    rw [hget] at hsettings
    exact ⟨_, parameter_eq_getD hsettings rfl _ _, h.thresholds t⟩
  | some settings =>
    rw [hget] at hsettings
    obtain ⟨members, hmembers, hadmits⟩ := h.parameters id settings hget
    refine ⟨_, parameter_eq_getD hsettings hmembers _ _, ?_⟩
    cases hmember : Entries.get? t.fieldName.snake members with
    | none => exact h.thresholds t
    | some v => exact hadmits t v hmember

/-- No rule of the catalog raises on a text. -/
theorem raises_eq_false (h : c.SetsThresholds) (hr : r ∈ Catalog.rules)
    (hctx : ctx.config = some c) (hraw : ctx.raw = .text s) (hclean : ctx.clean = .text clean)
    (hlength : s.length < 2 ^ 1000) : r.raises ctx = false := by
  obtain ⟨found, hfound⟩ := Catalog.answers hr (ctx.threshold r.id) ctx s clean hraw hclean hlength
    (h.exists_threshold hctx r.id)
  obtain ⟨smells, hsmells⟩ : ∃ smells, r.scan ctx = .ok smells :=
    exists_bind_eq_ok hfound ⟨_, rfl⟩
  rw [Rule.raises, hsmells]
  rfl

end Config.SetsThresholds

namespace Analyzer

variable {config : Config} {e : Engine} {s : Text} {parallel : Value}

/-- There is an engine exactly if there is a selection of categories. -/
theorem exists_engine_iff : (∃ e, engine config = .ok e) ↔
    Config.selectsCategories config.enabledCategories = true := by
  constructor
  · rintro ⟨e, he⟩
    cases h : Config.selectsCategories config.enabledCategories with
    | true => rfl
    | false =>
      obtain ⟨f, hf⟩ := Config.exists_admits_eq_error h
      rw [engine_eq_error hf] at he
      contradiction
  · intro h
    obtain ⟨e, he, -⟩ := exists_engine h
    exact ⟨e, he⟩

/-- An analysis counts nothing but what its steps count. -/
theorem counters_analyze {a : Analyzer} {d : Diagnostics} {raw : Source}
    (h : (a.profile d raw parallel).2.counters = d.counters) (elapsed : Value) :
    (a.analyze d raw parallel elapsed).2.counters = d.counters := by
  rw [analyze]
  dsimp only
  split
  · rename_i hrecord
    exact (Diagnostics.counters_of_record hrecord).trans h
  · exact h

/-- Where a run has no errors, nothing is counted. -/
theorem profile_ofEngine_of_errors {scanner : Scanner} {result : RunResult}
    (hrun : e.run (.ofSource (.text s) (some config) scanner) {} parallel = .ok result)
    (herrors : result.errors = []) (d : Diagnostics) :
    ((ofEngine config scanner e).profile d (.text s) parallel).2 = d := by
  have hprofile := profile_eq {} config scanner e d s parallel
  have hrunWith : e.runWith ({} : Pace).schedule (.ofSource (.text s) (some config) scanner) {}
      parallel = .ok result := hrun
  rw [hrunWith] at hprofile
  have hcounted : d.noteRuleErrors result = d := by
    rw [Diagnostics.noteRuleErrors, herrors]
    rfl
  exact (congrArg Prod.snd hprofile).trans hcounted

/-- The enabled rules of the catalog run one after the other, and none of them raises. -/
theorem exists_run_of_setsThresholds (hthresholds : config.SetsThresholds)
    (he : engine config = .ok e) (hturn : Engine.runsTogether { config } parallel = false)
    (hlength : s.length < 2 ^ 1000) (scanner : Scanner) :
    let ctx : Context := .ofSource (.text s) (some config) scanner
    (∀ r ∈ e.rules, r.raises ctx = false) ∧ ∃ result, e.run ctx {} parallel = .ok result ∧
      result.Holds ctx e.rules ∧ result.errors = [] := by
  intro ctx
  obtain ⟨e', he', -, hconfig, hrules⟩ := exists_engine (exists_engine_iff.mp ⟨e, he⟩)
  obtain rfl : e = e' := Except.ok.inj (he.symm.trans he')
  have hraises : ∀ r ∈ e.rules, r.raises ctx = false := by
    intro r hr
    rw [hrules] at hr
    exact hthresholds.raises_eq_false (List.mem_filter.mp hr).1 rfl rfl rfl hlength
  have hsequential : e.runsTogether parallel = true → e.rules.length ≤ 1 := by
    intro htogether
    have hsame : e.runsTogether parallel = Engine.runsTogether { config } parallel :=
      Engine.runsTogether_congr (congrArg Config.performance hconfig) parallel
    exact absurd (htogether.symm.trans (hsame.trans hturn)) Bool.noConfusion
  -- Whether the run would go on after an error does not matter, because there is none.
  have hholds := RunResult.holds_ofOutcomes_of_forall hraises e.config.continueOnError.truthy
  exact ⟨hraises, _, Engine.runWith_inTurn rfl hsequential Pool.waits, hholds,
    hholds.errors_eq_nil hraises⟩

/-- If a valid configuration has thresholds that rules can compare with, the enabled rules of the
catalog run one after the other without any error, whichever scanner finds the blocks, and an
analysis leaves the counters of all failures as they were. That is so for every text that any memory
can hold. -/
theorem run_without_recovery (hvalid : config.validate = .ok ())
    (hthresholds : config.SetsThresholds)
    (hturn : Engine.runsTogether { config } parallel = false) (hlength : s.length < 2 ^ 1000) :
    ((∃ e, engine config = .ok e) ↔
      Config.selectsCategories config.enabledCategories = true) ∧
    ∀ e, engine config = .ok e →
      e.rules = Catalog.rules.filter config.enables ∧
      (∀ scanner, ∃ result,
        e.run (.ofSource (.text s) (some config) scanner) {} parallel = .ok result ∧
        result.errors = [] ∧ result.executed = e.rules.length ∧
        ∀ r ∈ e.rules, ∃ smells,
          r.outcome (.ofSource (.text s) (some config) scanner) = .ok smells) ∧
      ∃ a, ofConfig config = .ok a ∧ ∀ (d : Diagnostics) (elapsed : Value),
        (a.analyze d (.text s) parallel elapsed).2.counters = d.counters := by
  refine ⟨exists_engine_iff, fun e he => ?_⟩
  obtain ⟨e', he', -, -, hrules⟩ := exists_engine (exists_engine_iff.mp ⟨e, he⟩)
  obtain rfl : e = e' := Except.ok.inj (he.symm.trans he')
  refine ⟨hrules, fun scanner => ?_, ?_⟩
  · obtain ⟨hraises, result, hrun, hholds, herrors⟩ :=
      exists_run_of_setsThresholds hthresholds he hturn hlength scanner
    refine ⟨result, hrun, herrors, hholds.executed, fun r hr => ?_⟩
    obtain ⟨-, houtcome, -⟩ | ⟨hraised, -⟩ := r.outcome_cases
      (.ofSource (.text s) (some config) scanner)
    · exact ⟨_, houtcome⟩
    · exact absurd (hraised.symm.trans (hraises r hr)) Bool.noConfusion
  · obtain ⟨scanner, hscanner⟩ := Config.exists_selectScanner hvalid
    obtain ⟨-, result, hrun, -, herrors⟩ :=
      exists_run_of_setsThresholds hthresholds he hturn hlength scanner
    have ha : ofConfig config = .ok (ofEngine config scanner e) := by
      rw [ofConfig, hvalid, he, hscanner]
      rfl
    exact ⟨_, ha, fun d elapsed =>
      counters_analyze (congrArg Diagnostics.counters (profile_ofEngine_of_errors hrun herrors d))
        elapsed⟩

/-- A configuration that ends runs at the first error, with a window of no lines for one rule and a
ratio for another one that is no number. -/
def degenerateConfig : Config where
  structureScanner := .text "brace"
  continueOnError := .bool false
  rules :=
    [("DISPENSABLES.DUPLICATE_CODE",
        { parameters := .object [("duplicate_window_lines", .int 0)] }),
      ("DISPENSABLES.COMMENTS", { parameters := .object [("comment_ratio", .double .nan)] })]

theorem setsThresholds_degenerateConfig : degenerateConfig.SetsThresholds := by
  refine ⟨Threshold.admits_default, fun id settings hsettings => ?_⟩
  have hmem : (id, settings) ∈ degenerateConfig.rules := Entries.mem_of_get? hsettings
  obtain hentry | hmem := List.mem_cons.mp hmem
  · obtain ⟨rfl, rfl⟩ := Prod.mk.inj hentry
    refine ⟨_, rfl, fun t v hget => .inl ⟨0, ?_⟩⟩
    obtain ⟨-, rfl⟩ := Prod.mk.inj (List.mem_singleton.mp (Entries.mem_of_get? hget))
    rfl
  · obtain ⟨rfl, rfl⟩ := Prod.mk.inj (List.mem_singleton.mp hmem)
    refine ⟨_, rfl, fun t v hget => .inr ?_⟩
    obtain ⟨hname, rfl⟩ := Prod.mk.inj (List.mem_singleton.mp (Entries.mem_of_get? hget))
    refine ⟨?_, _, rfl⟩
    revert hname
    cases t <;> decide

/-- Under such a configuration even a malformed text leads to no failure. -/
theorem run_without_recovery_malformed :
    let s : Text := "\x7d function f( \x7b class A \x7b int x ; /* ".toList
    degenerateConfig.validate = .ok () ∧ ∃ e result a,
      engine degenerateConfig = .ok e ∧
      e.run (.ofSource (.text s) (some degenerateConfig) .balanced) {} (.bool false) = .ok result ∧
      result.errors = [] ∧ result.executed = e.rules.length ∧ ofConfig degenerateConfig = .ok a ∧
      (a.analyze {} (.text s) (.bool false)).2.counters = [] := by
  intro s
  have hvalid : degenerateConfig.validate = .ok () := by
    obtain ⟨_, h⟩ := exists_of_isOk (x := degenerateConfig.validate) (by decide +kernel)
    exact h
  have hturn : Engine.runsTogether { config := degenerateConfig } (.bool false) = false := rfl
  have hlength : s.length < 2 ^ 1000 := by decide +kernel
  obtain ⟨hengine, hall⟩ :=
    run_without_recovery hvalid setsThresholds_degenerateConfig hturn hlength
  obtain ⟨e, he⟩ := hengine.mpr rfl
  obtain ⟨-, hrun, a, ha, hanalyze⟩ := hall e he
  obtain ⟨result, hresult, herrors, hexecuted, -⟩ := hrun .balanced
  exact ⟨hvalid, e, result, a, he, hresult, herrors, hexecuted, ha, hanalyze {} (.int 0)⟩

end Analyzer

end CodeHealth
