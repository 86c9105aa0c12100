import CodeHealth.Analyzer.Basic
import CodeHealth.Proofs.Engine.Loading
import CodeHealth.Proofs.Engine.Sequence
import Mathlib.Data.List.Nodup

/-!
# Settings of one rule do not reach another

A configuration has an entry for a rule, with a switch and with parameters that may be of any kind.
A rule of the catalog looks at its own entry only: whether it is enabled and which thresholds apply
to it are looked up under its identifier, and from there on it sees nothing of the configuration. So
configurations that differ in the entry of one rule lead to the same findings of all other rules,
whether that rule is left out, finds something else or raises (`smells_runFresh`).
-/

namespace CodeHealth

namespace Config

/-- Whether a selection of categories is one: absent, or something that names can be in. -/
def selectsCategories : Value → Bool
  | .null | .text _ | .list _ | .object _ => true
  | _ => false

theorem exists_admits {categories : Value} (h : selectsCategories categories = true)
    (name : String) : ∃ b, admits categories (.text name) = .ok b := by
  by_cases htruthy : (Value.text name).truthy = true
  · cases categories with
    | null => exact ⟨true, rfl⟩
    | text s => exact ⟨_, if_pos htruthy⟩
    | list items => exact ⟨_, if_pos htruthy⟩
    | object members => exact ⟨_, if_pos htruthy⟩
    | _ => contradiction
  · cases categories with
    | null => exact ⟨true, rfl⟩
    | _ => exact ⟨true, if_neg htruthy⟩

/-- What is no selection of categories is a fault for every category that has a name. -/
theorem exists_admits_eq_error {categories : Value} (h : selectsCategories categories = false) :
    ∃ f, ∀ name : String, name ≠ "" → admits categories (.text name) = .error f := by
  have htruthy (name : String) (hname : name ≠ "") : (Value.text name).truthy = true := by
    simpa [Value.truthy] using hname
  refine ⟨.notContainer categories.kind, fun name hname => ?_⟩
  cases categories with
  | bool b => exact if_pos (htruthy name hname)
  | int n => exact if_pos (htruthy name hname)
  | double x => exact if_pos (htruthy name hname)
  | _ => contradiction

end Config

/-- Whether two configurations differ in the settings of one rule at most. -/
structure Config.SameExcept (id : String) (c c' : Config) : Prop where
  others : c' = { c with rules := c'.rules }
  entries : ∀ other, other ≠ id → Entries.get? other c.rules = Entries.get? other c'.rules

namespace Config.SameExcept

variable {id : String} {c c' : Config}

theorem settings_eq (h : c.SameExcept id c') {other : String} (hne : other ≠ id) :
    c.settings (.text other) = c'.settings (.text other) := by
  rw [settings, settings, Value.lookUp?_text, Value.lookUp?_text, h.entries other hne]

theorem enabledCategories_eq (h : c.SameExcept id c') :
    c'.enabledCategories = c.enabledCategories := by
  rw [h.others]

theorem thresholds_eq (h : c.SameExcept id c') : c'.thresholds = c.thresholds := by
  rw [h.others]

theorem performance_eq (h : c.SameExcept id c') : c'.performance = c.performance := by
  rw [h.others]

theorem continueOnError_eq (h : c.SameExcept id c') : c'.continueOnError = c.continueOnError := by
  rw [h.others]

theorem enables_eq (h : c.SameExcept id c') {r : Rule} (hne : r.id ≠ id) :
    c.enables r = c'.enables r := by
  rw [enables, enables, isEnabled, isEnabled, h.enabledCategories_eq, h.settings_eq hne]

theorem parameter_eq (h : c.SameExcept id c') {other : String} (hne : other ≠ id)
    (name default : Value) :
    c.parameter (.text other) name default = c'.parameter (.text other) name default := by
  rw [parameter, parameter, h.settings_eq hne]

/-- A rule of the catalog other than the one of the entry scans alike under both configurations. -/
theorem scan_eq (h : c.SameExcept id c') {r : Rule} (hr : r ∈ Catalog.rules) (hne : r.id ≠ id)
    (raw : Source) (scanner : Scanner) :
    r.scan (.ofSource raw (some c) scanner) = r.scan (.ofSource raw (some c') scanner) := by
  have hthreshold : Context.threshold (.ofSource raw (some c) scanner) r.id =
      Context.threshold (.ofSource raw (some c') scanner) r.id := by
    funext t
    change c.parameter _ _ (c.thresholds.get t) = c'.parameter _ _ (c'.thresholds.get t)
    rw [h.parameter_eq hne, h.thresholds_eq]
  rw [Rule.scan, Rule.scan, hthreshold, (Catalog.asks hr).find_congr _
    (.ofSource raw (some c) scanner) (.ofSource raw (some c') scanner) rfl rfl rfl]

end Config.SameExcept

def Smell.carries (r : Rule) (x : Smell) : Bool :=
  x.category.same (.text r.category) && x.name.same (.text r.name)

/-- The smells that do not carry the category and the name of a rule. -/
def RunResult.smellsBeside (r : Rule) (result : RunResult) : List Smell :=
  result.smells.filter fun x => !x.carries r

theorem Rule.carries_of_mem_contribution {ctx : Context} {r : Rule} {x : Smell}
    (hx : x ∈ r.contribution ctx) : x.carries r = true := by
  rw [contribution, scan] at hx
  cases hfound : r.find (ctx.threshold r.id) ctx with
  | error cause =>
    rw [hfound] at hx
    contradiction
  | ok descriptions =>
    rw [hfound] at hx
    obtain ⟨description, -, rfl⟩ := List.mem_map.mp hx
    simp only [Smell.carries, Value.same_text, decide_true, Bool.and_self]

namespace Analyzer

/-- A run, by an engine of its own, of the rules that a configuration enables. -/
def runFresh (config : Config) (scanner : Scanner) (s : Text) (parallel : Value) :
    Except Fault RunResult := do
  let e ← engine config
  e.run (.ofSource (.text s) (some config) scanner) {} parallel

variable {c c' : Config}

/-- With a selection of categories there is an engine, which holds the enabled rules. -/
theorem exists_engine (h : Config.selectsCategories c.enabledCategories = true) :
    ∃ e, engine c = .ok e ∧ e.Built ∧ e.config = c ∧ e.rules = Catalog.rules.filter c.enables := by
  have henabled (r : Rule) : ∃ v, c.isEnabled (.text r.id) (.text r.category) = .ok v := by
    obtain ⟨b, hb⟩ := Config.exists_admits h r.category
    rw [Config.isEnabled, hb]
    cases b with
    | true => exact ⟨_, rfl⟩
    | false => exact ⟨_, rfl⟩
  obtain ⟨count, hcount⟩ : ∃ count, (Engine.load { config := c } Catalog.rules).2 = .ok count :=
    Engine.exists_load fun r _ => henabled r
  refine ⟨(Engine.load { config := c } Catalog.rules).1, ?_, (Engine.Built.empty c).load _,
    Engine.config_load _ _, Engine.rules_load_empty Catalog.nodup_ids hcount⟩
  rw [engine]
  dsimp only
  rw [hcount]
  rfl

/-- Without one the first rule of the catalog cannot be registered. -/
theorem engine_eq_error {f : Fault}
    (h : ∀ name : String, name ≠ "" → Config.admits c.enabledCategories (.text name) = .error f) :
    engine c = .error f := by
  obtain ⟨r, rest, hrules⟩ : ∃ r rest, Catalog.rules = r :: rest :=
    List.exists_cons_of_length_eq_add_one Catalog.length_rules
  have hcategory : r.category ≠ "" := by
    obtain ⟨category, hmem, hname⟩ :=
      Catalog.exists_category (r := r) (hrules ▸ List.mem_cons_self)
    rw [hname]
    have hall : ∀ category ∈ Category.all, category.name ≠ "" := by decide
    exact hall category hmem
  have hregister : Engine.register { config := c } r = .error f := by
    rw [Engine.register, Config.isEnabled, h r.category hcategory]
    rfl
  rw [engine, hrules, Engine.load, hregister]
  rfl

theorem flatMap_filter {α β : Type} (keep : α → Bool) (f : α → List β) (xs : List α) :
    (xs.filter keep).flatMap f = xs.flatMap fun x => if keep x then f x else [] := by
  induction xs with
  | nil => rfl
  | cons x xs ih =>
    rw [List.filter_cons, List.flatMap_cons, ← ih]
    cases keep x with
    | true => rfl
    | false => rfl

/-- The smells of a run beside those of a rule come from the rules one by one. -/
theorem smellsBeside_eq (R : Rule) {result : RunResult} {ctx : Context} {rules : List Rule}
    {enabled : Rule → Bool} (h : result.Holds ctx (rules.filter enabled)) :
    result.smellsBeside R = rules.flatMap fun r =>
      if enabled r then (r.contribution ctx).filter fun x => !x.carries R else [] := by
  rw [RunResult.smellsBeside, h.smells, List.filter_flatMap, flatMap_filter]

/-- A run that goes on holds what every enabled rule contributes. -/
theorem exists_runFresh (h : Config.selectsCategories c.enabledCategories = true)
    (hgoesOn : c.continueOnError.truthy = true) (scanner : Scanner) (s : Text) {parallel : Value}
    (hturn : Engine.runsTogether { config := c } parallel = false) :
    ∃ result, runFresh c scanner s parallel = .ok result ∧
      result.Holds (.ofSource (.text s) (some c) scanner) (Catalog.rules.filter c.enables) := by
  obtain ⟨e, he, -, hconfig, hrules⟩ := exists_engine h
  have hturn' : e.runsTogether parallel = true → e.rules.length ≤ 1 := by
    intro htogether
    have hsame : e.runsTogether parallel = Engine.runsTogether { config := c } parallel :=
      Engine.runsTogether_congr (congrArg Config.performance hconfig) parallel
    rw [hsame, hturn] at htogether
    contradiction
  have hselection : Selection.apply {} e.rules = .ok e.rules := rfl
  have hrun : e.run (.ofSource (.text s) (some c) scanner) {} parallel = _ :=
    Engine.runWith_inTurn hselection hturn' Pool.waits
  rw [hconfig, hgoesOn, hrules] at hrun
  refine ⟨_, ?_, RunResult.holds_ofOutcomes_true _ _⟩
  rw [runFresh, he]
  exact hrun

/-- What a rule contributes beside the smells of another rule, or of itself, does not depend on the
settings of that other rule. -/
theorem contribution_congr {R r : Rule} (hsame : c.SameExcept R.id c') (hR : R ∈ Catalog.rules)
    (hr : r ∈ Catalog.rules) (raw : Source) (scanner : Scanner) :
    (if c.enables r then (r.contribution (.ofSource raw (some c) scanner)).filter
      fun x => !x.carries R else []) =
    if c'.enables r then (r.contribution (.ofSource raw (some c') scanner)).filter
      fun x => !x.carries R else [] := by
  by_cases hid : r.id = R.id
  · obtain rfl : r = R := List.inj_on_of_nodup_map Catalog.nodup_ids hr hR hid
    have hnone (ctx : Context) : (r.contribution ctx).filter (fun x => !x.carries r) = [] := by
      refine List.filter_eq_nil_iff.mpr fun x hx => ?_
      rw [Rule.carries_of_mem_contribution hx]
      exact Bool.false_ne_true
    rw [hnone, hnone, ite_self, ite_self]
  · rw [hsame.enables_eq hid, Rule.contribution, Rule.contribution, hsame.scan_eq hr hid]

/-- The settings of a rule decide about the smells that carry its category and name, and about
nothing else: the other smells of a run are the same ones in the same order, whatever they are. -/
theorem smells_runFresh {R : Rule} (hR : R ∈ Catalog.rules) (hsame : c.SameExcept R.id c')
    (hgoesOn : c.continueOnError.truthy = true) (scanner : Scanner) (s : Text) {parallel : Value}
    (hturn : Engine.runsTogether { config := c } parallel = false) :
    (runFresh c scanner s parallel).map (RunResult.smellsBeside R) =
        (runFresh c' scanner s parallel).map (RunResult.smellsBeside R) ∧
      (Config.selectsCategories c.enabledCategories = true → ∃ result result',
        runFresh c scanner s parallel = .ok result ∧
        runFresh c' scanner s parallel = .ok result') := by
  have hgoesOn' : c'.continueOnError.truthy = true := by rwa [hsame.continueOnError_eq]
  have hturn' : Engine.runsTogether { config := c' } parallel = false :=
    (Engine.runsTogether_congr hsame.performance_eq parallel).trans hturn
  cases h : Config.selectsCategories c.enabledCategories with
  | true =>
    have h' : Config.selectsCategories c'.enabledCategories = true := by
      rwa [hsame.enabledCategories_eq]
    obtain ⟨result, hrun, hholds⟩ := exists_runFresh h hgoesOn scanner s hturn
    obtain ⟨result', hrun', hholds'⟩ := exists_runFresh h' hgoesOn' scanner s hturn'
    refine ⟨?_, fun _ => ⟨result, result', hrun, hrun'⟩⟩
    rw [hrun, hrun']
    refine congrArg Except.ok ?_
    rw [smellsBeside_eq R hholds, smellsBeside_eq R hholds']
    exact List.flatMap_congr fun r hr => contribution_congr hsame hR hr _ scanner
  | false =>
    obtain ⟨f, hf⟩ := Config.exists_admits_eq_error h
    have hf' := hf
    rw [← hsame.enabledCategories_eq] at hf'
    refine ⟨?_, nofun⟩
    rw [runFresh, runFresh, engine_eq_error hf, engine_eq_error hf']
    rfl

/-- A parameter of the wrong kind, which lets a rule raise as soon as there is a method. -/
theorem smells_runFresh_illTyped :
    let c' : Config := { rules := [("BLOATERS.LONG_METHOD",
      { parameters := .object [("long_method_lines", .text "many")] })] }
    let s : Text := "void f() { switch (x) { } }".toList
    ∃ result result', runFresh {} .firstBrace s (.bool false) = .ok result ∧
      runFresh c' .firstBrace s (.bool false) = .ok result' ∧
      result.smellsBeside .longMethod = result'.smellsBeside .longMethod := by
  intro c' s
  have hR : Rule.longMethod ∈ Catalog.rules := Catalog.mem_rules.mpr List.mem_cons_self
  have hsame : Config.SameExcept Rule.longMethod.id {} c' := by
    constructor
    · rfl
    · intro other hne
      exact (if_neg (Ne.symm hne)).symm
  obtain ⟨hbeside, hruns⟩ := smells_runFresh hR hsame rfl .firstBrace s
    (show Engine.runsTogether { config := {} } (.bool false) = false from rfl)
  obtain ⟨result, result', hrun, hrun'⟩ := hruns rfl
  refine ⟨result, result', hrun, hrun', ?_⟩
  rw [hrun, hrun'] at hbeside
  exact Except.ok.inj hbeside

end Analyzer

end CodeHealth
