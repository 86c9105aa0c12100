import CodeHealth.Proofs.Analyzer.Paced
import CodeHealth.Proofs.Engine.Totality
import CodeHealth.Proofs.Profile.Totality
import CodeHealth.Proofs.Source.Duplication
import CodeHealth.Proofs.Source.Lines
import CodeHealth.Proofs.Value.Limits

/-!
# When an analysis has a result

Before an analyzer is made its configuration is checked, and the analyses rely on that: caps are
divided by, weights are multiplied, ratios are written out with the given number of decimal places.
If every setting is of its type, the check is enough with two exceptions. It sets no upper limit to
the number of decimal places, of which there may be 27 at most (`completes_iff`); and it does not
look at the limit for a wait.
-/

namespace CodeHealth

theorem Diagnostics.sampleBound?_of_eq {d : Diagnostics} (h : d.maxSamples = .int 1000) :
    d.sampleBound? = .ok (some 1000) := by
  rw [sampleBound?, h]
  rfl

namespace Config

/-- The settings that an analysis computes with are of their types. The values of the others do not
matter: those of the rules are looked at by the rules alone, whose failures end no analysis. -/
structure Typed (c : Config) : Prop where
  enabledCategories :
    c.enabledCategories = .null ∨ ∃ names, c.enabledCategories = .list names
  complexityWeight : c.scoring.complexityWeight.IsReal
  duplicationWeight : c.scoring.duplicationWeight.IsReal
  smellWeight : c.scoring.smellWeight.IsReal
  complexityCap : ∃ n, c.scoring.complexityCap.number? = some (.int n)
  smellCap : ∃ n, c.scoring.smellCap.number? = some (.int n)
  highDebtThreshold : c.scoring.highDebtThreshold.IsNumber
  precision : ∃ n, c.scoring.precision.number? = some (.int n)
  maxParallelWorkers : ∃ n, c.performance.maxParallelWorkers.number? = some (.int n)

variable {c : Config}

theorem check_of_validate (h : c.validate = .ok ()) {check : Except Fault Bool}
    (hmem : check ∈ c.checks) : check = .ok true :=
  c.verdict_validate.eq_ok_iff.mp h check hmem

theorem Typed.usable (h : c.Typed) (hvalid : c.validate = .ok ()) : c.scoring.Usable where
  complexityWeight := h.complexityWeight
  duplicationWeight := h.duplicationWeight
  smellWeight := h.smellWeight
  complexityCap := by
    obtain ⟨n, hn⟩ := h.complexityCap
    exact ⟨n, hn, Value.le_of_not_lt hn
      (check_of_validate hvalid (by simp [checks, Scoring.checks]))⟩
  smellCap := by
    obtain ⟨n, hn⟩ := h.smellCap
    exact ⟨n, hn, Value.le_of_not_lt hn
      (check_of_validate hvalid (by simp [checks, Scoring.checks]))⟩
  highDebtThreshold := h.highDebtThreshold

theorem precision_nonneg (hvalid : c.validate = .ok ()) {n : Int}
    (hn : c.scoring.precision.number? = some (.int n)) : 0 ≤ n :=
  Value.le_of_not_lt hn (check_of_validate hvalid (by simp [checks, Scoring.checks]))

theorem exists_selectScanner (hvalid : c.validate = .ok ()) :
    ∃ scanner, selectScanner c.structureScanner = .ok scanner := by
  have hscanner : Option.isSome <$> scanner? c.structureScanner = .ok true :=
    reportedWith_eq_ok_true.mp <|
      check_of_validate hvalid (List.mem_append_right _ List.mem_cons_self)
  cases hs : scanner? c.structureScanner with
  | error f =>
    rw [hs] at hscanner
    contradiction
  | ok scanner =>
    rw [hs] at hscanner
    cases scanner with
    | none => exact absurd (Except.ok.inj hscanner) Bool.false_ne_true
    | some scanner =>
      rw [selectScanner, hs]
      exact ⟨scanner, rfl⟩

theorem Typed.exists_admits (h : c.Typed) (category : Value) :
    ∃ b, admits c.enabledCategories category = .ok b := by
  obtain hall | ⟨names, hnames⟩ := h.enabledCategories
  · rw [hall]
    exact ⟨true, rfl⟩
  · rw [hnames]
    change ∃ b, (if category.truthy = true then Except.ok (names.any (Value.same category))
      else Except.ok true) = _
    split
    · exact ⟨_, rfl⟩
    · exact ⟨true, rfl⟩

theorem Typed.exists_isEnabled (h : c.Typed) (id : String) (category : Value) :
    ∃ v, c.isEnabled (.text id) category = .ok v := by
  obtain ⟨b, hb⟩ := h.exists_admits category
  rw [isEnabled, hb]
  cases b with
  | true => exact ⟨_, rfl⟩
  | false => exact ⟨_, rfl⟩

end Config

namespace Analyzer

variable {config : Config} {pace : Pace} {s : Text}

/-- An analysis at a pace has a result that can be written out, whatever was analyzed before. -/
def Completes (pace : Pace) (config : Config) (s : Text) : Prop :=
  ∃ a, ofConfigAt pace config = .ok a ∧
    ∀ (d : Diagnostics) (elapsed : Value), d.maxSamples = .int 1000 →
      ∃ profile payload, (a.analyze d (.text s) .null elapsed).1 = .ok profile ∧
        profile.payload = .ok payload

/-- A configuration whose settings are of their types and which is valid has an analyzer. -/
theorem exists_ofConfigAt (htyped : config.Typed) (hvalid : config.validate = .ok ())
    (pace : Pace) : ∃ scanner engine, ofConfigAt pace config =
        .ok (ofEngineAt pace config scanner engine) ∧
      engine.rules = pace.catalog.filter config.enables ∧ engine.config = config := by
  obtain ⟨scanner, hscanner⟩ := Config.exists_selectScanner hvalid
  obtain ⟨count, hcount⟩ : ∃ count, (Engine.load { config } pace.catalog).2 = .ok count :=
    Engine.exists_load fun r _ => htyped.exists_isEnabled r.id (.text r.category)
  have hengine : engineAt pace config = .ok (Engine.load { config } pace.catalog).1 := by
    rw [engineAt]
    dsimp only
    rw [hcount]
    rfl
  refine ⟨scanner, _, ?_, rules_engineAt hengine⟩
  rw [ofConfigAt, hvalid, hengine, hscanner]
  rfl

section Rules

variable {engine : Engine} (hrules : engine.rules = pace.catalog.filter config.enables)
include hrules

theorem length_rules_le : engine.rules.length ≤ 9 := by
  have hle := List.length_filter_le config.enables pace.catalog
  have hcatalog : pace.catalog.length = 9 := (List.length_map _).trans Catalog.length_rules
  rw [hrules]
  omega

theorem bounded_of_mem {r : Rule} (hr : r ∈ engine.rules) : r.Bounded := by
  rw [hrules] at hr
  obtain ⟨r', hr', rfl⟩ := List.mem_map.mp (List.mem_filter.mp hr).1
  exact fun ctx s threshold found => Catalog.bounded hr' ctx s threshold found

/-- The smells of a run have texts as categories, and not too many of them are found in a text that
any memory can hold. -/
theorem smells_of_outcomes {ctx : Context} (hraw : ctx.raw = .text s) {outcomes : List Outcome}
    (houtcomes : Engine.Outcomes ctx engine.rules outcomes) (goesOn : Bool) :
    (∀ x ∈ (RunResult.ofOutcomes goesOn outcomes).smells, ∃ name, x.category = .text name) ∧
      (RunResult.ofOutcomes goesOn outcomes).smells.length ≤ 9 * (s.length + 1) := by
  constructor
  · intro x hx
    obtain ⟨smells, hmem, hx⟩ := RunResult.exists_outcome_of_mem hx
    obtain ⟨r, -, houtcome⟩ := houtcomes.2 smells hmem
    exact ⟨r.category, Rule.category_of_mem_scan (Rule.scan_of_outcome houtcome) hx⟩
  · have hlength : (RunResult.ofOutcomes goesOn outcomes).smells.length ≤
        outcomes.length * (s.length + 1) := by
      refine RunResult.length_smells_le goesOn fun smells hmem => ?_
      obtain ⟨r, hr, houtcome⟩ := houtcomes.2 smells hmem
      exact (bounded_of_mem hrules hr).length_le hraw houtcome
    have hle := Nat.mul_le_mul_right (s.length + 1)
      (Nat.le_trans houtcomes.1 (length_rules_le hrules))
    omega

end Rules

/-- A usable limit and a whole number of workers let the rules run, and what comes of them can be
put together. -/
theorem exists_smells_of_runWith (scanner : Scanner) {engine : Engine}
    (hworkers : ∃ n, config.performance.maxParallelWorkers.number? = some (.int n))
    (hwait : config.performance.parallelExecution.truthy = true → config.Waitable)
    (hrules : engine.rules = pace.catalog.filter config.enables) (hconfig : engine.config = config)
    (hlength : s.length < 2 ^ 1000) :
    ∃ result, engine.runWith pace.schedule (.ofSource (.text s) (some config) scanner) {} .null =
        .ok result ∧
      (∀ x ∈ result.smells, ∃ name, x.category = .text name) ∧
      (result.smells.length : Rat) ≤ 2 ^ (1023 : Int) := by
  subst hconfig
  obtain ⟨outcomes, hrun, houtcomes⟩ := Engine.exists_outcomes_of_runWith
    (.ofSource (.text s) (some engine.config) scanner) .null rfl hworkers hwait pace.schedule
  obtain ⟨hcategory, hcount⟩ := smells_of_outcomes hrules rfl houtcomes
    engine.config.continueOnError.truthy
  have hlimit : 9 * 2 ^ 1000 ≤ 2 ^ 1023 := by decide +kernel
  exact ⟨_, hrun, hcategory, natCast_le_two_zpow (k := 1023)
    (Nat.le_trans hcount (Nat.le_trans (Nat.mul_le_mul_left 9 hlength) hlimit))⟩

/-- The complexity of a text that any memory can hold has few enough digits to be shown. -/
theorem complexity_clean_lt (hlength : s.length < 2 ^ 1000) :
    s.clean.complexity < 10 ^ digitLimit := by
  calc s.clean.complexity
    _ ≤ s.clean.length + 1 := s.clean.complexity_le
    _ ≤ s.length + 1 := Nat.succ_le_succ s.length_clean_le
    _ ≤ 2 ^ 1000 := Nat.succ_le_of_lt hlength
    _ < 10 ^ 1000 := Nat.pow_lt_pow_left (by decide) (by decide)
    _ ≤ 10 ^ digitLimit := Nat.pow_le_pow_right (by decide) (by decide)

theorem completes_of_precision_le (htyped : config.Typed) (hvalid : config.validate = .ok ())
    {p : Int} (hp : config.scoring.precision.number? = some (.int p)) (hle : p ≤ 27)
    (hwait : config.performance.parallelExecution.truthy = true → config.Waitable)
    (hlength : s.length < 2 ^ 1000) : Completes pace config s := by
  obtain ⟨scanner, engine, ha, hrules, hconfig⟩ := exists_ofConfigAt htyped hvalid pace
  refine ⟨_, ha, fun d elapsed hd => ?_⟩
  obtain ⟨result, hrun, hcategory, hlimit⟩ := exists_smells_of_runWith scanner
    htyped.maxParallelWorkers hwait hrules hconfig hlength
  have hshare := s.isShare_duplication config.normalizeWhitespace.truthy
  have hnonneg := Config.precision_nonneg hvalid hp
  obtain ⟨profile, debt, haggregate, hduplication, hprecision, hdebt, hdebtShare⟩ :=
    Profile.exists_aggregate (htyped.usable hvalid) hp hnonneg hle (complexity_clean_lt hlength)
      (s.duplication config.normalizeWhitespace.truthy) hcategory hlimit (.nat s.lines.length)
  obtain ⟨payload, hpayload⟩ := Profile.exists_payload (hprecision ▸ hp) hnonneg hle hduplication
    hshare hdebt hdebtShare
  refine ⟨profile, payload, ?_, hpayload⟩
  rw [fst_analyze (Diagnostics.sampleBound?_of_eq hd), profile_eq, hrun]
  change Fault.lift (Profile.aggregate _ _ _ _ _) = _
  rw [haggregate]
  rfl

end Analyzer

/-! ### Too many decimal places -/

theorem Double.zero_mul_share {x : Double} (h : x.IsShare) : (finite 0).mul x = finite 0 := by
  obtain ⟨q, rfl, hq, -⟩ := h
  have hsign : ((finite 0).isNegative != (finite q).isNegative) = false := by
    rw [isNegative, isNegative, decide_eq_false (Rat.not_lt.mpr hq)]
    rfl
  have hproduct : ((0 : Rat) * q).abs = 0 := by
    rw [Rat.zero_mul]
    rfl
  change ofMagnitude ((finite 0).isNegative != (finite q).isNegative) ((0 : Rat) * q).abs = _
  rw [hsign, hproduct, ofMagnitude_zero]
  rfl

/-- A configuration for which duplication alone matters. -/
def Config.duplicationOnly (precision : Value) : Config where
  scoring := {
    complexityWeight := .double (.finite 0)
    duplicationWeight := .double (.finite 1)
    smellWeight := .double (.finite 0)
    precision }

namespace Config

theorem typed_duplicationOnly (n : Int) : (duplicationOnly (.int n)).Typed where
  enabledCategories := .inl rfl
  complexityWeight := ⟨.double (.finite 0), .finite 0, rfl, rfl⟩
  duplicationWeight := ⟨.double (.finite 1), .finite 1, rfl, rfl⟩
  smellWeight := ⟨.double (.finite 0), .finite 0, rfl, rfl⟩
  complexityCap := ⟨10, rfl⟩
  smellCap := ⟨10, rfl⟩
  highDebtThreshold := ⟨_, rfl⟩
  precision := ⟨n, rfl⟩
  maxParallelWorkers := ⟨4, rfl⟩

theorem validate_duplicationOnly {n : Int} (h : 0 ≤ n) :
    (duplicationOnly (.int n)).validate = .ok () := by
  have hsum : (duplicationOnly (.int n)).scoring.sumsToOne = .ok true := by
    have hone :
        Scoring.isNearlyOne (((Double.finite 0).add (.finite 1)).add (.finite 0)) = true := by
      decide +kernel
    change reportedWith _ (.ok _) = _
    exact reportedWith_eq_ok_true.mpr (congrArg Except.ok hone)
  have hlow : (!·) <$> (Value.int 10).lt (.int 1) = .ok true := by
    rw [Value.lt_of_number? (m := 10) (n := 1) rfl rfl]
    rfl
  have hdoubles {x y : Double} (h : x.le y = true) :
      (Value.double x).le (.double y) = .ok true := by
    rw [Value.le, Value.compare_of_number? (x := .double x) (y := .double y) rfl rfl]
    exact congrArg Except.ok h
  have habove : (Value.double (.finite 0)).le (.double (.nearest (7 / 10))) = .ok true :=
    hdoubles (by decide +kernel)
  have hbelow : (Value.double (.nearest (7 / 10))).le (.double (.finite 1)) = .ok true :=
    hdoubles (by decide +kernel)
  have hprecision : (!·) <$> (Value.int n).lt (.int 0) = .ok true := by
    rw [Value.lt_of_number? (m := n) (n := 0) rfl rfl, decide_eq_false (by omega)]
    rfl
  have hscanner : Option.isSome <$> scanner? (.text "regex") = .ok true := by
    have hname : (Scanner.ofName? "regex").isSome = true := by decide
    exact congrArg Except.ok hname
  refine (verdict_validate _).eq_ok_iff.mpr ?_
  simp only [checks, Scoring.checks, List.cons_append, List.nil_append, List.forall_mem_cons]
  exact ⟨hsum, hlow, hlow, reportedWith_eq_ok_true.mpr habove, reportedWith_eq_ok_true.mpr hbelow,
    hprecision, reportedWith_eq_ok_true.mpr hscanner, fun _ hmem => absurd hmem List.not_mem_nil⟩

/-- Without repeated lines the ratio is one. -/
theorem ratio_duplicationOnly (precision : Value) (complexity : Nat) {smells : Nat}
    (hlimit : (smells : Rat) ≤ 2 ^ (1023 : Int)) :
    (duplicationOnly precision).scoring.ratio (.nat complexity) (.double (.finite 0))
      (.nat smells) = .ok (.finite 1) := by
  have husable : (duplicationOnly precision).scoring.Usable :=
    ⟨⟨.double (.finite 0), .finite 0, rfl, rfl⟩, ⟨.double (.finite 1), .finite 1, rfl, rfl⟩,
      ⟨.double (.finite 0), .finite 0, rfl, rfl⟩, ⟨10, rfl, by decide⟩, ⟨10, rfl, by decide⟩,
      ⟨_, rfl⟩⟩
  obtain ⟨complexityTerm, hcomplexity, hcomplexityShare⟩ := husable.exists_complexityTerm complexity
  obtain ⟨smellTerm, hsmells, hsmellShare⟩ := husable.exists_smellTerm hlimit
  have hduplication : ((Double.finite 1).sub (.finite 0)).clamp = .finite 1 := by
    decide +kernel
  have htotal :
      (((Double.finite 0).add ((Double.finite 1).mul (.finite 1))).add (.finite 0)).clamp =
        .finite 1 := by
    decide +kernel
  rw [Scoring.ratio, hcomplexity, Scoring.duplicationTerm_double, hduplication, hsmells]
  change Except.ok ((((Double.finite 0).mul complexityTerm).add
    ((Double.finite 1).mul (.finite 1))).add ((Double.finite 0).mul smellTerm)).clamp = _
  rw [Double.zero_mul_share hcomplexityShare, Double.zero_mul_share hsmellShare, htotal]

end Config

namespace Analyzer

variable {config : Config} {pace : Pace} {s : Text}

/-- Without duplication the analysis fails where there are more than 27 decimal places to a ratio of
one. -/
theorem analyze_duplicationOnly {n : Int} (hn : 27 < n) (pace : Pace) :
    ∃ a, ofConfigAt pace (.duplicationOnly (.int n)) = .ok a ∧
      ∀ (d : Diagnostics) (elapsed : Value), d.maxSamples = .int 1000 →
        (a.analyze d (.text []) .null elapsed).1 = .error (.fault .tooPrecise) := by
  obtain ⟨scanner, engine, ha, hrules, hconfig⟩ := exists_ofConfigAt
    (Config.typed_duplicationOnly n) (Config.validate_duplicationOnly (by omega)) pace
  refine ⟨_, ha, fun d elapsed hd => ?_⟩
  have hworkers :
      ∃ count, (Config.duplicationOnly (.int n)).performance.maxParallelWorkers.number? =
        some (.int count) := ⟨4, rfl⟩
  obtain ⟨result, hrun, -, hlimit⟩ := exists_smells_of_runWith (s := []) scanner hworkers
    (fun h => absurd h Bool.false_ne_true) hrules hconfig (Nat.two_pow_pos 1000)
  have hduplication : Text.duplication false [] = .finite 0 := by
    decide +kernel
  have hone : (Value.double (.finite 1)).roundHalfUp (.int n) = .error .tooPrecise :=
    Value.roundHalfUp_one rfl hn
  have hratio := Config.ratio_duplicationOnly (.int n) (Text.clean []).complexity hlimit
  have haggregate : Profile.aggregate (Config.duplicationOnly (.int n)).scoring
      (.nat (Text.clean []).complexity) (.double (.finite 0)) result.smells
      (.nat (Text.lines []).length) = .error .tooPrecise := by
    rw [Profile.aggregate]
    dsimp only
    rw [hratio]
    change ((Value.double (.finite 1)).roundHalfUp (.int n) >>= _) = _
    rw [hone]
    rfl
  rw [fst_analyze (Diagnostics.sampleBound?_of_eq hd), profile_eq, hrun]
  change Fault.lift (Profile.aggregate _ _ (.double (Text.duplication false [])) _ _) = _
  rw [hduplication, haggregate]
  rfl

/-- A limit that cannot be waited for makes the analysis fail if several rules run and take their
time. -/
theorem not_completes_of_not_waitable (htyped : config.Typed) (hvalid : config.validate = .ok ())
    (hparallel : config.performance.parallelExecution.truthy = true) (hwait : ¬config.Waitable)
    (hrules : 2 ≤ (Catalog.rules.filter config.enables).length)
    (hduration : ∀ id, 0 < pace.duration id) : ¬Completes pace config s := by
  obtain ⟨scanner, engine, ha, hengine, hconfig⟩ := exists_ofConfigAt htyped hvalid pace
  rintro ⟨a, ha', hcompletes⟩
  obtain rfl := Except.ok.inj (ha.symm.trans ha')
  obtain ⟨profile, -, hprofile, -⟩ := hcompletes {} (.int 0) rfl
  obtain ⟨result, hrun, -⟩ := exists_run_of_analyze hprofile
  subst hconfig
  have hlength : 2 ≤ engine.rules.length := by
    rw [hengine, pace.filter_catalog, List.length_map]
    exact hrules
  have hpositive : ∀ r ∈ engine.rules, 0 < r.duration := by
    intro r hr
    rw [hengine] at hr
    obtain ⟨r', -, rfl⟩ := List.mem_map.mp (List.mem_filter.mp hr).1
    exact hduration r'.id
  obtain ⟨f, hf⟩ := Engine.runWith_of_not_waitable
    (.ofSource (.text s) (some engine.config) scanner) .null rfl htyped.maxParallelWorkers hparallel
    hlength hpositive hwait pace.schedule
  rw [hrun] at hf
  contradiction

/-- A valid configuration whose settings are of their types, and whose limit can be waited for if
rules run at the same time, makes no analysis fail if it has 27 decimal places or fewer. That is so
at every pace, of every text that any memory can hold and whatever was analyzed before. With more
decimal places there are valid configurations that make the analysis fail, and so do limits that
cannot be waited for. -/
theorem completes_iff (p : Int) :
    ((∀ config : Config, config.Typed → config.validate = .ok () →
        config.scoring.precision.number? = some (.int p) →
        (config.performance.parallelExecution.truthy = true → config.Waitable) →
        ∀ (pace : Pace) (s : Text), s.length < 2 ^ 1000 → Completes pace config s) ↔ p ≤ 27) ∧
    ∀ config : Config, config.Typed → config.validate = .ok () →
      config.performance.parallelExecution.truthy = true → ¬config.Waitable →
      2 ≤ (Catalog.rules.filter config.enables).length →
      ∀ pace : Pace, (∀ id, 0 < pace.duration id) → ∀ s, ¬Completes pace config s := by
  refine ⟨⟨fun h => Int.not_lt.mp fun hlt => ?_, ?_⟩, ?_⟩
  · obtain ⟨a, ha, hanalyze⟩ := analyze_duplicationOnly hlt {}
    obtain ⟨a', ha', hcompletes⟩ := h (.duplicationOnly (.int p)) (Config.typed_duplicationOnly p)
      (Config.validate_duplicationOnly (by omega)) rfl (fun h => absurd h Bool.false_ne_true) {} []
      (Nat.two_pow_pos 1000)
    obtain rfl := Except.ok.inj (ha.symm.trans ha')
    obtain ⟨profile, -, hprofile, -⟩ := hcompletes {} (.int 0) rfl
    rw [hanalyze {} (.int 0) rfl] at hprofile
    contradiction
  · intro hle config htyped hvalid hp hwait pace s hlength
    exact completes_of_precision_le htyped hvalid hp hle hwait hlength
  · intro config htyped hvalid hparallel hwait hrules pace hduration s
    exact not_completes_of_not_waitable htyped hvalid hparallel hwait hrules hduration

/-- With 28 decimal places the empty text cannot be analyzed, although the configuration
is valid. -/
theorem analyze_twentyEightPlaces :
    (Config.duplicationOnly (.int 28)).Typed ∧
      (Config.duplicationOnly (.int 28)).validate = .ok () ∧
      ∃ a, ofConfig (.duplicationOnly (.int 28)) = .ok a ∧
        (a.analyze {} (.text [])).1 = .error (.fault .tooPrecise) := by
  refine ⟨Config.typed_duplicationOnly 28, Config.validate_duplicationOnly (by decide), ?_⟩
  obtain ⟨a, ha, hanalyze⟩ := analyze_duplicationOnly (n := 28) (by decide) {}
  rw [ofConfigAt_default] at ha
  exact ⟨a, ha, hanalyze {} (.int 0) rfl⟩

end Analyzer

end CodeHealth
