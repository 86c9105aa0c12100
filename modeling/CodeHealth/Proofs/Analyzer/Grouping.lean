import CodeHealth.Proofs.Analyzer.Totality

/-!
# The smells of a profile are those of a run

An analysis lists its smells by category. Nothing is lost or moved by that: the groups, one after
the other, are the smells that the rules find when they run on the source without an analysis around
them. So a run of the rules and a profile of the same source can be compared smell by smell.

What makes it work is the order of the catalog. Rules are loaded, run and put together in that
order, which is the order of the categories, and so the smells of one category come together.
-/

namespace CodeHealth

theorem Smell.group_eq_ok {smells : List Smell} {groups : SmellGroups}
    (h : Smell.group smells = .ok groups) : groups = .ofSmells smells := by
  obtain ⟨_, -, h⟩ := exists_of_bind_eq_ok h
  exact (Except.ok.inj h).symm

/-- A profile lists all smells that it was made of, and counts them. -/
theorem Profile.smells_of_aggregate {scoring : Scoring} {complexity duplication lines : Value}
    {smells : List Smell} {p : Profile}
    (h : aggregate scoring complexity duplication smells lines = .ok p) :
    p.smells = .ofSmells smells ∧ p.smellCount = .nat smells.length := by
  obtain ⟨ratio, rounded, assessment, groups, -, -, -, -, hgroups, rfl⟩ := aggregate_eq_ok_iff.mp h
  exact ⟨Smell.group_eq_ok hgroups, rfl⟩

namespace SmellGroups

theorem length_flatMap (groups : SmellGroups) : (groups.flatMap Prod.snd).length =
    Entries.total (groups.map fun group => (group.1, group.2.length)) := by
  induction groups with
  | nil => rfl
  | cons group groups ih =>
    rw [List.flatMap_cons, List.length_append, ih]
    rfl

end SmellGroups

namespace Analyzer

/-- What a run of the enabled rules on a source answers, on a pool if it is `parallel`. -/
def Runs (pace : Pace) (config : Config) (s : Text) (parallel : Value) (result : RunResult) :
    Prop :=
  ∃ scanner engine, Config.selectScanner config.structureScanner = .ok scanner ∧
    engineAt pace config = .ok engine ∧
    engine.runWith pace.schedule (.ofSource (.text s) (some config) scanner) {} parallel =
      .ok result

variable {pace : Pace} {config : Config} {s : Text} {parallel : Value} {result : RunResult}

/-- Without waits that expire, a run puts together what comes of the enabled rules. -/
theorem Runs.eq_ofOutcomes
    (hpace : ({ config } : Engine).runsTogether parallel = true → pace.InTime)
    (h : Runs pace config s parallel result) {scanner : Scanner}
    (hscanner : Config.selectScanner config.structureScanner = .ok scanner) :
    result = .ofOutcomes config.continueOnError.truthy ((Catalog.rules.filter config.enables).map
      (Rule.outcome (.ofSource (.text s) (some config) scanner))) := by
  obtain ⟨scanner', engine, hscanner', hengine, hrun⟩ := h
  obtain rfl := Except.ok.inj (hscanner.symm.trans hscanner')
  obtain ⟨hrules, rfl⟩ := rules_engineAt hengine
  rw [pace.filter_catalog] at hrules
  rw [← pace.map_outcome, ← hrules]
  refine Engine.eq_ofOutcomes_of_runWith (fun htogether limit workers hlimit => ?_) hrun
  have hdurations : engine.rules.map Rule.duration =
      (engine.rules.map Rule.id).map pace.duration := by
    rw [hrules, List.map_map, List.map_map, List.map_map]
    rfl
  have hids : engine.rules.length = (engine.rules.map Rule.id).length := (List.length_map _).symm
  rw [hdurations, hids]
  exact hpace htogether limit workers _ hlimit

/-- The smells of a profile, category by category, are those that the enabled rules find in the
source without an analysis around them, as long as no wait for a rule expires. It does not matter
how long the rules take, and whether they run at the same time. -/
theorem smells_analyze {a : Analyzer} (ha : ofConfigAt pace config = .ok a)
    (hpace : ({ config } : Engine).runsTogether parallel = true → pace.InTime)
    {d : Diagnostics} {elapsed : Value} {p : Profile}
    (hp : (a.analyze d (.text s) parallel elapsed).1 = .ok p) :
    p.smells.Canonical ∧
    p.smellCount = .nat (Entries.total (p.smells.map fun group => (group.1, group.2.length))) ∧
    (∃ result, Runs pace config s parallel result) ∧
    ∀ pace' result,
      (({ config } : Engine).runsTogether parallel = true → pace'.InTime) →
      Runs pace' config s parallel result → p.smells.flatMap Prod.snd = result.smells := by
  obtain ⟨scanner, engine, hscanner, hengine, rfl⟩ := eq_ofEngineAt_of_ofConfigAt ha
  obtain ⟨result, hrun, haggregate⟩ := exists_run_of_analyze hp
  have hruns : Runs pace config s parallel result := ⟨scanner, engine, hscanner, hengine, hrun⟩
  have hresult := hruns.eq_ofOutcomes hpace hscanner
  obtain ⟨hgroups, hcount⟩ := Profile.smells_of_aggregate haggregate
  have hrules : (Catalog.rules.filter config.enables).Sublist Catalog.rules := List.filter_sublist
  have hknown : ∀ x ∈ result.smells, ∃ c ∈ Category.all, x.category = .text c.name := by
    intro x hx
    rw [hresult] at hx
    obtain ⟨r, hr, hcategory⟩ := RunResult.exists_rule_of_mem _ hx
    obtain ⟨c, hc, hname⟩ := Catalog.exists_category (hrules.subset hr)
    exact ⟨c, hc, by rw [hcategory, hname]⟩
  have hpairwise : result.smells.Pairwise fun x y =>
      Category.place x.category ≤ Category.place y.category := by
    rw [hresult]
    exact RunResult.pairwise_place (Catalog.pairwise_position.sublist hrules) _
  obtain ⟨hascending, hflat⟩ := SmellGroups.ascending_ofSmells hknown hpairwise
  rw [hcount, hgroups]
  refine ⟨hascending.canonical, ?_, ⟨result, hruns⟩, fun pace' result' hpace' hruns' => ?_⟩
  · rw [← SmellGroups.length_flatMap, hflat]
  · rw [hflat, hresult, hruns'.eq_ofOutcomes hpace' hscanner]

/-- Rules at the same time on a pool that is never waited for in vain: a source with a `switch` in
it has a profile, and the smells of the profile are those of the run. -/
theorem smells_analyze_together :
    let config : Config := { performance := { parallelExecution := .bool true } }
    let pace : Pace := { schedule := fun _ _ durations => List.replicate durations.length true }
    let s := "switch (x) \x7b\x7d".toList
    ∃ a p, ofConfigAt pace config = .ok a ∧ (a.analyze {} (.text s)).1 = .ok p ∧
      p.smells.Canonical ∧ ∃ result, Runs pace config s .null result ∧
        p.smells.flatMap Prod.snd = result.smells := by
  intro config pace s
  have htyped : config.Typed :=
    { enabledCategories := .inl rfl
      complexityWeight := ⟨.double (.nearest (3 / 10)), _, rfl, rfl⟩
      duplicationWeight := ⟨.double (.nearest (3 / 10)), _, rfl, rfl⟩
      smellWeight := ⟨.double (.nearest (4 / 10)), _, rfl, rfl⟩
      complexityCap := ⟨10, rfl⟩
      smellCap := ⟨10, rfl⟩
      highDebtThreshold := ⟨_, rfl⟩
      precision := ⟨2, rfl⟩
      maxParallelWorkers := ⟨4, rfl⟩ }
  obtain ⟨_, hvalid⟩ : ∃ checked, config.validate = .ok checked :=
    exists_of_isOk (by decide +kernel)
  have hwait : config.Waitable := by
    refine ⟨(Double.finite 30000).div (.finite 1000), rfl, ?_⟩
    decide +kernel
  have hpace : pace.InTime := by
    intro limit workers ids hlimit
    simp [pace]
  obtain ⟨a, ha, hcompletes⟩ : Completes pace config s :=
    completes_of_precision_le (p := 2) htyped hvalid rfl (by decide) (fun _ => hwait)
      (by decide +kernel)
  obtain ⟨p, -, hp, -⟩ := hcompletes {} (.int 0) rfl
  obtain ⟨hcanonical, -, ⟨result, hresult⟩, hruns⟩ :=
    smells_analyze ha (fun _ => hpace) hp
  exact ⟨a, p, ha, hp, hcanonical, result, hresult, hruns pace result (fun _ => hpace) hresult⟩

end Analyzer

end CodeHealth
