import CodeHealth.Proofs.Entries
import CodeHealth.Proofs.Rule.Catalog
import Mathlib.Data.List.Sort

/-!
# What discovery finds

A search reads modules one after another, and each of them either adds a rule or a report
(`Discovery.foldl_read`). So the reports are those of the modules that the catalog does not have, in
the order in which modules are read, and every other module adds a rule of its own. These rules are
sorted, and no two rules of the catalog share a place in the canonical order. The result is
therefore determined by which rules are found, and by nothing else in the tree
(`Discovery.sortedRules_congr`).

A search begins with forgetting, so it does not matter what earlier searches have found.
-/

namespace CodeHealth

def CatalogEntry.file (e : CatalogEntry) : ModuleFile :=
  ⟨e.directory, e.stem ++ ".py"⟩

namespace ModuleFile

variable {f : ModuleFile} {e : CatalogEntry} {files : List FilePath}

/-- Whether there is something of this name directly inside the directory. -/
def StandsIn (f : ModuleFile) (files : List FilePath) : Prop :=
  ∃ path ∈ files, [f.directory, f.fileName] <+: path

instance : Decidable (f.StandsIn files) :=
  inferInstanceAs (Decidable (∃ path ∈ files, [f.directory, f.fileName] <+: path))

/-- Whether a file is read before another one: directory by directory, and in a directory
by name. -/
def Before (f g : ModuleFile) : Prop :=
  Catalog.directories.idxOf f.directory < Catalog.directories.idxOf g.directory ∨
    f.directory = g.directory ∧ f.fileName < g.fileName

theorem Before.irrefl : ¬f.Before f := by
  rintro (h | ⟨-, h⟩)
  · exact Nat.lt_irrefl _ h
  · exact String.lt_irrefl _ h

/-- A module in the directory of a category that the catalog does not have there. -/
structure IsStray (f : ModuleFile) (files : List FilePath) : Prop where
  standsIn : f.StandsIn files
  directory : f.directory ∈ Catalog.directories
  ending : ".py".toList <:+ f.fileName.toList
  shown : f.fileName.toList.head? ≠ some '_'
  unknown : ∀ e ∈ Catalog.entries, e.file ≠ f

theorem isModule_iff : f.isModule = true ↔
    ".py".toList <:+ f.fileName.toList ∧ f.fileName.toList.head? ≠ some '_' := by
  rw [isModule, Bool.and_eq_true, List.isSuffixOf_iff_suffix, decide_eq_true_eq]

/-- The stem and the ending make up the name. -/
theorem stem_append (h : f.isModule = true) (hne : f.fileName ≠ ".py") :
    f.stem ++ ".py" = f.fileName := by
  obtain ⟨u, hu⟩ := (isModule_iff.mp h).1
  have htake : f.fileName.toList.take (f.fileName.toList.length - ".py".length) = u := by
    rw [← hu, List.length_append]
    exact List.take_left' (Nat.add_sub_cancel _ _).symm
  have hnonempty : u.isEmpty = false := by
    cases u with
    | nil => exact absurd (String.toList_inj.mp hu.symm) hne
    | cons c u => rfl
  rw [stem, htake, if_neg (by simp [hnonempty])]
  exact String.toList_inj.mp (by rw [String.toList_append, String.toList_ofList, hu])

/-- Where the catalog has a rule in a module, the name is that of the module. -/
theorem file_eq_iff (hf : f.isModule = true) (he : e ∈ Catalog.entries) :
    e.file = f ↔ e.directory = f.directory ∧ e.stem = f.stem := by
  constructor
  · rintro rfl
    have hstems : ∀ e ∈ Catalog.entries.map fun e => (e.file, e.stem), e.2 = e.1.stem := by decide
    exact ⟨rfl, hstems _ (List.mem_map_of_mem he)⟩
  · rintro ⟨hdirectory, hstem⟩
    have hnames : ∀ name ∈ Catalog.entries.map CatalogEntry.stem, name ≠ ".py" := by decide
    have hne : f.fileName ≠ ".py" := by
      intro heq
      have hkept : f.stem = ".py" := by
        rw [stem, heq]
        rfl
      exact hnames _ (List.mem_map_of_mem he) (hstem.trans hkept)
    obtain ⟨directory, fileName⟩ := f
    rw [CatalogEntry.file, hdirectory, hstem, stem_append hf hne]

theorem rule?_eq_some_iff (hf : f.isModule = true) {r : Rule} :
    f.rule? = some r ↔ ∃ e ∈ Catalog.entries, e.file = f ∧ e.rule = r := by
  rw [rule?, Catalog.ofModule?_eq_some_iff]
  refine exists_congr fun e => and_congr_right fun he => ?_
  rw [file_eq_iff hf he, and_assoc]

theorem rule?_eq_none_iff (hf : f.isModule = true) :
    f.rule? = none ↔ ∀ e ∈ Catalog.entries, e.file ≠ f := by
  rw [Option.eq_none_iff_forall_not_mem]
  constructor
  · intro h e he heq
    exact h e.rule ((rule?_eq_some_iff hf).mpr ⟨e, he, heq, rfl⟩)
  · intro h r hr
    obtain ⟨e, he, heq, -⟩ := (rule?_eq_some_iff hf).mp hr
    exact h e he heq

theorem isModule_file (he : e ∈ Catalog.entries) : e.file.isModule = true := by
  have hall : ∀ e ∈ Catalog.entries.map CatalogEntry.file, e.isModule = true := by decide
  exact hall _ (List.mem_map_of_mem he)

end ModuleFile

namespace Discovery

variable {f : ModuleFile} {files files' : List FilePath} {directory name : String}

/-! ### Which modules are read -/

theorem nameIn?_eq_some_iff {path : FilePath} :
    nameIn? directory path = some name ↔ [directory, name] <+: path := by
  match path with
  | [] => simp [nameIn?]
  | [d] => simp [nameIn?]
  | d :: n :: rest => simp [nameIn?, eq_comm]

theorem mem_namesIn :
    name ∈ namesIn directory files ↔ ModuleFile.StandsIn ⟨directory, name⟩ files := by
  rw [namesIn, List.mem_mergeSort, List.mem_eraseDups, List.mem_filterMap]
  exact exists_congr fun path => and_congr_right fun _ => nameIn?_eq_some_iff

theorem pairwise_namesIn : (namesIn directory files).Pairwise (· < ·) := by
  have hle (a b : String) : (!decide (b < a)) = true ↔ a ≤ b := by
    simp only [Bool.not_eq_true', decide_eq_false_iff_not, String.not_lt]
  have htrans (a b c : String) (hab : (!decide (b < a)) = true) (hbc : (!decide (c < b)) = true) :
      (!decide (c < a)) = true :=
    (hle a c).mpr (String.le_trans ((hle a b).mp hab) ((hle b c).mp hbc))
  have htotal (a b : String) : (!decide (b < a) || !decide (a < b)) = true := by
    rw [Bool.or_eq_true, hle, hle]
    exact String.le_total a b
  have hsorted :=
    List.pairwise_mergeSort htrans htotal (files.filterMap (nameIn? directory)).eraseDups
  refine hsorted.imp₂ (fun a b hab hne => ?_) (Entries.nodup_eraseDups _).mergeSort
  exact String.not_le.mp fun hba => hne (String.le_antisymm ((hle a b).mp hab) hba)

theorem mem_modules : f ∈ modules files ↔
    f.directory ∈ Catalog.directories ∧ f.StandsIn files ∧ f.isModule = true := by
  simp only [modules, List.mem_flatMap, List.mem_filter, List.mem_map]
  constructor
  · rintro ⟨directory, hdirectory, ⟨name, hname, rfl⟩, hmodule⟩
    exact ⟨hdirectory, mem_namesIn.mp hname, hmodule⟩
  · rintro ⟨hdirectory, hstands, hmodule⟩
    exact ⟨f.directory, hdirectory, ⟨f.fileName, mem_namesIn.mpr hstands, rfl⟩, hmodule⟩

/-- Modules are read directory by directory, and in a directory by name. -/
theorem pairwise_modules : (modules files).Pairwise ModuleFile.Before := by
  have hdirectories : Catalog.directories.Pairwise fun a b =>
      Catalog.directories.idxOf a < Catalog.directories.idxOf b := by decide
  refine List.pairwise_flatMap.mpr ⟨fun directory _ => ?_, hdirectories.imp fun hlt f hf g hg => ?_⟩
  · refine List.Pairwise.filter _ (List.pairwise_map.mpr ?_)
    exact pairwise_namesIn.imp fun hlt => .inr ⟨rfl, hlt⟩
  · simp only [List.mem_filter, List.mem_map] at hf hg
    obtain ⟨⟨_, -, rfl⟩, -⟩ := hf
    obtain ⟨⟨_, -, rfl⟩, -⟩ := hg
    exact .inl hlt

/-! ### What a search finds -/

/-- The rules whose modules are read, in canonical order. -/
def sortedRules (files : List FilePath) : List Rule :=
  ((modules files).filterMap ModuleFile.rule?).mergeSort Rule.noLater

/-- The modules that are reported, in the order in which they are read. -/
def strays (files : List FilePath) : List ModuleFile :=
  (modules files).filter fun f => f.rule?.isNone

variable {r : Rule}

theorem mem_sortedRules :
    r ∈ sortedRules files ↔ ∃ e ∈ Catalog.entries, e.rule = r ∧ e.file.StandsIn files := by
  rw [sortedRules, List.mem_mergeSort, List.mem_filterMap]
  constructor
  · rintro ⟨f, hf, hrule⟩
    obtain ⟨-, hstands, hmodule⟩ := mem_modules.mp hf
    obtain ⟨e, he, rfl, rfl⟩ := (ModuleFile.rule?_eq_some_iff hmodule).mp hrule
    exact ⟨e, he, rfl, hstands⟩
  · rintro ⟨e, he, rfl, hstands⟩
    have hmodule := ModuleFile.isModule_file he
    have hdirectories : ∀ directory ∈ Catalog.entries.map CatalogEntry.directory,
        directory ∈ Catalog.directories := by decide
    have hdirectory := hdirectories _ (List.mem_map_of_mem he)
    exact ⟨e.file, mem_modules.mpr ⟨hdirectory, hstands, hmodule⟩,
      (ModuleFile.rule?_eq_some_iff hmodule).mpr ⟨e, he, rfl, rfl⟩⟩

/-- No two modules have the same rule. -/
theorem nodup_filterMap_rule? : ((modules files).filterMap ModuleFile.rule?).Nodup := by
  refine List.pairwise_filterMap.mpr
    (pairwise_modules.imp_of_mem fun {f g} hf hg hlt r hr s hs heq => ?_)
  obtain ⟨-, -, hf⟩ := mem_modules.mp hf
  obtain ⟨-, -, hg⟩ := mem_modules.mp hg
  obtain ⟨e, he, rfl, rfl⟩ := (ModuleFile.rule?_eq_some_iff hf).mp hr
  obtain ⟨e', he', rfl, rfl⟩ := (ModuleFile.rule?_eq_some_iff hg).mp hs
  obtain rfl := Catalog.rule_injective he he' heq
  exact ModuleFile.Before.irrefl hlt

theorem mem_rules_of_mem_sortedRules (h : r ∈ sortedRules files) : r ∈ Catalog.rules := by
  obtain ⟨e, he, rfl, -⟩ := mem_sortedRules.mp h
  exact Catalog.mem_rules.mpr (List.mem_map_of_mem he)

theorem pairwise_sortedRules : (sortedRules files).Pairwise Rule.Precedes :=
  Catalog.pairwise_mergeSort nodup_filterMap_rule? fun _ hr =>
    mem_rules_of_mem_sortedRules (List.mem_mergeSort.mpr hr)

/-- The rules that are found depend on nothing but the modules of the catalog that there are. -/
theorem sortedRules_congr
    (h : ∀ e ∈ Catalog.entries, e.file.StandsIn files' ↔ e.file.StandsIn files) :
    sortedRules files' = sortedRules files := by
  refine pairwise_sortedRules.eq_of_mem_iff pairwise_sortedRules fun r => ?_
  rw [mem_sortedRules, mem_sortedRules]
  exact exists_congr fun e => and_congr_right fun he => and_congr_right fun _ => h e he

theorem mem_strays : f ∈ strays files ↔ f.IsStray files := by
  rw [strays, List.mem_filter, mem_modules, Option.isNone_iff_eq_none]
  constructor
  · rintro ⟨⟨hdirectory, hstands, hmodule⟩, hnone⟩
    obtain ⟨hending, hshown⟩ := ModuleFile.isModule_iff.mp hmodule
    exact ⟨hstands, hdirectory, hending, hshown, (ModuleFile.rule?_eq_none_iff hmodule).mp hnone⟩
  · intro h
    have hmodule := ModuleFile.isModule_iff.mpr ⟨h.ending, h.shown⟩
    exact ⟨⟨h.directory, h.standsIn, hmodule⟩, (ModuleFile.rule?_eq_none_iff hmodule).mpr h.unknown⟩

/-! ### Reading modules one after another -/

theorem read_of_eq_some {s : Discovery × List Rule} (h : f.rule? = some r) :
    read s f = (s.1, s.2 ++ [r]) := by
  rw [read, h]

theorem read_of_eq_none {s : Discovery × List Rule} (h : f.rule? = none) :
    read s f = ({ s.1 with errors := s.1.errors ++ [f.complaint s.1.base] }, s.2) := by
  rw [read, h]

/-- Each module has added its rule or its report. -/
theorem foldl_read (s : Discovery × List Rule) (fs : List ModuleFile) : fs.foldl read s =
    ({ s.1 with
        errors := s.1.errors ++ (fs.filter fun f => f.rule?.isNone).map (·.complaint s.1.base) },
      s.2 ++ fs.filterMap ModuleFile.rule?) := by
  induction fs generalizing s with
  | nil => simp
  | cons f fs ih =>
    rw [List.foldl_cons, ih]
    cases h : f.rule? with
    | none => simp [read_of_eq_none h, h]
    | some r => simp [read_of_eq_some h, h]

theorem foldl_keep (d : Discovery) (rs : List Rule) :
    rs.foldl keep d = { d with found := d.found.putAll (rs.map fun r => (r.id, r)) } := by
  induction rs generalizing d with
  | nil => rfl
  | cons r rs ih => rw [List.foldl_cons, ih, List.map_cons, Entries.putAll_cons, keep]

theorem nodup_keys_sortedRules :
    (Entries.keys ((sortedRules files).map fun r => (r.id, r))).Nodup := by
  have hnodup : (sortedRules files).Nodup := nodup_filterMap_rule?.mergeSort
  rw [Entries.keys, List.map_map]
  exact hnodup.map_on fun r hr s hs => List.inj_on_of_nodup_map Catalog.nodup_ids
    (mem_rules_of_mem_sortedRules hr) (mem_rules_of_mem_sortedRules hs)

/-- What is known after a search. Nothing of an earlier one is left. -/
theorem discover_eq (d : Discovery) (files : List FilePath) : d.discover files =
    { base := d.base
      found := (sortedRules files).map fun r => (r.id, r)
      errors := (strays files).map (·.complaint d.base) } := by
  rw [discover, foldl_read]
  change (sortedRules files).foldl keep
    { base := d.base, errors := (strays files).map (·.complaint d.base) } = _
  rw [foldl_keep, Entries.putAll_nil_left nodup_keys_sortedRules]

theorem rules_discover (d : Discovery) (files : List FilePath) :
    (d.discover files).rules = sortedRules files := by
  rw [rules, discover_eq, Entries.values, List.map_map]
  exact List.map_id _

/-- A search finds the rules of the catalog whose modules are there, in canonical order and each
by its identifier. It reports every other module in the directory of a category, one after
another in the order of the directories and of the names, and whatever else there is does not
change what is found. Nor does it matter what was found before, so a second search gives what the
first one gave. -/
theorem discover_files (d : Discovery) (files : List FilePath) :
    (∀ r, r ∈ (d.discover files).rules ↔
        ∃ e ∈ Catalog.entries, e.rule = r ∧ e.file.StandsIn files) ∧
      (d.discover files).rules.Pairwise Rule.Precedes ∧
      (d.discover files).found = (d.discover files).rules.map (fun r => (r.id, r)) ∧
      (∃ reported : List ModuleFile,
        (∀ f, f ∈ reported ↔ f.IsStray files) ∧ reported.Pairwise ModuleFile.Before ∧
          (d.discover files).errors = reported.map fun f => f.complaint d.base) ∧
      (∀ files', (∀ e ∈ Catalog.entries, e.file.StandsIn files' ↔ e.file.StandsIn files) →
        (d.discover files').rules = (d.discover files).rules) ∧
      ∀ other, (d.discover other).discover files = d.discover files := by
  simp only [rules_discover]
  refine ⟨fun r => mem_sortedRules, pairwise_sortedRules, ?_,
    ⟨strays files, fun f => mem_strays, pairwise_modules.filter _, ?_⟩,
    fun files' => sortedRules_congr, fun other => ?_⟩
  · rw [discover_eq]
  · rw [discover_eq]
  · rw [discover_eq (d.discover other), discover_eq d files, discover_eq d other]

/-- Two modules of the catalog among others: one that is not in the catalog, one in the directory of
another category, a hidden one and a file elsewhere. -/
theorem discover_files_mixed :
    let d : Discovery := { base := "rules" }
    let modules : List FilePath := [["couplers", "feature_envy.py"], ["bloaters", "long_method.py"]]
    let others : List FilePath :=
      [["couplers", "long_method.py"], ["bloaters", "zz.py"], ["bloaters", "_old.py"], ["notes.py"]]
    ((∀ e ∈ Catalog.entries, e.file.StandsIn (others ++ modules) ↔ e.file.StandsIn modules) ∧
        (d.discover (others ++ modules)).rules = (d.discover modules).rules) ∧
      Rule.longMethod ∈ (d.discover (others ++ modules)).rules ∧
      "Error loading rules from rules/bloaters/zz.py: " ++
          "No module named 'debt_analyzer.rules.bloaters.zz'" ∈
        (d.discover (others ++ modules)).errors := by
  intro d modules others
  have hsame : ∀ e ∈ Catalog.entries,
      e.file.StandsIn (others ++ modules) ↔ e.file.StandsIn modules := by decide
  have hlongMethod :
      (⟨"bloaters", "long_method.py"⟩ : ModuleFile).StandsIn (others ++ modules) := by decide
  have hstray : (⟨"bloaters", "zz.py"⟩ : ModuleFile).IsStray (others ++ modules) :=
    ⟨by decide, by decide, by decide, by decide, by decide⟩
  obtain ⟨-, -, -, -, hrules, -⟩ := discover_files d modules
  obtain ⟨hmem, -, -, ⟨reported, hreported, -, herrors⟩, -⟩ := discover_files d (others ++ modules)
  refine ⟨⟨hsame, hrules _ hsame⟩, (hmem _).mpr ⟨_, List.mem_cons_self, rfl, hlongMethod⟩, ?_⟩
  rw [herrors]
  exact List.mem_map.mpr ⟨_, (hreported _).mpr hstray, by decide +kernel⟩

end Discovery

end CodeHealth
