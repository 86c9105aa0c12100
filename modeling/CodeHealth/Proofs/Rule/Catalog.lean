import CodeHealth.Rule.Catalog
import Mathlib.Data.List.Nodup

/-!
# The catalog in canonical order

The rules of the catalog have different identifiers and known categories, and no two of them share a
place in canonical order. They stand in the order of the categories, so an engine that loads them
runs them in that order. Each of them has a module of its own (`Catalog.ofModule?_eq_some_iff`).
-/

namespace CodeHealth

namespace Rule

theorem noLater_iff {r s : Rule} : r.noLater s = true ↔
    r.sortKey.1 < s.sortKey.1 ∨ r.sortKey.1 = s.sortKey.1 ∧ r.sortKey.2 ≤ s.sortKey.2 := by
  simp [noLater]

theorem noLater_trans (r s t : Rule) (h : r.noLater s = true) (h' : s.noLater t = true) :
    r.noLater t = true := by
  rw [noLater_iff] at h h' ⊢
  omega

theorem noLater_total (r s : Rule) : (r.noLater s || s.noLater r) = true := by
  rw [Bool.or_eq_true, noLater_iff, noLater_iff]
  omega

/-- Whether a rule stands before another one in canonical order. -/
def Precedes (r s : Rule) : Prop :=
  r.sortKey.1 < s.sortKey.1 ∨ r.sortKey.1 = s.sortKey.1 ∧ r.sortKey.2 < s.sortKey.2

instance : Std.Irrefl Precedes where
  irrefl r h := by
    unfold Precedes at h
    omega

instance : Std.Antisymm Precedes where
  antisymm r s h h' := by
    unfold Precedes at h h'
    omega

theorem precedes_of_noLater {r s : Rule} (h : r.noLater s = true) (hne : r.sortKey ≠ s.sortKey) :
    r.Precedes s := by
  rw [noLater_iff] at h
  have hkeys : r.sortKey.1 = s.sortKey.1 → r.sortKey.2 ≠ s.sortKey.2 :=
    fun hfirst hsecond => hne (Prod.ext hfirst hsecond)
  unfold Precedes
  omega

end Rule

namespace Catalog

variable {e e' : CatalogEntry} {r s : Rule} {directory stem : String}

/-! ### The rules -/

theorem mem_rules : r ∈ rules ↔ r ∈ entries.map CatalogEntry.rule :=
  List.mem_mergeSort

theorem cases_of_mem_rules (h : r ∈ rules) :
    r = .longMethod ∨ r = .longParameterList ∨ r = .largeClass ∨ r = .switchStatements ∨
      r = .temporaryField ∨ r = .parallelInheritance ∨ r = .comments ∨ r = .duplicateCode ∨
      r = .featureEnvy := by
  have hmem := mem_rules.mp h
  simpa only [entries, List.map_cons, List.map_nil, List.mem_cons, List.not_mem_nil, or_false]
    using hmem

theorem exists_category (h : r ∈ rules) : ∃ c ∈ Category.all, r.category = c.name := by
  have hall : ∀ name ∈ (entries.map CatalogEntry.rule).map Rule.category,
      ∃ c ∈ Category.all, name = c.name := by decide
  exact hall r.category (List.mem_map_of_mem (mem_rules.mp h))

theorem nodup_ids : (rules.map Rule.id).Nodup := by
  have hperm : (rules.map Rule.id).Perm ((entries.map CatalogEntry.rule).map Rule.id) :=
    (List.mergeSort_perm _ _).map Rule.id
  have hentries : ((entries.map CatalogEntry.rule).map Rule.id).Nodup := by decide
  exact hperm.nodup_iff.mpr hentries

theorem duration_eq_zero (h : r ∈ rules) : r.duration = 0 := by
  have hall : ∀ seconds ∈ (entries.map CatalogEntry.rule).map Rule.duration, seconds = 0 := by
    decide
  exact hall r.duration (List.mem_map_of_mem (mem_rules.mp h))

theorem length_rules : rules.length = 9 :=
  List.length_mergeSort _

/-! ### Their order -/

/-- No two rules have the same place in canonical order. -/
theorem sortKey_injective (hr : r ∈ rules) (hs : s ∈ rules) (h : r.sortKey = s.sortKey) :
    r = s := by
  have hkeys : ((entries.map CatalogEntry.rule).map Rule.sortKey).Nodup := by decide
  exact List.inj_on_of_nodup_map hkeys (mem_rules.mp hr) (mem_rules.mp hs) h

/-- Different rules of the catalog are sorted strictly. -/
theorem pairwise_mergeSort {l : List Rule} (hnodup : l.Nodup) (hl : ∀ r ∈ l, r ∈ rules) :
    (l.mergeSort Rule.noLater).Pairwise Rule.Precedes := by
  have hsorted := List.pairwise_mergeSort Rule.noLater_trans Rule.noLater_total l
  have hdistinct : (l.mergeSort Rule.noLater).Pairwise fun r s => r.sortKey ≠ s.sortKey := by
    refine hnodup.mergeSort.imp_of_mem fun hr hs hne heq => hne ?_
    exact sortKey_injective (hl _ (List.mem_mergeSort.mp hr)) (hl _ (List.mem_mergeSort.mp hs)) heq
  exact hsorted.imp₂ (fun r s => Rule.precedes_of_noLater) hdistinct

theorem pairwise_precedes : rules.Pairwise Rule.Precedes :=
  pairwise_mergeSort (List.nodup_mergeSort.mp nodup_ids.of_map) fun _ => mem_rules.mpr

/-- The rules stand in the order of their categories. -/
theorem pairwise_position :
    rules.Pairwise fun r s => Category.position r.category ≤ Category.position s.category := by
  refine pairwise_precedes.imp fun {r s} h => ?_
  simp only [Rule.Precedes, Rule.sortKey] at h
  omega

/-! ### Their modules -/

theorem rule_injective (he : e ∈ entries) (he' : e' ∈ entries) (h : e.rule = e'.rule) : e = e' := by
  have hids : (entries.map fun e => e.rule.id).Nodup := by decide
  exact List.inj_on_of_nodup_map hids he he' (congrArg Rule.id h)

theorem place_injective (he : e ∈ entries) (he' : e' ∈ entries)
    (h : (e.directory, e.stem) = (e'.directory, e'.stem)) : e = e' := by
  have hplaces : (entries.map fun e => (e.directory, e.stem)).Nodup := by decide
  exact List.inj_on_of_nodup_map hplaces he he' h

theorem of_find? (h : entries.find? (fun e => e.directory = directory ∧ e.stem = stem) = some e) :
    e ∈ entries ∧ e.directory = directory ∧ e.stem = stem := by
  have hplace := List.find?_some h
  exact ⟨List.mem_of_find?_eq_some h, of_decide_eq_true hplace⟩

theorem ofModule?_eq_some_iff : ofModule? directory stem = some r ↔
    ∃ e ∈ entries, e.directory = directory ∧ e.stem = stem ∧ e.rule = r := by
  rw [ofModule?, Option.map_eq_some_iff]
  constructor
  · rintro ⟨e, hfind, hrule⟩
    obtain ⟨he, hdirectory, hstem⟩ := of_find? hfind
    exact ⟨e, he, hdirectory, hstem, hrule⟩
  · rintro ⟨e, he, rfl, rfl, rfl⟩
    obtain ⟨e', hfind⟩ := Option.isSome_iff_exists.mp (List.find?_isSome
      (p := fun e' => e'.directory = e.directory ∧ e'.stem = e.stem) |>.mpr
        ⟨e, he, decide_eq_true ⟨rfl, rfl⟩⟩)
    obtain ⟨he', hdirectory, hstem⟩ := of_find? hfind
    exact ⟨e', hfind,
      congrArg CatalogEntry.rule (place_injective he' he (Prod.ext hdirectory hstem))⟩

end Catalog

end CodeHealth
