import CodeHealth.Diagnostics.Basic
import CodeHealth.Proofs.Value.Limits

/-!
# When there are statistics

Without durations there are no statistics, and with durations there are some unless an operation on
them is a fault (`DurationStats.ofSamples_eq_none_iff`). Durations in floating point are never at
fault. Whole ones may become too large for a division or an interpolation, which does not happen
within a limit that leaves room for their sum (`DurationStats.exists_ofSamples`).
-/

namespace CodeHealth

namespace DurationStats

variable {samples : List Value} {stats : DurationStats}

/-! ### The result is about all durations -/

theorem ofSamples_nil : ofSamples [] = .ok none := by
  have hsorted : Sorting.sort below [] = [] := (Sorting.perm_sort below []).eq_nil
  unfold ofSamples
  dsimp only
  rw [hsorted, List.mapM_nil]
  rfl

/-- With durations there are statistics, unless an operation is a fault. -/
theorem of_ofSamples_eq_ok {stats? : Option DurationStats} (hne : samples ≠ [])
    (h : ofSamples samples = .ok stats?) :
    ∃ stats, stats? = some stats ∧ stats.count = samples.length := by
  obtain ⟨_, -, h⟩ := exists_of_bind_eq_ok h
  have hperm := Sorting.perm_sort below samples
  have hsorted : Sorting.sort below samples ≠ [] := fun hnil =>
    hne (List.Perm.nil_eq (hnil ▸ hperm)).symm
  dsimp only at h
  rw [List.head?_eq_some_head hsorted, List.getLast?_eq_some_getLast hsorted] at h
  obtain ⟨_, -, h⟩ := exists_of_bind_eq_ok h
  obtain ⟨_, -, h⟩ := exists_of_bind_eq_ok h
  obtain ⟨_, -, h⟩ := exists_of_bind_eq_ok h
  obtain ⟨_, -, h⟩ := exists_of_bind_eq_ok h
  exact ⟨_, (Except.ok.inj h).symm, rfl⟩

theorem ofSamples_eq_none_iff : ofSamples samples = .ok none ↔ samples = [] := by
  constructor
  · intro h
    by_cases hne : samples = []
    · exact hne
    · obtain ⟨stats, hstats, -⟩ := of_ofSamples_eq_ok hne h
      contradiction
  · rintro rfl
    exact ofSamples_nil

theorem count_of_ofSamples (h : ofSamples samples = .ok (some stats)) :
    stats.count = samples.length := by
  have hne : samples ≠ [] := by
    rintro rfl
    rw [ofSamples_nil] at h
    exact Option.some_ne_none stats (Except.ok.inj h).symm
  obtain ⟨_, hstats, hcount⟩ := of_ofSamples_eq_ok hne h
  obtain rfl := Option.some.inj hstats
  exact hcount

/-! ### Durations within a limit -/

section Limit

variable {limit : Nat}

theorem exists_sum {start : Value} {size : Nat} (hstart : start.Within size)
    (h : ∀ v ∈ samples, v.Within limit)
    (hlimit : ((size + samples.length * limit : Nat) : Rat) ≤ 2 ^ (1023 : Int)) :
    ∃ total, samples.foldlM Value.add start = .ok total ∧
      total.Within (size + samples.length * limit) := by
  induction samples generalizing start size with
  | nil => exact ⟨start, rfl, by simpa using hstart⟩
  | cons v rest ih =>
    have hsize : size + limit + rest.length * limit = size + (v :: rest).length * limit := by
      rw [List.length_cons, Nat.succ_mul]
      omega
    have hle {k : Nat} (hk : k ≤ size + limit + rest.length * limit) :
        (k : Rat) ≤ 2 ^ (1023 : Int) :=
      Rat.le_trans (Rat.natCast_le_natCast.mpr (hsize ▸ hk)) hlimit
    obtain ⟨next, hnext, hwithin⟩ :=
      hstart.exists_add (h v List.mem_cons_self) (hle (by omega)) (hle (by omega))
    obtain ⟨total, htotal, htotalWithin⟩ := ih hwithin
      (fun w hw => h w (List.mem_cons_of_mem v hw)) (hle (Nat.le_refl _))
    refine ⟨total, ?_, hsize ▸ htotalWithin⟩
    rw [List.foldlM_cons, hnext]
    exact htotal

theorem exists_percentile (h : ∀ v ∈ samples, v.Within limit)
    (hlimit : (limit : Rat) ≤ 2 ^ (1022 : Int)) (percent : Nat) :
    ∃ v, percentile percent samples = .ok v := by
  have hdouble : ((limit + limit : Nat) : Rat) ≤ 2 ^ (1023 : Int) := by
    have := Double.two_zpow_add 1022 1
    rw [Rat.zpow_one] at this
    rw [Rat.natCast_add]
    grind
  have hsingle : (limit : Rat) ≤ 2 ^ (1023 : Int) :=
    Rat.le_trans hlimit (Double.two_zpow_le (by decide))
  unfold percentile
  dsimp only
  generalize ((rank percent samples.length).toRat?.getD 0).floor.toNat = index
  have hlower : (samples.getD index (.int 0)).Within limit := by
    rw [List.getD_eq_getElem?_getD]
    cases hget : samples[index]? with
    | none => exact Value.within_zero limit
    | some v => exact h v (List.mem_of_getElem? hget)
  cases hupper : samples[index + 1]? with
  | none => exact ⟨_, rfl⟩
  | some upper =>
    obtain ⟨gap, hgap, hgapWithin⟩ :=
      (h upper (List.mem_of_getElem? hupper)).exists_sub hlower hsingle hsingle
    obtain ⟨x, hx⟩ := hgapWithin.exists_double_mul hdouble
      ((rank percent samples.length).sub (.nearest index))
    obtain ⟨v, hv, -⟩ := hlower.exists_add (w := .double x) (j := limit) ⟨_, rfl, trivial⟩ hsingle
      hsingle
    refine exists_bind_eq_ok hgap ?_
    exact exists_bind_eq_ok hx ⟨v, hv⟩

/-- There are statistics of durations within a limit that leaves room for their sum. -/
theorem exists_ofSamples (hne : samples ≠ []) (h : ∀ v ∈ samples, v.Within limit)
    (hcount : (samples.length : Rat) ≤ 2 ^ (1023 : Int))
    (hlimit : ((samples.length * limit : Nat) : Rat) ≤ 2 ^ (1022 : Int)) :
    ∃ stats, ofSamples samples = .ok (some stats) := by
  have hcap : (2 : Rat) ^ (1022 : Int) ≤ 2 ^ (1023 : Int) := Double.two_zpow_le (by decide)
  have hlength : samples.length ≠ 0 := fun hzero => hne (List.length_eq_zero_iff.mp hzero)
  have hsingle : (limit : Rat) ≤ 2 ^ (1022 : Int) :=
    Rat.le_trans (Rat.natCast_le_natCast.mpr (Nat.le_mul_of_pos_left limit
      (Nat.pos_of_ne_zero hlength))) hlimit
  have hperm := Sorting.perm_sort below samples
  have hsorted : ∀ v ∈ Sorting.sort below samples, v.Within limit :=
    fun v hv => h v (hperm.mem_iff.mp hv)
  have hsortedNe : Sorting.sort below samples ≠ [] := fun hnil =>
    hne (List.Perm.nil_eq (hnil ▸ hperm)).symm
  have hnumbers : samples.mapM (fun v => v.number .notReal) =
      .ok (samples.map fun v => v.number?.getD (.int 0)) := by
    refine mapM_eq_ok fun v hv => ?_
    obtain ⟨n, hn, -⟩ := h v hv
    rw [Value.number, hn]
    rfl
  obtain ⟨total, htotal, n, hn, hwithin⟩ := exists_sum (Value.within_zero 0) h
    (by rw [Nat.zero_add]; exact Rat.le_trans hlimit hcap)
  rw [Nat.zero_add] at hwithin
  obtain ⟨average, haverage⟩ := hwithin.exists_div (Rat.le_trans hlimit hcap) hlength hcount
  obtain ⟨median, hmedian⟩ := exists_percentile hsorted hsingle 50
  obtain ⟨percentile95, hpercentile95⟩ := exists_percentile hsorted hsingle 95
  have hdiv : total.div (.nat samples.length) = .ok average := by
    rw [Value.div, hn]
    exact haverage
  unfold ofSamples
  dsimp only
  have hsum : sum samples = .ok total := htotal
  rw [List.head?_eq_some_head hsortedNe, List.getLast?_eq_some_getLast hsortedNe,
    bind_eq_of_eq_ok hnumbers]
  dsimp only
  rw [bind_eq_of_eq_ok hsum, bind_eq_of_eq_ok hdiv, bind_eq_of_eq_ok hmedian,
    bind_eq_of_eq_ok hpercentile95]
  exact ⟨_, rfl⟩

end Limit

end DurationStats

end CodeHealth
