import CodeHealth.Proofs.Diagnostics.Arithmetic
import CodeHealth.Proofs.Sorting.Order

/-!
# Statistics without rounding

Where nothing is rounded, statistics have the meaning that their names promise (`exact_summary`).
The two places between which a percentile is interpolated lie within the durations, and it lies
between the durations at these places, so that the higher of two percentiles is never below the
lower one. The 50th one is the median. The average lies between the least and the greatest duration,
and none of this depends on the order in which durations were recorded.
-/

namespace CodeHealth.DurationStats

open Arithmetic

variable {samples sorted : List Rat} {percent percent' count i j : Nat}

/-! ### Places -/

/-- A rank is a place and so many hundredths. -/
theorem rank_exact (percent count : Nat) : exact.rank percent count =
    (percent * (count - 1) / 100 : Nat) + (percent * (count - 1) % 100 : Nat) / 100 := by
  have hrank : exact.rank percent count = (percent * (count - 1) : Nat) / 100 := by
    change percent / 100 * ((count - 1 : Nat) : Rat) = _
    rw [Rat.natCast_mul]
    grind
  have hdivision := congrArg (Nat.cast : Nat → Rat) (Nat.div_add_mod (percent * (count - 1)) 100)
  rw [Rat.natCast_add, Rat.natCast_mul] at hdivision
  rw [hrank]
  grind

theorem place_exact (percent count : Nat) :
    exact.place percent count = percent * (count - 1) / 100 := by
  have hremainder : ((percent * (count - 1) % 100 : Nat) : Rat) < 100 :=
    Rat.natCast_lt_natCast.mpr (Nat.mod_lt _ (by decide))
  have hnonneg : (0 : Rat) ≤ (percent * (count - 1) % 100 : Nat) := Rat.natCast_nonneg
  have hfloor : (exact.rank percent count).floor = (percent * (count - 1) / 100 : Nat) := by
    rw [rank_exact]
    refine Int.le_antisymm (Int.lt_add_one_iff.mp (Rat.floor_lt_iff.mpr ?_))
      (Rat.le_floor_iff.mpr ?_)
    · rw [Rat.intCast_add, Rat.intCast_natCast]
      grind
    · rw [Rat.intCast_natCast]
      grind
  change (exact.rank percent count).floor.toNat = _
  rw [hfloor, Int.toNat_natCast]

/-- The places of a percentile lie within the durations, and the second one is the next. -/
theorem places_exact (hpercent : percent ≤ 100) (hcount : 0 < count) :
    exact.place percent count ≤ exact.nextPlace percent count ∧
      exact.nextPlace percent count < count ∧
      exact.nextPlace percent count = min (exact.place percent count + 1) (count - 1) := by
  have hle : percent * (count - 1) ≤ 100 * (count - 1) := Nat.mul_le_mul_right _ hpercent
  have hplace : exact.place percent count ≤ count - 1 := by
    rw [place_exact]
    omega
  unfold nextPlace
  split
  · refine ⟨Nat.le_succ _, ‹_›, ?_⟩
    rw [Nat.min_eq_left (by omega)]
  · refine ⟨Nat.le_refl _, by omega, ?_⟩
    rw [Nat.min_eq_right (by omega)]
    omega

/-! ### Percentiles -/

/-- What is interpolated between the durations at the two places of a percentile. -/
def interpolated (percent : Nat) (sorted : List Rat) : Rat :=
  let lower := sorted.getD (exact.place percent sorted.length) 0
  let upper := sorted.getD (exact.nextPlace percent sorted.length) 0
  lower + (percent * (sorted.length - 1) % 100 : Nat) / 100 * (upper - lower)

theorem percentile_exact (percent : Nat) (sorted : List Rat) :
    exact.percentile percent sorted = .ok (interpolated percent sorted) := by
  have hfraction : exact.minus (exact.rank percent sorted.length)
      (exact.whole (exact.place percent sorted.length)) =
        (percent * (sorted.length - 1) % 100 : Nat) / 100 := by
    change exact.rank percent sorted.length - (exact.place percent sorted.length : Rat) = _
    rw [rank_exact, place_exact]
    grind
  unfold Arithmetic.percentile interpolated
  dsimp only
  rw [hfraction]
  split
  · rename_i hsame
    rw [← hsame]
    refine congrArg Except.ok ?_
    change sorted.getD _ 0 = _
    grind
  · rfl

/-- A fraction of a distance does not lead out of it. -/
theorem between_of_fraction {fraction lower upper : Rat} (hnonneg : 0 ≤ fraction)
    (hle : fraction ≤ 1) (h : lower ≤ upper) : lower ≤ lower + fraction * (upper - lower) ∧
      lower + fraction * (upper - lower) ≤ upper := by
  have hdistance : 0 ≤ upper - lower := by grind
  have hlow := Rat.mul_nonneg hnonneg hdistance
  have hhigh := Rat.mul_le_mul_of_nonneg_right hle hdistance
  constructor <;> grind

theorem fraction_nonneg (total : Nat) : (0 : Rat) ≤ (total % 100 : Nat) / 100 := by
  have : (0 : Rat) ≤ (total % 100 : Nat) := Rat.natCast_nonneg
  grind

theorem fraction_le_one (total : Nat) : ((total % 100 : Nat) / 100 : Rat) ≤ 1 := by
  have : ((total % 100 : Nat) : Rat) ≤ 100 :=
    Rat.natCast_le_natCast.mpr (Nat.le_of_lt (Nat.mod_lt _ (by decide)))
  grind

theorem getElem?_eq_some_getD (h : i < sorted.length) : sorted[i]? = some (sorted.getD i 0) := by
  rw [List.getD_eq_getElem?_getD, List.getElem?_eq_getElem h]
  rfl

theorem head_eq_getD (hne : sorted ≠ []) : sorted.head hne = sorted.getD 0 0 := by
  rw [List.getD_eq_getElem?_getD, ← List.head?_eq_getElem?, List.head?_eq_some_head hne]
  rfl

theorem getLast_eq_getD (hne : sorted ≠ []) :
    sorted.getLast hne = sorted.getD (sorted.length - 1) 0 := by
  rw [List.getD_eq_getElem?_getD, ← List.getLast?_eq_getElem?, List.getLast?_eq_some_getLast hne]
  rfl

section Sorted

variable (hsorted : sorted.Pairwise (· ≤ ·))
include hsorted

theorem getD_mono (hij : i ≤ j) (hj : j < sorted.length) : sorted.getD i 0 ≤ sorted.getD j 0 := by
  rw [List.getD_eq_getElem?_getD, List.getD_eq_getElem?_getD, List.getElem?_eq_getElem hj,
    List.getElem?_eq_getElem (Nat.lt_of_le_of_lt hij hj)]
  obtain rfl | hlt := Nat.eq_or_lt_of_le hij
  · exact Rat.le_refl
  · exact List.pairwise_iff_getElem.mp hsorted i j _ hj hlt

/-- A percentile lies between the durations at its places. -/
theorem interpolated_between (hpercent : percent ≤ 100) (hlength : 0 < sorted.length) :
    sorted.getD (exact.place percent sorted.length) 0 ≤ interpolated percent sorted ∧
      interpolated percent sorted ≤ sorted.getD (exact.nextPlace percent sorted.length) 0 := by
  obtain ⟨hle, hlt, -⟩ := places_exact hpercent hlength
  exact between_of_fraction (fraction_nonneg _) (fraction_le_one _) (getD_mono hsorted hle hlt)

/-- The higher of two percentiles is not below the lower one. -/
theorem interpolated_mono (hle : percent ≤ percent') (hpercent : percent' ≤ 100)
    (hlength : 0 < sorted.length) : interpolated percent sorted ≤ interpolated percent' sorted := by
  have htotal := Nat.mul_le_mul_right (sorted.length - 1) hle
  obtain ⟨-, -, hnext⟩ := places_exact (Nat.le_trans hle hpercent) hlength
  obtain ⟨hnextPlace', hlt', hnext'⟩ := places_exact hpercent hlength
  obtain hsame | hless : exact.place percent sorted.length = exact.place percent' sorted.length ∨
      exact.place percent sorted.length < exact.place percent' sorted.length := by
    rw [place_exact, place_exact]
    omega
  · -- At the same place it is the fraction that has grown.
    have hremainder :
        percent * (sorted.length - 1) % 100 ≤ percent' * (sorted.length - 1) % 100 := by
      rw [place_exact, place_exact] at hsame
      omega
    have hfraction : ((percent * (sorted.length - 1) % 100 : Nat) / 100 : Rat) ≤
        (percent' * (sorted.length - 1) % 100 : Nat) / 100 := by
      have := Rat.natCast_le_natCast.mpr hremainder
      grind
    unfold interpolated
    rw [hnext, hsame, ← hnext']
    have hmono := getD_mono hsorted hnextPlace' hlt'
    have := Rat.mul_le_mul_of_nonneg_right hfraction (by grind : (0 : Rat) ≤
      sorted.getD (exact.nextPlace percent' sorted.length) 0 -
        sorted.getD (exact.place percent' sorted.length) 0)
    dsimp only
    grind
  · -- The next place is at most the one that the higher percentile begins at.
    have hbound : exact.nextPlace percent sorted.length ≤ exact.place percent' sorted.length := by
      omega
    have hlow := (interpolated_between hsorted (Nat.le_trans hle hpercent) hlength).2
    have hhigh := (interpolated_between hsorted hpercent hlength).1
    exact Rat.le_trans hlow (Rat.le_trans (getD_mono hsorted hbound (by omega)) hhigh)

/-- All durations lie between the first and the last one in order. -/
theorem between_ends (hne : sorted ≠ []) {x : Rat} (hx : x ∈ sorted) :
    sorted.head hne ≤ x ∧ x ≤ sorted.getLast hne := by
  obtain ⟨i, hi, rfl⟩ := List.getElem_of_mem hx
  have hget : sorted[i] = sorted.getD i 0 :=
    Option.some.inj ((List.getElem?_eq_getElem hi).symm.trans (getElem?_eq_some_getD hi))
  rw [head_eq_getD, getLast_eq_getD, hget]
  exact ⟨getD_mono hsorted (Nat.zero_le i) hi, getD_mono hsorted (by omega) (by omega)⟩

/-- So do the percentiles. -/
theorem interpolated_between_ends (hne : sorted ≠ []) (hpercent : percent ≤ 100) :
    sorted.head hne ≤ interpolated percent sorted ∧
      interpolated percent sorted ≤ sorted.getLast hne := by
  have hlength := List.length_pos_iff.mpr hne
  obtain ⟨hle, hlt, -⟩ := places_exact hpercent hlength
  obtain ⟨hlow, hhigh⟩ := interpolated_between hsorted hpercent hlength
  rw [head_eq_getD, getLast_eq_getD]
  exact ⟨Rat.le_trans (getD_mono hsorted (Nat.zero_le _) (by omega)) hlow,
    Rat.le_trans hhigh (getD_mono hsorted (by omega) (by omega))⟩

omit hsorted in
/-- The 50th percentile is the duration in the middle, or halfway between the two in the middle. -/
theorem interpolated_fifty (hlength : 0 < sorted.length) : interpolated 50 sorted =
    (sorted.getD ((sorted.length - 1) / 2) 0 + sorted.getD (sorted.length / 2) 0) / 2 := by
  obtain ⟨-, -, hnext⟩ := places_exact (by decide : 50 ≤ 100) hlength
  have hplace : exact.place 50 sorted.length = (sorted.length - 1) / 2 := by
    rw [place_exact]
    omega
  unfold interpolated
  dsimp only
  rw [hnext, hplace]
  obtain heven | hodd :
      50 * (sorted.length - 1) % 100 = 0 ∧ sorted.length / 2 = (sorted.length - 1) / 2 ∨
      50 * (sorted.length - 1) % 100 = 50 ∧ sorted.length / 2 = (sorted.length - 1) / 2 + 1 ∧
        min ((sorted.length - 1) / 2 + 1) (sorted.length - 1) = (sorted.length - 1) / 2 + 1 := by
    omega
  · rw [heven.1, heven.2]
    grind
  · rw [hodd.1, hodd.2.1, hodd.2.2]
    grind

end Sorted

/-! ### Sums -/

theorem sum_exact (samples : List Rat) : exact.sum samples = .ok (samples.foldl (· + ·) 0) := by
  suffices h : ∀ total : Rat, samples.foldlM exact.add total =
      (.ok (samples.foldl (· + ·) total) : Except Fault Rat) from h 0
  induction samples with
  | nil => exact fun _ => rfl
  | cons x samples ih => exact fun total => ih (total + x)

theorem foldl_add_between {least greatest : Rat} (h : ∀ x ∈ samples, least ≤ x ∧ x ≤ greatest)
    (total : Rat) : total + samples.length * least ≤ samples.foldl (· + ·) total ∧
      samples.foldl (· + ·) total ≤ total + samples.length * greatest := by
  induction samples generalizing total with
  | nil =>
    have hnone : (([] : List Rat).length : Rat) = 0 := rfl
    rw [hnone, List.foldl_nil]
    constructor <;> grind
  | cons x samples ih =>
    obtain ⟨hx, hrest⟩ := List.forall_mem_cons.mp h
    obtain ⟨hlow, hhigh⟩ := ih hrest (total + x)
    rw [List.foldl_cons, List.length_cons, Rat.natCast_add]
    constructor <;> grind

/-- The average lies between bounds of all durations. -/
theorem average_between {least greatest : Rat} (hne : samples ≠ [])
    (h : ∀ x ∈ samples, least ≤ x ∧ x ≤ greatest) :
    least ≤ samples.foldl (· + ·) 0 / samples.length ∧
      samples.foldl (· + ·) 0 / samples.length ≤ greatest := by
  have hlength : (0 : Rat) < samples.length :=
    Rat.natCast_lt_natCast.mpr (List.length_pos_iff.mpr hne)
  obtain ⟨hlow, hhigh⟩ := foldl_add_between h 0
  rw [Rat.zero_add, Rat.mul_comm] at hlow hhigh
  constructor
  · refine Rat.not_lt.mp fun hless => ?_
    exact Rat.not_lt.mpr hlow ((Rat.div_lt_iff hlength).mp hless)
  · refine Rat.not_lt.mp fun hless => ?_
    exact Rat.not_lt.mpr hhigh ((Rat.lt_div_iff hlength).mp hless)

/-! ### The durations in order -/

theorem weak_exact : Sorting.Weak exact.below where
  asymm h := by
    have := of_decide_eq_true h
    exact decide_eq_false (Rat.not_lt.mpr (Rat.le_of_lt this))
  trans h h' := by
    have h := Rat.not_lt.mp (of_decide_eq_false h)
    have h' := Rat.not_lt.mp (of_decide_eq_false h')
    exact decide_eq_false (Rat.not_lt.mpr (Rat.le_trans h h'))

theorem pairwise_sort_exact (samples : List Rat) :
    (Sorting.sort exact.below samples).Pairwise (· ≤ ·) :=
  (Sorting.ordered_sort weak_exact samples).imp fun h => Rat.not_lt.mp (of_decide_eq_false h)

theorem sort_exact_ne_nil (hne : samples ≠ []) : Sorting.sort exact.below samples ≠ [] :=
  fun hnil => hne (List.Perm.nil_eq (hnil ▸ Sorting.perm_sort exact.below samples)).symm

theorem sort_exact_of_perm {other : List Rat} (h : other.Perm samples) :
    Sorting.sort exact.below other = Sorting.sort exact.below samples := by
  refine Sorting.sort_eq_of_perm weak_exact (fun x y hxy hyx => ?_)
    ((Sorting.perm_sort _ _).trans h.symm) (Sorting.ordered_sort weak_exact samples)
  exact Rat.le_antisymm (Rat.not_lt.mp (of_decide_eq_false hyx))
    (Rat.not_lt.mp (of_decide_eq_false hxy))

theorem foldl_add_of_perm {other : List Rat} (h : other.Perm samples) :
    other.foldl (· + ·) 0 = samples.foldl (· + ·) (0 : Rat) := by
  refine h.foldl_eq' (fun x _ y _ total => ?_) 0
  grind

/-! ### All statistics -/

/-- What the summary of durations is made of. -/
theorem summary_exact (hne : Sorting.sort exact.below samples ≠ []) :
    exact.summary samples = .ok (some
    { count := samples.length
      average := samples.foldl (· + ·) 0 / samples.length
      least := (Sorting.sort exact.below samples).head hne
      greatest := (Sorting.sort exact.below samples).getLast hne
      median := interpolated 50 (Sorting.sort exact.below samples)
      percentile95 := interpolated 95 (Sorting.sort exact.below samples) }) := by
  have hnumbers : samples.mapM exact.number = .ok (samples.map fun x => .double (.finite x)) :=
    mapM_eq_ok fun _ _ => rfl
  unfold summary
  dsimp only
  rw [bind_eq_of_eq_ok hnumbers, List.head?_eq_some_head hne, List.getLast?_eq_some_getLast hne]
  dsimp only
  rw [bind_eq_of_eq_ok (sum_exact samples), percentile_exact, percentile_exact]
  rfl

/-- Whether a number lies between the durations at the two places of a percentile. The places are
neighbours, but at the end, where they are the same. -/
structure Interpolates (percent : Nat) (sorted : List Rat) (v : Rat) : Prop where
  place : exact.place percent sorted.length = percent * (sorted.length - 1) / 100
  nextPlace : exact.nextPlace percent sorted.length =
    min (exact.place percent sorted.length + 1) (sorted.length - 1)
  between : ∃ lower upper, sorted[exact.place percent sorted.length]? = some lower ∧
    sorted[exact.nextPlace percent sorted.length]? = some upper ∧ lower ≤ v ∧ v ≤ upper

/-- Whether every statistic of some durations, which are given in order as well, is what its name
says. -/
structure Summary.Describes (s : Summary Rat Rat) (samples sorted : List Rat) : Prop where
  perm : sorted.Perm samples
  ordered : sorted.Pairwise (· ≤ ·)
  count : s.count = samples.length
  average : s.average = samples.foldl (· + ·) 0 / samples.length
  least : sorted.head? = some s.least
  greatest : sorted.getLast? = some s.greatest
  median : ∃ lower upper, sorted[(sorted.length - 1) / 2]? = some lower ∧
    sorted[sorted.length / 2]? = some upper ∧ s.median = (lower + upper) / 2
  percentile50 : exact.percentile 50 sorted = .ok s.median
  percentile95 : exact.percentile 95 sorted = .ok s.percentile95
  least_le_median : s.least ≤ s.median
  median_le_percentile95 : s.median ≤ s.percentile95
  percentile95_le_greatest : s.percentile95 ≤ s.greatest
  least_le_average : s.least ≤ s.average
  average_le_greatest : s.average ≤ s.greatest

theorem interpolates (hsorted : sorted.Pairwise (· ≤ ·)) (hlength : 0 < sorted.length)
    (hpercent : percent ≤ 100) : Interpolates percent sorted (interpolated percent sorted) := by
  obtain ⟨hle, hlt, hnext⟩ := places_exact hpercent hlength
  obtain ⟨hlow, hhigh⟩ := interpolated_between hsorted hpercent hlength
  exact ⟨place_exact _ _, hnext, _, _, getElem?_eq_some_getD (Nat.lt_of_le_of_lt hle hlt),
    getElem?_eq_some_getD hlt, hlow, hhigh⟩

theorem summary_exact_of_perm (hne : samples ≠ []) {other : List Rat} (h : other.Perm samples) :
    exact.summary other = exact.summary samples := by
  have hsame := sort_exact_of_perm h
  have hsum := foldl_add_of_perm h
  have hsorted := sort_exact_ne_nil hne
  rw [summary_exact hsorted, summary_exact (by rwa [hsame])]
  simp only [hsame, hsum, h.length_eq]

/-- The summary of durations describes them, its percentiles are interpolated between neighbours,
and it does not depend on the order in which they were recorded. The statistics that are reported
are the same ones in the arithmetic that rounds. -/
theorem exact_summary (hne : samples ≠ []) :
    (∃ s, exact.summary samples = .ok (some s) ∧
      s.Describes samples (Sorting.sort exact.below samples)) ∧
    (∀ percent ≤ 100, ∃ v, exact.percentile percent (Sorting.sort exact.below samples) = .ok v ∧
      Interpolates percent (Sorting.sort exact.below samples) v) ∧
    (∀ other : List Rat, other.Perm samples → exact.summary other = exact.summary samples) ∧
    ∀ vs, ofSamples vs = (rounding.summary vs).map (Option.map ofSummary) := by
  have hperm := Sorting.perm_sort exact.below samples
  have hsorted := pairwise_sort_exact samples
  have hsortedNe := sort_exact_ne_nil hne
  have hsummary := summary_exact hsortedNe
  have hends : ∀ x ∈ samples, _ ≤ x ∧ x ≤ _ := fun x hx =>
    between_ends hsorted hsortedNe (hperm.mem_iff.mpr hx)
  obtain ⟨hleast, hgreatest⟩ := average_between hne hends
  generalize Sorting.sort exact.below samples = sorted at hperm hsorted hsortedNe hsummary ⊢
  have hlength := List.length_pos_iff.mpr hsortedNe
  refine ⟨⟨_, hsummary, ?_⟩, fun percent hpercent => ?_, fun other => summary_exact_of_perm hne,
    ofSamples_eq⟩
  · exact
      { perm := hperm
        ordered := hsorted
        count := rfl
        average := rfl
        least := List.head?_eq_some_head hsortedNe
        greatest := List.getLast?_eq_some_getLast hsortedNe
        median := ⟨_, _, getElem?_eq_some_getD (by omega), getElem?_eq_some_getD (by omega),
          interpolated_fifty hlength⟩
        percentile50 := percentile_exact 50 sorted
        percentile95 := percentile_exact 95 sorted
        least_le_median := (interpolated_between_ends hsorted hsortedNe (by decide)).1
        median_le_percentile95 := interpolated_mono hsorted (by decide) (by decide) hlength
        percentile95_le_greatest := (interpolated_between_ends hsorted hsortedNe (by decide)).2
        least_le_average := hleast
        average_le_greatest := hgreatest }
  · exact ⟨_, percentile_exact percent sorted, interpolates hsorted hlength hpercent⟩

/-- Four durations out of order, with the median halfway between two of them. -/
theorem exact_summary_four :
    let samples : List Rat := [3, 1, 10, 2]
    samples ≠ [] ∧ exact.place 95 4 = 2 ∧ exact.nextPlace 95 4 = 3 ∧
      ∃ s, exact.summary samples = .ok (some s) ∧ exact.summary [10, 3, 2, 1] = .ok (some s) ∧
        s.average = 4 ∧ s.median = 5 / 2 ∧ 5 / 2 ≤ s.percentile95 ∧
        s.percentile95 ≤ s.greatest := by
  intro samples
  have hne : samples ≠ [] := List.cons_ne_nil _ _
  obtain ⟨⟨s, hs, hdescribes⟩, -, hother, -⟩ := exact_summary hne
  have hsorted : Sorting.sort exact.below samples = [1, 2, 3, 10] := by
    refine List.Perm.eq_of_pairwise (fun _ _ _ _ => Rat.le_antisymm) hdescribes.ordered
      (by decide) ?_
    exact hdescribes.perm.trans (by decide)
  have hhalf : s.median = 5 / 2 := by
    obtain ⟨lower, upper, hlower, hupper, hmiddle⟩ := hdescribes.median
    rw [hsorted] at hlower hupper
    obtain rfl : 2 = lower := Option.some.inj hlower
    obtain rfl : 3 = upper := Option.some.inj hupper
    exact hmiddle.trans (by decide +kernel)
  refine ⟨hne, by decide +kernel, by decide +kernel, s, hs, (hother _ (by decide)).trans hs, ?_,
    hhalf, hhalf ▸ hdescribes.median_le_percentile95, hdescribes.percentile95_le_greatest⟩
  exact hdescribes.average.trans (by decide +kernel)

end CodeHealth.DurationStats
