import CodeHealth.Text.Search

/-!
# Where a scan finds something

A recogniser may be asked at any offset of a text. A scan reports what it answers at the places of
the hits and nothing else (`answerAt_of_mem_scan`), and it misses nothing: an offset at which the
recogniser has an answer is the place of a hit, or it lies inside one (`exists_mem_scan`). The hits
stand in order and do not overlap (`pairwise_scan`).

All of this is proved for scans from any position on, where an offset counts from that position and
the first characters may still belong to an earlier match.
-/

namespace CodeHealth.Text

variable {α : Type} {m : Recogniser α} {before : Option Char} {at_ owned offset : Nat} {s : Text}

/-- What a recogniser answers at an offset of a text that stands behind a given character. -/
def answerFrom (m : Recogniser α) (before : Option Char) (s : Text) (offset : Nat) :
    Option (Nat × α) :=
  m ((s.take offset).getLast?.or before) (s.drop offset)

/-- What a recogniser answers at an offset of a text. -/
def answerAt (m : Recogniser α) (s : Text) (offset : Nat) : Option (Nat × α) :=
  m (s.take offset).getLast? (s.drop offset)

theorem answerFrom_none (m : Recogniser α) (s : Text) (offset : Nat) :
    answerFrom m none s offset = answerAt m s offset := by
  rw [answerFrom, answerAt, Option.or_none]

theorem answerFrom_succ (m : Recogniser α) (before : Option Char) (c : Char) (rest : Text)
    (offset : Nat) :
    answerFrom m before (c :: rest) (offset + 1) = answerFrom m (some c) rest offset := by
  rw [answerFrom, answerFrom, List.take_succ_cons, List.getLast?_cons, List.drop_succ_cons]
  cases (rest.take offset).getLast? <;> rfl

/-- A hit is an answer at an offset that no earlier match owns. -/
theorem exists_answerFrom {hit : Hit α} (h : hit ∈ scanFrom m owned before at_ s) :
    ∃ offset, hit.start = at_ + offset ∧ offset < s.length ∧
      answerFrom m before s offset = some (hit.size, hit.value) := by
  fun_induction scanFrom m owned before at_ s with
  | case1 => contradiction
  | case2 owned before at_ c rest ih =>
    obtain ⟨offset, hstart, hlt, hanswer⟩ := ih h
    exact ⟨offset + 1, by omega, Nat.succ_lt_succ hlt, by rw [answerFrom_succ, hanswer]⟩
  | case3 before at_ c rest size value hm ih =>
    obtain rfl | h := List.mem_cons.mp h
    · exact ⟨0, rfl, Nat.succ_pos _, hm⟩
    · obtain ⟨offset, hstart, hlt, hanswer⟩ := ih h
      exact ⟨offset + 1, by omega, Nat.succ_lt_succ hlt, by rw [answerFrom_succ, hanswer]⟩
  | case4 before at_ c rest hm ih =>
    obtain ⟨offset, hstart, hlt, hanswer⟩ := ih h
    exact ⟨offset + 1, by omega, Nat.succ_lt_succ hlt, by rw [answerFrom_succ, hanswer]⟩

/-- An offset with an answer belongs to an earlier match, or it is where a hit begins or
inside one. -/
theorem exists_mem_scanFrom {answer : Nat × α} (hlt : offset < s.length)
    (h : answerFrom m before s offset = some answer) :
    offset < owned ∨ ∃ hit ∈ scanFrom m owned before at_ s,
      hit.start = at_ + offset ∨
        hit.start < at_ + offset ∧ at_ + offset < hit.start + hit.size := by
  fun_induction scanFrom m owned before at_ s generalizing offset with
  | case1 => contradiction
  | case2 owned before at_ c rest ih =>
    cases offset with
    | zero => exact .inl (Nat.succ_pos owned)
    | succ offset =>
      rw [answerFrom_succ] at h
      obtain howned | ⟨hit, hmem, hplace⟩ := ih (Nat.lt_of_succ_lt_succ hlt) h
      · exact .inl (Nat.succ_lt_succ howned)
      · exact .inr ⟨hit, hmem, by omega⟩
  | case3 before at_ c rest size value hm ih =>
    cases offset with
    | zero => exact .inr ⟨_, List.mem_cons_self, .inl rfl⟩
    | succ offset =>
      rw [answerFrom_succ] at h
      obtain howned | ⟨hit, hmem, hplace⟩ := ih (Nat.lt_of_succ_lt_succ hlt) h
      · exact .inr ⟨_, List.mem_cons_self, .inr ⟨by dsimp only; omega, by dsimp only; omega⟩⟩
      · exact .inr ⟨hit, List.mem_cons_of_mem _ hmem, by omega⟩
  | case4 before at_ c rest hm ih =>
    cases offset with
    | zero =>
      change m before (c :: rest) = some answer at h
      rw [hm] at h
      contradiction
    | succ offset =>
      rw [answerFrom_succ] at h
      obtain howned | ⟨hit, hmem, hplace⟩ := ih (Nat.lt_of_succ_lt_succ hlt) h
      · contradiction
      · exact .inr ⟨hit, hmem, by omega⟩

theorem answerAt_of_mem_scan {hit : Hit α} (h : hit ∈ scan m s) :
    hit.start < s.length ∧ answerAt m s hit.start = some (hit.size, hit.value) := by
  obtain ⟨offset, hstart, hlt, hanswer⟩ := exists_answerFrom h
  rw [Nat.zero_add] at hstart
  rw [answerFrom_none, ← hstart] at hanswer
  exact ⟨hstart ▸ hlt, hanswer⟩

theorem exists_mem_scan {answer : Nat × α} (hlt : offset < s.length)
    (h : answerAt m s offset = some answer) : ∃ hit ∈ scan m s,
      hit.start = offset ∨ hit.start < offset ∧ offset < hit.start + hit.size := by
  rw [← answerFrom_none] at h
  have hplace : offset < 0 ∨ ∃ hit ∈ scanFrom m 0 none 0 s,
      hit.start = 0 + offset ∨ hit.start < 0 + offset ∧ 0 + offset < hit.start + hit.size :=
    exists_mem_scanFrom hlt h
  rw [Nat.zero_add] at hplace
  exact hplace.resolve_left (Nat.not_lt_zero offset)

theorem le_start_of_mem_scanFrom {hit : Hit α} (h : hit ∈ scanFrom m owned before at_ s) :
    at_ + owned ≤ hit.start := by
  fun_induction scanFrom m owned before at_ s with
  | case1 => contradiction
  | case2 owned before at_ c rest ih =>
    have := ih h
    omega
  | case3 before at_ c rest size value hm ih =>
    obtain rfl | h := List.mem_cons.mp h
    · exact Nat.le_refl at_
    · have := ih h
      omega
  | case4 before at_ c rest hm ih =>
    have := ih h
    omega

theorem pairwise_scanFrom (m : Recogniser α) (owned : Nat) (before : Option Char) (at_ : Nat)
    (s : Text) : (scanFrom m owned before at_ s).Pairwise fun hit hit' =>
      hit.start + hit.size ≤ hit'.start := by
  fun_induction scanFrom m owned before at_ s with
  | case1 => exact List.Pairwise.nil
  | case2 _ _ _ _ _ ih => exact ih
  | case3 before at_ c rest size value hm ih =>
    refine List.Pairwise.cons (fun hit' h => ?_) ih
    have := le_start_of_mem_scanFrom h
    dsimp only
    omega
  | case4 _ _ _ _ _ ih => exact ih

/-- The hits of a scan stand in order and do not overlap. -/
theorem pairwise_scan (m : Recogniser α) (s : Text) :
    (scan m s).Pairwise fun hit hit' => hit.start + hit.size ≤ hit'.start :=
  pairwise_scanFrom m 0 none 0 s

/-! ### Matches apart from each other -/

/-- Whether a recogniser has no answer inside of its own matches. -/
def Apart (m : Recogniser α) : Prop :=
  ∀ (before : Option Char) (s : Text) (size : Nat) (value : α), m before s = some (size, value) →
    ∀ offset, 0 < offset → offset < size → answerFrom m before s offset = none

theorem filterMap_range_succ {β : Type} (f : Nat → Option β) (n : Nat) :
    (List.range (n + 1)).filterMap f =
      (f 0).toList ++ (List.range n).filterMap fun i => f (i + 1) := by
  rw [List.range_succ_eq_map, List.filterMap_cons, List.filterMap_map]
  cases f 0 <;> rfl

/-- Where the characters that an earlier match owns hold no answer, nothing is passed over. -/
theorem scanFrom_of_apart (hm : Apart m)
    (howned : ∀ offset < owned, answerFrom m before s offset = none) :
    scanFrom m owned before at_ s = (List.range s.length).filterMap fun offset =>
      (answerFrom m before s offset).map fun answer => ⟨at_ + offset, answer.1, answer.2⟩ := by
  fun_induction scanFrom m owned before at_ s with
  | case1 => rfl
  | case2 owned before at_ c rest ih =>
    have hfirst := howned 0 (Nat.succ_pos owned)
    rw [List.length_cons, filterMap_range_succ, hfirst, ih fun offset hlt => ?_]
    · simp only [answerFrom_succ, Nat.add_assoc, Nat.add_comm 1]
      rfl
    · rw [← answerFrom_succ m before]
      exact howned (offset + 1) (Nat.succ_lt_succ hlt)
  | case3 before at_ c rest size value hanswer ih =>
    have hfirst : answerFrom m before (c :: rest) 0 = some (size, value) := hanswer
    rw [List.length_cons, filterMap_range_succ, hfirst, ih fun offset hlt => ?_]
    · simp only [answerFrom_succ, Nat.add_assoc, Nat.add_comm 1]
      rfl
    · rw [← answerFrom_succ m before]
      exact hm before _ size value hanswer (offset + 1) (Nat.succ_pos offset) (by omega)
  | case4 before at_ c rest hanswer ih =>
    have hfirst : answerFrom m before (c :: rest) 0 = none := hanswer
    rw [List.length_cons, filterMap_range_succ, hfirst, ih nofun]
    simp only [answerFrom_succ, Nat.add_assoc, Nat.add_comm 1]
    rfl

/-- A recogniser that has no answer inside of its own matches is heard at every offset. -/
theorem scan_of_apart (hm : Apart m) (s : Text) :
    scan m s = (List.range s.length).filterMap fun offset =>
      (answerAt m s offset).map fun answer => ⟨offset, answer.1, answer.2⟩ := by
  have hscan : scanFrom m 0 none 0 s = (List.range s.length).filterMap fun offset =>
      (answerFrom m none s offset).map fun answer => ⟨0 + offset, answer.1, answer.2⟩ :=
    scanFrom_of_apart hm nofun
  simp only [answerFrom_none, Nat.zero_add] at hscan
  exact hscan

/-- The hits are the answers, then. -/
theorem mem_scan_of_apart (hm : Apart m) {hit : Hit α} : hit ∈ scan m s ↔
    hit.start < s.length ∧ answerAt m s hit.start = some (hit.size, hit.value) := by
  refine ⟨answerAt_of_mem_scan, fun ⟨hlt, hanswer⟩ => ?_⟩
  rw [scan_of_apart hm, List.mem_filterMap]
  exact ⟨hit.start, List.mem_range.mpr hlt, by rw [hanswer]; rfl⟩

/-- A recogniser that has an answer has met its conditions. -/
theorem prop_of_guard {p : Prop} [Decidable p] {u : Unit} (h : (guard p : Option Unit) = some u) :
    p := by
  by_cases hp : p
  · exact hp
  · have hnone : (guard p : Option Unit) = none := if_neg hp
    rw [hnone] at h
    contradiction

end CodeHealth.Text
