import CodeHealth.Proofs.Entries
import CodeHealth.Proofs.Profile.Share
import CodeHealth.Source.Duplication
import Mathlib.Data.Finset.Card

/-!
# How duplication depends on the lines

Two numbers decide how much of a text is duplicated: how many lines it has, and how many different
ones. The second one is the size of a finite set, so it does not depend on the order of the lines,
and a function on lines cannot make it larger. Both roundings keep the order, so of two texts the
one with the larger share of different lines has the smaller duplication (`repeatedShare_antitone`).

Rounding does not hide a repeated line either. With fewer than `2 ^ 53` lines the share of different
lines is at least `2 ^ -53` below one if a line is repeated, and it is rounded by half of that at
most (`repeatedShare_eq_zero_iff`).
-/

namespace CodeHealth

namespace Text

/-! ### Different lines -/

section Distinct

variable {ls ms : List Text}

theorem distinctCount_eq_card (ls : List Text) : distinctCount ls = ls.toFinset.card := by
  have hset : ls.eraseDups.toFinset = ls.toFinset := by
    ext l
    rw [List.mem_toFinset, List.mem_toFinset, List.mem_eraseDups]
  rw [distinctCount, ← hset, List.toFinset_card_of_nodup (Entries.nodup_eraseDups ls)]

theorem distinctCount_le_length (ls : List Text) : distinctCount ls ≤ ls.length := by
  rw [distinctCount_eq_card]
  exact List.toFinset_card_le ls

theorem distinctCount_eq_length_iff : distinctCount ls = ls.length ↔ ls.Nodup := by
  rw [distinctCount_eq_card]
  exact Multiset.toFinset_card_eq_card_iff_nodup

/-- The order of the lines does not matter. -/
theorem distinctCount_perm (h : ls.Perm ms) : distinctCount ls = distinctCount ms := by
  rw [distinctCount_eq_card, distinctCount_eq_card, List.toFinset_eq_of_perm ls ms h]

/-- Different lines may become the same, but not the other way round. -/
theorem distinctCount_map_le (f : Text → Text) (ls : List Text) :
    distinctCount (ls.map f) ≤ distinctCount ls := by
  have himage : (ls.map f).toFinset = ls.toFinset.image f := by
    ext l
    simp only [List.mem_toFinset, List.mem_map, Finset.mem_image]
  rw [distinctCount_eq_card, distinctCount_eq_card, himage]
  exact Finset.card_image_le

theorem distinctCount_concat (ls : List Text) (l : Text) :
    distinctCount (ls ++ [l]) = if l ∈ ls then distinctCount ls else distinctCount ls + 1 := by
  have hinsert : (ls ++ [l]).toFinset = insert l ls.toFinset := by
    ext m
    simp only [List.mem_toFinset, List.mem_append, List.mem_singleton, Finset.mem_insert, or_comm]
  rw [distinctCount_eq_card, distinctCount_eq_card, hinsert, Finset.card_insert_eq_ite]
  simp only [List.mem_toFinset]

end Distinct

/-! ### The rounded share -/

section Share

variable {ls ms : List Text}

/-- The share of different elements, before it is rounded. -/
def distinctShare (ls : List Text) : Rat :=
  ((distinctCount ls : Int) : Rat) / ((ls.length : Int) : Rat)

theorem natCast_length_pos (h : ls ≠ []) : (0 : Int) < ls.length :=
  Int.natCast_pos.mpr (List.length_pos_iff.mpr h)

theorem distinctShare_le_one (h : ls ≠ []) : distinctShare ls ≤ 1 :=
  Double.quotient_le_one (natCast_length_pos h) (Int.ofNat_le.mpr (distinctCount_le_length ls))

theorem repeatedShare_eq (h : ls ≠ []) :
    repeatedShare ls = (Double.finite 1).sub (.finite (Double.rounded (distinctShare ls))) := by
  rw [repeatedShare, Double.ofQuotient_eq (Int.natCast_nonneg _) (natCast_length_pos h)]
  exact congrArg _ (Double.ofMagnitude_of_le_one (distinctShare_le_one h))

theorem rounds_repeatedShare (h : ls ≠ []) :
    (repeatedShare ls).Rounds (1 - Double.rounded (distinctShare ls)) := by
  have hone : Double.rounded (distinctShare ls) ≤ 1 :=
    Double.rounded_one ▸ Double.rounded_mono (distinctShare_le_one h)
  rw [repeatedShare_eq h]
  exact Double.rounds_sub rfl rfl hone

/-- The larger the share of different elements, the smaller that of the others. -/
theorem repeatedShare_antitone (hls : ls ≠ []) (hms : ms ≠ [])
    (h : distinctCount ls * ms.length ≤ distinctCount ms * ls.length) :
    (repeatedShare ms).le (repeatedShare ls) = true := by
  have hshare : distinctShare ls ≤ distinctShare ms :=
    Double.quotient_le_quotient (natCast_length_pos hls) (natCast_length_pos hms)
      (by exact_mod_cast h)
  have hrounded := Double.rounded_mono hshare
  exact (rounds_repeatedShare hms).le (rounds_repeatedShare hls) (by grind)

/-- Nothing is repeated if the rounded share is zero. -/
theorem repeatedShare_eq_zero_iff (h : ls ≠ []) (hlength : ls.length < 2 ^ 53) :
    repeatedShare ls = .finite 0 ↔ ls.Nodup := by
  rw [← distinctCount_eq_length_iff]
  constructor
  · intro hzero
    by_contra hne
    have hlt : (distinctCount ls : Int) < ls.length :=
      Int.ofNat_lt.mpr (Nat.lt_of_le_of_ne (distinctCount_le_length ls) hne)
    -- What is missing to one is too much to be rounded to zero.
    have hshare : Double.rounded (distinctShare ls) ≤ 1 - 2 ^ (-54 : Int) :=
      Double.rounded_quotient_le (Int.natCast_nonneg _) hlt (by omega)
    exact (rounds_repeatedShare h).ne_zero (n := -54) (by decide) (by grind) hzero
  · intro hall
    have hshare : distinctShare ls = 1 := by
      rw [distinctShare, hall, Rat.div_def]
      exact Rat.mul_inv_cancel _ (Rat.ne_of_gt (Rat.intCast_pos.mpr (natCast_length_pos h)))
    rw [repeatedShare_eq h, hshare, Double.rounded_one]
    decide +kernel

end Share

/-! ### Lines -/

section Lines

variable {s line : Text} {ls : List Text}

theorem lines_ne_nil (s : Text) : s.lines ≠ [] :=
  List.splitOn_ne_nil '\n' s

theorem newline_notMem_of_mem_lines (h : line ∈ s.lines) : '\n' ∉ line := by
  induction s generalizing line with
  | nil =>
    rw [List.mem_singleton.mp h]
    exact List.not_mem_nil
  | cons c s ih =>
    rw [lines, List.splitOn_cons_eq_if_modifyHead] at h
    split at h
    · obtain rfl | h := List.mem_cons.mp h
      · exact List.not_mem_nil
      · exact ih h
    · rename_i hc
      obtain ⟨first, rest, hlines⟩ := List.exists_cons_of_ne_nil (lines_ne_nil s)
      rw [lines] at hlines ih
      rw [hlines, List.modifyHead_cons] at h
      rw [hlines] at ih
      obtain rfl | h := List.mem_cons.mp h
      · have hne : '\n' ≠ c := fun heq => hc (beq_iff_eq.mpr heq.symm)
        exact List.not_mem_cons_of_ne_of_not_mem hne (ih List.mem_cons_self)
      · exact ih (List.mem_cons_of_mem _ h)

/-- Lines that were put together are the lines of the text. -/
theorem lines_unlines (hne : ls ≠ []) (h : ∀ line ∈ ls, '\n' ∉ line) : (unlines ls).lines = ls :=
  List.splitOn_intercalate '\n' h hne

theorem lines_concat (s : Text) (h : '\n' ∉ line) :
    (s ++ '\n' :: line).lines = s.lines ++ [line] := by
  rw [lines, List.splitOn_append_cons_self, List.splitOn_eq_singleton h]
  rfl

/-- A line as duplication compares it. -/
def compared (ignoreBlanks : Bool) (line : Text) : Text :=
  if ignoreBlanks then trim line else line

theorem comparedLines_eq (ignoreBlanks : Bool) (s : Text) :
    s.comparedLines ignoreBlanks = s.lines.map (compared ignoreBlanks) := by
  cases ignoreBlanks with
  | false => exact (List.map_id s.lines).symm
  | true => rfl

theorem length_comparedLines (ignoreBlanks : Bool) (s : Text) :
    (s.comparedLines ignoreBlanks).length = s.lines.length := by
  rw [comparedLines_eq, List.length_map]

theorem comparedLines_ne_nil (ignoreBlanks : Bool) (s : Text) :
    s.comparedLines ignoreBlanks ≠ [] := by
  rw [comparedLines_eq, Ne, List.map_eq_nil_iff]
  exact lines_ne_nil s

theorem comparedLines_concat (ignoreBlanks : Bool) (s : Text) (h : '\n' ∉ line) :
    (s ++ '\n' :: line).comparedLines ignoreBlanks =
      s.comparedLines ignoreBlanks ++ [compared ignoreBlanks line] := by
  rw [comparedLines_eq, comparedLines_eq, lines_concat s h, List.map_append]
  rfl

end Lines

/-! ### Duplication -/

section Duplication

variable {s line : Text} {ls : List Text}

theorem isShare_duplication (ignoreBlanks : Bool) (s : Text) :
    (s.duplication ignoreBlanks).IsShare :=
  (Double.isShare_ofQuotient (Int.natCast_nonneg _)
    (Int.ofNat_le.mpr (distinctCount_le_length _))).one_sub

theorem duplication_perm (ignoreBlanks : Bool) (h : ls.Perm s.lines) :
    (unlines ls).duplication ignoreBlanks = s.duplication ignoreBlanks := by
  have hne : ls ≠ [] := fun hnil => lines_ne_nil s (List.nil_perm.mp (hnil ▸ h))
  have hlines : (unlines ls).lines = ls :=
    lines_unlines hne fun line hline => newline_notMem_of_mem_lines (h.mem_iff.mp hline)
  have hcompared :
      ((unlines ls).comparedLines ignoreBlanks).Perm (s.comparedLines ignoreBlanks) := by
    rw [comparedLines_eq, comparedLines_eq, hlines]
    exact h.map _
  rw [duplication, duplication, repeatedShare, repeatedShare, distinctCount_perm hcompared,
    hcompared.length_eq]

theorem duplication_concat_le (ignoreBlanks : Bool) (hline : '\n' ∉ line)
    (hnew : compared ignoreBlanks line ∉ s.comparedLines ignoreBlanks) :
    ((s ++ '\n' :: line).duplication ignoreBlanks).le (s.duplication ignoreBlanks) = true := by
  rw [duplication, duplication, comparedLines_concat ignoreBlanks s hline]
  refine repeatedShare_antitone (comparedLines_ne_nil ignoreBlanks s) (by simp) ?_
  have hle := distinctCount_le_length (s.comparedLines ignoreBlanks)
  rw [distinctCount_concat, if_neg hnew, List.length_append, List.length_singleton]
  grind

theorem duplication_le_concat (ignoreBlanks : Bool) (hline : '\n' ∉ line)
    (hcopy : compared ignoreBlanks line ∈ s.comparedLines ignoreBlanks) :
    (s.duplication ignoreBlanks).le ((s ++ '\n' :: line).duplication ignoreBlanks) = true := by
  rw [duplication, duplication, comparedLines_concat ignoreBlanks s hline]
  refine repeatedShare_antitone (by simp) (comparedLines_ne_nil ignoreBlanks s) ?_
  rw [distinctCount_concat, if_pos hcopy, List.length_append]
  exact Nat.mul_le_mul_left _ (Nat.le_add_right _ _)

theorem duplication_false_le_true (s : Text) :
    (s.duplication false).le (s.duplication true) = true := by
  refine repeatedShare_antitone (comparedLines_ne_nil true s) (comparedLines_ne_nil false s) ?_
  rw [length_comparedLines, length_comparedLines]
  exact Nat.mul_le_mul_right _ (distinctCount_map_le trim s.lines)

/-- Duplication lies between zero and one. It does not depend on the order of the lines, and with
fewer than `2 ^ 53` lines it is zero exactly if all lines are different. One line more does not
increase it if it is different from all others, and does not decrease it if it is a copy of one of
them. Lines are different here if they are so as they are compared, and if the blanks around them
are ignored there is at least as much duplication. -/
theorem duplication_laws (ignoreBlanks : Bool) (s : Text) :
    (s.duplication ignoreBlanks).IsShare ∧
      (∀ ls, ls.Perm s.lines →
        (unlines ls).duplication ignoreBlanks = s.duplication ignoreBlanks) ∧
      (s.lines.length < 2 ^ 53 →
        (s.duplication ignoreBlanks = .finite 0 ↔ (s.comparedLines ignoreBlanks).Nodup)) ∧
      (∀ line, '\n' ∉ line → compared ignoreBlanks line ∉ s.comparedLines ignoreBlanks →
        ((s ++ '\n' :: line).duplication ignoreBlanks).le (s.duplication ignoreBlanks) = true) ∧
      (∀ line, '\n' ∉ line → compared ignoreBlanks line ∈ s.comparedLines ignoreBlanks →
        (s.duplication ignoreBlanks).le ((s ++ '\n' :: line).duplication ignoreBlanks) = true) ∧
      (s.duplication false).le (s.duplication true) = true := by
  refine ⟨isShare_duplication ignoreBlanks s, fun ls => duplication_perm ignoreBlanks,
    fun hlength => ?_, fun line => duplication_concat_le ignoreBlanks,
    fun line => duplication_le_concat ignoreBlanks,
    duplication_false_le_true s⟩
  rw [← length_comparedLines ignoreBlanks] at hlength
  exact repeatedShare_eq_zero_iff (comparedLines_ne_nil ignoreBlanks s) hlength

/-- Two lines that differ in their indentation only, in another order, with a new line, and with one
of them again. -/
theorem duplication_laws_indented :
    let s : Text := "x\n  x".toList
    (unlines ["  x".toList, "x".toList]).duplication true = s.duplication true ∧
      (s.lines.length < 2 ^ 53 ∧
        (s.duplication false = .finite 0 ↔ (s.comparedLines false).Nodup)) ∧
      ('\n' ∉ "y".toList ∧ compared true "y".toList ∉ s.comparedLines true ∧
        ((s ++ '\n' :: "y".toList).duplication true).le (s.duplication true) = true) ∧
      ('\n' ∉ " x".toList ∧ compared true " x".toList ∈ s.comparedLines true ∧
        (s.duplication true).le ((s ++ '\n' :: " x".toList).duplication true) = true) := by
  intro s
  have hlength : s.lines.length < 2 ^ 53 := by decide
  have hnew : '\n' ∉ "y".toList ∧ compared true "y".toList ∉ s.comparedLines true := by decide
  have hcopy : '\n' ∉ " x".toList ∧ compared true " x".toList ∈ s.comparedLines true := by decide
  have hperm : ["  x".toList, "x".toList].Perm s.lines := by decide
  obtain ⟨-, hrearranged, -, hadded, hrepeated, -⟩ := duplication_laws true s
  obtain ⟨-, -, hzero, -⟩ := duplication_laws false s
  exact ⟨hrearranged _ hperm, ⟨hlength, hzero hlength⟩,
    ⟨hnew.1, hnew.2, hadded _ hnew.1 hnew.2⟩, ⟨hcopy.1, hcopy.2, hrepeated _ hcopy.1 hcopy.2⟩⟩

end Duplication

end Text

end CodeHealth
