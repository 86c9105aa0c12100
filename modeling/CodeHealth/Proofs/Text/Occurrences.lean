import CodeHealth.Text.Search

/-!
# Where a text occurs in another one

Occurrences are counted offset by offset, so that they may overlap. There is one at all exactly if
the text is a part of the other one, and a text recurs exactly if it occurs at two different offsets
(`Text.recurs_iff`).
-/

namespace CodeHealth.Text

variable {w s : Text} {offset : Nat}

/-- Whether a text occurs at an offset of another one. The empty text occurs at every offset, the
end included. -/
def OccursAt (w s : Text) (offset : Nat) : Prop :=
  offset ≤ s.length ∧ w <+: s.drop offset

theorem occursAt_cons_succ {c : Char} :
    OccursAt w (c :: s) (offset + 1) ↔ OccursAt w s offset := by
  rw [OccursAt, OccursAt, List.length_cons, List.drop_succ_cons, Nat.add_le_add_iff_right]

theorem occursAt_zero : OccursAt w s 0 ↔ w.isPrefixOf s = true := by
  rw [OccursAt, List.drop_zero, List.isPrefixOf_iff_prefix]
  exact and_iff_right (Nat.zero_le _)

theorem exists_occursAt_iff : (∃ offset, OccursAt w s offset) ↔ w <:+: s := by
  constructor
  · rintro ⟨offset, -, rest, hrest⟩
    refine ⟨s.take offset, rest, ?_⟩
    rw [List.append_assoc, hrest, List.take_append_drop]
  · rintro ⟨front, rest, rfl⟩
    refine ⟨front.length, ?_, rest, ?_⟩
    · rw [List.append_assoc, List.length_append]
      exact Nat.le_add_right _ _
    · rw [List.append_assoc, List.drop_left]

theorem offsetCount_pos_iff : 0 < offsetCount w s ↔ w <:+: s := by
  induction s with
  | nil =>
    rw [offsetCount, List.infix_nil]
    split
    · simp_all
    · simp_all
  | cons c rest ih =>
    rw [offsetCount, List.infix_cons_iff, ← ih, ← List.isPrefixOf_iff_prefix]
    split
    · rename_i hhere
      simp only [hhere, true_or, iff_true]
      omega
    · rename_i hhere
      simp only [hhere, Nat.zero_add, Bool.false_eq_true, false_or]

/-- A text recurs if it occurs at two different offsets. -/
theorem recurs_iff : w.recurs s = true ↔ ∃ i j, i < j ∧ OccursAt w s i ∧ OccursAt w s j := by
  rw [recurs, decide_eq_true_iff]
  induction s with
  | nil =>
    have hle : offsetCount w [] ≤ 1 := by
      rw [offsetCount]
      split <;> decide
    constructor
    · intro h
      omega
    · rintro ⟨i, j, hlt, -, hle, -⟩
      rw [List.length_nil] at hle
      omega
  | cons c s ih =>
    -- What occurs at the first offset has to occur once more, and what does not twice.
    have hrest : 0 < offsetCount w s ↔ ∃ j, OccursAt w s j :=
      offsetCount_pos_iff.trans exists_occursAt_iff.symm
    constructor
    · intro h
      by_cases hfirst : w.isPrefixOf (c :: s) = true
      · rw [offsetCount, if_pos hfirst] at h
        obtain ⟨j, hj⟩ := hrest.mp (by omega)
        exact ⟨0, j + 1, Nat.succ_pos j, occursAt_zero.mpr hfirst, occursAt_cons_succ.mpr hj⟩
      · rw [offsetCount, if_neg hfirst, Nat.zero_add] at h
        obtain ⟨i, j, hlt, hi, hj⟩ := ih.mp h
        exact ⟨i + 1, j + 1, Nat.succ_lt_succ hlt, occursAt_cons_succ.mpr hi,
          occursAt_cons_succ.mpr hj⟩
    · rintro ⟨i, j, hlt, hi, hj⟩
      obtain ⟨j, rfl⟩ := Nat.exists_eq_add_one_of_ne_zero (Nat.ne_zero_of_lt hlt)
      have hj := occursAt_cons_succ.mp hj
      rw [offsetCount]
      cases i with
      | zero =>
        have := hrest.mpr ⟨j, hj⟩
        rw [if_pos (occursAt_zero.mp hi)]
        omega
      | succ i =>
        have := ih.mpr ⟨i, j, Nat.lt_of_succ_lt_succ hlt, occursAt_cons_succ.mp hi, hj⟩
        omega

end CodeHealth.Text
