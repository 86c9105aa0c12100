/-!
# Sets of code points as increasing runs

A character class of the Unicode standard is given by the runs of code points that belong to it. The
runs are kept in increasing order and do not touch each other, so a search may stop as soon as it
has passed the code point it looks for.
-/

namespace CodeHealth.Text

/-- Runs of code points, each with its first and its last member. -/
abbrev Ranges := List (Nat × Nat)

namespace Ranges

/-- Whether some run holds `n`. The search gives up at the first run that starts beyond `n`. -/
def member : Ranges → Nat → Bool
  | [], _ => false
  | (first, last) :: rest, n => if n < first then false else n ≤ last || member rest n

@[simp] theorem member_nil (n : Nat) : member [] n = false := rfl

/-- Membership always rests on one of the runs. -/
theorem exists_of_member {r : Ranges} {n : Nat} (h : r.member n = true) :
    ∃ run ∈ r, run.1 ≤ n ∧ n ≤ run.2 := by
  induction r with
  | nil => simp at h
  | cons run rest ih =>
    obtain ⟨first, last⟩ := run
    rw [member] at h
    split at h
    · contradiction
    · rename_i hle
      rcases Bool.or_eq_true_iff.mp h with hlast | hrest
      · exact ⟨_, List.mem_cons_self, Nat.le_of_not_lt hle, of_decide_eq_true hlast⟩
      · obtain ⟨other, hmem, hbounds⟩ := ih hrest
        exact ⟨other, List.mem_cons_of_mem _ hmem, hbounds⟩

end Ranges

end CodeHealth.Text
