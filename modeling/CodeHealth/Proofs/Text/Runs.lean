import CodeHealth.Text.Basic

/-!
# Runs of characters

Most recognisers take a run of blanks or a run of word characters and go on behind it. A run is
taken whole where a character of another class follows, and what is left never begins with a
character of the class that was taken. Blanks and word characters exclude each other, so behind
blanks a word can begin and behind a word blanks can.
-/

namespace CodeHealth.Text

/-- Whether a text is a run of characters of a class, and not empty. -/
def IsRun (p : Char → Bool) (s : Text) : Prop :=
  s ≠ [] ∧ ∀ c ∈ s, p c = true

variable {p : Char → Bool} {s rest : Text}

theorem takeWhile_run (hs : ∀ c ∈ s, p c = true) (hrest : rest.head?.any p = false) :
    (s ++ rest).takeWhile p = s := by
  rw [List.takeWhile_append_of_pos hs]
  cases rest with
  | nil => exact List.append_nil s
  | cons c rest =>
    have hc : ¬p c = true := by simpa using hrest
    rw [List.takeWhile_cons_of_neg hc, List.append_nil]

theorem dropWhile_run (hs : ∀ c ∈ s, p c = true) (hrest : rest.head?.any p = false) :
    (s ++ rest).dropWhile p = rest := by
  rw [List.dropWhile_append_of_pos hs]
  cases rest with
  | nil => rfl
  | cons c rest =>
    have hc : ¬p c = true := by simpa using hrest
    exact List.dropWhile_cons_of_neg hc

theorem head?_dropWhile (p : Char → Bool) (s : Text) : (s.dropWhile p).head?.any p = false := by
  cases h : (s.dropWhile p).head? with
  | none => rfl
  | some c =>
    have := List.head?_dropWhile_not p s
    rw [h] at this
    simpa using this

theorem all_takeWhile (p : Char → Bool) (s : Text) : ∀ c ∈ s.takeWhile p, p c = true :=
  fun _ hc => List.all_eq_true.mp List.all_takeWhile _ hc

/-- Where a text begins with a character of a class, a run of it can be taken. -/
theorem isRun_takeWhile (h : s.head?.any p = true) : IsRun p (s.takeWhile p) := by
  refine ⟨?_, all_takeWhile p s⟩
  cases s with
  | nil => contradiction
  | cons c s =>
    have hc : p c = true := h
    rw [List.takeWhile_cons_of_pos hc]
    exact List.cons_ne_nil _ _

theorem IsRun.any_head? (h : IsRun p s) (rest : Text) : (s ++ rest).head?.any p = true := by
  obtain ⟨c, s, rfl⟩ := List.exists_cons_of_ne_nil h.1
  exact h.2 c List.mem_cons_self

theorem IsRun.head?_append (h : IsRun p s) (q : Char → Bool) (hq : ∀ c, p c = true → q c = false)
    (rest : Text) : (s ++ rest).head?.any q = false := by
  obtain ⟨c, s, rfl⟩ := List.exists_cons_of_ne_nil h.1
  simpa using hq c (h.2 c List.mem_cons_self)

theorem isBlank_eq_false_of_isWord {c : Char} (h : isWord c = true) : isBlank c = false := by
  cases hc : isBlank c with
  | false => rfl
  | true =>
    rw [isWord_eq_false_of_isBlank hc] at h
    contradiction

/-! ### Inside of a run -/

/-- The character before an offset that lies behind the beginning of a run belongs to the run. -/
theorem any_getLast?_take {p : Char → Bool} {run : Text} (hrun : ∀ c ∈ run, p c = true)
    (front rest : Text) {offset : Nat} (hlt : front.length < offset)
    (hle : offset ≤ front.length + run.length) :
    ((front ++ (run ++ rest)).take offset).getLast?.any p = true := by
  obtain ⟨n, rfl⟩ : ∃ n, offset = front.length + (n + 1) := ⟨offset - front.length - 1, by omega⟩
  have hne : run.take (n + 1) ≠ [] := by
    refine List.ne_nil_of_length_pos ?_
    rw [List.length_take]
    omega
  rw [List.take_length_add_append, List.take_append_of_le_length (by omega), List.getLast?_append,
    List.getLast?_eq_some_getLast hne]
  exact hrun _ (List.mem_of_mem_take (List.getLast_mem hne))

theorem startsWord_or {last : Option Char} (h : last.any isWord = true) (before : Option Char) :
    startsWord (last.or before) = false := by
  cases last with
  | none => contradiction
  | some c =>
    have hc : isWord c = true := h
    simp [startsWord, hc]

end CodeHealth.Text
