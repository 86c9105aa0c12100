import CodeHealth.Text.Search

/-!
# Scanning a text in parts

What a scan finds, apart from the places, does not depend on how far the text has been walked
already: `foundFrom` leaves the offsets out. A recogniser that takes no blanks, and for which a
blank behind it is as good as the end of the text, finds in a text what it finds in its parts,
wherever the text is cut in front of a blank (`found_append`).
-/

namespace CodeHealth.Text

variable {α : Type}

/-! ### Findings without places -/

/-- What a recogniser finds from a position on. The first argument is the number of characters that
still belong to an earlier match, the second the character before the position. -/
def foundFrom (m : Recogniser α) : Nat → Option Char → Text → List α
  | _, _, [] => []
  | owned + 1, _, c :: rest => foundFrom m owned (some c) rest
  | 0, before, c :: rest =>
    match m before (c :: rest) with
    | some (size, value) => value :: foundFrom m (size - 1) (some c) rest
    | none => foundFrom m 0 (some c) rest

/-- What a recogniser finds in a text, in order. -/
def found (m : Recogniser α) (s : Text) : List α :=
  foundFrom m 0 none s

@[simp] theorem foundFrom_nil (m : Recogniser α) (owned : Nat) (before : Option Char) :
    foundFrom m owned before [] = [] := by
  cases owned <;> rfl

theorem map_value_scanFrom (m : Recogniser α) (owned : Nat) (before : Option Char) (at_ : Nat)
    (s : Text) : (scanFrom m owned before at_ s).map Hit.value = foundFrom m owned before s := by
  fun_induction scanFrom m owned before at_ s with
  | case1 => simp
  | case2 _ _ _ _ _ ih => exact ih
  | case3 before at_ c rest size value hm ih => simp [foundFrom, hm, ih]
  | case4 before at_ c rest hm ih => simp [foundFrom, hm, ih]

theorem map_value_scan (m : Recogniser α) (s : Text) : (scan m s).map Hit.value = found m s :=
  map_value_scanFrom m 0 none 0 s

theorem foundFrom_cons_of_eq_none {m : Recogniser α} {before : Option Char} {c : Char} {rest : Text}
    (h : m before (c :: rest) = none) :
    foundFrom m 0 before (c :: rest) = foundFrom m 0 (some c) rest := by
  simp [foundFrom, h]

theorem foundFrom_cons_of_eq_some {m : Recogniser α} {before : Option Char} {c : Char} {rest : Text}
    {size : Nat} {value : α} (h : m before (c :: rest) = some (size, value)) :
    foundFrom m 0 before (c :: rest) = value :: foundFrom m (size - 1) (some c) rest := by
  simp [foundFrom, h]

/-- The scan goes on behind the characters that a match owns. -/
theorem foundFrom_length (m : Recogniser α) (u : Text) (before : Option Char) (s : Text) :
    foundFrom m u.length before (u ++ s) = foundFrom m 0 (u.getLast?.or before) s := by
  induction u generalizing before with
  | nil => rfl
  | cons c u ih =>
    refine (ih (some c)).trans ?_
    cases hu : u.getLast? <;> simp [List.getLast?_cons, hu]

/-! ### Cutting in front of a blank -/

/-- Whether a text begins with a blank, if it begins at all. -/
def BlankFirst (s : Text) : Prop :=
  s.head?.all isBlank = true

theorem blankFirst_nil : BlankFirst [] := rfl

theorem blankFirst_cons {c : Char} {s : Text} : BlankFirst (c :: s) ↔ isBlank c = true := by
  simp [BlankFirst]

/-- A recogniser whose matches hold no blanks, and to which a blank at either side of a text is the
same as the end of the text. -/
structure Solid (m : Recogniser α) : Prop where
  /-- A match takes one character at least, and none behind the end. -/
  size_le {before : Option Char} {s : Text} {size : Nat} {value : α} :
    m before s = some (size, value) → 0 < size ∧ size ≤ s.length
  /-- What follows from a blank on does not matter. -/
  append {before : Option Char} {s t : Text} :
    s ≠ [] → BlankFirst t → m before (s ++ t) = m before s
  /-- Nothing begins at a blank. -/
  blank {before : Option Char} {c : Char} {s : Text} : isBlank c = true → m before (c :: s) = none
  /-- Behind a blank is as good as at the beginning. -/
  behind {c : Char} {s : Text} : isBlank c = true → m (some c) s = m none s

namespace Solid

variable {m : Recogniser α}

theorem foundFrom_of_blankFirst (hm : Solid m) {s : Text} (hs : BlankFirst s)
    (before : Option Char) : foundFrom m 0 before s = found m s := by
  cases s with
  | nil => rfl
  | cons c s =>
    have hc := blankFirst_cons.mp hs
    rw [found, foundFrom_cons_of_eq_none (hm.blank hc), foundFrom_cons_of_eq_none (hm.blank hc)]

theorem foundFrom_behind (hm : Solid m) {c : Char} (hc : isBlank c = true) (s : Text) :
    foundFrom m 0 (some c) s = found m s := by
  cases s with
  | nil => rfl
  | cons d s => rw [found, foundFrom, foundFrom, hm.behind hc]

/-- Blanks in front of a text do not matter. -/
theorem found_append_of_blanks (hm : Solid m) {u : Text} (hu : ∀ c ∈ u, isBlank c = true)
    (s : Text) : found m (u ++ s) = found m s := by
  induction u with
  | nil => rfl
  | cons c u ih =>
    obtain ⟨hc, hu⟩ := List.forall_mem_cons.mp hu
    calc found m (c :: u ++ s)
      _ = foundFrom m 0 (some c) (u ++ s) := foundFrom_cons_of_eq_none (hm.blank hc)
      _ = found m (u ++ s) := hm.foundFrom_behind hc (u ++ s)
      _ = found m s := ih hu

/-- The text is cut at a place that no match owns. -/
theorem foundFrom_append (hm : Solid m) {owned : Nat} {before : Option Char} {s t : Text}
    (howned : owned ≤ s.length) (ht : BlankFirst t) :
    foundFrom m owned before (s ++ t) = foundFrom m owned before s ++ found m t := by
  induction s generalizing owned before with
  | nil =>
    obtain rfl : owned = 0 := by simpa using howned
    exact hm.foundFrom_of_blankFirst ht before
  | cons c s ih =>
    cases owned with
    | succ owned => exact ih (Nat.le_of_succ_le_succ howned)
    | zero =>
      have hmatch : m before (c :: (s ++ t)) = m before (c :: s) :=
        hm.append (s := c :: s) (List.cons_ne_nil _ _) ht
      rw [List.cons_append]
      cases hv : m before (c :: s) with
      | none =>
        rw [foundFrom_cons_of_eq_none (hmatch.trans hv), foundFrom_cons_of_eq_none hv]
        exact ih (Nat.zero_le _)
      | some answer =>
        obtain ⟨size, value⟩ := answer
        obtain ⟨-, hsize⟩ := hm.size_le hv
        rw [foundFrom_cons_of_eq_some (hmatch.trans hv), foundFrom_cons_of_eq_some hv]
        rw [List.length_cons] at hsize
        rw [ih (by omega), List.cons_append]

/-- In front of a blank a text can be cut: its parts are scanned one by one. -/
theorem found_append (hm : Solid m) (s : Text) {t : Text} (ht : BlankFirst t) :
    found m (s ++ t) = found m s ++ found m t :=
  hm.foundFrom_append (Nat.zero_le _) ht

end Solid

/-! ### Recognisers that are solid -/

namespace Solid

variable {β : Type}

theorem map {m : Recogniser α} (hm : Solid m) (f : α → β) :
    Solid fun before s => (m before s).map fun (size, a) => (size, f a) where
  size_le h := by
    obtain ⟨⟨size, a⟩, ha, heq⟩ := Option.map_eq_some_iff.mp h
    obtain ⟨rfl, -⟩ := Prod.mk.inj heq
    exact hm.size_le ha
  append hs ht := by rw [hm.append hs ht]
  blank hc := by
    rw [hm.blank hc]
    rfl
  behind hc := by rw [hm.behind hc]

theorem findSome? {xs : List β} {m : β → Recogniser α} (hm : ∀ x ∈ xs, Solid (m x)) :
    Solid fun before s => xs.findSome? fun x => m x before s where
  size_le h := by
    obtain ⟨x, hx, hv⟩ := List.exists_of_findSome?_eq_some h
    exact (hm x hx).size_le hv
  append hs ht := by
    induction xs with
    | nil => rfl
    | cons x xs ih =>
      obtain ⟨hx, hxs⟩ := List.forall_mem_cons.mp hm
      simp only [List.findSome?_cons, hx.append hs ht, ih hxs]
  blank hc := List.findSome?_eq_none_iff.mpr fun x hx => (hm x hx).blank hc
  behind {c s} hc := by
    induction xs with
    | nil => rfl
    | cons x xs ih =>
      obtain ⟨hx, hxs⟩ := List.forall_mem_cons.mp hm
      simp only [List.findSome?_cons, hx.behind hc, ih hxs]

theorem orElse {m n : Recogniser α} (hm : Solid m) (hn : Solid n) :
    Solid fun before s => m before s <|> n before s where
  size_le h := by
    simp only [Option.orElse_eq_orElse, Option.orElse_eq_or] at h
    obtain h | ⟨-, h⟩ := Option.or_eq_some_iff.mp h
    · exact hm.size_le h
    · exact hn.size_le h
  append hs ht := by rw [hm.append hs ht, hn.append hs ht]
  blank hc := by
    rw [hm.blank hc, hn.blank hc]
    rfl
  behind hc := by rw [hm.behind hc, hn.behind hc]

end Solid

theorem after?_append {w s t : Text} (hw : ∀ c ∈ w, isBlank c = false) (ht : BlankFirst t) :
    after? w (s ++ t) = (after? w s).map (· ++ t) := by
  induction w generalizing s with
  | nil => simp [after?]
  | cons a w ih =>
    obtain ⟨ha, hw⟩ := List.forall_mem_cons.mp hw
    cases s with
    | cons c s =>
      by_cases hac : a = c
      · simpa [after?, hac] using ih hw
      · simp [after?, hac]
    | nil =>
      cases t with
      | nil => simp [after?]
      | cons c t =>
        have hac : a ≠ c := by
          rintro rfl
          rw [blankFirst_cons.mp ht] at ha
          contradiction
        simp [after?, hac]

theorem length_le_of_after? {w s rest : Text} (h : after? w s = some rest) :
    w.length ≤ s.length := by
  rw [after?_eq_some_iff.mp h, List.length_append]
  omega

theorem after?_of_blank {w : Text} (hne : w ≠ []) (hw : ∀ c ∈ w, isBlank c = false) {c : Char}
    {s : Text} (hc : isBlank c = true) : after? w (c :: s) = none := by
  cases w with
  | nil => contradiction
  | cons a w =>
    have hac : a ≠ c := by
      rintro rfl
      rw [hw a List.mem_cons_self] at hc
      contradiction
    simp [after?, hac]

theorem endsWord_append (s : Text) {t : Text} (ht : BlankFirst t) :
    endsWord (s ++ t) = endsWord s := by
  cases s with
  | cons c s => rfl
  | nil =>
    cases t with
    | nil => rfl
    | cons c t => simp [endsWord, isWord_eq_false_of_isBlank (blankFirst_cons.mp ht)]

theorem solid_exactly {w : Text} (hne : w ≠ []) (hw : ∀ c ∈ w, isBlank c = false) :
    Solid (exactly w) where
  size_le h := by
    obtain ⟨rest, hrest, heq⟩ := Option.map_eq_some_iff.mp h
    obtain ⟨rfl, -⟩ := Prod.mk.inj heq
    exact ⟨List.length_pos_iff.mpr hne, length_le_of_after? hrest⟩
  append _ ht := by simp [exactly, after?_append hw ht, Function.comp_def]
  blank hc := by simp [exactly, after?_of_blank hne hw hc]
  behind _ := rfl

theorem solid_wholeWord {w : Text} (hne : w ≠ []) (hw : ∀ c ∈ w, isBlank c = false) :
    Solid (wholeWord w) where
  size_le h := by
    rw [wholeWord] at h
    split at h
    · split at h
      · rename_i rest hrest
        split at h
        · obtain ⟨rfl, -⟩ := Prod.mk.inj (Option.some.inj h)
          exact ⟨List.length_pos_iff.mpr hne, length_le_of_after? hrest⟩
        · contradiction
      · contradiction
    · contradiction
  append {before s t} _ ht := by
    rw [wholeWord, wholeWord, after?_append hw ht]
    cases after? w s with
    | none => rfl
    | some rest => simp [endsWord_append rest ht]
  blank hc := by simp [wholeWord, after?_of_blank hne hw hc]
  behind hc := by simp [wholeWord, startsWord, isWord_eq_false_of_isBlank hc]

end CodeHealth.Text
