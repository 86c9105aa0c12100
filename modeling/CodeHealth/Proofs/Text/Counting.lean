import CodeHealth.Proofs.Text.Places
import CodeHealth.Proofs.Text.Runs
import CodeHealth.Proofs.Text.Scan
import Mathlib.Data.List.Induction

/-!
# Counting what a scan finds

A scan for things of several kinds finds as many of one kind as a scan for that kind alone, as long
as nothing of the kind begins inside of a match of another one (`length_foundFrom_kind`).

What a scan for one word or one mark finds is counted without a scan. A word is found at all offsets
at which it stands alone (`length_found_wholeWord`), a character wherever it is, and a pair of equal
characters half as often as there are characters in a run (`length_found_pair`).
-/

namespace CodeHealth.Text

variable {α β : Type} {m : Recogniser α} {n : Recogniser β} {before : Option Char}
  {owned offset : Nat} {s : Text}

/-! ### Things of one kind -/

/-- Characters that hold no answer may as well belong to an earlier match. -/
theorem foundFrom_of_quiet (h : ∀ offset < owned, answerFrom n before s offset = none) :
    foundFrom n owned before s = foundFrom n 0 before s := by
  induction s generalizing owned before with
  | nil => simp
  | cons c rest ih =>
    cases owned with
    | zero => rfl
    | succ owned =>
      have hfirst : n before (c :: rest) = none := h 0 (Nat.succ_pos owned)
      rw [foundFrom_cons_of_eq_none hfirst, foundFrom, ih fun offset hlt => ?_]
      rw [← answerFrom_succ n before]
      exact h (offset + 1) (Nat.succ_lt_succ hlt)

/-- The things of one kind that a scan finds among others are as many as a scan for them alone
finds. -/
theorem length_foundFrom_kind [DecidableEq α] {kind : α}
    (hkind : ∀ before s size,
      (∃ value, n before s = some (size, value)) ↔ m before s = some (size, kind))
    (hinside : ∀ before s size other, m before s = some (size, other) → other ≠ kind →
      ∀ offset, 0 < offset → offset < size → answerFrom n before s offset = none)
    (owned : Nat) (before : Option Char) (s : Text) :
    (foundFrom n owned before s).length = (foundFrom m owned before s).count kind := by
  have hsilent {before : Option Char} {s : Text} (h : ∀ size, m before s ≠ some (size, kind)) :
      n before s = none := by
    refine Option.eq_none_iff_forall_not_mem.mpr fun answer hanswer => ?_
    exact h answer.1 ((hkind before s answer.1).mp ⟨answer.2, hanswer⟩)
  induction s generalizing owned before with
  | nil => simp
  | cons c rest ih =>
    cases owned with
    | succ owned => exact ih owned (some c)
    | zero =>
      cases hm : m before (c :: rest) with
      | none =>
        have hn : n before (c :: rest) = none := hsilent fun size h =>
          Option.some_ne_none (size, kind) (h.symm.trans hm)
        rw [foundFrom_cons_of_eq_none hm, foundFrom_cons_of_eq_none hn]
        exact ih 0 (some c)
      | some answer =>
        obtain ⟨size, other⟩ := answer
        rw [foundFrom_cons_of_eq_some hm]
        by_cases hother : other = kind
        · subst hother
          obtain ⟨value, hn⟩ := (hkind before (c :: rest) size).mpr hm
          rw [foundFrom_cons_of_eq_some hn, List.length_cons, List.count_cons_self, ih]
        · -- Nothing of the kind begins in the match, so a scan for the kind alone can skip it too.
          have hn : n before (c :: rest) = none := hsilent fun size h =>
            hother (Prod.mk.inj (Option.some.inj (hm.symm.trans h))).2
          rw [foundFrom_cons_of_eq_none hn, List.count_cons_of_ne hother, ← ih]
          refine congrArg List.length (foundFrom_of_quiet fun offset hlt => ?_).symm
          rw [← answerFrom_succ n before]
          exact hinside before (c :: rest) size other hm hother (offset + 1) (Nat.succ_pos offset)
            (by omega)

/-- A recogniser that has no answer inside of its own matches is heard at every offset. -/
theorem length_found_of_apart (hm : Apart m) (s : Text) : (found m s).length =
    ((List.range s.length).filter fun offset => (answerAt m s offset).isSome).length := by
  rw [← map_value_scan, List.length_map, scan_of_apart hm, List.length_filterMap_eq_countP,
    List.countP_eq_length_filter]
  simp only [Option.isSome_map]

/-! ### Words -/

/-- Whether a word stands at an offset of a text and is not part of a longer one there. -/
def WordAt (w s : Text) (offset : Nat) : Prop :=
  startsWord (s.take offset).getLast? = true ∧
    ∃ rest, s.drop offset = w ++ rest ∧ endsWord rest = true

variable {w : Text} {size : Nat}

theorem exactly_eq_some_iff {u : Unit} : exactly w before s = some (size, u) ↔
    ∃ rest, s = w ++ rest ∧ w.length = size := by
  rw [exactly, Option.map_eq_some_iff]
  constructor
  · rintro ⟨rest, hrest, heq⟩
    exact ⟨rest, after?_eq_some_iff.mp hrest, (Prod.mk.inj heq).1⟩
  · rintro ⟨rest, hrest, rfl⟩
    exact ⟨rest, after?_eq_some_iff.mpr hrest, rfl⟩

theorem wholeWord_eq_some_iff {u : Unit} : wholeWord w before s = some (size, u) ↔
    startsWord before = true ∧ ∃ rest, s = w ++ rest ∧ endsWord rest = true ∧ w.length = size := by
  rw [wholeWord]
  constructor
  · intro h
    split at h
    · rename_i hstart
      split at h
      · rename_i rest hrest
        split at h
        · rename_i hend
          obtain ⟨rfl, -⟩ := Prod.mk.inj (Option.some.inj h)
          exact ⟨hstart, rest, after?_eq_some_iff.mp hrest, hend, rfl⟩
        · contradiction
      · contradiction
    · contradiction
  · rintro ⟨hstart, rest, hrest, hend, rfl⟩
    rw [if_pos hstart, after?_eq_some_iff.mpr hrest]
    exact if_pos hend

theorem isSome_answerAt_wholeWord :
    (answerAt (wholeWord w) s offset).isSome = true ↔ WordAt w s offset := by
  rw [Option.isSome_iff_exists]
  constructor
  · rintro ⟨answer, h⟩
    obtain ⟨hstart, rest, hrest, hend, -⟩ := wholeWord_eq_some_iff.mp h
    exact ⟨hstart, rest, hrest, hend⟩
  · rintro ⟨hstart, rest, hrest, hend⟩
    exact ⟨(w.length, ()), wholeWord_eq_some_iff.mpr ⟨hstart, rest, hrest, hend, rfl⟩⟩

instance (w s : Text) (offset : Nat) : Decidable (WordAt w s offset) :=
  decidable_of_iff _ isSome_answerAt_wholeWord

/-- The offsets at which a word stands, in order. -/
def wordSites (w s : Text) : List Nat :=
  (List.range s.length).filter fun offset => WordAt w s offset

theorem mem_wordSites_iff (hw : w ≠ []) : offset ∈ wordSites w s ↔ WordAt w s offset := by
  rw [wordSites, List.mem_filter, List.mem_range, decide_eq_true_iff]
  refine ⟨And.right, fun h => ⟨?_, h⟩⟩
  obtain ⟨-, rest, hrest, -⟩ := h
  have hpos := List.length_pos_iff.mpr hw
  have hlength := congrArg List.length hrest
  rw [List.length_drop, List.length_append] at hlength
  omega

theorem nodup_wordSites (w s : Text) : (wordSites w s).Nodup :=
  List.nodup_range.filter _

/-- Inside of a run of word characters no word starts. -/
theorem startsWord_inside {run : Text} (hrun : ∀ c ∈ run, isWord c = true) (before : Option Char)
    (front rest : Text) (hlt : front.length < offset)
    (hle : offset ≤ front.length + run.length) :
    startsWord (((front ++ (run ++ rest)).take offset).getLast?.or before) = false :=
  startsWord_or (any_getLast?_take hrun front rest hlt hle) before

theorem apart_wholeWord (hw : ∀ c ∈ w, isWord c = true) : Apart (wholeWord w) := by
  intro before s size value h offset hpos hlt
  obtain ⟨-, rest, rfl, -, rfl⟩ := wholeWord_eq_some_iff.mp h
  have hstart := startsWord_inside hw before [] rest hpos (by
    rw [List.length_nil, Nat.zero_add]
    exact Nat.le_of_lt hlt)
  exact if_neg (by rw [← List.nil_append (w ++ rest), hstart]; decide)

/-- A word is found at all offsets at which it stands alone. -/
theorem length_found_wholeWord (hw : ∀ c ∈ w, isWord c = true) (s : Text) :
    (found (wholeWord w) s).length = (wordSites w s).length := by
  rw [length_found_of_apart (apart_wholeWord hw), wordSites]
  refine congrArg List.length (List.filter_congr fun offset _ => ?_)
  exact Bool.eq_iff_iff.mpr (isSome_answerAt_wholeWord.trans decide_eq_true_iff.symm)

/-! ### Characters and pairs of them -/

/-- A single character is found wherever it is. -/
theorem length_found_singleton (c : Char) (s : Text) :
    (found (exactly [c]) s).length = List.count c s := by
  suffices h : ∀ before, (foundFrom (exactly [c]) 0 before s).length = List.count c s from h none
  induction s with
  | nil => simp
  | cons d rest ih =>
    intro before
    by_cases hd : d = c
    · subst hd
      have hfound : exactly [d] before (d :: rest) = some (1, ()) :=
        exactly_eq_some_iff.mpr ⟨rest, rfl, rfl⟩
      rw [foundFrom_cons_of_eq_some hfound, List.length_cons, ih, List.count_cons_self]
    · have hnone : exactly [c] before (d :: rest) = none := by
        simp [exactly, after?, Ne.symm hd]
      rw [foundFrom_cons_of_eq_none hnone, ih, List.count_cons_of_ne hd]

/-- The runs of a character in a text, from left to right and each of them as long as it can be:
what the other characters leave between them. -/
def runsOf (c : Char) (s : Text) : List Text :=
  (s.splitOnP fun d => d ≠ c).filter fun run => run ≠ []

/-- Half the length of every run, rounded down, all taken together. -/
def halves : List Text → Nat
  | [] => 0
  | run :: runs => run.length / 2 + halves runs

theorem halves_filter_ne_nil (runs : List Text) :
    halves (runs.filter fun run => run ≠ []) = halves runs := by
  induction runs with
  | nil => rfl
  | cons run runs ih =>
    rw [halves, ← ih, List.filter_cons]
    split
    · rfl
    · rename_i hrun
      obtain rfl : run = [] := by simpa using hrun
      exact (Nat.zero_add _).symm

/-- Two more characters in front of the first run make one more pair. -/
theorem halves_modifyHead_twice (c : Char) {runs : List Text} (h : runs ≠ []) :
    halves ((runs.modifyHead (c :: ·)).modifyHead (c :: ·)) = halves runs + 1 := by
  obtain ⟨run, runs, rfl⟩ := List.exists_cons_of_ne_nil h
  simp only [List.modifyHead_cons, halves, List.length_cons]
  omega

/-- In a run of one character there are half as many pairs. -/
theorem length_found_pair (c : Char) (s : Text) :
    (found (exactly [c, c]) s).length = halves (runsOf c s) := by
  rw [runsOf, halves_filter_ne_nil]
  suffices h : ∀ before, (foundFrom (exactly [c, c]) 0 before s).length =
      halves (s.splitOnP fun d => d ≠ c) from h none
  -- A pair takes two characters, and so does the induction.
  induction s using List.twoStepInduction with
  | nil => intro before; rfl
  | singleton d =>
    intro before
    have hnone : exactly [c, c] before [d] = none := by
      by_cases hd : c = d <;> simp [exactly, after?, hd]
    rw [foundFrom_cons_of_eq_none hnone, List.splitOnP_cons_eq_if_modifyHead]
    by_cases hd : d = c
    · simp [halves, hd]
    · simp [halves, hd]
  | cons_cons d e rest ihrest ih =>
    intro before
    rw [List.splitOnP_cons_eq_if_modifyHead]
    by_cases hd : d = c
    · subst hd
      rw [List.splitOnP_cons_eq_if_modifyHead]
      by_cases he : e = d
      · subst he
        have hpair : exactly [e, e] before (e :: e :: rest) = some (2, ()) :=
          exactly_eq_some_iff.mpr ⟨rest, rfl, rfl⟩
        rw [foundFrom_cons_of_eq_some hpair, List.length_cons]
        simp only [ne_eq, not_true_eq_false, decide_false, Bool.false_eq_true, if_false]
        rw [halves_modifyHead_twice e (List.splitOnP_ne_nil _ rest)]
        exact congrArg (· + 1) (ihrest (some e))
      · have hnone : exactly [d, d] before (d :: e :: rest) = none := by
          simp [exactly, after?, Ne.symm he]
        rw [foundFrom_cons_of_eq_none hnone, ih, List.splitOnP_cons_eq_if_modifyHead]
        simp [halves, he]
    · have hnone : exactly [c, c] before (d :: e :: rest) = none := by
        simp [exactly, after?, Ne.symm hd]
      rw [foundFrom_cons_of_eq_none hnone, ih]
      simp [halves, hd]

end CodeHealth.Text
