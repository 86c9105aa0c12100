import CodeHealth.Proofs.Entries
import CodeHealth.Proofs.Source.Alternatives

/-!
# How often each decision point is counted

The counters of a text are read by label. Under the label of a word stands the number of offsets at
which the word stands, under that of a mark the number of such characters or of pairs in their runs.
An `if` counts as `else if` where blanks and the word `else` stand before it, and as `if` everywhere
else.

All this comes from one scan that tries ten kinds in order. The complexity is nevertheless what nine
scans give, each of which looks for one word or mark only, and the order of the ten makes no
difference (`Text.countUnder_kinds`).
-/

namespace CodeHealth

open Decision

namespace Text

/-- The number of decision points that are counted under a label. -/
def countUnder (label : String) (s : Text) : Nat :=
  (Entries.get? label (s.decisionCounts.map fun (d, n) => (d.label, n))).getD 0

/-- How often a decision point is found by a scan that looks for nothing else. -/
def ownCount (s : Text) (d : Decision) : Nat :=
  (scan d.recognise s).length

/-- Whether blanks stand before an offset, and a word before the blanks. -/
def BehindWord (w s : Text) (offset : Nat) : Prop :=
  ∃ start, start < offset ∧ WordAt w s start ∧
    IsRun isBlank (List.drop (start + w.length) (s.take offset))

variable {w s : Text} {offset size : Nat}

instance (p : Char → Bool) (s : Text) : Decidable (IsRun p s) :=
  decidable_of_iff (s.isEmpty = false ∧ s.all p = true) <| by
    rw [IsRun, List.isEmpty_eq_false_iff, List.all_eq_true]

instance (w s : Text) (offset : Nat) : Decidable (BehindWord w s offset) :=
  decidable_of_iff (((List.range offset).any fun start => decide (WordAt w s start ∧
      IsRun isBlank (List.drop (start + w.length) (s.take offset)))) = true) <| by
    simp only [BehindWord, List.any_eq_true, List.mem_range, decide_eq_true_iff]

/-! ### Reading the counters -/

theorem label_injective {d d' : Decision} (h : d.label = d'.label) : d = d' := by
  have hall : ∀ d ∈ all, ∀ d' ∈ all, d.label = d'.label → d = d' := by decide
  exact hall d (mem_all d) d' (mem_all d') h

theorem countUnder_label (d : Decision) (s : Text) :
    countUnder d.label s = (found begins? s).count d := by
  have hget (e : Entries Decision Nat) :
      Entries.get? d.label (e.map fun (d, n) => (d.label, n)) = e.get? d := by
    induction e with
    | nil => rfl
    | cons entry rest ih =>
      rw [List.map_cons, Entries.get?, Entries.get?, ih]
      by_cases hd : entry.1 = d
      · rw [if_pos hd, if_pos (congrArg label hd)]
      · rw [if_neg hd, if_neg fun hlabel => hd (label_injective hlabel)]
  rw [countUnder, hget, decisionCounts, Entries.getD_get?_tally, decisions, map_value_scan]

theorem ownCount_eq (s : Text) (d : Decision) : ownCount s d = (found d.recognise s).length := by
  rw [ownCount, ← map_value_scan, List.length_map]

/-- The kinds that are no `if` are counted as if they were alone. -/
theorem countUnder_eq_ownCount {d : Decision} (hd : d ≠ .ifWord) (s : Text) :
    countUnder d.label s = ownCount s d := by
  rw [countUnder_label, ownCount_eq, begins?_eq_firstOf,
    length_found_recognise (mem_all d) fun h => absurd h hd]

/-- The pairs and the other `if`s together are all words `if`. -/
theorem countUnder_pair_add (s : Text) :
    countUnder "else if" s + countUnder "if" s = ownCount s .ifWord := by
  have hsingle : (s.decisions.map single).count .ifWord =
      s.decisions.count .elseIf + s.decisions.count .ifWord := by
    induction s.decisions with
    | nil => rfl
    | cons d ds ih => cases d <;> simp [single, ih] <;> omega
  have hown : ownCount s .ifWord = (found single? s).count .ifWord := by
    rw [ownCount_eq, single?_eq_firstOf]
    exact length_found_recognise (by decide) (fun _ => by decide) s
  rw [hown, ← map_single_decisions, hsingle, decisions, map_value_scan]
  exact congrArg₂ (· + ·) (countUnder_label .elseIf s) (countUnder_label .ifWord s)

/-- The nine single words and marks, each counted by itself, are as many as all decision points. -/
theorem total_ownCount (s : Text) :
    Entries.total (singles.map fun d => (d, ownCount s d)) = s.decisions.length := by
  have hown : ∀ d ∈ singles, ownCount s d = (found single? s).count d := fun d hd => by
    rw [ownCount_eq, single?_eq_firstOf, length_found_recognise hd fun _ => by decide]
  have hmem : ∀ d ∈ found single? s, d ∈ singles := by
    intro d hd
    rw [← map_single_decisions] at hd
    obtain ⟨d, -, rfl⟩ := List.mem_map.mp hd
    cases d <;> decide
  rw [List.map_congr_left fun d hd => by rw [hown d hd], Entries.total_count (by decide) hmem,
    ← map_single_decisions, List.length_map]

/-- A word by itself is counted at all offsets at which it stands. -/
theorem ownCount_word {d : Decision} (hd : d ≠ .elseIf) (hmark : d.isMark = false) (s : Text) :
    ownCount s d = (wordSites d.opening s).length := by
  have hrecognise : d.recognise = wholeWord d.opening := by
    cases d <;> first | rfl | contradiction
  rw [ownCount_eq, hrecognise, length_found_wholeWord (isWord_of_mem_opening hmark)]

/-- A mark of two equal characters by itself is counted half as often as the character in
every run. -/
theorem ownCount_pair {d : Decision} {c : Char} (hd : d.recognise = exactly [c, c]) (s : Text) :
    ownCount s d = halves (runsOf c s) := by
  rw [ownCount_eq, hd, length_found_pair]

theorem ownCount_ternary (s : Text) : ownCount s .ternary = List.count '?' s :=
  (ownCount_eq s .ternary).trans (length_found_singleton '?' s)

/-! ### Pairs -/

/-- The `if` of a pair stands behind an `else`. -/
theorem wordAt_of_pair {start : Nat} (h : answerAt elseIf.recognise s start = some (size, ()))
    (hoffset : start + size = offset + 2) :
    WordAt "if".toList s offset ∧ BehindWord "else".toList s offset := by
  obtain ⟨hstart, -, gap, rest, hdrop, hgap, hend, rfl⟩ :=
    elseIf?_eq_some_iff.mp (recognise_elseIf.mp h)
  obtain ⟨c, hc⟩ : ∃ c, gap.getLast? = some c := ⟨_, List.getLast?_eq_some_getLast hgap.1⟩
  have hblank : isBlank c = true := hgap.2 c (List.mem_of_getLast? hc)
  have hlength : (s.take start).length = start := by
    have hrest := congrArg List.length hdrop
    rw [List.length_drop] at hrest
    rw [List.length_take]
    simp only [List.length_append] at hrest
    change s.length - start = 4 + _ at hrest
    omega
  have hsplit : s = (s.take start ++ ("else".toList ++ gap)) ++ ("if".toList ++ rest) := by
    rw [List.append_assoc, List.append_assoc, ← hdrop, List.take_append_drop]
  have hfront : (s.take start ++ ("else".toList ++ gap)).length = offset := by
    have helse : "else".toList.length = 4 := rfl
    rw [List.length_append, List.length_append, hlength, helse]
    omega
  have htake : s.take offset = s.take start ++ ("else".toList ++ gap) := by
    conv_lhs => rw [hsplit]
    exact List.take_left' hfront
  refine ⟨⟨?_, rest, ?_, hend⟩, start, by omega, ⟨hstart, _, hdrop, ?_⟩, ?_⟩
  · rw [htake, List.getLast?_append, List.getLast?_append, hc]
    simp [startsWord, isWord_eq_false_of_isBlank hblank]
  · conv_lhs => rw [hsplit]
    exact List.drop_left' hfront
  · rw [endsWord, hgap.head?_append isWord fun _ => isWord_eq_false_of_isBlank]
    rfl
  · rw [htake, ← List.append_assoc, List.drop_left' (by rw [List.length_append, hlength])]
    exact hgap

/-- An `if` behind an `else` is the end of a pair. -/
theorem exists_pair_of_wordAt (hif : WordAt "if".toList s offset)
    (helse : BehindWord "else".toList s offset) :
    ∃ start size, answerAt elseIf.recognise s start = some (size, ()) ∧
      start + size = offset + 2 := by
  obtain ⟨-, rest, hdropIf, hend⟩ := hif
  obtain ⟨start, hlt, ⟨hstart, behind, hdrop, -⟩, hgap⟩ := helse
  change IsRun isBlank (List.drop (start + 4) (s.take offset)) at hgap
  have hlength : (List.drop (start + 4) (s.take offset)).length + (start + 4) = offset := by
    have hpos := List.length_pos_iff.mpr hgap.1
    have hrest := congrArg List.length hdropIf
    rw [List.length_drop, List.length_append] at hrest
    change s.length - offset = 2 + _ at hrest
    rw [List.length_drop, List.length_take] at hpos ⊢
    omega
  have hbehind : behind = List.drop (start + 4) (s.take offset) ++ ("if".toList ++ rest) := by
    have hdrop4 : s.drop (start + 4) = behind := by
      rw [← List.drop_drop, hdrop]
      rfl
    rw [← hdropIf, ← hdrop4, List.drop_take]
    conv_lhs => rw [← List.take_append_drop (offset - (start + 4)) (s.drop (start + 4))]
    rw [List.drop_drop, Nat.add_sub_cancel' (by omega)]
  refine ⟨start, 6 + (List.drop (start + 4) (s.take offset)).length, ?_, by omega⟩
  refine recognise_elseIf.mpr (elseIf?_eq_some_iff.mpr ⟨hstart, rfl, _, rest, ?_, hgap, hend, rfl⟩)
  rw [hdrop, hbehind]

theorem apart_pair : Apart elseIf.recognise := by
  intro before s size value h offset hpos hlt
  refine Option.eq_none_iff_forall_not_mem.mpr fun answer hanswer => ?_
  obtain ⟨hmark, -⟩ | ⟨-, heq⟩ := inside_recognise h hpos hlt hanswer
  · contradiction
  · contradiction

/-- There are as many pairs as there are words `if` behind an `else`. -/
theorem ownCount_elseIf (s : Text) : ownCount s .elseIf =
    ((wordSites "if".toList s).filter fun offset => BehindWord "else".toList s offset).length := by
  -- Each pair stands for the offset of its `if`. Pairs do not overlap, so no offset comes twice.
  let ifOf (hit : Hit Unit) : Nat := hit.start + hit.size - 2
  have hsize {hit : Hit Unit} (hmem : hit ∈ scan elseIf.recognise s) : 6 ≤ hit.size := by
    obtain ⟨-, -, gap, rest, -, -, -, hsize⟩ :=
      elseIf?_eq_some_iff.mp (recognise_elseIf.mp (answerAt_of_mem_scan hmem).2)
    omega
  have hnodup : ((scan elseIf.recognise s).map ifOf).Nodup := by
    refine List.pairwise_map.mpr ((pairwise_scan _ s).imp_of_mem fun {hit hit'} hmem hmem' h => ?_)
    have := hsize hmem
    have := hsize hmem'
    simp only [ifOf]
    omega
  have hmem (offset : Nat) : offset ∈ (scan elseIf.recognise s).map ifOf ↔
      offset ∈ (wordSites "if".toList s).filter fun offset =>
        BehindWord "else".toList s offset := by
    rw [List.mem_map, List.mem_filter, mem_wordSites_iff (by decide), decide_eq_true_iff]
    constructor
    · rintro ⟨hit, hhit, rfl⟩
      have := hsize hhit
      exact wordAt_of_pair (answerAt_of_mem_scan hhit).2 (by simp only [ifOf]; omega)
    · rintro ⟨hif, helse⟩
      obtain ⟨start, size, hanswer, hoffset⟩ := exists_pair_of_wordAt hif helse
      have hlt : start < s.length := by
        obtain ⟨rest, hrest⟩ := exists_eq_opening_append hanswer
        have hlength := congrArg List.length hrest
        rw [List.length_drop, List.length_append] at hlength
        change s.length - start = 4 + _ at hlength
        omega
      have hhit : ⟨start, size, ()⟩ ∈ scan elseIf.recognise s :=
        (mem_scan_of_apart apart_pair).mpr ⟨hlt, hanswer⟩
      exact ⟨_, hhit, by simp only [ifOf]; omega⟩
  have hperm := (List.perm_ext_iff_of_nodup hnodup ((nodup_wordSites _ s).filter _)).mpr hmem
  rw [ownCount, ← hperm.length_eq, List.length_map]

theorem ownCount_ifWord (s : Text) : ownCount s .ifWord = (wordSites "if".toList s).length :=
  ownCount_word (d := .ifWord) nofun rfl s

theorem countUnder_elseIf (s : Text) : countUnder "else if" s =
    ((wordSites "if".toList s).filter fun offset => BehindWord "else".toList s offset).length :=
  (countUnder_eq_ownCount (d := .elseIf) nofun s).trans (ownCount_elseIf s)

theorem countUnder_if (s : Text) : countUnder "if" s =
    ((wordSites "if".toList s).filter fun offset => ¬BehindWord "else".toList s offset).length := by
  have hadd := countUnder_pair_add s
  rw [countUnder_elseIf, ownCount_ifWord] at hadd
  have hsplit := (wordSites "if".toList s).length_eq_countP_add_countP
    fun offset => decide (BehindWord "else".toList s offset)
  simp only [List.countP_eq_length_filter, decide_eq_true_eq] at hsplit
  omega

/-- What is counted under each label, that the order of the kinds makes no difference, and that nine
counts by themselves make up the complexity. -/
theorem countUnder_kinds (s : Text) :
    countUnder "else if" s =
      ((wordSites "if".toList s).filter fun offset => BehindWord "else".toList s offset).length ∧
    countUnder "if" s =
      ((wordSites "if".toList s).filter fun offset => ¬BehindWord "else".toList s offset).length ∧
    (∀ w ∈ ["while", "for", "case", "catch", "return"],
      countUnder w s = (wordSites w.toList s).length) ∧
    countUnder "ternary" s = List.count '?' s ∧
    countUnder "&&" s = halves (runsOf '&' s) ∧
    countUnder "||" s = halves (runsOf '|' s) ∧
    s.complexity = 1 + Entries.total (singles.map fun d => (d, ownCount s d)) ∧
    ownCount s .ifWord = (wordSites "if".toList s).length ∧
    (∀ d, d ≠ .ifWord → ownCount s d = countUnder d.label s) ∧
    ∀ order : List Decision, (∀ d, d ∈ order) →
      Entries.tally ((scan (firstOf order) s).map Hit.value) = s.decisionCounts := by
  refine ⟨countUnder_elseIf s, countUnder_if s, ?words,
    (countUnder_eq_ownCount (d := .ternary) nofun s).trans (ownCount_ternary s),
    (countUnder_eq_ownCount (d := .and) nofun s).trans (ownCount_pair rfl s),
    (countUnder_eq_ownCount (d := .or) nofun s).trans (ownCount_pair rfl s), ?total,
    ownCount_ifWord s, fun d hd => (countUnder_eq_ownCount hd s).symm, ?order⟩
  case words =>
    have hword {d : Decision} (hpair : d ≠ .elseIf) (hif : d ≠ .ifWord) (hmark : d.isMark = false) :
        countUnder d.label s = (wordSites d.opening s).length :=
      (countUnder_eq_ownCount hif s).trans (ownCount_word hpair hmark s)
    simp only [List.forall_mem_cons, List.not_mem_nil, false_implies, implies_true, and_true]
    exact ⟨hword (d := .whileWord) nofun nofun rfl, hword (d := .forWord) nofun nofun rfl,
      hword (d := .caseWord) nofun nofun rfl, hword (d := .catchWord) nofun nofun rfl,
      hword (d := .returnWord) nofun nofun rfl⟩
  case total =>
    rw [complexity, decisionCounts, Entries.total_tally, total_ownCount]
  case order =>
    intro order horder
    have hsame : firstOf order = begins? := by
      rw [begins?_eq_firstOf]
      exact firstOf_congr fun d => iff_of_true (horder d) (mem_all d)
    rw [hsame]
    rfl

/-- An `else` that is part of a longer word makes no pair, blanks of any kind do, of three `&` two
make one decision point, and to try the kinds in the opposite order changes nothing. -/
theorem countUnder_kinds_reversed :
    let s : Text :=
      "if (a &&& b) {} else \t\n if (c ? x : y) {} elseif (d) {} myelse if (e) {}".toList
    (∀ d, d ∈ all.reverse) ∧ countUnder "else if" s = 1 ∧ countUnder "if" s = 2 ∧
      halves (runsOf '&' s) = 1 ∧
      Entries.tally ((scan (firstOf all.reverse) s).map Hit.value) = s.decisionCounts := by
  intro s
  have hmem : ∀ d, d ∈ all.reverse := fun d => List.mem_reverse.mpr (mem_all d)
  obtain ⟨hpairs, hothers, -, -, -, -, -, -, -, horder⟩ := countUnder_kinds s
  refine ⟨hmem, ?_, ?_, ?_, horder _ hmem⟩
  · rw [hpairs]
    decide +kernel
  · rw [hothers]
    decide +kernel
  · decide +kernel

end Text

end CodeHealth
