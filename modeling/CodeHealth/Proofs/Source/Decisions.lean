import CodeHealth.Proofs.Text.Places
import CodeHealth.Proofs.Text.Runs
import CodeHealth.Proofs.Text.Scan
import CodeHealth.Source.Decision

/-!
# Decision points without pairs

An `else if` is one decision point because its `if` is one: the `else` before it counts for nothing,
and to take both together only changes the name under which the `if` is counted. The decision points
of a text are therefore, up to that name, the single words and marks in it (`map_single_decisions`).

Words and marks hold no blanks, so in front of a blank a text can be cut without any effect on its
decision points. A pair may well fall apart there, and is then counted by its `if`.
-/

namespace CodeHealth

namespace Decision

/-- The word or mark for which a decision point is counted. -/
def single : Decision → Decision
  | .elseIf => .ifWord
  | d => d

/-- Recognises a word or a mark that is a decision point. -/
def single? : Recogniser Decision := fun before s =>
  (words.findSome? fun (d, w) => (Text.wholeWord w before s).map fun (size, _) => (size, d))
    <|> marks.findSome? fun (d, w) => (Text.exactly w before s).map fun (size, _) => (size, d)

theorem begins?_eq_or (before : Option Char) (s : Text) :
    begins? before s = (elseIf? before s).or (single? before s) := by
  simp [begins?, single?]

/-! ### Words and marks hold no blanks -/

theorem solid_of_all {ps : List (Decision × Text)}
    (h : (ps.all fun p => !p.2.isEmpty && p.2.all fun c => !Text.isBlank c) = true) :
    ∀ p ∈ ps, p.2 ≠ [] ∧ ∀ c ∈ p.2, Text.isBlank c = false := by
  intro p hp
  have hsolid := List.all_eq_true.mp h p hp
  rw [Bool.and_eq_true] at hsolid
  obtain ⟨hne, hall⟩ := hsolid
  refine ⟨by simpa using hne, fun c hc => ?_⟩
  simpa using List.all_eq_true.mp hall c hc

theorem words_solid : ∀ p ∈ words, p.2 ≠ [] ∧ ∀ c ∈ p.2, Text.isBlank c = false :=
  solid_of_all (by decide)

theorem marks_solid : ∀ p ∈ marks, p.2 ≠ [] ∧ ∀ c ∈ p.2, Text.isBlank c = false :=
  solid_of_all (by decide)

theorem solid_single? : Text.Solid single? := by
  refine .orElse (.findSome? ?_) (.findSome? ?_)
  · rintro ⟨d, w⟩ hp
    obtain ⟨hne, hw⟩ := words_solid (d, w) hp
    exact (Text.solid_wholeWord hne hw).map fun _ => d
  · rintro ⟨d, w⟩ hp
    obtain ⟨hne, hw⟩ := marks_solid (d, w) hp
    exact (Text.solid_exactly hne hw).map fun _ => d

/-! ### Pairs -/

/-- The characters with which a word or a mark begins. -/
def initials : Text :=
  (words ++ marks).filterMap fun p => p.2.head?

theorem after?_eq_none {c : Char} (hc : c ∉ initials) {p : Decision × Text}
    (hp : p ∈ words ++ marks) (rest : Text) : Text.after? p.2 (c :: rest) = none := by
  have hne : p.2 ≠ [] := by
    obtain hw | hm := List.mem_append.mp hp
    · exact (words_solid p hw).1
    · exact (marks_solid p hm).1
  obtain ⟨a, w, hw⟩ := List.exists_cons_of_ne_nil hne
  have hac : a ≠ c := by
    rintro rfl
    exact hc (List.mem_filterMap.mpr ⟨p, hp, by rw [hw]; rfl⟩)
  simp [hw, Text.after?, hac]

theorem single?_eq_none {c : Char} (hc : c ∉ initials) (before : Option Char) (rest : Text) :
    single? before (c :: rest) = none := by
  have hwords : ∀ p ∈ words, Text.wholeWord p.2 before (c :: rest) = none := fun p hp => by
    simp [Text.wholeWord, after?_eq_none hc (List.mem_append_left _ hp)]
  have hmarks : ∀ p ∈ marks, Text.exactly p.2 before (c :: rest) = none := fun p hp => by
    simp [Text.exactly, after?_eq_none hc (List.mem_append_right _ hp)]
  simp only [single?, Option.orElse_eq_orElse, Option.orElse_eq_or, Option.or_eq_none_iff,
    List.findSome?_eq_none_iff, Option.map_eq_none_iff]
  exact ⟨hwords, hmarks⟩

theorem single?_if {before : Option Char} {rest : Text} (hbefore : Text.startsWord before = true)
    (hrest : Text.endsWord rest = true) :
    single? before ("if".toList ++ rest) = some (2, .ifWord) := by
  have hafter : Text.after? "if".toList ("if".toList ++ rest) = some rest :=
    Text.after?_eq_some_iff.mpr rfl
  have hword : Text.wholeWord "if".toList before ("if".toList ++ rest) = some (2, ()) := by
    rw [Text.wholeWord, if_pos hbefore, hafter]
    exact if_pos hrest
  simp only [single?, words, List.findSome?_cons, hword]
  rfl

/-- What a pair is made of. -/
theorem elseIf?_eq_some_iff {before : Option Char} {s : Text} {size : Nat} {d : Decision} :
    elseIf? before s = some (size, d) ↔
      Text.startsWord before = true ∧ d = .elseIf ∧ ∃ gap rest,
        s = "else".toList ++ (gap ++ ("if".toList ++ rest)) ∧ Text.IsRun Text.isBlank gap ∧
        Text.endsWord rest = true ∧ size = 6 + gap.length := by
  constructor
  · intro h
    obtain ⟨_, hstart, h⟩ := Option.bind_eq_some_iff.mp h
    obtain ⟨afterElse, helse, h⟩ := Option.bind_eq_some_iff.mp h
    obtain ⟨_, hgap, h⟩ := Option.bind_eq_some_iff.mp h
    obtain ⟨rest, hif, h⟩ := Option.bind_eq_some_iff.mp h
    obtain ⟨_, hrest, h⟩ := Option.bind_eq_some_iff.mp h
    obtain ⟨rfl, rfl⟩ := Prod.mk.inj (Option.some.inj h)
    refine ⟨Text.prop_of_guard hstart, rfl, afterElse.takeWhile Text.isBlank, rest, ?_,
      ⟨Text.prop_of_guard hgap, Text.all_takeWhile _ _⟩, Text.prop_of_guard hrest, ?_⟩
    · rw [← Text.after?_eq_some_iff.mp hif, List.takeWhile_append_dropWhile]
      exact Text.after?_eq_some_iff.mp helse
    · change 4 + _ + 2 = _
      omega
  · rintro ⟨hstart, rfl, gap, rest, rfl, hgap, hrest, rfl⟩
    have hif : ("if".toList ++ rest).head?.any Text.isBlank = false := rfl
    have hafter (w t : Text) : Text.after? w (w ++ t) = some t := Text.after?_eq_some_iff.mpr rfl
    have hsize : "else".length + gap.length + "if".length = 6 + gap.length := by
      change 4 + _ + 2 = _
      omega
    unfold elseIf?
    refine Option.bind_eq_some_iff.mpr ⟨(), if_pos hstart, Option.bind_eq_some_iff.mpr
      ⟨gap ++ ("if".toList ++ rest), hafter _ _, ?_⟩⟩
    dsimp only
    rw [Text.takeWhile_run hgap.2 hif, Text.dropWhile_run hgap.2 hif]
    exact Option.bind_eq_some_iff.mpr ⟨(), if_pos hgap.1, Option.bind_eq_some_iff.mpr
      ⟨rest, hafter _ _, Option.bind_eq_some_iff.mpr ⟨(), if_pos hrest, by rw [hsize]; rfl⟩⟩⟩

/-! ### Pairs count for their second word -/

theorem blank_notMem_initials {c : Char} (hc : Text.isBlank c = true) : c ∉ initials := by
  have hinitials : (initials.all fun a => !Text.isBlank a) = true := by decide
  intro hmem
  simpa [hc] using List.all_eq_true.mp hinitials c hmem

theorem foundFrom_single?_append {u : Text} (hu : ∀ c ∈ u, c ∉ initials) (before : Option Char)
    (s : Text) : Text.foundFrom single? 0 before (u ++ s) =
      Text.foundFrom single? 0 (u.getLast?.or before) s := by
  induction u generalizing before with
  | nil => rfl
  | cons c u ih =>
    obtain ⟨hc, hu⟩ := List.forall_mem_cons.mp hu
    rw [List.cons_append, Text.foundFrom_cons_of_eq_none (single?_eq_none hc before _), ih hu]
    cases hlast : u.getLast? <;> simp [List.getLast?_cons, hlast]

/-- The two scans of a pair meet behind it. -/
theorem foundFrom_single?_pair {gap rest : Text} (hgap : ∀ c ∈ gap, Text.isBlank c = true)
    (hne : gap ≠ []) (hrest : Text.endsWord rest = true) (before : Option Char) :
    Text.foundFrom single? 0 before ("else".toList ++ (gap ++ ("if".toList ++ rest))) =
      .ifWord :: Text.foundFrom single? (5 + gap.length) (some 'e')
        ("lse".toList ++ (gap ++ ("if".toList ++ rest))) := by
  obtain ⟨b, hb⟩ : ∃ b, gap.getLast? = some b := ⟨_, List.getLast?_eq_some_getLast hne⟩
  have hblank : Text.isBlank b = true := hgap b (List.mem_of_getLast? hb)
  have hbefore : Text.startsWord (some b) = true := by
    simp [Text.startsWord, Text.isWord_eq_false_of_isBlank hblank]
  -- Up to the second word of the pair there is nothing for a scan that knows no pairs.
  have hquiet : ∀ c ∈ "else".toList ++ gap, c ∉ initials := by
    intro c hc
    obtain helse | hmem := List.mem_append.mp hc
    · have hall : ("else".toList.all fun c => !initials.contains c) = true := by decide
      simpa using List.all_eq_true.mp hall c helse
    · exact blank_notMem_initials (hgap c hmem)
  have hlast : ("else".toList ++ gap).getLast?.or before = some b := by
    rw [List.getLast?_append, hb]
    rfl
  have hif : Text.foundFrom single? 0 (some b) ("if".toList ++ rest) =
      .ifWord :: Text.foundFrom single? 0 (some 'f') rest :=
    Text.foundFrom_cons_of_eq_some (single?_if hbefore hrest)
  have hlength : 5 + gap.length = ("lse".toList ++ (gap ++ "if".toList)).length := by
    simp
    omega
  have hskip : Text.foundFrom single? (5 + gap.length) (some 'e')
      ("lse".toList ++ (gap ++ ("if".toList ++ rest))) =
        Text.foundFrom single? 0 (some 'f') rest := by
    have howned : "lse".toList ++ (gap ++ ("if".toList ++ rest)) =
        ("lse".toList ++ (gap ++ "if".toList)) ++ rest := by
      simp only [List.append_assoc]
    have hf : ("lse".toList ++ (gap ++ "if".toList)).getLast? = some 'f' := by
      rw [List.getLast?_append, List.getLast?_append]
      rfl
    rw [howned, hlength, Text.foundFrom_length, hf]
    rfl
  rw [hskip, ← List.append_assoc, foundFrom_single?_append hquiet, hlast, hif]

theorem single_of_single? {before : Option Char} {s : Text} {size : Nat} {d : Decision}
    (h : single? before s = some (size, d)) : d.single = d := by
  have hall : ∀ p ∈ words ++ marks, p.1.single = p.1 := by decide
  simp only [single?, Option.orElse_eq_orElse, Option.orElse_eq_or] at h
  obtain h | ⟨-, h⟩ := Option.or_eq_some_iff.mp h
  all_goals
    obtain ⟨p, hp, hv⟩ := List.exists_of_findSome?_eq_some h
    obtain ⟨answer, -, heq⟩ := Option.map_eq_some_iff.mp hv
    obtain ⟨-, rfl⟩ := Prod.mk.inj heq
    exact hall p (by simp [hp])

/-- Recognising pairs changes nothing but the names of the decision points found. -/
theorem map_single_foundFrom (owned : Nat) (before : Option Char) (s : Text) :
    (Text.foundFrom begins? owned before s).map single = Text.foundFrom single? owned before s := by
  induction s generalizing owned before with
  | nil => simp
  | cons c rest ih =>
    cases owned with
    | succ owned => exact ih owned (some c)
    | zero =>
      have hor := begins?_eq_or before (c :: rest)
      cases hpair : elseIf? before (c :: rest) with
      | none =>
        rw [hpair, Option.none_or] at hor
        cases hsingle : single? before (c :: rest) with
        | none =>
          rw [Text.foundFrom_cons_of_eq_none (hor.trans hsingle),
            Text.foundFrom_cons_of_eq_none hsingle]
          exact ih 0 (some c)
        | some answer =>
          obtain ⟨size, d⟩ := answer
          rw [Text.foundFrom_cons_of_eq_some (hor.trans hsingle),
            Text.foundFrom_cons_of_eq_some hsingle, List.map_cons, ih]
          rw [single_of_single? hsingle]
      | some answer =>
        obtain ⟨size, d⟩ := answer
        rw [hpair, Option.some_or] at hor
        obtain ⟨-, rfl, gap, more, hs, ⟨hne, hgap⟩, hmore, rfl⟩ := elseIf?_eq_some_iff.mp hpair
        obtain ⟨rfl, rfl⟩ := List.cons.inj hs
        rw [Text.foundFrom_cons_of_eq_some hor, List.map_cons, ih]
        have := foundFrom_single?_pair hgap hne hmore before
        refine Eq.trans ?_ this.symm
        have hsize : 6 + gap.length - 1 = 5 + gap.length := by omega
        rw [hsize]
        rfl

end Decision

/-- The decision points of a text, each under the name of a single word or mark. -/
theorem Text.map_single_decisions (s : Text) :
    s.decisions.map Decision.single = Text.found Decision.single? s := by
  rw [Text.decisions, Text.map_value_scan]
  exact Decision.map_single_foundFrom 0 none s

end CodeHealth
