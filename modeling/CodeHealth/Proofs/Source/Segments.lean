import CodeHealth.Proofs.Entries
import CodeHealth.Proofs.Source.Blanking
import CodeHealth.Proofs.Source.Decisions

/-!
# Complexity, segment by segment

The literals and comments of a text cut it into segments of plain code. Where a lexeme stood, the
clean copy begins with a blank or is at its end, and in front of a blank the decision points of a
text are those of its parts. So the decision points of the clean copy are those of the segments,
each taken for itself, and what the literals and comments hold does not matter.

An `else` and an `if` on either side of a comment are one pair in the clean copy and none in the
segments. That is one decision point in both, although not under the same name.
-/

namespace CodeHealth

/-- Whether a token is a literal or a comment. -/
def Token.isLexeme : Token → Bool
  | .code _ => false
  | .lexeme _ => true

namespace Text

/-- The plain code in front of, between and behind the literals and comments of a text. -/
def segments (s : Text) : List Text :=
  (s.tokens.splitOnP Token.isLexeme).map (·.flatMap Token.text)

@[simp] theorem segments_nil : segments [] = [[]] := rfl

theorem segments_cons {c : Char} {rest : Text} (h : Lexeme.begins? (c :: rest) = none) :
    segments (c :: rest) = (segments rest).modifyHead (c :: ·) := by
  rw [segments, tokens_cons h, List.splitOnP_cons_eq_if_modifyHead]
  change ((rest.tokens.splitOnP Token.isLexeme).modifyHead (Token.code c :: ·)).map _ = _
  rw [segments]
  cases rest.tokens.splitOnP Token.isLexeme with
  | nil => rfl
  | cons p ps => rfl

theorem segments_append {l : Lexeme} {rest : Text} (h : Lexeme.begins? (l.text ++ rest) = some l) :
    segments (l.text ++ rest) = [] :: segments rest := by
  rw [segments, tokens_append h, List.splitOnP_cons_eq_if_modifyHead]
  rfl

theorem isBlank_of_mem_blanked {l : Lexeme} {c : Char} (h : c ∈ l.blanked) : isBlank c = true := by
  obtain rfl | rfl := Lexeme.eq_of_mem_blanked h
  · decide
  · decide

theorem blankFirst_clean {l : Lexeme} {rest : Text}
    (h : Lexeme.begins? (l.text ++ rest) = some l) : BlankFirst (clean (l.text ++ rest)) := by
  obtain hnil | ⟨more, hmore⟩ | ⟨-, -, hspace⟩ := clean_append_cases h
  · rw [hnil]
    exact blankFirst_nil
  · rw [hmore]
    exact blankFirst_cons.mpr (by decide)
  · rw [hspace]
    exact blankFirst_cons.mpr (by decide)

/-- What is found in a clean copy is what is found in the segments. The text that has been read
since the last lexeme is carried along as `u`. -/
theorem found_append_clean {α : Type} {m : Recogniser α} (hm : Solid m) (u s : Text) :
    found m (u ++ s.clean) = (s.segments.modifyHead (u ++ ·)).flatMap (found m) := by
  induction s using reading_induction generalizing u with
  | nil => simp
  | code c rest hc ih =>
    rw [clean_cons hc, segments_cons hc, List.modifyHead_modifyHead]
    have := ih (u ++ [c])
    simpa [Function.comp_def] using this
  | lexeme l rest hl ih =>
    -- What stands in place of the lexeme is blank, so nothing begins there and nothing reaches in.
    have hrest : found m (clean (l.text ++ rest)) = found m rest.clean := by
      rw [clean_append hl]
      exact hm.found_append_of_blanks (fun _ => isBlank_of_mem_blanked) _
    have hempty : found m rest.clean = (rest.segments.modifyHead id).flatMap (found m) := ih []
    rw [hm.found_append u (blankFirst_clean hl), hrest, hempty, segments_append hl]
    simp

/-- Under the name of a single word or mark each, the decision points of a clean copy are those of
the segments. -/
theorem map_single_decisions_clean (s : Text) :
    s.clean.decisions.map Decision.single =
      s.segments.flatMap fun p => p.decisions.map Decision.single := by
  have hfound : found Decision.single? s.clean =
      (s.segments.modifyHead id).flatMap (found Decision.single?) :=
    found_append_clean Decision.solid_single? [] s
  simpa [map_single_decisions] using hfound

theorem total_decisionCounts (s : Text) : s.decisionCounts.total = s.decisions.length :=
  Entries.total_tally s.decisions

/-- The number of decision points in some texts, each taken for itself. -/
def decisionsIn : List Text → Nat
  | [] => 0
  | p :: rest => p.decisionCounts.total + decisionsIn rest

theorem decisionsIn_eq_length (ps : List Text) :
    decisionsIn ps = (ps.flatMap fun p => p.decisions.map Decision.single).length := by
  induction ps with
  | nil => rfl
  | cons p rest ih =>
    rw [decisionsIn, ih, total_decisionCounts, List.flatMap_cons, List.length_append,
      List.length_map]

theorem total_decisionCounts_clean (s : Text) :
    s.clean.decisionCounts.total = decisionsIn s.segments := by
  rw [decisionsIn_eq_length, ← map_single_decisions_clean, List.length_map, total_decisionCounts]

/-- The complexity of a clean copy is one more than the decision points of the segments, each
segment taken for itself. No decision point is made, lost or joined to another by blanking out, and
texts with equal segments are equally complex. -/
theorem complexity_clean (s : Text) :
    s.clean.complexity = 1 + decisionsIn s.segments ∧
      (s.clean.decisions.map Decision.single =
        s.segments.flatMap fun p => p.decisions.map Decision.single) ∧
      ∀ t : Text, t.segments = s.segments → t.clean.complexity = s.clean.complexity := by
  refine ⟨?_, map_single_decisions_clean s, fun t ht => ?_⟩
  · rw [complexity, total_decisionCounts_clean]
  · rw [complexity, complexity, total_decisionCounts_clean, total_decisionCounts_clean, ht]

/-- What a comment and a literal hold changes nothing. -/
theorem complexity_clean_contents :
    segments "a /* if */ && 'c?'".toList = segments "a /**/ && \"\"".toList ∧
      complexity (clean "a /* if */ && 'c?'".toList) =
        complexity (clean "a /**/ && \"\"".toList) := by
  have hsegments : segments "a /* if */ && 'c?'".toList = segments "a /**/ && \"\"".toList := by
    decide +kernel
  obtain ⟨-, -, hcontents⟩ := complexity_clean "a /**/ && \"\"".toList
  exact ⟨hsegments, hcontents _ hsegments⟩

end Text

end CodeHealth
