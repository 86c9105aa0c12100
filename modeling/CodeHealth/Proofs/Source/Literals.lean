import CodeHealth.Proofs.Source.Blanking
import CodeHealth.Proofs.Source.Cutting

/-!
# Where a literal ends

The recogniser of literals takes a backslash and the character behind it together. From the outside
this is a rule about numbers: a quote closes a literal if the backslashes right before it are even
in number, and the first such quote does, unless a newline comes before it
(`Lexeme.literal?_eq_some_iff`). A run of backslashes is counted from the opening quote on at most,
since nothing before it belongs to the literal.

The rule is proved by walking through the literal. What has been passed is carried along, because
the number of backslashes at its end decides whether the next character is taken along by the last
of them.
-/

namespace CodeHealth

namespace Text

/-- The number of backslashes that a text ends with. -/
def backslashes (s : Text) : Nat :=
  (s.reverse.takeWhile (· = '\\')).length

theorem backslashes_concat (s : Text) (c : Char) :
    backslashes (s ++ [c]) = if c = '\\' then backslashes s + 1 else 0 := by
  rw [backslashes, List.reverse_append, List.reverse_singleton, List.singleton_append]
  split
  · rename_i hc
    rw [List.takeWhile_cons_of_pos (by simpa using hc), List.length_cons]
    rfl
  · rename_i hc
    rw [List.takeWhile_cons_of_neg (by simpa using hc), List.length_nil]

/-- The text between two offsets, without the characters that stand there. -/
def between (s : Text) (i j : Nat) : Text :=
  (s.drop (i + 1)).take (j - (i + 1))

/-- Whether a quote stands at an offset `j` behind an offset `i`, with an even number of backslashes
right before it that stand behind `i` as well. -/
def IsUnescaped (s : Text) (q : Char) (i j : Nat) : Prop :=
  i < j ∧ s[j]? = some q ∧ backslashes (s.between i j) % 2 = 0

/-- Whether a quote at an offset `i` is closed at an offset `j`. -/
structure ClosesLiteral (s : Text) (q : Char) (i j : Nat) : Prop where
  unescaped : s.IsUnescaped q i j
  first : ∀ k < j, ¬s.IsUnescaped q i k
  line : '\n' ∉ s.between i j

instance (s : Text) (q : Char) (i j : Nat) : Decidable (s.IsUnescaped q i j) :=
  inferInstanceAs (Decidable (_ ∧ _ ∧ _))

instance (s : Text) (q : Char) (i j : Nat) : Decidable (s.ClosesLiteral q i j) :=
  decidable_of_iff
    (s.IsUnescaped q i j ∧ (∀ k < j, ¬s.IsUnescaped q i k) ∧ '\n' ∉ s.between i j)
    ⟨fun ⟨h, hfirst, hline⟩ => ⟨h, hfirst, hline⟩, fun ⟨h, hfirst, hline⟩ => ⟨h, hfirst, hline⟩⟩

end Text

namespace Lexeme

open Text

variable {q c : Char} {passed s t : Text} {n : Nat}

/-- The rest of a literal behind a part of it that has been passed. -/
def tailBehind? (q : Char) (passed s : Text) : Option Text :=
  if backslashes passed % 2 = 0 then literalTail? q s else escapeTail? q s

/-- A character that does not close the literal and is no newline belongs to it. -/
theorem tailBehind?_cons (hq : isQuote q = true) (hline : c ≠ '\n')
    (hclosing : ¬(c = q ∧ backslashes passed % 2 = 0)) :
    tailBehind? q passed (c :: s) = (tailBehind? q (passed ++ [c]) s).map (c :: ·) := by
  have hslash : '\\' ≠ q := ne_of_isQuote hq rfl
  unfold tailBehind?
  rw [backslashes_concat]
  by_cases heven : backslashes passed % 2 = 0
  · have hcq : c ≠ q := fun hc => hclosing ⟨hc, heven⟩
    rw [if_pos heven]
    by_cases hc : c = '\\'
    · subst hc
      rw [if_pos rfl, if_neg (by omega), literalTail?_backslash s hslash]
    · rw [if_neg hc, if_pos rfl, literalTail?_plain s hcq hline hc]
  · rw [if_neg heven, escapeTail?_cons s hline]
    by_cases hc : c = '\\'
    · rw [if_pos hc, if_pos (by omega)]
    · rw [if_neg hc, if_pos rfl]

/-- Whether a literal is closed `n` characters behind a part of it that has been passed. -/
structure ClosedAfter (q : Char) (passed s : Text) (n : Nat) : Prop where
  quote : s[n]? = some q
  even : backslashes (passed ++ s.take n) % 2 = 0
  first : ∀ k < n, s[k]? = some q → backslashes (passed ++ s.take k) % 2 ≠ 0
  line : '\n' ∉ s.take n

namespace ClosedAfter

theorem zero_iff : ClosedAfter q passed (c :: s) 0 ↔ c = q ∧ backslashes passed % 2 = 0 := by
  constructor
  · intro h
    refine ⟨Option.some.inj h.quote, ?_⟩
    simpa using h.even
  · rintro ⟨rfl, heven⟩
    exact ⟨rfl, by simpa using heven, nofun, List.not_mem_nil⟩

theorem succ_iff (hline : c ≠ '\n') (hclosing : ¬(c = q ∧ backslashes passed % 2 = 0)) :
    ClosedAfter q passed (c :: s) (n + 1) ↔ ClosedAfter q (passed ++ [c]) s n := by
  constructor
  · rintro ⟨hquote, heven, hfirst, hline'⟩
    refine ⟨hquote, ?_, fun k hk hat => ?_, fun hmem => hline' (List.mem_cons_of_mem c hmem)⟩
    · rwa [List.append_assoc, List.singleton_append]
    · have := hfirst (k + 1) (Nat.succ_lt_succ hk) hat
      rwa [List.append_assoc, List.singleton_append]
  · rintro ⟨hquote, heven, hfirst, hline'⟩
    rw [List.append_assoc, List.singleton_append] at heven
    refine ⟨hquote, heven, fun k hk hat => ?_, ?_⟩
    · cases k with
      | zero =>
        intro hzero
        exact hclosing ⟨Option.some.inj hat, by simpa using hzero⟩
      | succ k =>
        have := hfirst k (Nat.lt_of_succ_lt_succ hk) hat
        rwa [List.append_assoc, List.singleton_append] at this
    · rw [List.take_succ_cons, List.mem_cons, not_or]
      exact ⟨Ne.symm hline, hline'⟩

end ClosedAfter

/-- A literal reaches up to the first quote that closes it, and there is one unless a newline comes
before. -/
theorem tailBehind?_eq_some_iff (hq : isQuote q = true) : tailBehind? q passed s = some t ↔
    ∃ n, ClosedAfter q passed s n ∧ t = s.take (n + 1) := by
  have hnewline : '\n' ≠ q := ne_of_isQuote hq rfl
  induction s generalizing passed t with
  | nil =>
    have hnone : tailBehind? q passed [] = none := by
      unfold tailBehind?
      split
      · rfl
      · rfl
    rw [hnone]
    constructor
    · exact nofun
    · rintro ⟨n, hclosed, -⟩
      exact absurd hclosed.quote nofun
  | cons c s ih =>
    by_cases hclosing : c = q ∧ backslashes passed % 2 = 0
    · obtain ⟨rfl, heven⟩ := hclosing
      rw [tailBehind?, if_pos heven, literalTail?_quote]
      constructor
      · intro h
        exact ⟨0, ClosedAfter.zero_iff.mpr ⟨rfl, heven⟩, (Option.some.inj h).symm⟩
      · rintro ⟨n, hclosed, rfl⟩
        cases n with
        | zero => rfl
        | succ n =>
          have := hclosed.first 0 (Nat.succ_pos n) rfl
          rw [List.take_zero, List.append_nil] at this
          exact absurd heven this
    by_cases hline : c = '\n'
    · subst hline
      have hnone : tailBehind? q passed ('\n' :: s) = none := by
        unfold tailBehind?
        split
        · exact literalTail?_newline s hnewline
        · exact escapeTail?_newline s
      rw [hnone]
      constructor
      · exact nofun
      · rintro ⟨n, hclosed, -⟩
        cases n with
        | zero => exact absurd (Option.some.inj hclosed.quote) hnewline
        | succ n => exact absurd List.mem_cons_self hclosed.line
    · rw [tailBehind?_cons hq hline hclosing, Option.map_eq_some_iff]
      constructor
      · rintro ⟨u, hu, rfl⟩
        obtain ⟨n, hclosed, rfl⟩ := ih.mp hu
        exact ⟨n + 1, (ClosedAfter.succ_iff hline hclosing).mpr hclosed, rfl⟩
      · rintro ⟨n, hclosed, rfl⟩
        cases n with
        | zero => exact absurd (ClosedAfter.zero_iff.mp hclosed) hclosing
        | succ n =>
          exact ⟨s.take (n + 1),
            ih.mpr ⟨n, (ClosedAfter.succ_iff hline hclosing).mp hclosed, rfl⟩, rfl⟩

/-! ### Literals at an offset -/

variable {l : Lexeme} {i j : Nat}

theorem drop_eq_cons (hat : s[i]? = some c) : s.drop i = c :: s.drop (i + 1) := by
  obtain ⟨hlt, rfl⟩ := List.getElem?_eq_some_iff.mp hat
  exact List.drop_eq_getElem_cons hlt

theorem closesLiteral_iff :
    s.ClosesLiteral q i (i + 1 + n) ↔ ClosedAfter q [] (s.drop (i + 1)) n := by
  have hbetween (k : Nat) : s.between i (i + 1 + k) = (s.drop (i + 1)).take k := by
    rw [between, Nat.add_sub_cancel_left]
  constructor
  · rintro ⟨⟨-, hquote, heven⟩, hfirst, hline⟩
    rw [hbetween] at heven hline
    refine ⟨by rwa [List.getElem?_drop], heven, fun k hk hat hparity => ?_, hline⟩
    rw [List.getElem?_drop] at hat
    rw [List.nil_append, ← hbetween] at hparity
    exact hfirst (i + 1 + k) (Nat.add_lt_add_left hk _) ⟨by omega, hat, hparity⟩
  · rintro ⟨hquote, heven, hfirst, hline⟩
    rw [List.getElem?_drop] at hquote
    rw [List.nil_append, ← hbetween] at heven
    rw [← hbetween] at hline
    refine ⟨⟨by omega, hquote, heven⟩, ?_, hline⟩
    rintro k hk ⟨hbehind, hat, hparity⟩
    obtain ⟨m, rfl⟩ := Nat.exists_eq_add_of_le (Nat.succ_le_of_lt hbehind)
    rw [hbetween] at hparity
    refine hfirst m (Nat.lt_of_add_lt_add_left hk) ?_ hparity
    rwa [List.getElem?_drop]

/-- A quote begins a literal if it is closed, and the literal reaches up to where it is. -/
theorem literal?_eq_some_iff (hat : s[i]? = some q) (hq : isQuote q = true) :
    literal? (s.drop i) = some l ↔
      ∃ j, s.ClosesLiteral q i j ∧ l = ⟨.literal, (s.drop i).take (j + 1 - i)⟩ := by
  have htail : tailBehind? q [] (s.drop (i + 1)) = literalTail? q (s.drop (i + 1)) := rfl
  rw [drop_eq_cons hat, literal?, if_pos hq, ← htail, Option.map_eq_some_iff]
  constructor
  · rintro ⟨t, ht, rfl⟩
    obtain ⟨n, hclosed, rfl⟩ := (tailBehind?_eq_some_iff hq).mp ht
    refine ⟨i + 1 + n, closesLiteral_iff.mpr hclosed, ?_⟩
    have hsize : i + 1 + n + 1 - i = n + 1 + 1 := by omega
    rw [hsize, List.take_succ_cons]
  · rintro ⟨j, hcloses, rfl⟩
    obtain ⟨n, rfl⟩ := Nat.exists_eq_add_of_le (Nat.succ_le_of_lt hcloses.unescaped.1)
    refine ⟨(s.drop (i + 1)).take (n + 1),
      (tailBehind?_eq_some_iff hq).mpr ⟨n, closesLiteral_iff.mp hcloses, rfl⟩, ?_⟩
    have hsize : i + 1 + n + 1 - i = n + 1 + 1 := by omega
    rw [Nat.succ_eq_add_one, hsize, List.take_succ_cons]

theorem begins?_eq_literal? (hat : s[i]? = some q) (hq : isQuote q = true) :
    begins? (s.drop i) = literal? (s.drop i) := by
  have hcomment : comment? (s.drop i) = none := by
    have hslash : '/' ≠ q := ne_of_isQuote hq rfl
    rw [drop_eq_cons hat]
    unfold comment?
    split
    · rename_i heq
      exact absurd (List.cons.inj heq).1.symm hslash
    · rename_i heq
      exact absurd (List.cons.inj heq).1.symm hslash
    · rfl
  rw [begins?_eq_or, hcomment, Option.or_none]

theorem Inside.newline_notMem (h : Inside s) : '\n' ∉ s := by
  induction h with
  | nil => exact List.not_mem_nil
  | plain _ hline _ ih => exact List.not_mem_cons_of_ne_of_not_mem (Ne.symm hline) ih
  | escaped hline _ ih =>
    refine List.not_mem_cons_of_ne_of_not_mem (by decide) ?_
    exact List.not_mem_cons_of_ne_of_not_mem (Ne.symm hline) ih

/-- A literal stands on one line, so a space stands in its place. -/
theorem blanked_of_literal {t : Text} (h : Complete .literal t) :
    blanked ⟨.literal, t⟩ = [' '] := by
  have hline : '\n' ∉ t := by
    cases h with
    | literal hq hinside =>
      have hquote : '\n' ≠ _ := ne_of_isQuote hq rfl
      simp [hquote, hinside.newline_notMem]
  rw [blanked_eq_ite (by simp), if_pos (List.isEmpty_iff.mpr (filter_newline_eq_nil_iff.mpr hline))]

end Lexeme

namespace Text

open Lexeme

variable {s : Text} {q : Char} {i j : Nat}

/-- What becomes of a quote that reading comes to outside of any lexeme. If it is closed, a space
stands in place of the literal, and reading goes on behind it. If it is not, the quote stays and
reading goes on right behind it. -/
theorem clean_quote (hreach : s.Reaches i) (hat : s[i]? = some q) (hq : isQuote q = true) :
    (∀ j, s.ClosesLiteral q i j →
      s.clean = clean (s.take i) ++ ' ' :: clean (s.drop (j + 1)) ∧ s.Reaches (j + 1)) ∧
    ((∀ j, ¬s.ClosesLiteral q i j) →
      s.clean = clean (s.take i) ++ q :: clean (s.drop (i + 1)) ∧ s.Reaches (i + 1)) := by
  constructor
  · intro j hcloses
    have hlt : j < s.length := (List.getElem?_eq_some_iff.mp hcloses.unescaped.2.1).1
    have hle : i ≤ j := Nat.le_of_lt hcloses.unescaped.1
    let l : Lexeme := ⟨.literal, (s.drop i).take (j + 1 - i)⟩
    have hsplit : l.text ++ s.drop (j + 1) = s.drop i := by
      have hdrop : (s.drop i).drop (j + 1 - i) = s.drop (j + 1) := by
        rw [List.drop_drop]
        congr 1
        omega
      rw [← hdrop]
      exact List.take_append_drop _ _
    have hlength : l.text.length = j + 1 - i := by
      rw [List.length_take, List.length_drop]
      omega
    have hbegins : begins? (l.text ++ s.drop (j + 1)) = some l := by
      rw [hsplit, begins?_eq_literal? hat hq]
      exact (literal?_eq_some_iff hat hq).mpr ⟨j, hcloses, rfl⟩
    have hblanked : l.blanked = [' '] := blanked_of_literal (complete_of_begins? hbegins)
    constructor
    · rw [hreach.clean_eq, ← hsplit, clean_append hbegins, hblanked]
      rfl
    · have hmore : Reaches (s.drop i) (j + 1 - i) := by
        rw [← hsplit, ← hlength]
        exact reaches_append hbegins
      have := hreach.trans hmore
      rwa [Nat.add_sub_cancel' (Nat.le_succ_of_le hle)] at this
  · intro hopen
    have hnone : begins? (q :: s.drop (i + 1)) = none := by
      rw [← drop_eq_cons hat, begins?_eq_literal? hat hq, Option.eq_none_iff_forall_ne_some]
      intro l hl
      obtain ⟨j, hcloses, -⟩ := (literal?_eq_some_iff hat hq).mp hl
      exact hopen j hcloses
    constructor
    · rw [hreach.clean_eq, drop_eq_cons hat, clean_cons hnone]
    · have hmore : Reaches (s.drop i) 1 := by
        rw [drop_eq_cons hat]
        exact reaches_cons hnone
      exact hreach.trans hmore

/-- An apostrophe without a partner stays. Of two quotes behind backslashes the one behind two of
them closes the literal. -/
theorem clean_quote_escaped :
    let s : Text := "it's \"a\\\"b\\\\\" ok".toList
    (∀ j, ¬s.ClosesLiteral '\x27' 2 j) ∧
      s.clean = clean (s.take 2) ++ '\x27' :: clean (s.drop 3) ∧ s.ClosesLiteral '"' 5 12 ∧
      s.clean = clean (s.take 5) ++ ' ' :: clean (s.drop 13) := by
  intro s
  have hapostrophe : s.Reaches 2 :=
    ⟨s.tokens.take 2, s.tokens.drop 2, (List.take_append_drop 2 s.tokens).symm, by decide +kernel⟩
  have hquote : s.Reaches 5 :=
    ⟨s.tokens.take 5, s.tokens.drop 5, (List.take_append_drop 5 s.tokens).symm, by decide +kernel⟩
  have hopen : ∀ j, ¬s.ClosesLiteral '\x27' 2 j := by
    intro j hcloses
    have hnone : ∀ j < 16, ¬s.ClosesLiteral '\x27' 2 j := by decide +kernel
    have hlength : s.length = 16 := by decide +kernel
    have hlt := (List.getElem?_eq_some_iff.mp hcloses.unescaped.2.1).1
    exact hnone j (hlength ▸ hlt) hcloses
  have hcloses : s.ClosesLiteral '"' 5 12 := by decide +kernel
  have hcopied := (clean_quote hapostrophe (by decide +kernel) (by decide)).2 hopen
  have hblanked := (clean_quote hquote (by decide +kernel) (by decide)).1 12 hcloses
  exact ⟨hopen, hcopied.1, hcloses, hblanked.1⟩

end Text

end CodeHealth
