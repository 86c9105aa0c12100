import CodeHealth.Source.Clean

/-!
# The language of literals and comments

`Complete` says which texts are literals and comments as a grammar, without a word about how they
are looked for. The recogniser answers with such texts only, and it has an answer wherever one of
them begins; which of several it takes is not part of the grammar.

Reading goes on behind a lexeme or behind a character of code, and what follows is read as a text of
its own. `reading_induction` is the induction that goes with it.
-/

namespace CodeHealth

namespace Lexeme

/-- What may stand between the quotes of a literal: characters other than a newline, where a
backslash takes the next one along. -/
inductive Inside : Text → Prop where
  | nil : Inside []
  | plain {c : Char} {s : Text} : c ≠ '\\' → c ≠ '\n' → Inside s → Inside (c :: s)
  | escaped {c : Char} {s : Text} : c ≠ '\n' → Inside s → Inside ('\\' :: c :: s)

/-- The texts that are a literal or a comment from the first to the last character. -/
inductive Complete : LexemeKind → Text → Prop where
  | literal {q : Char} {s : Text} : isQuote q = true → Inside s →
      Complete .literal (q :: (s ++ [q]))
  | lineComment {s : Text} : '\n' ∉ s → Complete .lineComment ('/' :: '/' :: s)
  | blockComment {s : Text} : Complete .blockComment ('/' :: '*' :: (s ++ ['*', '/']))

theorem Inside.append {s t : Text} (hs : Inside s) (ht : Inside t) : Inside (s ++ t) := by
  induction hs with
  | nil => exact ht
  | plain hslash hline _ ih => exact .plain hslash hline ih
  | escaped hline _ ih => exact .escaped hline ih

/-- A quote is neither a backslash nor blank, and it begins no comment. -/
theorem ne_of_isQuote {q c : Char} (h : isQuote q = true) (hc : isQuote c = false) : c ≠ q := by
  rintro rfl
  rw [h] at hc
  contradiction

theorem Inside.quote {q : Char} (h : isQuote q = true) : Inside [q] :=
  .plain (ne_of_isQuote h rfl).symm (ne_of_isQuote h rfl).symm .nil

/-! ### Literals -/

def escapeTail? (q : Char) : Text → Option Text
  | [] => none
  | c :: rest => if c = '\n' then none else (literalTail? q rest).map (c :: ·)

section Equations

variable {q c : Char} (s : Text)

theorem literalTail?_quote : literalTail? q (q :: s) = some [q] := by
  rw [literalTail?.eq_def]
  simp

theorem literalTail?_newline (hq : '\n' ≠ q) : literalTail? q ('\n' :: s) = none := by
  rw [literalTail?.eq_def]
  simp [hq]

theorem literalTail?_backslash (hq : '\\' ≠ q) :
    literalTail? q ('\\' :: s) = (escapeTail? q s).map ('\\' :: ·) := by
  rw [literalTail?.eq_def]
  cases s with
  | nil => simp [hq, escapeTail?]
  | cons d s => by_cases hd : d = '\n' <;> simp [hq, hd, escapeTail?, Function.comp_def]

theorem literalTail?_plain (hq : c ≠ q) (hline : c ≠ '\n') (hslash : c ≠ '\\') :
    literalTail? q (c :: s) = (literalTail? q s).map (c :: ·) := by
  rw [literalTail?.eq_def]
  simp [hq, hline, hslash]

theorem escapeTail?_newline : escapeTail? q ('\n' :: s) = none := rfl

theorem escapeTail?_cons (hline : c ≠ '\n') :
    escapeTail? q (c :: s) = (literalTail? q s).map (c :: ·) := by
  simp [escapeTail?, hline]

end Equations

theorem exists_inside_of_literalTail? {q : Char} {s t : Text} (h : literalTail? q s = some t) :
    ∃ u, Inside u ∧ t = u ++ [q] := by
  fun_induction literalTail? q s generalizing t with
  | case2 rest =>
    obtain rfl := Option.some.inj h
    exact ⟨[], .nil, rfl⟩
  | case6 d rest hline _ _ ih =>
    obtain ⟨v, hv, rfl⟩ := Option.map_eq_some_iff.mp h
    obtain ⟨u, hu, rfl⟩ := ih hv
    exact ⟨'\\' :: d :: u, .escaped hline hu, rfl⟩
  | case7 c rest _ hline hslash ih =>
    obtain ⟨v, hv, rfl⟩ := Option.map_eq_some_iff.mp h
    obtain ⟨u, hu, rfl⟩ := ih hv
    exact ⟨c :: u, .plain hslash hline hu, rfl⟩
  | _ => contradiction

/-- A literal that is not closed so far has to be closed behind what stands inside it. -/
theorem literalTail?_eq_none_of_append {q : Char} {s rest : Text} (hs : Inside s)
    (h : literalTail? q (s ++ rest) = none) : literalTail? q rest = none := by
  induction hs with
  | nil => exact h
  | @plain c s hslash hline _ ih =>
    by_cases hq : c = q
    · subst hq
      simp [literalTail?_quote] at h
    · rw [List.cons_append, literalTail?_plain _ hq hline hslash] at h
      exact ih (Option.map_eq_none_iff.mp h)
  | @escaped c s hline _ ih =>
    by_cases hq : '\\' = q
    · subst hq
      simp [literalTail?_quote] at h
    · rw [List.cons_append, List.cons_append, literalTail?_backslash _ hq,
        escapeTail?_cons _ hline] at h
      exact ih (Option.map_eq_none_iff.mp (Option.map_eq_none_iff.mp h))

theorem literalTail?_inside_ne_none {q : Char} {s : Text} (hs : Inside s) (rest : Text) :
    literalTail? q (s ++ q :: rest) ≠ none := by
  intro h
  have := literalTail?_eq_none_of_append hs h
  simp [literalTail?_quote] at this

/-! ### Comments -/

theorem exists_of_blockTail? {s t : Text} (h : blockTail? s = some t) :
    ∃ u, t = u ++ ['*', '/'] := by
  fun_induction blockTail? s generalizing t with
  | case1 => contradiction
  | case2 => exact ⟨[], (Option.some.inj h).symm⟩
  | case3 c rest _ ih =>
    obtain ⟨v, hv, rfl⟩ := Option.map_eq_some_iff.mp h
    obtain ⟨u, rfl⟩ := ih hv
    exact ⟨c :: u, rfl⟩

/-- A comment that is not closed in a text is not closed in what follows either. -/
theorem blockTail?_eq_none_of_append {s rest : Text} (h : blockTail? (s ++ rest) = none) :
    blockTail? rest = none := by
  induction s with
  | nil => exact h
  | cons c s ih =>
    rw [List.cons_append, blockTail?] at h
    split at h
    · contradiction
    · exact ih (Option.map_eq_none_iff.mp h)

theorem blockTail?_ne_none (s rest : Text) : blockTail? (s ++ '*' :: '/' :: rest) ≠ none := by
  intro h
  have := blockTail?_eq_none_of_append h
  simp [blockTail?] at this

/-! ### Lexemes -/

theorem begins?_eq_or (s : Text) : begins? s = (literal? s).or (comment? s) := by
  simp [begins?]

theorem begins?_eq_none_iff {s : Text} :
    begins? s = none ↔ literal? s = none ∧ comment? s = none := by
  rw [begins?_eq_or, Option.or_eq_none_iff]

/-- The recogniser answers with complete lexemes only. -/
theorem complete_of_begins? {s : Text} {l : Lexeme} (h : begins? s = some l) :
    Complete l.kind l.text := by
  rw [begins?_eq_or] at h
  obtain hl | ⟨-, hc⟩ := Option.or_eq_some_iff.mp h
  · unfold literal? at hl
    split at hl
    · contradiction
    · split at hl
      · rename_i hq
        obtain ⟨t, ht, rfl⟩ := Option.map_eq_some_iff.mp hl
        obtain ⟨u, hu, rfl⟩ := exists_inside_of_literalTail? ht
        exact .literal hq hu
      · contradiction
  · unfold comment? at hc
    split at hc
    · rename_i rest
      obtain rfl := Option.some.inj hc
      have hline := List.all_eq_true.mp (List.all_takeWhile (p := (· != '\n')) (l := rest))
      exact .lineComment fun hmem => by simpa using hline _ hmem
    · obtain ⟨t, ht, rfl⟩ := Option.map_eq_some_iff.mp hc
      obtain ⟨u, rfl⟩ := exists_of_blockTail? ht
      exact .blockComment
    · contradiction

/-- The recogniser has an answer wherever a complete lexeme begins. -/
theorem begins?_ne_none {k : LexemeKind} {t : Text} (h : Complete k t) (rest : Text) :
    begins? (t ++ rest) ≠ none := by
  intro hnone
  obtain ⟨hl, hc⟩ := begins?_eq_none_iff.mp hnone
  cases h with
  | literal hq hs => simp [literal?, hq, literalTail?_inside_ne_none hs] at hl
  | lineComment => simp [comment?] at hc
  | blockComment => simp [comment?, blockTail?_ne_none] at hc

end Lexeme

/-! ### Reading on -/

namespace Token

theorem ofTextFrom_eq_drop (owned : Nat) (s : Text) :
    ofTextFrom owned s = ofTextFrom 0 (s.drop owned) := by
  induction s generalizing owned with
  | nil => simp [ofTextFrom]
  | cons c rest ih =>
    cases owned with
    | zero => rfl
    | succ owned => exact ih owned

end Token

namespace Text

@[simp] theorem tokens_nil : tokens [] = [] := rfl

theorem tokens_cons {c : Char} {rest : Text} (h : Lexeme.begins? (c :: rest) = none) :
    tokens (c :: rest) = .code c :: tokens rest := by
  rw [tokens, Token.ofTextFrom, h]
  rfl

theorem tokens_append {l : Lexeme} {rest : Text} (h : Lexeme.begins? (l.text ++ rest) = some l) :
    tokens (l.text ++ rest) = .lexeme l :: tokens rest := by
  obtain ⟨hne, -⟩ := Lexeme.exists_append_of_begins? h
  obtain ⟨c, t, ht⟩ := List.exists_cons_of_ne_nil hne
  rw [ht, List.cons_append] at h ⊢
  rw [tokens, Token.ofTextFrom, h]
  change Token.lexeme l :: Token.ofTextFrom (l.text.length - 1) (t ++ rest) = _
  rw [Token.ofTextFrom_eq_drop, ht]
  simp [tokens]

/-- Every text is empty, or begins with a character of code, or begins with a lexeme, and what
follows is read in the same way. -/
@[elab_as_elim]
theorem reading_induction {motive : Text → Prop} (nil : motive [])
    (code : ∀ c rest, Lexeme.begins? (c :: rest) = none → motive rest → motive (c :: rest))
    (lexeme : ∀ l rest, Lexeme.begins? (l.text ++ rest) = some l → motive rest →
      motive (l.text ++ rest)) (s : Text) : motive s := by
  induction hn : s.length using Nat.strongRecOn generalizing s with
  | ind n ih =>
    cases s with
    | nil => exact nil
    | cons c rest =>
      cases hl : Lexeme.begins? (c :: rest) with
      | none => exact code c rest hl (ih rest.length (by rw [← hn]; simp) rest rfl)
      | some l =>
        obtain ⟨hne, more, hmore⟩ := Lexeme.exists_append_of_begins? hl
        have hlength : more.length < n := by
          have := List.length_pos_iff.mpr hne
          rw [← hn, hmore, List.length_append]
          omega
        rw [hmore] at hl ⊢
        exact lexeme l more hl (ih more.length hlength more rfl)

end Text

end CodeHealth
