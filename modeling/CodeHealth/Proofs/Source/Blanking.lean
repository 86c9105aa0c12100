import CodeHealth.Proofs.Source.Reading

/-!
# A clean copy is clean

No literal and no comment begins anywhere in a clean copy, so cleaning it again changes nothing.
What has to be excluded is that characters of code which were apart grow together, or that a quote
which was never closed is closed once something between it and another quote has been blanked out.

A quote without a partner stays without one because blanking out keeps every newline and never comes
between a backslash of code and the parity of the run that it ends. A mark such as `/` keeps the
neighbour it had, or gets a blank for one.
-/

namespace CodeHealth

namespace Lexeme

/-- Inside a comment on one line a backslash takes along what it takes along in a literal. -/
theorem inside_append_closing : ∀ {s : Text}, '\n' ∉ s → Inside (s ++ ['*', '/'])
  | [], _ => .plain (by decide) (by decide) (.plain (by decide) (by decide) .nil)
  | [c], h => by
    by_cases hc : c = '\\'
    · subst hc
      exact .escaped (by decide) (.plain (by decide) (by decide) .nil)
    · refine .plain hc (fun hline => h (by simp [hline])) ?_
      exact inside_append_closing List.not_mem_nil
  | c :: d :: s, h => by
    simp only [List.mem_cons, not_or] at h
    obtain ⟨hc, hd, hs⟩ := h
    by_cases hslash : c = '\\'
    · subst hslash
      exact .escaped (Ne.symm hd) (inside_append_closing hs)
    · exact .plain hslash (Ne.symm hc) (inside_append_closing (by simp [hd, hs]))

/-- A lexeme on one line that does not reach to its end could stand inside a literal, and so could
what follows its first character. -/
theorem Complete.inside {k : LexemeKind} {t : Text} (h : Complete k t) (hk : k ≠ .lineComment)
    (hline : '\n' ∉ t) : Inside t ∧ Inside t.tail := by
  cases h with
  | @literal q s hq hs =>
    have hrest := hs.append (.quote hq)
    exact ⟨(Inside.quote hq).append hrest, hrest⟩
  | lineComment => contradiction
  | @blockComment s =>
    have hs : '\n' ∉ s := fun hmem => hline (by simp [hmem])
    have hrest : Inside ('*' :: (s ++ ['*', '/'])) :=
      .plain (by decide) (by decide) (inside_append_closing hs)
    exact ⟨.plain (by decide) (by decide) hrest, hrest⟩

theorem eq_of_begins?_lineComment {s : Text} {l : Lexeme} (h : begins? s = some l)
    (hk : l.kind = .lineComment) :
    ∃ rest, s = '/' :: '/' :: rest ∧ l.text = '/' :: '/' :: rest.takeWhile (· != '\n') := by
  rw [begins?_eq_or] at h
  obtain hl | ⟨-, hc⟩ := Option.or_eq_some_iff.mp h
  · unfold literal? at hl
    split at hl
    · contradiction
    · split at hl
      · obtain ⟨t, -, rfl⟩ := Option.map_eq_some_iff.mp hl
        contradiction
      · contradiction
  · unfold comment? at hc
    split at hc
    · rename_i rest
      obtain rfl := Option.some.inj hc
      exact ⟨rest, rfl, rfl⟩
    · obtain ⟨t, -, rfl⟩ := Option.map_eq_some_iff.mp hc
      contradiction
    · contradiction

/-- A line comment reaches up to a newline or to the end of the text. -/
theorem rest_of_lineComment {l : Lexeme} {rest : Text} (h : begins? (l.text ++ rest) = some l)
    (hk : l.kind = .lineComment) : rest = [] ∨ ∃ more, rest = '\n' :: more := by
  obtain ⟨r, hs, ht⟩ := eq_of_begins?_lineComment h hk
  have hr : r.takeWhile (· != '\n') ++ rest = r := by simpa [ht] using hs
  obtain rfl : rest = r.dropWhile (· != '\n') :=
    List.append_cancel_left (hr.trans List.takeWhile_append_dropWhile.symm)
  cases hd : r.dropWhile (· != '\n') with
  | nil => exact .inl rfl
  | cons c more =>
    have := List.head?_dropWhile_not (· != '\n') r
    rw [hd] at this
    exact .inr ⟨more, by simpa using this⟩

theorem filter_newline_eq_nil_iff {s : Text} : s.filter (· = '\n') = [] ↔ '\n' ∉ s := by
  simp only [List.filter_eq_nil_iff, decide_eq_true_eq]
  exact ⟨fun h hmem => h _ hmem rfl, fun h c hc heq => h (heq ▸ hc)⟩

theorem blanked_eq_ite {l : Lexeme} (hk : l.kind ≠ .lineComment) : l.blanked =
    if (l.text.filter (· = '\n')).isEmpty then [' '] else l.text.filter (· = '\n') := by
  rw [blanked]
  split <;> first | contradiction | rfl

/-- Over several lines a lexeme is blanked out by its newlines, on one line by a space. -/
theorem blanked_cases (l : Lexeme) (hk : l.kind ≠ .lineComment) :
    (∃ more, l.blanked = '\n' :: more) ∨ '\n' ∉ l.text ∧ l.blanked = [' '] := by
  have hblanked := blanked_eq_ite hk
  cases hn : l.text.filter (· = '\n') with
  | nil =>
    exact .inr ⟨filter_newline_eq_nil_iff.mp hn, by simp [hblanked, hn]⟩
  | cons c more =>
    have hc : c ∈ l.text.filter (· = '\n') := hn ▸ List.mem_cons_self
    obtain rfl : c = '\n' := by simpa using (List.mem_filter.mp hc).2
    exact .inl ⟨more, by simp [hblanked, hn]⟩

/-- Nothing but spaces and newlines stands in place of a lexeme. -/
theorem eq_of_mem_blanked {l : Lexeme} {c : Char} (h : c ∈ l.blanked) : c = ' ' ∨ c = '\n' := by
  rw [blanked] at h
  split at h
  · simp at h
  all_goals
    dsimp only at h
    split at h
    · exact .inl (List.mem_singleton.mp h)
    · exact .inr (by simpa using (List.mem_filter.mp h).2)

end Lexeme

namespace Text

open Lexeme

theorem clean_cons {c : Char} {rest : Text} (h : begins? (c :: rest) = none) :
    clean (c :: rest) = c :: clean rest := by
  simp [clean, tokens_cons h]

theorem clean_append {l : Lexeme} {rest : Text} (h : begins? (l.text ++ rest) = some l) :
    clean (l.text ++ rest) = l.blanked ++ clean rest := by
  simp [clean, tokens_append h]

/-- In the clean copy a newline, a space or the end of the text stands where a lexeme began. -/
theorem clean_append_cases {l : Lexeme} {rest : Text} (h : begins? (l.text ++ rest) = some l) :
    clean (l.text ++ rest) = [] ∨ (∃ more, clean (l.text ++ rest) = '\n' :: more) ∨
      l.kind ≠ .lineComment ∧ '\n' ∉ l.text ∧ clean (l.text ++ rest) = ' ' :: clean rest := by
  rw [clean_append h]
  by_cases hk : l.kind = .lineComment
  · have hblanked : l.blanked = [] := by simp [blanked, hk]
    rw [hblanked, List.nil_append]
    obtain rfl | ⟨more, rfl⟩ := rest_of_lineComment h hk
    · exact .inl rfl
    · exact .inr (.inl ⟨clean more, clean_cons rfl⟩)
  · obtain ⟨more, hmore⟩ | ⟨hline, hspace⟩ := blanked_cases l hk
    · exact .inr (.inl ⟨more ++ clean rest, by rw [hmore, List.cons_append]⟩)
    · exact .inr (.inr ⟨hk, hline, by rw [hspace]; rfl⟩)

/-- A character of a clean copy other than a space and a newline was code where it stands now. -/
theorem eq_cons_of_clean {c : Char} {s t : Text} (h : clean s = c :: t) (hspace : c ≠ ' ')
    (hline : c ≠ '\n') : ∃ rest, s = c :: rest ∧ t = clean rest := by
  induction s using reading_induction with
  | nil => contradiction
  | code d rest hd _ =>
    rw [clean_cons hd] at h
    obtain ⟨rfl, rfl⟩ := List.cons.inj h
    exact ⟨rest, rfl, rfl⟩
  | lexeme l rest hl _ =>
    obtain hnil | ⟨more, hmore⟩ | ⟨-, -, hs⟩ := clean_append_cases hl
    · rw [hnil] at h
      contradiction
    · rw [hmore] at h
      exact absurd (List.cons.inj h).1.symm hline
    · rw [hs] at h
      exact absurd (List.cons.inj h).1.symm hspace

/-! ### Nothing begins in a clean copy -/

/-- A quote that no quote closes is closed by none in the clean copy. Behind a backslash the same is
said of what follows the character that the backslash takes along. -/
theorem literalTail?_clean {q : Char} (hq : isQuote q = true) (s : Text) :
    (literalTail? q s = none → literalTail? q s.clean = none) ∧
      (escapeTail? q s = none → escapeTail? q s.clean = none) := by
  have hline : '\n' ≠ q := ne_of_isQuote hq rfl
  have hslash : '\\' ≠ q := ne_of_isQuote hq rfl
  have hspace : ' ' ≠ q := ne_of_isQuote hq rfl
  induction s using reading_induction with
  | nil => exact ⟨id, id⟩
  | code c rest hc ih =>
    rw [clean_cons hc]
    constructor
    · intro h
      by_cases hcq : c = q
      · subst hcq
        simp [literalTail?_quote] at h
      by_cases hcline : c = '\n'
      · subst hcline
        exact literalTail?_newline _ hline
      by_cases hcslash : c = '\\'
      · subst hcslash
        rw [literalTail?_backslash _ hslash, Option.map_eq_none_iff] at h ⊢
        exact ih.2 h
      · rw [literalTail?_plain _ hcq hcline hcslash, Option.map_eq_none_iff] at h ⊢
        exact ih.1 h
    · intro h
      by_cases hcline : c = '\n'
      · subst hcline
        exact escapeTail?_newline _
      · rw [escapeTail?_cons _ hcline, Option.map_eq_none_iff] at h ⊢
        exact ih.1 h
  | lexeme l rest hl ih =>
    obtain hnil | ⟨more, hmore⟩ | ⟨hk, hlline, hs⟩ := clean_append_cases hl
    · rw [hnil]
      exact ⟨fun _ => rfl, fun _ => rfl⟩
    · rw [hmore]
      exact ⟨fun _ => literalTail?_newline _ hline, fun _ => escapeTail?_newline _⟩
    · -- A lexeme on one line holds no quote that would close, nor does it end in a backslash.
      obtain ⟨hinside, htail⟩ := (complete_of_begins? hl).inside hk hlline
      obtain ⟨hne, -⟩ := exists_append_of_begins? hl
      obtain ⟨d, t, ht⟩ := List.exists_cons_of_ne_nil hne
      rw [hs]
      constructor
      · intro h
        rw [literalTail?_plain _ hspace (by decide) (by decide), Option.map_eq_none_iff]
        exact ih.1 (literalTail?_eq_none_of_append hinside h)
      · intro h
        rw [ht] at h hlline htail
        rw [List.cons_append, escapeTail?_cons _ (by grind), Option.map_eq_none_iff] at h
        rw [escapeTail?_cons _ (by decide), Option.map_eq_none_iff]
        exact ih.1 (literalTail?_eq_none_of_append htail h)

theorem blockTail?_append {s rest : Text} (hs : '*' ∉ s) (h : blockTail? rest = none) :
    blockTail? (s ++ rest) = none := by
  induction s with
  | nil => exact h
  | cons c s ih =>
    simp only [List.mem_cons, not_or] at hs
    rw [List.cons_append, blockTail?, if_neg (fun hc => hs.1 hc.1.symm), ih hs.2]
    rfl

/-- A block comment that is not closed stays so. -/
theorem blockTail?_clean {s : Text} (h : blockTail? s = none) : blockTail? s.clean = none := by
  induction s using reading_induction with
  | nil => rfl
  | code c rest hc ih =>
    rw [clean_cons hc]
    rw [blockTail?] at h ⊢
    split at h
    · contradiction
    · rename_i hclosing
      rw [if_neg, ih (Option.map_eq_none_iff.mp h)]
      · rfl
      · rintro ⟨rfl, hhead⟩
        obtain ⟨t, ht⟩ := List.head?_eq_some_iff.mp hhead
        obtain ⟨more, rfl, -⟩ := eq_cons_of_clean ht (by decide) (by decide)
        exact hclosing ⟨rfl, rfl⟩
  | lexeme l rest hl ih =>
    rw [clean_append hl]
    refine blockTail?_append (fun hmem => ?_) (ih (blockTail?_eq_none_of_append h))
    obtain hspace | hline := eq_of_mem_blanked hmem <;> contradiction

/-- Where the character is code, nothing begins in the clean copy either. -/
theorem begins?_clean {c : Char} {rest : Text} (h : begins? (c :: rest) = none) :
    begins? (c :: rest.clean) = none := by
  obtain ⟨hl, hc⟩ := begins?_eq_none_iff.mp h
  refine begins?_eq_none_iff.mpr ⟨?_, ?_⟩
  · cases hq : isQuote c with
    | false => simp [literal?, hq]
    | true =>
      simp only [literal?, hq, if_true, Option.map_eq_none_iff] at hl ⊢
      exact (literalTail?_clean hq rest).1 hl
  · unfold comment?
    split
    · rename_i t heq
      obtain ⟨rfl, ht⟩ := List.cons.inj heq
      obtain ⟨more, rfl, -⟩ := eq_cons_of_clean ht (by decide) (by decide)
      contradiction
    · rename_i t heq
      obtain ⟨rfl, ht⟩ := List.cons.inj heq
      obtain ⟨more, rfl, rfl⟩ := eq_cons_of_clean ht (by decide) (by decide)
      simp only [comment?, Option.map_eq_none_iff] at hc ⊢
      exact blockTail?_clean hc
    · rfl

/-- No lexeme begins at any offset of a clean copy. -/
theorem begins?_eq_none_of_suffix_clean {s u : Text} (h : u <:+ s.clean) : begins? u = none := by
  induction s using reading_induction with
  | nil =>
    obtain rfl := List.suffix_nil.mp h
    rfl
  | code c rest hc ih =>
    rw [clean_cons hc] at h
    obtain rfl | hu := List.suffix_cons_iff.mp h
    · exact begins?_clean hc
    · exact ih hu
  | lexeme l rest hl ih =>
    rw [clean_append hl] at h
    obtain ⟨before, hbefore⟩ := h
    obtain ⟨v, hv, rfl⟩ | ⟨v, -, hrest⟩ := List.append_eq_append_iff.mp hbefore
    · cases v with
      | nil => exact ih (List.suffix_refl _)
      | cons c v =>
        have hmem : c ∈ l.blanked := by simp [hv]
        obtain rfl | rfl := eq_of_mem_blanked hmem <;> rfl
    · exact ih ⟨v, hrest.symm⟩

/-- A text in which nothing begins is its own clean copy. -/
theorem clean_eq_self {s : Text} (h : ∀ u, u <:+ s → begins? u = none) : s.clean = s := by
  induction s with
  | nil => rfl
  | cons c rest ih =>
    rw [clean_cons (h _ (List.suffix_refl _))]
    rw [ih fun u hu => h u (hu.trans (List.suffix_cons c rest))]

/-- Whether no part of a text is a literal or a comment. -/
def LexemeFree (s : Text) : Prop :=
  ¬ ∃ k t, Complete k t ∧ t <:+: s

/-- A clean copy holds no literal and no comment, at no offset and of no extent: nothing is
recognised in it. Therefore it is its own clean copy. -/
theorem lexemeFree_clean (s : Text) : s.clean.LexemeFree ∧
    (∀ u, u <:+ s.clean → begins? u = none) ∧ s.clean.clean = s.clean := by
  have hnone : ∀ u, u <:+ s.clean → begins? u = none := fun u hu =>
    begins?_eq_none_of_suffix_clean hu
  refine ⟨?_, hnone, clean_eq_self hnone⟩
  rintro ⟨k, t, ht, before, behind, hsplit⟩
  have hsuffix : t ++ behind <:+ s.clean := ⟨before, by rw [← hsplit, List.append_assoc]⟩
  exact begins?_ne_none ht behind (hnone _ hsuffix)

end Text

end CodeHealth
