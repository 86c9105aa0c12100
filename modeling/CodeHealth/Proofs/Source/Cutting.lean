import CodeHealth.Proofs.Source.Reading

/-!
# Cutting a source text

Where a text is cut off, what stands before the cut stays the same. A quote or a comment that is not
closed in the whole text is not closed in a part of it, and a lexeme that is closed in front of the
cut does not depend on what stands behind it.

Reading also forgets what it has passed. At an offset that it comes to outside of any lexeme a text
can therefore be cut in two, and both parts are read as texts of their own
(`Text.Reaches.tokens_eq`).
-/

namespace CodeHealth

namespace Lexeme

/-- A literal does not depend on what stands behind it. -/
theorem literalTail?_append_of_eq_some {q : Char} {s t : Text} (h : literalTail? q s = some t)
    (more : Text) : literalTail? q (t ++ more) = some t := by
  fun_induction literalTail? q s generalizing t with
  | case2 rest =>
    obtain rfl := Option.some.inj h
    exact literalTail?_quote more
  | case6 d rest hline hq _ ih =>
    obtain ⟨u, hu, rfl⟩ := Option.map_eq_some_iff.mp h
    rw [List.cons_append, List.cons_append, literalTail?_backslash _ hq, escapeTail?_cons _ hline,
      ih hu]
    rfl
  | case7 c rest hq hline hslash ih =>
    obtain ⟨u, hu, rfl⟩ := Option.map_eq_some_iff.mp h
    rw [List.cons_append, literalTail?_plain _ hq hline hslash, ih hu]
    rfl
  | _ => contradiction

/-- Nor does a block comment. -/
theorem blockTail?_append_of_eq_some {s t : Text} (h : blockTail? s = some t) (more : Text) :
    blockTail? (t ++ more) = some t := by
  fun_induction blockTail? s generalizing t with
  | case1 => contradiction
  | case2 =>
    obtain rfl := Option.some.inj h
    rfl
  | case3 c rest hclosing ih =>
    obtain ⟨u, hu, rfl⟩ := Option.map_eq_some_iff.mp h
    obtain ⟨v, hv⟩ := exists_of_blockTail? hu
    obtain ⟨behind, rfl⟩ := exists_append_of_blockTail? hu
    have hhead : (u ++ more).head? = (u ++ behind).head? := by
      cases v <;> simp [hv]
    rw [List.cons_append, blockTail?, hhead, if_neg hclosing, ih hu]
    rfl

/-- Nothing begins in a part of a text where nothing begins in the whole. -/
theorem begins?_eq_none_of_append {s rest : Text} (h : begins? (s ++ rest) = none) :
    begins? s = none := by
  cases hl : begins? s with
  | none => rfl
  | some l =>
    obtain ⟨-, more, hmore⟩ := exists_append_of_begins? hl
    have hne := begins?_ne_none (complete_of_begins? hl) (more ++ rest)
    rw [← List.append_assoc, ← hmore] at hne
    exact absurd h hne

theorem literal?_append_of_eq_some {s : Text} {l : Lexeme} (h : literal? s = some l)
    (more : Text) : literal? (l.text ++ more) = some l := by
  cases s with
  | nil => contradiction
  | cons q rest =>
    rw [literal?] at h
    split at h
    · rename_i hq
      obtain ⟨t, ht, rfl⟩ := Option.map_eq_some_iff.mp h
      rw [List.cons_append, literal?, if_pos hq, literalTail?_append_of_eq_some ht]
      rfl
    · contradiction

/-- What is left behind the longest beginning of a kind adds nothing to that beginning. -/
theorem takeWhile_append_of_isPrefix {p : Char → Bool} {s less : Text}
    (h : less <+: s.dropWhile p) : (s.takeWhile p ++ less).takeWhile p = s.takeWhile p := by
  rw [List.takeWhile_append_of_pos (List.all_eq_true.mp List.all_takeWhile)]
  cases less with
  | nil => exact List.append_nil _
  | cons c less =>
    obtain ⟨more, hmore⟩ := h
    have hc := List.head?_dropWhile_not p s
    rw [← hmore] at hc
    rw [List.takeWhile_cons_of_neg (by simpa using hc), List.append_nil]

theorem comment?_append_of_isPrefix {l : Lexeme} {rest less : Text}
    (h : comment? (l.text ++ rest) = some l) (hless : less <+: rest) :
    comment? (l.text ++ less) = some l := by
  generalize hs : l.text ++ rest = s at h
  unfold comment? at h
  split at h
  · rename_i r
    obtain rfl := Option.some.inj h
    have hr : r.takeWhile (· != '\n') ++ rest = r := by simpa using hs
    have hrest : rest = r.dropWhile (· != '\n') :=
      List.append_cancel_left (hr.trans List.takeWhile_append_dropWhile.symm)
    rw [List.cons_append, List.cons_append, comment?, takeWhile_append_of_isPrefix (hrest ▸ hless)]
  · rename_i r
    obtain ⟨t, ht, rfl⟩ := Option.map_eq_some_iff.mp h
    rw [List.cons_append, List.cons_append, comment?, blockTail?_append_of_eq_some ht]
    rfl
  · contradiction

/-- Where a comment begins, no literal does. -/
theorem literal?_eq_none_of_comment? {s more : Text} {l : Lexeme} (h : comment? s = some l) :
    literal? (l.text ++ more) = none := by
  unfold comment? at h
  split at h
  · obtain rfl := Option.some.inj h
    rfl
  · obtain ⟨t, -, rfl⟩ := Option.map_eq_some_iff.mp h
    rfl
  · contradiction

/-- A lexeme stays the same where less stands behind it. -/
theorem begins?_append_of_isPrefix {l : Lexeme} {rest less : Text}
    (h : begins? (l.text ++ rest) = some l) (hless : less <+: rest) :
    begins? (l.text ++ less) = some l := by
  rw [begins?_eq_or] at h ⊢
  obtain hl | ⟨-, hc⟩ := Option.or_eq_some_iff.mp h
  · rw [literal?_append_of_eq_some hl, Option.some_or]
  · rw [literal?_eq_none_of_comment? hc, Option.none_or, comment?_append_of_isPrefix hc hless]

end Lexeme

namespace Text

variable {s : Text} {front behind : List Token} {offset more : Nat}

theorem flatMap_text_append (h : s.tokens = front ++ behind) :
    front.flatMap Token.text ++ behind.flatMap Token.text = s := by
  rw [← List.flatMap_append, ← h, flatMap_text_tokens]

/-- The tokens before a cut and those behind it are those of the two parts. -/
theorem tokens_of_append_eq (h : s.tokens = front ++ behind) :
    tokens (front.flatMap Token.text) = front ∧ tokens (behind.flatMap Token.text) = behind := by
  induction s using reading_induction generalizing front with
  | nil =>
    obtain ⟨rfl, rfl⟩ := List.append_eq_nil_iff.mp h.symm
    exact ⟨rfl, rfl⟩
  | code c rest hc ih =>
    cases front with
    | nil =>
      rw [← List.nil_append behind, ← h, flatMap_text_tokens]
      exact ⟨rfl, rfl⟩
    | cons t front =>
      rw [tokens_cons hc] at h
      obtain ⟨rfl, hrest⟩ := List.cons.inj h
      obtain ⟨hfront, hbehind⟩ := ih hrest
      rw [← flatMap_text_append hrest, ← List.cons_append] at hc
      refine ⟨?_, hbehind⟩
      rw [List.flatMap_cons, Token.text_code, List.singleton_append,
        tokens_cons (Lexeme.begins?_eq_none_of_append hc), hfront]
  | lexeme l rest hl ih =>
    cases front with
    | nil =>
      rw [← List.nil_append behind, ← h, flatMap_text_tokens]
      exact ⟨rfl, rfl⟩
    | cons t front =>
      rw [tokens_append hl] at h
      obtain ⟨rfl, hrest⟩ := List.cons.inj h
      obtain ⟨hfront, hbehind⟩ := ih hrest
      have hbeginning : front.flatMap Token.text <+: rest := ⟨_, flatMap_text_append hrest⟩
      refine ⟨?_, hbehind⟩
      rw [List.flatMap_cons, Token.text_lexeme,
        tokens_append (Lexeme.begins?_append_of_isPrefix hl hbeginning), hfront]

/-- Whether reading from the left comes to an offset, and does not pass it inside of a lexeme. -/
def Reaches (s : Text) (offset : Nat) : Prop :=
  ∃ front behind, s.tokens = front ++ behind ∧ (front.flatMap Token.text).length = offset

namespace Reaches

theorem le_length (h : s.Reaches offset) : offset ≤ s.length := by
  obtain ⟨front, behind, htokens, rfl⟩ := h
  rw [← flatMap_text_append htokens, List.length_append]
  exact Nat.le_add_right _ _

theorem tokens_eq (h : s.Reaches offset) :
    s.tokens = tokens (s.take offset) ++ tokens (s.drop offset) := by
  obtain ⟨front, behind, htokens, rfl⟩ := h
  obtain ⟨hfront, hbehind⟩ := tokens_of_append_eq htokens
  have htake : s.take (front.flatMap Token.text).length = front.flatMap Token.text := by
    rw [← flatMap_text_append htokens, List.take_left]
  have hdrop : s.drop (front.flatMap Token.text).length = behind.flatMap Token.text := by
    rw [← flatMap_text_append htokens, List.drop_left]
  rw [htake, hdrop, hfront, hbehind, htokens]

theorem clean_eq (h : s.Reaches offset) :
    s.clean = clean (s.take offset) ++ clean (s.drop offset) := by
  rw [clean, h.tokens_eq, List.flatMap_append]
  rfl

/-- Reading goes on from an offset as from the beginning of a text. -/
theorem trans (h : s.Reaches offset) (hmore : Reaches (s.drop offset) more) :
    s.Reaches (offset + more) := by
  obtain ⟨front, behind, htokens, hlength⟩ := hmore
  refine ⟨tokens (s.take offset) ++ front, behind, ?_, ?_⟩
  · rw [h.tokens_eq, htokens, List.append_assoc]
  · rw [List.flatMap_append, flatMap_text_tokens, List.length_append, hlength, List.length_take,
      Nat.min_eq_left h.le_length]

end Reaches

theorem reaches_cons {c : Char} {rest : Text} (h : Lexeme.begins? (c :: rest) = none) :
    Reaches (c :: rest) 1 :=
  ⟨[.code c], rest.tokens, tokens_cons h, rfl⟩

theorem reaches_append {l : Lexeme} {rest : Text}
    (h : Lexeme.begins? (l.text ++ rest) = some l) : Reaches (l.text ++ rest) l.text.length := by
  refine ⟨[.lexeme l], rest.tokens, tokens_append h, ?_⟩
  rw [List.flatMap_singleton, Token.text_lexeme]

end Text

end CodeHealth
