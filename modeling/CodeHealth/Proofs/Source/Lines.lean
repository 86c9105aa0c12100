import CodeHealth.Proofs.Source.Blanking
import Mathlib.Data.List.Forall2

/-!
# Lines of a clean copy

Blanking out works on characters, and what it may do to them is a relation between a text and what
is left of it (`Faded`): characters stay in order, newlines stay, and nothing but spaces is new.
Every one of the ways in which a lexeme is blanked out is an instance of it (`Faded.blanked`), and
the relation carries over from characters to lines (`Faded.lines`).
-/

namespace CodeHealth

namespace Text

/-- What may be left of a text: any of its characters may be gone, newlines excepted, and spaces may
have come in. -/
inductive Faded : Text → Text → Prop where
  | nil : Faded [] []
  | keep (c : Char) {t s : Text} : Faded t s → Faded (c :: t) (c :: s)
  | lose {c : Char} {t s : Text} : c ≠ '\n' → Faded t s → Faded t (c :: s)
  | space {t s : Text} : Faded t s → Faded (' ' :: t) s

/-- Whether what is left of a line is, without its spaces, a part of the line, in order. -/
def PartOfLine (left line : Text) : Prop :=
  (left.filter (· ≠ ' ')).Sublist line

namespace PartOfLine

variable {left line : Text}

theorem keep (c : Char) (h : PartOfLine left line) : PartOfLine (c :: left) (c :: line) := by
  unfold PartOfLine
  by_cases hc : c = ' '
  · rw [List.filter_cons_of_neg (by simpa using hc)]
    exact h.cons c
  · rw [List.filter_cons_of_pos (by simpa using hc)]
    exact h.cons_cons c

theorem lose (c : Char) (h : PartOfLine left line) : PartOfLine left (c :: line) :=
  List.Sublist.cons c h

theorem space (h : PartOfLine left line) : PartOfLine (' ' :: left) line :=
  h

end PartOfLine

theorem forall₂_modifyHead {α β : Type} {R : α → β → Prop} {f : α → α} {g : β → β}
    (hfg : ∀ a b, R a b → R (f a) (g b)) {l : List α} {m : List β} (h : List.Forall₂ R l m) :
    List.Forall₂ R (l.modifyHead f) (m.modifyHead g) := by
  cases h with
  | nil => exact .nil
  | cons hhead htail => exact .cons (hfg _ _ hhead) htail

variable {s t : Text}

namespace Faded

/-- Of a stretch of text only the newlines need to stay. -/
theorem newlines (u : Text) (h : Faded t s) : Faded (u.filter (· = '\n') ++ t) (u ++ s) := by
  induction u with
  | nil => exact h
  | cons c u ih =>
    by_cases hc : c = '\n'
    · rw [List.filter_cons_of_pos (by simpa using hc)]
      exact .keep c ih
    · rw [List.filter_cons_of_neg (by simpa using hc)]
      exact .lose hc ih

/-- What stands in place of a lexeme is left of it. -/
theorem blanked {l : Lexeme} (hl : Lexeme.Complete l.kind l.text) (h : Faded t s) :
    Faded (l.blanked ++ t) (l.text ++ s) := by
  have hnewlines := h.newlines l.text
  by_cases hk : l.kind = .lineComment
  · obtain ⟨k, u⟩ := l
    obtain rfl : k = .lineComment := hk
    cases hl with
    | @lineComment v hline =>
      have hnone : ('/' :: '/' :: v).filter (· = '\n') = [] :=
        Lexeme.filter_newline_eq_nil_iff.mpr (by simp [hline])
      rwa [hnone] at hnewlines
  · rw [Lexeme.blanked_eq_ite hk]
    split
    · rename_i hnone
      rw [List.isEmpty_iff.mp hnone] at hnewlines
      exact .space hnewlines
    · exact hnewlines

theorem clean (s : Text) : Faded s.clean s := by
  induction s using reading_induction with
  | nil => exact .nil
  | code c rest hc ih =>
    rw [clean_cons hc]
    exact .keep c ih
  | lexeme l rest hl ih =>
    rw [clean_append hl]
    exact ih.blanked (Lexeme.complete_of_begins? hl)

theorem count_newline (h : Faded t s) : List.count '\n' t = List.count '\n' s := by
  induction h with
  | nil => rfl
  | keep c _ ih => rw [List.count_cons, List.count_cons, ih]
  | lose hc _ ih => rw [ih, List.count_cons_of_ne hc]
  | space _ ih => rw [List.count_cons_of_ne (by decide), ih]

/-- Line by line, what is left without its spaces is a part of what there was, in order. -/
theorem lines (h : Faded t s) : List.Forall₂ PartOfLine t.lines s.lines := by
  unfold Text.lines List.splitOn
  induction h with
  | nil => exact .cons (List.nil_sublist _) .nil
  | keep c _ ih =>
    rw [List.splitOnP_cons_eq_if_modifyHead, List.splitOnP_cons_eq_if_modifyHead]
    split
    · exact .cons (List.nil_sublist _) ih
    · exact forall₂_modifyHead (fun _ _ => PartOfLine.keep c) ih
  | @lose c t s hc _ ih =>
    rw [List.splitOnP_cons_eq_if_modifyHead, if_neg (by simpa using hc)]
    have := forall₂_modifyHead (f := id) (fun _ _ => PartOfLine.lose c) ih
    rwa [List.modifyHead_id] at this
  | @space t s _ ih =>
    rw [List.splitOnP_cons_eq_if_modifyHead, if_neg (by decide)]
    have := forall₂_modifyHead (f := (' ' :: ·)) (g := id) (fun _ _ h => PartOfLine.space h) ih
    rwa [List.modifyHead_id] at this

end Faded

/-- A lexeme is at least as long as what stands in its place. -/
theorem length_blanked_le {l : Lexeme} (hne : l.text ≠ []) : l.blanked.length ≤ l.text.length := by
  by_cases hk : l.kind = .lineComment
  · simp [Lexeme.blanked, hk]
  · rw [Lexeme.blanked_eq_ite hk]
    split
    · exact List.length_pos_iff.mpr hne
    · exact List.length_filter_le _ _

theorem length_clean_le (s : Text) : s.clean.length ≤ s.length := by
  induction s using reading_induction with
  | nil => exact Nat.le_refl 0
  | code c rest hc ih =>
    rw [clean_cons hc]
    exact Nat.succ_le_succ ih
  | lexeme l rest hl ih =>
    obtain ⟨hne, -⟩ := Lexeme.exists_append_of_begins? hl
    rw [clean_append hl, List.length_append, List.length_append]
    exact Nat.add_le_add (length_blanked_le hne) ih

/-- A clean copy has the newlines of the text and is no longer, and it has the same lines: each of
them is, but for spaces, a part of the line of the text in its place, with the characters in their
order. -/
theorem clean_lines (s : Text) :
    List.count '\n' s.clean = List.count '\n' s ∧ s.clean.length ≤ s.length ∧
      List.Forall₂ PartOfLine s.clean.lines s.lines :=
  ⟨(Faded.clean s).count_newline, length_clean_le s, (Faded.clean s).lines⟩

end Text

end CodeHealth
