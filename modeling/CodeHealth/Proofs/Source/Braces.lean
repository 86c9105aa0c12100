import CodeHealth.Proofs.Source.Blanking
import CodeHealth.Proofs.Source.Cutting
import CodeHealth.Source.Block

/-!
# Balanced blocks in the clean copy

The balanced scanner skips literals and comments while it looks for the end of a block, and the
clean copy has literals and comments blanked out. Both see the same braces (`filter_isBrace_clean`).
What the scanner takes for a block is balanced in the clean copy and no beginning of it is, and
where the scanner finds no end there is none (`clean_balancedLength?`).

A block is cleaned as a text of its own, cut off behind its closing brace, which does not change
what stands before the cut.
-/

namespace CodeHealth

/-! ### Open and closed braces -/

/-- Whether a character opens or closes a block. -/
def isBrace (c : Char) : Bool :=
  c = '\x7b' || c = '\x7d'

namespace Text

def openings (s : Text) : Nat :=
  List.count '\x7b' s

def closings (s : Text) : Nat :=
  List.count '\x7d' s

theorem openings_append (s t : Text) : openings (s ++ t) = openings s + openings t :=
  List.count_append

theorem closings_append (s t : Text) : closings (s ++ t) = closings s + closings t :=
  List.count_append

theorem openings_cons (c : Char) (s : Text) : openings (c :: s) = openings [c] + openings s :=
  openings_append [c] s

theorem closings_cons (c : Char) (s : Text) : closings (c :: s) = closings [c] + closings s :=
  closings_append [c] s

/-- From inside `depth` open braces, no beginning of a text closes all of them. -/
def StaysOpen (depth : Nat) (s : Text) : Prop :=
  ∀ p : Text, p <+: s → p.closings < p.openings + depth

/-- From inside `depth` open braces, a text closes all of them with its last character and not
before. -/
def Closes (depth : Nat) (s : Text) : Prop :=
  ∃ body : Text, s = body ++ ['\x7d'] ∧ StaysOpen depth body ∧
    body.closings + 1 = body.openings + depth

section Depth

variable {c : Char} {s : Text} {depth next : Nat}

theorem staysOpen_nil (hdepth : 0 < depth) : StaysOpen depth [] := by
  intro p hp
  obtain rfl := List.prefix_nil.mp hp
  exact Nat.lt_of_lt_of_eq hdepth (Nat.zero_add depth).symm

theorem closes_closingBrace : Closes 1 ['\x7d'] :=
  ⟨[], rfl, staysOpen_nil Nat.one_pos, rfl⟩

theorem StaysOpen.pos (h : StaysOpen depth s) : 0 < depth :=
  Nat.lt_of_lt_of_eq (h [] List.nil_prefix) (Nat.zero_add depth)

theorem Closes.pos (h : Closes depth s) : 0 < depth := by
  obtain ⟨body, -, hopen, -⟩ := h
  exact hopen.pos

/-- A character changes the depth from which the rest of a text is seen. -/
theorem StaysOpen.cons (hdepth : 0 < depth)
    (hnext : next + closings [c] = depth + openings [c]) (h : StaysOpen next s) :
    StaysOpen depth (c :: s) := by
  intro p hbeginning
  obtain rfl | ⟨p, rfl, hp⟩ := List.prefix_cons_iff.mp hbeginning
  · exact staysOpen_nil hdepth [] List.nil_prefix
  · have hrest := h p hp
    rw [openings_cons, closings_cons]
    omega

theorem Closes.cons (hdepth : 0 < depth) (hnext : next + closings [c] = depth + openings [c])
    (h : Closes next s) : Closes depth (c :: s) := by
  obtain ⟨body, rfl, hopen, hcount⟩ := h
  refine ⟨c :: body, rfl, hopen.cons hdepth hnext, ?_⟩
  rw [openings_cons, closings_cons]
  omega

/-- Behind an opening brace nothing is balanced as long as that brace stays open. -/
theorem StaysOpen.closings_lt {p : Text} (h : StaysOpen 1 s) (hp : p <+: '\x7b' :: s)
    (hne : p ≠ []) : p.closings < p.openings := by
  obtain rfl | ⟨p, rfl, hrest⟩ := List.prefix_cons_iff.mp hp
  · exact absurd rfl hne
  · have hlt := h p hrest
    rw [openings_cons, closings_cons]
    change 0 + closings p < 1 + openings p
    omega

/-- An opening brace together with what closes it is balanced, and none of its beginnings is. -/
theorem Closes.balanced (h : Closes 1 s) :
    ('\x7b' :: s).getLast? = some '\x7d' ∧ openings ('\x7b' :: s) = closings ('\x7b' :: s) ∧
      ∀ p : Text, p <+: '\x7b' :: s → p ≠ [] → p ≠ '\x7b' :: s → p.closings < p.openings := by
  obtain ⟨body, rfl, hopen, hcount⟩ := h
  rw [← List.cons_append]
  refine ⟨List.getLast?_concat, ?_, ?_⟩
  · rw [openings_append, closings_append, openings_cons, closings_cons]
    change 1 + openings body + 0 = 0 + closings body + 1
    omega
  · intro p hp hne hshorter
    obtain hwhole | hbody := List.prefix_concat_iff.mp hp
    · exact absurd hwhole hshorter
    · exact hopen.closings_lt hbody hne

/-- A character that is no brace keeps the depth. -/
theorem same_depth (hc : isBrace c = false) (depth : Nat) :
    depth + closings [c] = depth + openings [c] := by
  simp only [isBrace, Bool.or_eq_false_iff, decide_eq_false_iff_not] at hc
  simp [closings, openings, hc.1, hc.2]

theorem StaysOpen.append {b : Text} (hb : ∀ c ∈ b, isBrace c = false) (h : StaysOpen depth s) :
    StaysOpen depth (b ++ s) := by
  induction b with
  | nil => exact h
  | cons c b ih =>
    obtain ⟨hc, hb⟩ := List.forall_mem_cons.mp hb
    exact (ih hb).cons h.pos (same_depth hc depth)

theorem Closes.append {b : Text} (hb : ∀ c ∈ b, isBrace c = false) (h : Closes depth s) :
    Closes depth (b ++ s) := by
  induction b with
  | nil => exact h
  | cons c b ih =>
    obtain ⟨hc, hb⟩ := List.forall_mem_cons.mp hb
    exact (ih hb).cons h.pos (same_depth hc depth)

end Depth

end Text

/-! ### Scanning for the closing brace -/

theorem Lexeme.isBrace_of_mem_blanked {l : Lexeme} {c : Char} (h : c ∈ l.blanked) :
    isBrace c = false := by
  obtain rfl | rfl := eq_of_mem_blanked h
  · decide
  · decide

namespace Scanner

open Lexeme Text

/-- What the answer of a scan for the closing brace says about a text, seen from inside `depth` open
braces: where the clean copy closes all of them, or that it does not. -/
def Finds (depth : Nat) (s : Text) : Option Nat → Prop
  | some size => size ≤ s.length ∧ Closes depth (clean (s.take size))
  | none => StaysOpen depth (clean s)

section Steps

variable {depth next : Nat} {rest : Text} {answer : Option Nat}

/-- A character of code stays in the clean copy, whatever is cut off behind it. -/
theorem Finds.code {c : Char} (hc : begins? (c :: rest) = none) (hdepth : 0 < depth)
    (hnext : next + closings [c] = depth + openings [c]) (h : Finds next rest answer) :
    Finds depth (c :: rest) (answer.map (· + 1)) := by
  cases answer with
  | none =>
    change StaysOpen depth (clean (c :: rest))
    rw [clean_cons hc]
    exact StaysOpen.cons hdepth hnext h
  | some size =>
    obtain ⟨hsize, hcloses⟩ := h
    have hcut : begins? (c :: rest.take size) = none := by
      rw [← List.take_append_drop size rest, ← List.cons_append] at hc
      exact begins?_eq_none_of_append hc
    refine ⟨Nat.succ_le_succ hsize, ?_⟩
    rw [List.take_succ_cons, clean_cons hcut]
    exact hcloses.cons hdepth hnext

/-- A lexeme leaves no braces in the clean copy. -/
theorem Finds.lexeme {l : Lexeme} (hl : begins? (l.text ++ rest) = some l)
    (h : Finds depth rest answer) :
    Finds depth (l.text ++ rest) (answer.map (· + l.text.length)) := by
  cases answer with
  | none =>
    change StaysOpen depth (clean (l.text ++ rest))
    rw [clean_append hl]
    exact StaysOpen.append (fun _ => isBrace_of_mem_blanked) h
  | some size =>
    obtain ⟨hsize, hcloses⟩ := h
    have hcut := begins?_append_of_isPrefix hl (List.take_prefix size rest)
    change size + l.text.length ≤ (l.text ++ rest).length ∧
      Closes depth (clean ((l.text ++ rest).take (size + l.text.length)))
    constructor
    · rw [List.length_append]
      omega
    · rw [Nat.add_comm, List.take_length_add_append, clean_append hcut]
      exact hcloses.append fun _ => isBrace_of_mem_blanked

end Steps

theorem closing?_code {c : Char} (hc : isBrace c = false) (depth : Nat) (rest : List Token) :
    closing? depth (.code c :: rest) = (closing? depth rest).map (· + 1) := by
  simp only [isBrace, Bool.or_eq_false_iff, decide_eq_false_iff_not] at hc
  rw [closing?.eq_def]
  split
  · contradiction
  · rename_i h
    exact absurd (Token.code.inj (List.cons.inj h).1) hc.1
  · rename_i h
    exact absurd (Token.code.inj (List.cons.inj h).1) hc.2
  · rename_i h
    obtain ⟨rfl, rfl⟩ := List.cons.inj h
    rfl

/-- The scan tells where the clean copy closes the braces that are open. -/
theorem finds_closing? {depth : Nat} (hdepth : 0 < depth) (s : Text) :
    Finds depth s (closing? depth s.tokens) := by
  induction s using reading_induction generalizing depth with
  | nil => exact staysOpen_nil hdepth
  | code c rest hc ih =>
    rw [tokens_cons hc]
    cases hbrace : isBrace c with
    | false =>
      rw [closing?_code hbrace]
      exact (ih hdepth).code hc hdepth (same_depth hbrace depth)
    | true =>
      simp only [isBrace, Bool.or_eq_true, decide_eq_true_eq] at hbrace
      obtain rfl | rfl := hbrace
      · exact (ih (Nat.succ_pos depth)).code hc hdepth rfl
      · rw [closing?]
        split
        · obtain rfl : depth = 1 := by omega
          exact ⟨Nat.succ_le_succ (Nat.zero_le _), closes_closingBrace⟩
        · have hnext : depth - 1 + closings ['\x7d'] = depth + openings ['\x7d'] :=
            Nat.sub_add_cancel hdepth
          exact (ih (by omega)).code hc hdepth hnext
  | lexeme l rest hl ih =>
    rw [tokens_append hl]
    exact (ih hdepth).lexeme hl

end Scanner

def Token.code? : Token → Option Char
  | .code c => some c
  | .lexeme _ => none

namespace Text

/-- The braces of a clean copy are the braces among the characters of code. -/
theorem filter_isBrace_clean (s : Text) :
    s.clean.filter isBrace = (s.tokens.filterMap Token.code?).filter isBrace := by
  induction s using reading_induction with
  | nil => rfl
  | code c rest hc ih =>
    have hcode : (tokens (c :: rest)).filterMap Token.code? =
        c :: (tokens rest).filterMap Token.code? := by
      rw [tokens_cons hc]
      rfl
    rw [hcode, clean_cons hc, List.filter_cons, List.filter_cons, ih]
  | lexeme l rest hl ih =>
    have hblanked : l.blanked.filter isBrace = [] := by
      apply List.filter_eq_nil_iff.mpr
      intro c hc
      rw [Lexeme.isBrace_of_mem_blanked hc]
      exact Bool.false_ne_true
    rw [clean_append hl, tokens_append hl, List.filterMap_cons_none rfl, List.filter_append,
      hblanked, List.nil_append, ih]

end Text

namespace Scanner

open Text

variable {raw : Text} {offset : Nat}

/-- A block that the balanced scanner delimits begins with its opening brace, ends with its closing
brace and is balanced in the clean copy, where every shorter beginning leaves a brace open. If the
scanner finds no end, every beginning of what follows leaves one open. The braces that it goes by
are those of the clean copy. -/
theorem clean_balancedLength? (h : raw[offset]? = some '\x7b') :
    (∀ size, balancedLength? (raw.drop offset) = some size →
      offset + size ≤ raw.length ∧
      let block := clean ((raw.drop offset).take size)
      block.head? = some '\x7b' ∧ block.getLast? = some '\x7d' ∧
      block.openings = block.closings ∧
      ∀ p : Text, p <+: block → p ≠ [] → p ≠ block → p.closings < p.openings) ∧
    (balancedLength? (raw.drop offset) = none →
      ∀ p : Text, p <+: clean (raw.drop offset) → p ≠ [] → p.closings < p.openings) ∧
    (clean (raw.drop offset)).filter isBrace =
      ((tokens (raw.drop offset)).filterMap Token.code?).filter isBrace := by
  obtain ⟨hlt, hbrace⟩ := List.getElem?_eq_some_iff.mp h
  have hdrop : raw.drop offset = '\x7b' :: raw.drop (offset + 1) := by
    rw [List.drop_eq_getElem_cons hlt, hbrace]
  have hcode (rest : Text) : Lexeme.begins? ('\x7b' :: rest) = none := rfl
  have hlength : balancedLength? (raw.drop offset) =
      (closing? 1 (tokens (raw.drop (offset + 1)))).map (· + 1) := by
    rw [hdrop, balancedLength?, tokens_cons (hcode _)]
    rfl
  have hfinds := finds_closing? Nat.one_pos (raw.drop (offset + 1))
  generalize closing? 1 (tokens (raw.drop (offset + 1))) = answer at hlength hfinds
  refine ⟨?_, ?_, filter_isBrace_clean _⟩
  · intro size hsize
    rw [hlength] at hsize
    obtain ⟨size, rfl, rfl⟩ := Option.map_eq_some_iff.mp hsize
    obtain ⟨hle, hcloses⟩ := hfinds
    rw [List.length_drop] at hle
    have hblock : clean ((raw.drop offset).take (size + 1)) =
        '\x7b' :: clean ((raw.drop (offset + 1)).take size) := by
      rw [hdrop, List.take_succ_cons, clean_cons (hcode _)]
    rw [hblock]
    exact ⟨by omega, rfl, hcloses.balanced⟩
  · intro hnone p hp hne
    rw [hlength, Option.map_eq_none_iff] at hnone
    subst hnone
    rw [hdrop, clean_cons (hcode _)] at hp
    exact StaysOpen.closings_lt hfinds hp hne

/-- A block with a closing brace in a literal and another one in a comment. -/
theorem clean_balancedLength?_hidden :
    let raw := "f \x7b g('\x7d') /* \x7d */ \x7d \x7d".toList
    balancedLength? (raw.drop 2) = some 18 ∧
      let block := clean ((raw.drop 2).take 18)
      block = "\x7b g( )   \x7d".toList ∧ block.openings = block.closings ∧
      ∀ p : Text, p <+: block → p ≠ [] → p ≠ block → p.closings < p.openings := by
  intro raw
  have hsize : balancedLength? (raw.drop 2) = some 18 := by decide +kernel
  have hbrace : raw[2]? = some '\x7b' := by decide +kernel
  obtain ⟨hblock, -, -⟩ := clean_balancedLength? hbrace
  obtain ⟨-, -, -, hbalanced, hshorter⟩ := hblock 18 hsize
  exact ⟨hsize, by decide +kernel, hbalanced, hshorter⟩

end Scanner

end CodeHealth
