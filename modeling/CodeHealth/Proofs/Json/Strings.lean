import CodeHealth.Json.Parser
import CodeHealth.Json.Printer

/-!
# Strings in JSON text

A character is written as itself, as an escape of one letter, or as the hexadecimal digits of its
one or two UTF-16 units. Each of these is read as the units of the character, and the units of a
text are put together to the text again. There is no half of a surrogate pair on its own among them.
-/

namespace CodeHealth

/-! ### Hexadecimal digits -/

namespace Text

theorem hexadecimal_succ (width n : Nat) :
    hexadecimal (width + 2) n = hexadecimal (width + 1) (n / 16) ++ [(n % 16).digitChar] := by
  unfold hexadecimal
  dsimp only
  by_cases h : n < 16
  · rw [Nat.div_eq_of_lt h, Nat.mod_eq_of_lt h, Nat.toDigits_of_lt_base h, Nat.toDigits_zero]
    change List.replicate (width + 1) '0' ++ _ = List.replicate width '0' ++ ['0'] ++ _
    rw [List.replicate_succ']
  · rw [Nat.toDigits_of_base_le (by decide) (Nat.not_lt.mp h), List.length_append,
      List.length_singleton, ← List.append_assoc]
    congr 3
    omega

theorem hexadecimal_four {n : Nat} (h : n < 0x10000) : hexadecimal 4 n =
    [(n / 16 / 16 / 16).digitChar, (n / 16 / 16 % 16).digitChar, (n / 16 % 16).digitChar,
     (n % 16).digitChar] := by
  have hfirst : n / 16 / 16 / 16 < 16 := by omega
  rw [hexadecimal_succ, hexadecimal_succ, hexadecimal_succ, hexadecimal,
    Nat.toDigits_of_lt_base hfirst]
  rfl

end Text

namespace Json

open Text (isHighSurrogate isLowSurrogate charsOfUnits)

theorem hexDigit?_digitChar : ∀ d, d < 16 → hexDigit? d.digitChar = some d := by
  decide

theorem hexUnit?_digitChar {n : Nat} (h : n < 0x10000) :
    hexUnit? (n / 16 / 16 / 16).digitChar (n / 16 / 16 % 16).digitChar (n / 16 % 16).digitChar
      (n % 16).digitChar = some n := by
  rw [hexUnit?, hexDigit?_digitChar _ (by omega), hexDigit?_digitChar _ (by omega),
    hexDigit?_digitChar _ (by omega), hexDigit?_digitChar _ (by omega)]
  change some _ = some n
  congr 1
  omega

/-! ### Characters and their units -/

/-- The UTF-16 units of a character. -/
def units (c : Char) : List Nat :=
  if c.toNat < 0x10000 then [c.toNat]
  else [0xD800 + (c.toNat - 0x10000) / 0x400, 0xDC00 + (c.toNat - 0x10000) % 0x400]

/-- A unit in front of what is read. -/
def withUnits (front : List Nat) (p : List Nat × Text) : List Nat × Text :=
  (front ++ p.1, p.2)

theorem stringUnits?_unitEscape {n : Nat} (h : n < 0x10000) (rest : Text) :
    stringUnits? (unitEscape n ++ rest) = (stringUnits? rest).map (withUnits [n]) := by
  have hunit := hexUnit?_digitChar h
  rw [unitEscape, Text.hexadecimal_four h, stringUnits?.eq_def]
  simp only [List.cons_append, List.nil_append, Char.reduceEq, if_pos, if_false, shortEscape?,
    hunit]
  rfl

theorem stringUnits?_escape {e c : Char} (he : shortEscape? e = some c) (rest : Text) :
    stringUnits? ('\\' :: e :: rest) = (stringUnits? rest).map (withUnits [c.toNat]) := by
  rw [stringUnits?.eq_def]
  simp only [Char.reduceEq, if_pos, if_false, he]
  rfl

theorem stringUnits?_plain {c : Char} (hquote : c ≠ '"') (hbackslash : c ≠ '\\')
    (hcontrol : 0x20 ≤ c.toNat) (rest : Text) :
    stringUnits? (c :: rest) = (stringUnits? rest).map (withUnits [c.toNat]) := by
  rw [stringUnits?.eq_def]
  simp only [if_neg hquote, if_neg hbackslash, if_neg (Nat.not_lt.mpr hcontrol)]
  rfl

theorem valid_toNat (c : Char) : c.toNat < 0xD800 ∨ 0xDFFF < c.toNat ∧ c.toNat < 0x110000 :=
  c.valid

/-- No character is half of a surrogate pair. -/
theorem not_surrogate (c : Char) :
    isHighSurrogate c.toNat = false ∧ isLowSurrogate c.toNat = false := by
  have hvalid := valid_toNat c
  simp only [isHighSurrogate, isLowSurrogate, Bool.and_eq_false_iff, decide_eq_false_iff_not]
  omega

/-- Escapes of one letter are ASCII, and so is what they stand for. -/
theorem ascii_of_shortEscape? {e c : Char} (h : shortEscape? e = some c) :
    (0x20 ≤ e.toNat ∧ e.toNat < 0x7F) ∧ c.toNat < 0x80 := by
  unfold shortEscape? at h
  split at h
  all_goals first
    | contradiction
    | (obtain rfl := Option.some.inj h; decide)

/-- The four ways of writing a character. -/
theorem charText_cases (c : Char) :
    (∃ e, shortEscape? e = some c ∧ charText c = ['\\', e]) ∨
    (charText c = [c] ∧ c ≠ '"' ∧ c ≠ '\\' ∧ 0x20 ≤ c.toNat ∧ c.toNat < 0x7F) ∨
    (c.toNat < 0x10000 ∧ charText c = unitEscape c.toNat) ∨
    0x10000 ≤ c.toNat ∧ charText c =
      unitEscape (0xD800 + (c.toNat - 0x10000) / 0x400) ++
        unitEscape (0xDC00 + (c.toNat - 0x10000) % 0x400) := by
  by_cases hescape : ∃ e, shortEscape? e = some c ∧ charText c = ['\\', e]
  · exact .inl hescape
  -- The seven characters with an escape of one letter are none of the others.
  · have hne {e c' : Char} (h : shortEscape? e = some c' ∧ charText c' = ['\\', e]) : c ≠ c' :=
      fun heq => hescape ⟨e, heq ▸ h⟩
    have hquote := hne (e := '"') ⟨rfl, rfl⟩
    have hbackslash := hne (e := '\\') ⟨rfl, rfl⟩
    have hbreak := hne (e := 'n') ⟨rfl, rfl⟩
    have hreturn := hne (e := 'r') ⟨rfl, rfl⟩
    have htab := hne (e := 't') ⟨rfl, rfl⟩
    have hfeed := hne (e := 'f') ⟨rfl, rfl⟩
    have hback := hne (e := 'b') ⟨rfl, rfl⟩
    refine .inr ?_
    rw [charText, if_neg hquote, if_neg hbackslash, if_neg hbreak, if_neg hreturn, if_neg htab,
      if_neg hfeed, if_neg hback]
    by_cases hprinted : 0x20 ≤ c.toNat ∧ c.toNat < 0x7F
    · exact .inl ⟨if_pos hprinted, hquote, hbackslash, hprinted⟩
    · rw [if_neg hprinted]
      by_cases hbound : c.toNat < 0x10000
      · exact .inr (.inl ⟨hbound, if_pos hbound⟩)
      · exact .inr (.inr ⟨Nat.not_lt.mp hbound, if_neg hbound⟩)

theorem stringUnits?_charText (c : Char) (rest : Text) :
    stringUnits? (charText c ++ rest) = (stringUnits? rest).map (withUnits (units c)) := by
  unfold units
  obtain ⟨e, he, h⟩ | ⟨h, hquote, hbackslash, hcontrol, hbound⟩ | ⟨hbound, h⟩ | ⟨hlarge, h⟩ :=
    charText_cases c
  · have hbound := (ascii_of_shortEscape? he).2
    rw [h, if_pos (by omega)]
    exact stringUnits?_escape he rest
  · rw [h, if_pos (by omega)]
    exact stringUnits?_plain hquote hbackslash hcontrol rest
  · rw [h, if_pos hbound]
    exact stringUnits?_unitEscape hbound rest
  · have hvalid := valid_toNat c
    rw [h, if_neg (Nat.not_lt.mpr hlarge), List.append_assoc, stringUnits?_unitEscape (by omega),
      stringUnits?_unitEscape (by omega), Option.map_map]
    rfl

theorem charsOfUnits_units (c : Char) (rest : List Nat) :
    charsOfUnits (units c ++ rest) = c :: charsOfUnits rest := by
  unfold units
  split
  · obtain ⟨hhigh, hlow⟩ := not_surrogate c
    cases rest with
    | nil => simp [charsOfUnits, hhigh, hlow]
    | cons m rest => simp [charsOfUnits, hhigh, hlow]
  · have hvalid := valid_toNat c
    have hhigh : isHighSurrogate (0xD800 + (c.toNat - 0x10000) / 0x400) = true := by
      simp only [isHighSurrogate, Bool.and_eq_true, decide_eq_true_iff]
      omega
    have hlow : isLowSurrogate (0xDC00 + (c.toNat - 0x10000) % 0x400) = true := by
      simp only [isLowSurrogate, Bool.and_eq_true, decide_eq_true_iff]
      omega
    have hcode : 0x10000 + (0xD800 + (c.toNat - 0x10000) / 0x400 - 0xD800) * 0x400 +
        (0xDC00 + (c.toNat - 0x10000) % 0x400 - 0xDC00) = c.toNat := by
      omega
    change charsOfUnits (_ :: _ :: rest) = _
    rw [charsOfUnits, if_pos hhigh, if_pos hlow, hcode, Char.ofNat_toNat]

theorem charsOfUnits_flatMap (s : Text) : charsOfUnits (s.flatMap units) = s := by
  induction s with
  | nil => rfl
  | cons c s ih => rw [List.flatMap_cons, charsOfUnits_units, ih]

theorem stringUnits?_flatMap (s rest : Text) :
    stringUnits? (s.flatMap charText ++ '"' :: rest) = some (s.flatMap units, rest) := by
  induction s with
  | nil =>
    change stringUnits? ('"' :: rest) = _
    rw [stringUnits?.eq_def]
    rfl
  | cons c s ih =>
    rw [List.flatMap_cons, List.append_assoc, stringUnits?_charText, ih]
    rfl

/-- A string is read back. -/
theorem string?_flatMap (s : String) (rest : Text) :
    string? (s.toList.flatMap charText ++ '"' :: rest) = some (s, rest) := by
  rw [string?, stringUnits?_flatMap]
  change some (String.ofList (charsOfUnits (s.toList.flatMap units)), rest) = _
  rw [charsOfUnits_flatMap, String.ofList_toList]

end Json

end CodeHealth
