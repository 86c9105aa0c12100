import CodeHealth.Text.Encoding

/-!
# ASCII text as bytes

A character below U+0080 is a single byte in UTF-8, and a byte below 80 is a character. So an ASCII
text is read back from its bytes, and without carriage returns its line endings stay as they are.
-/

namespace CodeHealth

variable {s : Text}

namespace Bytes

theorem ofText_of_ascii (h : ∀ c ∈ s, c.toNat < 0x80) :
    ofText s = s.map fun c => UInt8.ofNat c.toNat := by
  induction s with
  | nil => rfl
  | cons c s ih =>
    obtain ⟨hc, hs⟩ := List.forall_mem_cons.mp h
    have hle : c.toNat ≤ 127 := by omega
    have hchar : String.utf8EncodeChar c = [UInt8.ofNat c.toNat] := by
      simp [String.utf8EncodeChar, hle]
    rw [ofText, List.flatMap_cons, hchar, List.map_cons, ← ih hs]
    rfl

theorem utf8Char_ascii {c : Char} (h : c.toNat < 0x80) (rest : Bytes) :
    utf8Char (UInt8.ofNat c.toNat) rest = (some c, 0) := by
  have hbyte : (UInt8.ofNat c.toNat).toNat = c.toNat := by
    rw [UInt8.toNat_ofNat']
    omega
  have hcontinuations : continuations? c.toNat = some (c.toNat, []) := if_pos h
  rw [utf8Char, hbyte, hcontinuations]
  change (some (Char.ofNat c.toNat), 0) = _
  rw [Char.ofNat_toNat]

theorem mapM_map_some (s : Text) : (s.map some).mapM id = some s := by
  induction s with
  | nil => rfl
  | cons c s ih =>
    rw [List.map_cons, List.mapM_cons, ih]
    rfl

/-- An ASCII text is read back from its bytes. -/
theorem utf8?_ofText (h : ∀ c ∈ s, c.toNat < 0x80) : utf8? (ofText s) = some s := by
  have hfrom : utf8From 0 (ofText s) = s.map some := by
    rw [ofText_of_ascii h]
    induction s with
    | nil => rfl
    | cons c s ih =>
      obtain ⟨hc, hs⟩ := List.forall_mem_cons.mp h
      rw [List.map_cons, utf8From, utf8Char_ascii hc, List.map_cons]
      exact congrArg _ (ih hs)
  rw [utf8?, hfrom, mapM_map_some]

end Bytes

theorem Text.unifyNewlines_eq_self (h : '\r' ∉ s) : unifyNewlines s = s := by
  induction s with
  | nil => rfl
  | cons c s ih =>
    have hc : c ≠ '\r' := fun heq => h (heq ▸ List.mem_cons_self)
    have hs : '\r' ∉ s := fun hmem => h (List.mem_cons_of_mem c hmem)
    rw [unifyNewlines.eq_def]
    split
    · contradiction
    · rename_i heq
      exact absurd (List.cons.inj heq).1 hc
    · rename_i heq
      exact absurd (List.cons.inj heq).1 hc
    · rename_i heq
      obtain ⟨rfl, rfl⟩ := List.cons.inj heq
      rw [ih hs]

end CodeHealth
