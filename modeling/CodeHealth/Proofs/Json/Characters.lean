import CodeHealth.Proofs.Json.RoundTrip
import CodeHealth.Proofs.Text.Encoding

/-!
# The characters of JSON text

What is written consists of printed ASCII characters and line breaks. So it comes back unchanged
when it is put into bytes and read as text again, and a plain value comes back with it.
-/

namespace CodeHealth

namespace Json

/-- A printed ASCII character or a line break. -/
def InText (c : Char) : Prop :=
  c = '\n' ∨ 0x20 ≤ c.toNat ∧ c.toNat < 0x7F

instance : DecidablePred InText :=
  fun c => inferInstanceAs (Decidable (c = '\n' ∨ 0x20 ≤ c.toNat ∧ c.toNat < 0x7F))

theorem inText_of_all {s : Text} (h : (s.all fun c => decide (InText c)) = true) :
    ∀ c ∈ s, InText c :=
  fun c hc => of_decide_eq_true (List.all_eq_true.mp h c hc)

/-! ### Numbers and strings -/

theorem inText_of_digit {c : Char} (h : isDecimalDigit c = true) : InText c := by
  rw [isDecimalDigit, Bool.and_eq_true, decide_eq_true_iff, decide_eq_true_iff] at h
  obtain ⟨hlow, hhigh⟩ := h
  have hlow' : 0x30 ≤ c.toNat := hlow
  have hhigh' : c.toNat ≤ 0x39 := hhigh
  exact .inr (by omega)

theorem inText_pointed {ds fs : Text} (hds : ∀ c ∈ ds, isDecimalDigit c = true)
    (hfs : ∀ c ∈ fs, isDecimalDigit c = true) : ∀ c ∈ Digits.pointed false (ds, fs), InText c := by
  intro c hc
  obtain hc | hc := List.mem_append.mp hc
  · exact inText_of_digit (hds c hc)
  · split at hc
    · contradiction
    · obtain rfl | hc := List.mem_cons.mp hc
      · decide
      · exact inText_of_digit (hfs c hc)

theorem inText_power (d : Digits) : ∀ c ∈ d.power, InText c := by
  intro c hc
  obtain hc | hc := List.mem_append.mp hc
  · obtain rfl | hc := List.mem_cons.mp hc
    · decide
    · obtain rfl | hc := List.mem_cons.mp hc
      · split <;> decide
      · rw [(List.mem_replicate.mp hc).2]
        decide
  · exact inText_of_digit (isDecimalDigit_of_mem hc)

theorem inText_signed {negative : Bool} {s : Text} (h : ∀ c ∈ s, InText c) :
    ∀ c ∈ signed negative s, InText c := by
  cases negative with
  | true => exact List.forall_mem_cons.mpr ⟨by decide, h⟩
  | false => exact h

theorem inText_magnitudeText {q : Rat} (hq : 0 < q) (h : (Double.finite q).InFormat) :
    ∀ c ∈ Double.magnitudeText q, InText c := by
  obtain ⟨d, hd, -, htext⟩ := Double.exists_digits hq h
  rw [htext]
  split
  · exact inText_pointed hd.isWhole_positional.digits hd.digits_shownFraction
  · intro c hc
    obtain hc | hc := List.mem_append.mp hc
    · exact inText_pointed hd.isWhole_scientific.digits hd.digits_scientific c hc
    · exact inText_power d c hc

theorem inText_doubleText {x : Double} (h : x.InFormat) : ∀ c ∈ doubleText x, InText c := by
  cases x with
  | infinite negative =>
    cases negative with
    | true => exact inText_of_all (by decide)
    | false => exact inText_of_all (by decide)
  | nan => exact inText_of_all (by decide)
  | negZero => exact inText_of_all (by decide)
  | finite q =>
    by_cases hq : q = 0
    · subst hq
      exact inText_of_all (by decide)
    · rw [doubleText_finite hq]
      exact inText_signed (inText_magnitudeText (abs_pos hq) (inFormat_abs h))

theorem inText_int (n : Int) : ∀ c ∈ (toString n).toList, InText c := by
  rw [toList_int]
  exact inText_signed fun c hc => inText_of_digit (isDecimalDigit_of_mem hc)

theorem inText_unitEscape {n : Nat} (h : n < 0x10000) : ∀ c ∈ unitEscape n, InText c := by
  have hdigit : ∀ d, d < 16 → InText d.digitChar := by decide
  rw [unitEscape, Text.hexadecimal_four h]
  simp only [List.forall_mem_cons]
  exact ⟨by decide, by decide, hdigit _ (by omega), hdigit _ (by omega), hdigit _ (by omega),
    hdigit _ (by omega), fun _ hmem => absurd hmem List.not_mem_nil⟩

theorem inText_charText (c : Char) : ∀ x ∈ charText c, InText x := by
  obtain ⟨e, he, h⟩ | ⟨h, -, -, hprinted⟩ | ⟨hbound, h⟩ | ⟨hlarge, h⟩ := charText_cases c
  · rw [h]
    simp only [List.forall_mem_cons]
    exact ⟨by decide, .inr (ascii_of_shortEscape? he).1, fun _ hmem => absurd hmem List.not_mem_nil⟩
  · rw [h]
    exact List.forall_mem_singleton.mpr (.inr hprinted)
  · rw [h]
    exact inText_unitEscape hbound
  · have hvalid := valid_toNat c
    rw [h]
    exact List.forall_mem_append.mpr
      ⟨inText_unitEscape (by omega), inText_unitEscape (by omega)⟩

theorem inText_stringText (s : String) : ∀ c ∈ stringText s, InText c := by
  rw [stringText]
  intro c hc
  obtain hc | hc := List.mem_append.mp hc
  · obtain rfl | hc := List.mem_cons.mp hc
    · decide
    · obtain ⟨x, -, hx⟩ := List.mem_flatMap.mp hc
      exact inText_charText x c hx
  · rw [List.mem_singleton.mp hc]
    decide

/-! ### Values -/

theorem inText_lineBreak (layout : Layout) (depth : Nat) :
    ∀ c ∈ layout.lineBreak depth, InText c := by
  cases layout with
  | compact => exact fun _ h => absurd h List.not_mem_nil
  | indented =>
    refine List.forall_mem_cons.mpr ⟨by decide, fun c hc => ?_⟩
    rw [(List.mem_replicate.mp hc).2]
    decide

theorem inText_gap (layout : Layout) (depth : Nat) : ∀ c ∈ gap layout depth, InText c := by
  cases layout with
  | compact => exact List.forall_mem_singleton.mpr (by decide)
  | indented => exact inText_lineBreak .indented depth

/-- What stands between two brackets, set apart from both. -/
theorem inText_brackets {opening closing : Char} (hopening : InText opening)
    (hclosing : InText closing) {s : Text} (hs : ∀ c ∈ s, InText c) (layout : Layout)
    (depth : Nat) : ∀ c ∈ opening :: layout.lineBreak (depth + 1) ++ s
      ++ layout.lineBreak depth ++ [closing], InText c := by
  refine List.forall_mem_append.mpr ⟨List.forall_mem_append.mpr ⟨List.forall_mem_append.mpr
    ⟨List.forall_mem_cons.mpr ⟨hopening, inText_lineBreak layout _⟩, hs⟩,
    inText_lineBreak layout depth⟩, List.forall_mem_singleton.mpr hclosing⟩

theorem inText_itemsText {items : List Value} {layout : Layout} {depth : Nat}
    (h : ∀ v ∈ items, ∀ c ∈ valueText layout depth v, InText c) :
    ∀ c ∈ itemsText layout depth items, InText c := by
  induction items with
  | nil =>
    rw [itemsText]
    exact fun _ h => absurd h List.not_mem_nil
  | cons v items ih =>
    obtain ⟨hv, hitems⟩ := List.forall_mem_cons.mp h
    by_cases hnil : items = []
    · rw [hnil, itemsText_singleton]
      exact hv
    · rw [itemsText_cons layout depth v items hnil]
      exact List.forall_mem_append.mpr ⟨hv, List.forall_mem_cons.mpr
        ⟨by decide, List.forall_mem_append.mpr ⟨inText_gap layout depth, ih hitems⟩⟩⟩

theorem inText_membersText {members : List (String × Value)} {layout : Layout} {depth : Nat}
    (h : ∀ member ∈ members, ∀ c ∈ valueText layout depth member.2, InText c) :
    ∀ c ∈ membersText layout depth members, InText c := by
  induction members with
  | nil =>
    rw [membersText]
    exact fun _ h => absurd h List.not_mem_nil
  | cons member members ih =>
    obtain ⟨k, v⟩ := member
    obtain ⟨hv, hmembers⟩ := List.forall_mem_cons.mp h
    have hname {s : Text} (hs : ∀ c ∈ s, InText c) :
        ∀ c ∈ stringText k ++ ':' :: ' ' :: s, InText c :=
      List.forall_mem_append.mpr ⟨inText_stringText k, List.forall_mem_cons.mpr
        ⟨by decide, List.forall_mem_cons.mpr ⟨by decide, hs⟩⟩⟩
    by_cases hnil : members = []
    · rw [hnil, membersText_singleton]
      exact hname hv
    · rw [membersText_cons layout depth k v members hnil]
      exact hname (List.forall_mem_append.mpr ⟨hv, List.forall_mem_cons.mpr
        ⟨by decide, List.forall_mem_append.mpr ⟨inText_gap layout depth, ih hmembers⟩⟩⟩)

theorem inText_valueText {v : Value} (h : v.Plain) (layout : Layout) (depth : Nat) :
    ∀ c ∈ valueText layout depth v, InText c := by
  induction h generalizing depth with
  | null =>
    rw [valueText]
    exact inText_of_all (by decide)
  | bool b =>
    rw [valueText]
    cases b with
    | true => exact inText_of_all (by decide)
    | false => exact inText_of_all (by decide)
  | @int n _ =>
    rw [valueText]
    exact inText_int n
  | double format =>
    rw [valueText]
    exact inText_doubleText format
  | text s =>
    rw [valueText]
    exact inText_stringText s
  | list _ ih =>
    rw [valueText]
    split
    · exact inText_of_all (by decide)
    · exact inText_brackets (by decide) (by decide)
        (inText_itemsText fun v hv => ih v hv (depth + 1)) layout depth
  | object _ _ ih =>
    rw [valueText]
    split
    · exact inText_of_all (by decide)
    · exact inText_brackets (by decide) (by decide)
        (inText_membersText fun member hmember => ih member hmember (depth + 1)) layout depth

end Json

end CodeHealth
