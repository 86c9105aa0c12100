import CodeHealth.Proofs.Entries
import CodeHealth.Proofs.Json.Numbers
import CodeHealth.Proofs.Json.Strings

/-!
# Values that are read back from their JSON text

The text of a value is read back as the value if its floating point numbers are numbers of the
format and no object in it has two members of one name. `Value.Plain` says so of a value; every
value that was read is such a value.

The readers take a bound on their recursion. Two calls are enough for every character of a text, so
the proof carries a bound in terms of the length of what is read.
-/

namespace CodeHealth

/-- A value that JSON text can hold as it is. -/
inductive Value.Plain : Value → Prop where
  | null : Plain .null
  | bool (b : Bool) : Plain (.bool b)
  | int {n : Int} (length_le : (decimalDigits n.natAbs).length ≤ digitLimit) : Plain (.int n)
  | double {x : Double} (format : x.InFormat) : Plain (.double x)
  | text (s : String) : Plain (.text s)
  | list {items : List Value} (items_plain : ∀ v ∈ items, Plain v) : Plain (.list items)
  | object {members : List (String × Value)} (names : (Entries.keys members).Nodup)
      (members_plain : ∀ member ∈ members, Plain member.2) : Plain (.object members)

namespace Json

/-- The text of a value is read back in front of anything that a number does not go on with. -/
def ReadBack (v : Value) : Prop :=
  ∀ (layout : Layout) (depth bound : Nat) (rest : Text), EndsNumber rest →
    2 * (valueText layout depth v).length ≤ bound + 1 →
    readValue bound (valueText layout depth v ++ rest) = .ok (v, rest)

theorem endsNumber_nil : EndsNumber [] :=
  fun _ h => nomatch h

theorem endsNumber_cons {c : Char} {rest : Text} (h : isDecimalDigit c = false ∧ c ≠ '.' ∧ c ≠ 'e' ∧
    c ≠ 'E') : EndsNumber (c :: rest) := by
  intro c' hc'
  rwa [← Option.some.inj hc']

/-! ### Words and numbers -/

theorem readValue_of_readScalar {s : Text} {p : Value × Text} (h : readScalar s = .ok p)
    (bound : Nat) : readValue (bound + 1) s = .ok p := by
  unfold readValue
  split
  · contradiction
  · contradiction
  · contradiction
  · exact h

theorem readBack_of_readScalar {v : Value} (h : ∀ (layout : Layout) (depth : Nat) (rest : Text),
    EndsNumber rest → readScalar (valueText layout depth v ++ rest) = .ok (v, rest)) :
    ReadBack v := by
  intro layout depth bound rest hrest hbound
  have hpos : valueText layout depth v ≠ [] := by
    intro hnil
    have := h layout depth [] endsNumber_nil
    rw [hnil] at this
    contradiction
  have hlength := List.length_pos_iff.mpr hpos
  obtain ⟨bound, rfl⟩ : ∃ b, bound = b + 1 := ⟨bound - 1, by omega⟩
  exact readValue_of_readScalar (h layout depth rest hrest) bound

/-! ### Spaces between the parts -/

/-- A text that begins with a part of a JSON text, not with the end of a list or of an object. -/
def StartsPart (s : Text) : Prop :=
  ∃ c tail, s = c :: tail ∧ isSpace c = false ∧ c ≠ ']' ∧ c ≠ '\x7d'

theorem startsPart_of_value? {bound : Nat} {s : Text} {p : Value × Text}
    (h : readValue bound s = .ok p) : StartsPart s := by
  cases bound with
  | zero => contradiction
  | succ bound =>
    cases s with
    | nil => contradiction
    | cons c tail =>
      refine ⟨c, tail, rfl, ?_, ?_, ?_⟩
      · refine Bool.eq_false_iff.mpr fun hspace => ?_
        simp only [isSpace, Bool.or_eq_true, decide_eq_true_iff] at hspace
        obtain ((rfl | rfl) | rfl) | rfl := hspace
        all_goals contradiction
      · rintro rfl
        contradiction
      · rintro rfl
        contradiction

theorem ReadBack.startsPart {v : Value} (h : ReadBack v) (layout : Layout) (depth : Nat)
    (rest : Text) : StartsPart (valueText layout depth v ++ rest) := by
  obtain ⟨c, tail, htext, hc⟩ := startsPart_of_value?
    (h layout depth (2 * (valueText layout depth v).length) [] endsNumber_nil (by omega))
  rw [List.append_nil] at htext
  exact ⟨c, tail ++ rest, by rw [htext]; rfl, hc⟩

theorem skip_append {spaces : Text} (hspaces : ∀ c ∈ spaces, isSpace c = true) {c : Char}
    (hc : isSpace c = false) (tail : Text) : skip (spaces ++ c :: tail) = c :: tail := by
  rw [skip, List.dropWhile_append_of_pos hspaces]
  simp [hc]

/-- What stands behind the comma of a separator. -/
def gap (layout : Layout) (depth : Nat) : Text :=
  (layout.separator depth).drop 1

theorem separator_eq (layout : Layout) (depth : Nat) :
    layout.separator depth = ',' :: gap layout depth := by
  cases layout with
  | compact => rfl
  | indented => rfl

theorem isSpace_of_mem_lineBreak {layout : Layout} {depth : Nat} {c : Char}
    (h : c ∈ layout.lineBreak depth) : isSpace c = true := by
  cases layout with
  | compact => contradiction
  | indented =>
    obtain rfl | h := List.mem_cons.mp h
    · rfl
    · rw [(List.mem_replicate.mp h).2]
      rfl

theorem isSpace_of_mem_gap {layout : Layout} {depth : Nat} {c : Char} (h : c ∈ gap layout depth) :
    isSpace c = true := by
  cases layout with
  | compact =>
    rw [List.mem_singleton.mp h]
    rfl
  | indented =>
    have hbreak : c ∈ Layout.indented.lineBreak depth := h
    exact isSpace_of_mem_lineBreak hbreak

theorem skip_lineBreak (layout : Layout) (depth : Nat) {c : Char} (hc : isSpace c = false)
    (tail : Text) : skip (layout.lineBreak depth ++ c :: tail) = c :: tail :=
  skip_append (fun _ hc => isSpace_of_mem_lineBreak hc) hc tail

theorem StartsPart.skip_lineBreak {s : Text} (h : StartsPart s) (layout : Layout) (depth : Nat) :
    skip (layout.lineBreak depth ++ s) = s := by
  obtain ⟨c, tail, rfl, hc, -⟩ := h
  exact Json.skip_lineBreak layout depth hc tail

theorem StartsPart.skip_gap {s : Text} (h : StartsPart s) (layout : Layout) (depth : Nat) :
    skip (gap layout depth ++ s) = s := by
  obtain ⟨c, tail, rfl, hc, -⟩ := h
  exact skip_append (fun _ hc => isSpace_of_mem_gap hc) hc tail

theorem endsNumber_lineBreak (layout : Layout) (depth : Nat) {c : Char} {tail : Text}
    (hc : EndsNumber (c :: tail)) : EndsNumber (layout.lineBreak depth ++ c :: tail) := by
  cases layout with
  | compact => exact hc
  | indented => exact endsNumber_cons (by decide)

/-! ### Lists -/

theorem itemsText_cons (layout : Layout) (depth : Nat) (v : Value) (items : List Value)
    (hne : items ≠ []) : itemsText layout depth (v :: items) =
      valueText layout depth v ++ ',' :: (gap layout depth ++ itemsText layout depth items) := by
  rw [itemsText, separator_eq, if_neg (by simpa using hne)]
  rfl

theorem itemsText_singleton (layout : Layout) (depth : Nat) (v : Value) :
    itemsText layout depth [v] = valueText layout depth v := by
  rw [itemsText]
  exact List.append_nil _

theorem readItems_itemsText {items : List Value} (hitems : ∀ v ∈ items, ReadBack v)
    (hne : items ≠ []) {layout : Layout} {depth bound : Nat} {behind rest : Text}
    (hbehind : EndsNumber behind) (hskip : skip behind = ']' :: rest)
    (hbound : 2 * (itemsText layout depth items).length ≤ bound) :
    StartsPart (itemsText layout depth items ++ behind) ∧
      readItems bound (itemsText layout depth items ++ behind) = .ok (items, rest) := by
  -- What stands behind the first item is shorter by at least two characters, which pays for the
  -- call.
  induction items generalizing bound with
  | nil => contradiction
  | cons v items ih =>
    obtain ⟨hv, hitems⟩ := List.forall_mem_cons.mp hitems
    have hpos : 0 < (valueText layout depth v).length := by
      obtain ⟨c, tail, htext, -⟩ := hv.startsPart layout depth []
      rw [List.append_nil] at htext
      rw [htext]
      exact Nat.succ_pos _
    by_cases hnil : items = []
    · subst hnil
      rw [itemsText_singleton] at hbound ⊢
      obtain ⟨bound, rfl⟩ : ∃ b, bound = b + 1 := ⟨bound - 1, by omega⟩
      have hvalue := hv layout depth bound behind hbehind (by omega)
      refine ⟨hv.startsPart layout depth behind, ?_⟩
      simp [readItems, hvalue, hskip]
    · rw [itemsText_cons layout depth v items hnil] at hbound ⊢
      rw [List.length_append, List.length_cons, List.length_append] at hbound
      obtain ⟨bound, rfl⟩ : ∃ b, bound = b + 1 := ⟨bound - 1, by omega⟩
      obtain ⟨hstart, hrest⟩ : StartsPart (itemsText layout depth items ++ behind) ∧
          readItems bound (itemsText layout depth items ++ behind) = .ok (items, rest) :=
        ih hitems hnil (by omega)
      have hgap := hstart.skip_gap layout depth
      have hvalue := hv layout depth bound (',' :: (gap layout depth ++
        (itemsText layout depth items ++ behind))) (endsNumber_cons (by decide)) (by omega)
      have hcomma : skip (',' :: (gap layout depth ++ (itemsText layout depth items ++ behind))) =
        ',' :: (gap layout depth ++ (itemsText layout depth items ++ behind)) := rfl
      refine ⟨?_, ?_⟩
      · rw [List.append_assoc]
        exact hv.startsPart layout depth _
      · simp only [List.append_assoc, List.cons_append]
        simp [readItems, hvalue, hcomma, hgap, hrest]

theorem readValue_open {s t : Text} {items : List Value} {rest : Text} {bound : Nat}
    (hskip : skip s = t) (hstart : StartsPart t) (hitems : readItems bound t = .ok (items, rest)) :
    readValue (bound + 1) ('[' :: s) = .ok (.list items, rest) := by
  obtain ⟨c, tail, rfl, -, hc, -⟩ := hstart
  simp only [readValue, hskip]
  split
  · rename_i heq
    exact absurd (List.cons.inj heq).1 hc
  · rw [hitems]
    rfl

theorem readBack_list {items : List Value} (hitems : ∀ v ∈ items, ReadBack v) :
    ReadBack (.list items) := by
  intro layout depth bound rest hrest hbound
  by_cases hnil : items = []
  · subst hnil
    have htext : valueText layout depth (.list []) = ['[', ']'] := by simp [valueText]
    rw [htext] at hbound ⊢
    obtain ⟨bound, rfl⟩ : ∃ b, bound = b + 1 := ⟨bound - 1, by simp at hbound; omega⟩
    rfl
  · have htext : valueText layout depth (.list items) = '[' :: (layout.lineBreak (depth + 1) ++
        (itemsText layout (depth + 1) items ++ (layout.lineBreak depth ++ [']']))) := by
      rw [valueText, if_neg (by simpa using hnil)]
      simp
    rw [htext] at hbound ⊢
    simp only [List.length_cons, List.length_append] at hbound
    obtain ⟨bound, rfl⟩ : ∃ b, bound = b + 1 := ⟨bound - 1, by omega⟩
    obtain ⟨hstart, hread⟩ := readItems_itemsText hitems hnil
      (endsNumber_lineBreak layout depth (endsNumber_cons (by decide)))
      (skip_lineBreak layout depth (by decide) rest)
      (show 2 * (itemsText layout (depth + 1) items).length ≤ bound by omega)
    simp only [List.cons_append, List.append_assoc, List.nil_append]
    exact readValue_open (hstart.skip_lineBreak layout (depth + 1)) hstart hread

/-! ### Objects -/

theorem membersText_singleton (layout : Layout) (depth : Nat) (k : String) (v : Value) :
    membersText layout depth [(k, v)] = stringText k ++ ':' :: ' ' :: valueText layout depth v := by
  rw [membersText]
  exact List.append_nil _

theorem membersText_cons (layout : Layout) (depth : Nat) (k : String) (v : Value)
    (members : List (String × Value)) (hne : members ≠ []) :
    membersText layout depth ((k, v) :: members) =
      stringText k ++ ':' :: ' ' :: (valueText layout depth v ++
        ',' :: (gap layout depth ++ membersText layout depth members)) := by
  rw [membersText, separator_eq, if_neg (by simpa using hne)]
  simp

/-- The steps in which a name, a colon and a value are read. -/
theorem member_steps (k : String) {v : Value} (hv : ReadBack v) {layout : Layout}
    {depth bound : Nat} {behind : Text} (hbehind : EndsNumber behind)
    (hbound : 2 * (valueText layout depth v).length ≤ bound + 1) :
    let s := valueText layout depth v ++ behind
    string? (k.toList.flatMap charText ++ '"' :: ':' :: ' ' :: s) = some (k, ':' :: ' ' :: s) ∧
      skip (':' :: ' ' :: s) = ':' :: ' ' :: s ∧ skip (' ' :: s) = s ∧
      readValue bound s = .ok (v, behind) := by
  refine ⟨string?_flatMap k _, rfl, ?_, hv layout depth bound behind hbehind hbound⟩
  obtain ⟨c, tail, htext, hc, -⟩ := hv.startsPart layout depth behind
  have hblank : ∀ c ∈ [' '], isSpace c = true := List.forall_mem_singleton.mpr rfl
  rw [htext]
  exact skip_append hblank hc tail

theorem readMembers_membersText {members : List (String × Value)}
    (hmembers : ∀ member ∈ members, ReadBack member.2) (hne : members ≠ [])
    {layout : Layout} {depth bound : Nat} {behind rest : Text} (hbehind : EndsNumber behind)
    (hskip : skip behind = '\x7d' :: rest)
    (hbound : 2 * (membersText layout depth members).length ≤ bound) :
    StartsPart (membersText layout depth members ++ behind) ∧
      readMembers bound (membersText layout depth members ++ behind) = .ok (members, rest) := by
  induction members generalizing bound with
  | nil => contradiction
  | cons member members ih =>
    obtain ⟨k, v⟩ := member
    obtain ⟨hv, hmembers⟩ := List.forall_mem_cons.mp hmembers
    by_cases hnil : members = []
    · subst hnil
      rw [membersText_singleton] at hbound ⊢
      simp only [List.length_append, List.length_cons] at hbound
      obtain ⟨bound, rfl⟩ : ∃ b, bound = b + 1 := ⟨bound - 1, by omega⟩
      obtain ⟨hname, hcolon, hspace, hvalue⟩ := member_steps k hv hbehind
        (show 2 * (valueText layout depth v).length ≤ bound + 1 by omega)
      refine ⟨⟨'"', _, rfl, by decide⟩, ?_⟩
      simp [stringText, readMembers, expect, hname, hcolon, hspace, hvalue, hskip]
    · rw [membersText_cons layout depth k v members hnil] at hbound ⊢
      simp only [List.length_append, List.length_cons] at hbound
      obtain ⟨bound, rfl⟩ : ∃ b, bound = b + 1 := ⟨bound - 1, by omega⟩
      obtain ⟨hstart, hrest⟩ : StartsPart (membersText layout depth members ++ behind) ∧
          readMembers bound (membersText layout depth members ++ behind) = .ok (members, rest) :=
        ih hmembers hnil (by omega)
      have hgap := hstart.skip_gap layout depth
      have hcomma :
          skip (',' :: (gap layout depth ++ (membersText layout depth members ++ behind))) =
        ',' :: (gap layout depth ++ (membersText layout depth members ++ behind)) := rfl
      have hends : EndsNumber (',' :: (gap layout depth ++
          (membersText layout depth members ++ behind))) := endsNumber_cons (by decide)
      obtain ⟨hname, hcolon, hspace, hvalue⟩ := member_steps k hv hends
        (show 2 * (valueText layout depth v).length ≤ bound + 1 by omega)
      refine ⟨⟨'"', _, rfl, by decide⟩, ?_⟩
      simp [stringText, readMembers, expect, hname, hcolon, hspace, hvalue, hcomma, hgap, hrest]

theorem readValue_brace {s t : Text} {members : List (String × Value)} {rest : Text} {bound : Nat}
    (hskip : skip s = t) (hstart : StartsPart t)
    (hmembers : readMembers bound t = .ok (members, rest)) (hnodup : (Entries.keys members).Nodup) :
    readValue (bound + 1) ('\x7b' :: s) = .ok (.object members, rest) := by
  obtain ⟨c, tail, rfl, -, -, hc⟩ := hstart
  simp only [readValue, hskip]
  split
  · rename_i heq
    exact absurd (List.cons.inj heq).1 hc
  · rw [hmembers]
    exact congrArg (fun members => Except.ok (Value.object members, rest))
      (Entries.putAll_nil_left hnodup)

theorem readBack_object {members : List (String × Value)} (hnodup : (Entries.keys members).Nodup)
    (hmembers : ∀ member ∈ members, ReadBack member.2) : ReadBack (.object members) := by
  intro layout depth bound rest hrest hbound
  by_cases hnil : members = []
  · subst hnil
    have htext : valueText layout depth (.object []) = ['\x7b', '\x7d'] := by
      simp [valueText]
    rw [htext] at hbound ⊢
    obtain ⟨bound, rfl⟩ : ∃ b, bound = b + 1 := ⟨bound - 1, by simp at hbound; omega⟩
    rfl
  · have htext : valueText layout depth (.object members) =
        '\x7b' :: (layout.lineBreak (depth + 1) ++
          (membersText layout (depth + 1) members ++ (layout.lineBreak depth ++ ['\x7d']))) := by
      rw [valueText, if_neg (by simpa using hnil)]
      simp
    rw [htext] at hbound ⊢
    simp only [List.length_cons, List.length_append] at hbound
    obtain ⟨bound, rfl⟩ : ∃ b, bound = b + 1 := ⟨bound - 1, by omega⟩
    obtain ⟨hstart, hread⟩ := readMembers_membersText hmembers hnil
      (endsNumber_lineBreak layout depth (endsNumber_cons (by decide)))
      (skip_lineBreak layout depth (by decide) rest)
      (show 2 * (membersText layout (depth + 1) members).length ≤ bound by omega)
    simp only [List.cons_append, List.append_assoc, List.nil_append]
    exact readValue_brace (hstart.skip_lineBreak layout (depth + 1)) hstart hread hnodup

/-! ### All values -/

/-- The text of a plain value is read back as the value. -/
theorem readBack_of_plain {v : Value} (h : v.Plain) : ReadBack v := by
  induction h with
  | null => exact readBack_of_readScalar fun _ _ _ _ => rfl
  | bool b => cases b with
    | true => exact readBack_of_readScalar fun _ _ _ _ => rfl
    | false => exact readBack_of_readScalar fun _ _ _ _ => rfl
  | int length_le =>
    exact readBack_of_readScalar fun _ _ _ hrest => readScalar_int length_le hrest
  | double format => exact readBack_of_readScalar fun _ _ _ hrest => readScalar_double format hrest
  | text s =>
    intro layout depth bound rest _ hbound
    have htext : valueText layout depth (.text s) =
        '"' :: (s.toList.flatMap charText ++ ['"']) := by
      simp [valueText, stringText]
    rw [htext] at hbound ⊢
    obtain ⟨bound, rfl⟩ : ∃ b, bound = b + 1 := ⟨bound - 1, by simp at hbound; omega⟩
    have hread := string?_flatMap s rest
    simp [readValue, expect, hread]
  | list _ ih => exact readBack_list ih
  | object names _ ih => exact readBack_object names ih

end Json

/-- The JSON text of a plain value stands for the value. -/
theorem Value.ofJson?_toJson {v : Value} (h : v.Plain) (layout : Json.Layout) :
    ofJson? (v.toJson layout).toList = some v := by
  have hread := Json.readBack_of_plain h
  have hvalue := hread layout 0 (2 * (Json.valueText layout 0 v).length + 2) []
    Json.endsNumber_nil (by omega)
  obtain ⟨c, tail, htext, hc, -⟩ := hread.startsPart layout 0 []
  rw [List.append_nil] at hvalue htext
  have hskip : Json.skip (Json.valueText layout 0 v) = Json.valueText layout 0 v := by
    rw [htext]
    exact Json.skip_lineBreak .compact 0 hc tail
  rw [toJson, String.toList_ofList, ofJson?, ofJson, hskip, hvalue]
  rfl

end CodeHealth
