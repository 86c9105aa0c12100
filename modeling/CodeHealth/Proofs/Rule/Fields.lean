import CodeHealth.Proofs.Rule.Scan
import CodeHealth.Proofs.Source.Headers
import CodeHealth.Proofs.Value.Numbers
import CodeHealth.Rule.OrientationAbusers

/-!
# Declarations of fields

A declaration is a word of visibility or the end of any other word, blanks, a type, blanks, a name,
blanks or none, and a semicolon. `Declaration.Admits` says so part by part, and the recogniser finds
exactly the texts that can be taken apart in this way (`FieldDeclaration.recognise_eq_some_iff`).
The classes of characters are disjoint, so there is one way at most.

The name can also be read off the matched text alone, as what stands before the semicolon in its
last word. Where blanks stand before the semicolon, the last word is the semicolon and no name is
left: such a field is passed over however rare its name is (`Rule.scan_temporaryField_spaced`). The
fields with a name are reported exactly if it is rare (`Rule.scan_temporaryField`).
-/

namespace CodeHealth

namespace Text

variable {s : Text}

theorem isBlank_semicolon : isBlank ';' = false := by
  decide

/-! ### Words -/

/-- The words of a text: what stands between its blanks. -/
def words (s : Text) : List Text :=
  (s.splitOnP isBlank).filter (· ≠ [])

theorem words_append_blank {c : Char} (hc : isBlank c = true) (s t : Text) :
    words (s ++ c :: t) = words s ++ words t := by
  unfold words
  rw [List.splitOnP_append_cons s t hc, List.filter_append]

theorem words_of_solid (hne : s ≠ []) (hs : ∀ c ∈ s, isBlank c = false) : words s = [s] := by
  rw [words, List.splitOnP_eq_singleton hs]
  simp [hne]

/-- Behind blanks, what holds no blanks is the last word. -/
theorem getLast?_words {gap t : Text} (hgap : IsRun isBlank gap) (hne : t ≠ [])
    (ht : ∀ c ∈ t, isBlank c = false) (s : Text) : (words (s ++ (gap ++ t))).getLast? = some t := by
  obtain ⟨front, c, rfl⟩ : ∃ front c, gap = front ++ [c] :=
    ⟨_, _, (List.dropLast_concat_getLast hgap.1).symm⟩
  have hc : isBlank c = true := hgap.2 c (List.mem_append_right front List.mem_cons_self)
  have hcut : s ++ ((front ++ [c]) ++ t) = (s ++ front) ++ c :: t := by
    rw [List.append_assoc, List.append_assoc]
    rfl
  rw [hcut, words_append_blank hc, words_of_solid hne ht, List.getLast?_concat]

end Text

/-! ### The parts of a declaration -/

structure Declaration where
  /-- A word of visibility, or nothing. -/
  visibility : Text
  typeGap : Text
  type : Text
  nameGap : Text
  name : Text
  /-- The blanks before the semicolon. -/
  tail : Text

namespace Declaration

open Text

def text (d : Declaration) : Text :=
  d.visibility ++ (d.typeGap ++ (d.type ++ (d.nameGap ++ (d.name ++ (d.tail ++ [';'])))))

theorem text_append (d : Declaration) (rest : Text) : d.text ++ rest =
    d.visibility ++
      (d.typeGap ++ (d.type ++ (d.nameGap ++ (d.name ++ (d.tail ++ ';' :: rest))))) := by
  simp only [text, List.append_assoc, List.singleton_append]

theorem text_ne_nil (d : Declaration) : d.text ≠ [] := by
  simp [text]

def found (d : Declaration) : FieldDeclaration :=
  ⟨d.name, d.tail.isEmpty⟩

/-- What the parts of a declaration have to be. It begins at a boundary of a word. -/
structure Admits (d : Declaration) (before : Option Char) : Prop where
  boundary : before.any isWord ≠ d.text.head?.any isWord
  visibility : d.visibility = [] ∨ d.visibility ∈ FieldDeclaration.visibilities
  typeGap : IsRun isBlank d.typeGap
  type : IsRun isWord d.type
  nameGap : IsRun isBlank d.nameGap
  name : IsRun isWord d.name
  tail : ∀ c ∈ d.tail, isBlank c = true

/-- The identifier of a declaration: its last word without the semicolon. -/
def identifier (t : Text) : Text :=
  (t.words.getLast?.getD []).filter (· ≠ ';')

variable {d : Declaration} {before : Option Char}

/-- The last word is the name with the semicolon, or the semicolon alone. -/
theorem Admits.identifier_text (h : d.Admits before) :
    identifier d.text = if d.tail = [] then d.name else [] := by
  by_cases htail : d.tail = []
  · have htext : d.text =
        (d.visibility ++ (d.typeGap ++ d.type)) ++ (d.nameGap ++ (d.name ++ [';'])) := by
      rw [text, htail, List.nil_append, List.append_assoc, List.append_assoc]
    have hsolid : ∀ c ∈ d.name ++ [';'], isBlank c = false := by
      intro c hc
      obtain hc | hc := List.mem_append.mp hc
      · exact isBlank_eq_false_of_isWord (h.name.2 c hc)
      · rw [List.mem_singleton.mp hc, isBlank_semicolon]
    have hname : d.name.filter (· ≠ ';') = d.name := by
      refine List.filter_eq_self.mpr fun c hc => decide_eq_true ?_
      rintro rfl
      exact absurd (h.name.2 _ hc) (by decide)
    rw [identifier, htext, getLast?_words h.nameGap (by simp) hsolid, if_pos htail,
      Option.getD_some, List.filter_append, hname]
    exact List.append_nil _
  · have htext : d.text =
        (d.visibility ++ (d.typeGap ++ (d.type ++ (d.nameGap ++ d.name)))) ++
          (d.tail ++ [';']) := by
      simp only [text, List.append_assoc]
    have hsolid : ∀ c ∈ [';'], isBlank c = false :=
      List.forall_mem_singleton.mpr isBlank_semicolon
    rw [identifier, htext, getLast?_words ⟨htail, h.tail⟩ (by simp) hsolid, if_neg htail]
    rfl

end Declaration

namespace FieldDeclaration

open Text

variable {s rest word : Text} {before : Option Char} {size : Nat} {found : FieldDeclaration}

theorem spacedWord?_eq_some_iff : spacedWord? s = some (word, rest) ↔
    ∃ gap, IsRun isBlank gap ∧ IsRun isWord word ∧ rest.head?.any isWord = false ∧
      s = gap ++ (word ++ rest) :=
  Header.name?_eq_some_iff

theorem afterBlanks?_semicolon_iff : Header.afterBlanks? ';' s = some rest ↔
    ∃ gap : Text, (∀ c ∈ gap, isBlank c = true) ∧ s = gap ++ ';' :: rest :=
  Header.afterBlanks?_eq_some_iff isBlank_semicolon

theorem head?_visibility {v : Text} (hv : v ∈ visibilities) (rest : Text) :
    (v ++ rest).head?.any isWord = true := by
  simp only [visibilities, List.mem_cons, List.not_mem_nil, or_false] at hv
  have hword : isWord 'p' = true := by decide
  obtain rfl | rfl | rfl := hv
  · exact hword
  · exact hword
  · exact hword

/-- No word of visibility begins with another one. -/
theorem findSome?_visibility {v : Text} (hv : v ∈ visibilities) (rest : Text) :
    visibilities.findSome? (after? · (v ++ rest)) = some rest := by
  simp only [visibilities, List.mem_cons, List.not_mem_nil, or_false] at hv
  obtain rfl | rfl | rfl := hv
  · rfl
  · rfl
  · rfl

theorem behindVisibility?_eq_some_iff (hrest : rest.head?.any isBlank = true) :
    behindVisibility? before s = some rest ↔
      ∃ v, (v = [] ∨ v ∈ visibilities) ∧ s = v ++ rest ∧
        before.any isWord ≠ s.head?.any isWord := by
  have hrestWord : rest.head?.any isWord = false := by
    cases rest with
    | nil => rfl
    | cons c rest => exact isWord_eq_false_of_isBlank hrest
  have hstart : startsWord before = !before.any isWord := rfl
  unfold behindVisibility?
  cases hbefore : before.any isWord with
  | true =>
    rw [hstart, hbefore]
    constructor
    · intro h
      obtain rfl := Option.some.inj h
      exact ⟨[], .inl rfl, rfl, by rw [hrestWord]; decide⟩
    · rintro ⟨v, hv, rfl, hboundary⟩
      obtain rfl | hv := hv
      · rfl
      · rw [head?_visibility hv rest] at hboundary
        contradiction
  | false =>
    rw [hstart, hbefore]
    change visibilities.findSome? (after? · s) = some rest ↔ _
    constructor
    · intro h
      obtain ⟨v, hv, hafter⟩ := List.exists_of_findSome?_eq_some h
      obtain rfl := after?_eq_some_iff.mp hafter
      exact ⟨v, .inr hv, rfl, by rw [head?_visibility hv rest]; decide⟩
    · rintro ⟨v, hv, rfl, hboundary⟩
      obtain rfl | hv := hv
      · rw [List.nil_append, hrestWord] at hboundary
        contradiction
      · exact findSome?_visibility hv rest

theorem head?_of_isPrefix {t : Text} (hne : t ≠ []) (h : t <+: s) : s.head? = t.head? := by
  obtain ⟨c, t, rfl⟩ := List.exists_cons_of_ne_nil hne
  obtain ⟨more, rfl⟩ := h
  rfl

/-- The semicolon follows the name at once if no blanks stand before it. -/
theorem closed_eq_isEmpty {gap : Text} (hgap : ∀ c ∈ gap, isBlank c = true) (rest : Text) :
    decide ((gap ++ ';' :: rest).head? = some ';') = gap.isEmpty := by
  cases gap with
  | nil => rfl
  | cons c gap =>
    refine decide_eq_false fun h => ?_
    obtain rfl : c = ';' := Option.some.inj h
    exact absurd (hgap _ List.mem_cons_self) (by decide)

/-- The recogniser finds exactly the declarations. -/
theorem recognise_eq_some_iff : recognise before s = some (size, found) ↔
    ∃ d : Declaration, d.Admits before ∧ d.text <+: s ∧ d.text.length = size ∧ d.found = found := by
  constructor
  · intro h
    obtain ⟨behind, hvisibility, h⟩ := Option.bind_eq_some_iff.mp h
    obtain ⟨⟨type, behindType⟩, htype, h⟩ := Option.bind_eq_some_iff.mp h
    obtain ⟨⟨name, behindName⟩, hname, h⟩ := Option.bind_eq_some_iff.mp h
    obtain ⟨rest, htail, h⟩ := Option.bind_eq_some_iff.mp h
    obtain ⟨rfl, rfl⟩ := Prod.mk.inj (Option.some.inj h)
    obtain ⟨tail, htailBlank, rfl⟩ := afterBlanks?_semicolon_iff.mp htail
    obtain ⟨nameGap, hnameGap, hnameWord, -, rfl⟩ := spacedWord?_eq_some_iff.mp hname
    obtain ⟨typeGap, htypeGap, htypeWord, -, rfl⟩ := spacedWord?_eq_some_iff.mp htype
    obtain ⟨visibility, hword, rfl, hboundary⟩ :=
      (behindVisibility?_eq_some_iff (htypeGap.any_head? _)).mp hvisibility
    let d : Declaration := ⟨visibility, typeGap, type, nameGap, name, tail⟩
    have htext : d.text ++ rest =
        visibility ++ (typeGap ++ (type ++ (nameGap ++ (name ++ (tail ++ ';' :: rest))))) :=
      d.text_append rest
    have hprefix : d.text <+: visibility ++
        (typeGap ++ (type ++ (nameGap ++ (name ++ (tail ++ ';' :: rest))))) := ⟨rest, htext⟩
    refine ⟨d, ⟨?_, hword, htypeGap, htypeWord, hnameGap, hnameWord, htailBlank⟩, hprefix, ?_, ?_⟩
    · rwa [← head?_of_isPrefix d.text_ne_nil hprefix]
    · rw [← htext, List.length_append, Nat.add_sub_cancel]
    · exact congrArg (FieldDeclaration.mk name) (closed_eq_isEmpty htailBlank rest).symm
  · rintro ⟨d, hd, ⟨rest, rfl⟩, rfl, rfl⟩
    have hboundary : before.any isWord ≠ (d.text ++ rest).head?.any isWord := by
      rw [head?_of_isPrefix d.text_ne_nil (List.prefix_append _ rest)]
      exact hd.boundary
    have hlength : (d.text ++ rest).length - rest.length = d.text.length := by
      rw [List.length_append, Nat.add_sub_cancel]
    have hclosed := closed_eq_isEmpty hd.tail rest
    rw [d.text_append] at hboundary hlength ⊢
    have hvisibility : behindVisibility? before (d.visibility ++ _) = some _ :=
      (behindVisibility?_eq_some_iff (hd.typeGap.any_head? _)).mpr
        ⟨d.visibility, hd.visibility, rfl, hboundary⟩
    have htype (behind : Text) : spacedWord? (d.typeGap ++ (d.type ++ (d.nameGap ++ behind))) =
        some (d.type, d.nameGap ++ behind) :=
      spacedWord?_eq_some_iff.mpr ⟨d.typeGap, hd.typeGap, hd.type,
        hd.nameGap.head?_append isWord (fun _ => isWord_eq_false_of_isBlank) _, rfl⟩
    have hbehindName : (d.tail ++ ';' :: rest).head?.any isWord = false :=
      Header.any_head?_behindName hd.tail (by decide) rest
    have hname : spacedWord? (d.nameGap ++ (d.name ++ (d.tail ++ ';' :: rest))) =
        some (d.name, d.tail ++ ';' :: rest) :=
      spacedWord?_eq_some_iff.mpr ⟨d.nameGap, hd.nameGap, hd.name, hbehindName, rfl⟩
    have htail : Header.afterBlanks? ';' (d.tail ++ ';' :: rest) = some rest :=
      afterBlanks?_semicolon_iff.mpr ⟨d.tail, hd.tail, rfl⟩
    refine Option.bind_eq_some_iff.mpr ⟨_, hvisibility, Option.bind_eq_some_iff.mpr ⟨_, htype _,
      Option.bind_eq_some_iff.mpr ⟨_, hname, Option.bind_eq_some_iff.mpr ⟨_, htail, ?_⟩⟩⟩⟩
    rw [hlength, hclosed]
    rfl

/-- What the hits in a text are: declarations in order that do not overlap, and wherever there is
one, it is a hit or begins inside of one. The name of a hit is its identifier, if it has one. -/
theorem scan_spec (s : Text) :
    (∀ hit ∈ s.scan recognise, ∃ d : Declaration, d.Admits (s.take hit.start).getLast? ∧
      d.text = (s.drop hit.start).take hit.size ∧ d.found = hit.value ∧
      Declaration.identifier d.text = if hit.value.closed then hit.value.name else []) ∧
    (s.scan recognise).Pairwise (fun hit hit' => hit.start + hit.size ≤ hit'.start) ∧
    ∀ (offset : Nat) (d : Declaration), d.Admits (s.take offset).getLast? →
      d.text <+: s.drop offset → ∃ hit ∈ s.scan recognise,
        hit = ⟨offset, d.text.length, d.found⟩ ∨
          hit.start < offset ∧ offset < hit.start + hit.size := by
  refine ⟨fun hit hhit => ?_, pairwise_scan _ s, fun offset d hd hprefix => ?_⟩
  · obtain ⟨-, hanswer⟩ := answerAt_of_mem_scan hhit
    obtain ⟨d, hd, hprefix, hsize, hfound⟩ := recognise_eq_some_iff.mp hanswer
    refine ⟨d, hd, hsize ▸ List.prefix_iff_eq_take.mp hprefix, hfound, ?_⟩
    rw [hd.identifier_text, ← hfound]
    cases htail : d.tail <;> simp [Declaration.found, htail]
  · have hanswer : answerAt recognise s offset = some (d.text.length, d.found) :=
      recognise_eq_some_iff.mpr ⟨d, hd, hprefix, rfl, rfl⟩
    have hlt : offset < s.length := by
      have hlength := hprefix.length_le
      have hpos := List.length_pos_iff.mpr d.text_ne_nil
      rw [List.length_drop] at hlength
      omega
    obtain ⟨hit, hhit, hstart | hinside⟩ := exists_mem_scan hlt hanswer
    · obtain ⟨-, hhitAnswer⟩ := answerAt_of_mem_scan hhit
      rw [hstart, hanswer] at hhitAnswer
      obtain ⟨hsize, hvalue⟩ := Prod.mk.inj (Option.some.inj hhitAnswer)
      exact ⟨hit, hhit, .inl (by rw [hsize, hvalue, ← hstart])⟩
    · exact ⟨hit, hhit, .inr hinside⟩

end FieldDeclaration

namespace Rule

open Text

/-- Whether a declaration that was found is reported under a threshold: it has an identifier, which
occurs more rarely than that. -/
def reports (s : Text) (n : Int) (hit : Hit FieldDeclaration) : Bool :=
  let name := Declaration.identifier ((s.drop hit.start).take hit.size)
  !name.isEmpty && decide ((count name s : Int) < n)

def rareField : Smell where
  category := .text "Object-Orientation Abusers"
  name := .text "Temporary Field"
  description := .text "Field is used in very few places"

variable {ctx : Context} {s : Text} {v : Value} {n : Int}

theorem reports_of_mem_scan {hit : Hit FieldDeclaration}
    (h : hit ∈ s.scan FieldDeclaration.recognise) (n : Int) :
    reports s n hit = (decide ((count hit.value.name s : Int) < n) && hit.value.closed) := by
  obtain ⟨d, hd, htext, hfound, hidentifier⟩ := (FieldDeclaration.scan_spec s).1 hit h
  have hname : hit.value.name ≠ [] := hfound ▸ hd.name.1
  rw [reports, ← htext, hidentifier]
  cases hit.value.closed with
  | true => simp [hname]
  | false => simp

theorem fieldNames_eq (s : Text) : s.fieldNames =
    ((s.scan FieldDeclaration.recognise).filter (·.value.closed)).map (·.value.name) := by
  unfold fieldNames
  induction s.scan FieldDeclaration.recognise with
  | nil => rfl
  | cons hit hits ih =>
    cases hclosed : hit.value.closed with
    | true => simp [hclosed, ih]
    | false => simp [hclosed, ih]

theorem scan_temporaryField_eq (hraw : ctx.raw = .text s)
    (hthreshold : ctx.threshold temporaryField.id .temporaryFieldMinUses = .ok v)
    (hv : v.number? = some (.int n)) :
    temporaryField.scan ctx =
      .ok (((s.scan FieldDeclaration.recognise).filter (reports s n)).map fun _ => rareField) := by
  have hrare : (s.fieldNames.filterM fun name =>
      Fault.lift ((Value.nat (count name s)).lt v)) =
      .ok (s.fieldNames.filter fun name => decide ((count name s : Int) < n)) := by
    refine filterM_ok fun name _ => ?_
    rw [Value.lt_of_number? (v := .nat (count name s)) (m := count name s) rfl hv]
    rfl
  have hfind : temporaryField.find (ctx.threshold temporaryField.id) ctx =
      .ok ((s.fieldNames.filter fun name => decide ((count name s : Int) < n)).map
        fun _ => "Field is used in very few places") := by
    refine (bind_eq_of_eq_ok (congrArg Fault.lift hthreshold) _).trans ?_
    refine (bind_eq_of_eq_ok (Context.searched_of_raw hraw) _).trans ?_
    exact bind_eq_of_eq_ok hrare _
  rw [scan_of_find hfind, fieldNames_eq, List.filter_map, List.filter_filter,
    List.filter_congr fun hit hhit => reports_of_mem_scan hhit n]
  rw [List.map_map, List.map_map]
  rfl

/-- Where the threshold is a whole number, there is one smell for each declaration in the text whose
identifier is rare, and no other one. -/
theorem scan_temporaryField (hraw : ctx.raw = .text s)
    (hthreshold : ctx.threshold temporaryField.id .temporaryFieldMinUses = .ok v)
    (hv : v.number? = some (.int n)) :
    temporaryField.scan ctx =
      .ok (((s.scan FieldDeclaration.recognise).filter (reports s n)).map fun _ => rareField) ∧
    (∀ hit ∈ s.scan FieldDeclaration.recognise, ∃ d : Declaration,
      d.Admits (s.take hit.start).getLast? ∧ d.text = (s.drop hit.start).take hit.size ∧
      d.found = hit.value ∧
      (reports s n hit = true ↔ d.tail = [] ∧ (count d.name s : Int) < n)) ∧
    (s.scan FieldDeclaration.recognise).Pairwise
      (fun hit hit' => hit.start + hit.size ≤ hit'.start) ∧
    ∀ (offset : Nat) (d : Declaration), d.Admits (s.take offset).getLast? →
      d.text <+: s.drop offset → ∃ hit ∈ s.scan FieldDeclaration.recognise,
        hit = ⟨offset, d.text.length, d.found⟩ ∨
          hit.start < offset ∧ offset < hit.start + hit.size := by
  obtain ⟨hhits, hpairwise, hleftmost⟩ := FieldDeclaration.scan_spec s
  refine ⟨scan_temporaryField_eq hraw hthreshold hv, fun hit hhit => ?_, hpairwise, hleftmost⟩
  obtain ⟨d, hd, htext, hfound, -⟩ := hhits hit hhit
  refine ⟨d, hd, htext, hfound, ?_⟩
  rw [reports_of_mem_scan hhit, ← hfound, Bool.and_eq_true, decide_eq_true_eq, and_comm]
  exact and_congr List.isEmpty_iff Iff.rfl

/-- Of three fields one is rare, one has its semicolon set apart, and one occurs often enough. -/
theorem scan_temporaryField_three :
    let s : Text := "public int x1;\nstatic String y2 ;\nprotected List z3;\nz3 = z3 + x1;".toList
    temporaryField.scan (.ofSource (.text s) none .firstBrace) = .ok [rareField] := by
  intro s
  let ctx : Context := .ofSource (.text s) none .firstBrace
  have hraw : ctx.raw = .text s := rfl
  obtain ⟨hscan, -⟩ := scan_temporaryField hraw (v := .int 3) (n := 3) rfl rfl
  have hone : ((s.scan FieldDeclaration.recognise).filter (reports s 3)).length = 1 := by
    decide +kernel
  obtain ⟨hit, hhit⟩ := List.length_eq_one_iff.mp hone
  rw [hhit] at hscan
  exact hscan

/-- A field whose semicolon is set apart from its name is not reported, although its name occurs
only once. -/
theorem scan_temporaryField_spaced :
    let s : Text := "private int count ;".toList
    let ctx := Context.ofSource (.text s) none .firstBrace
    temporaryField.scan ctx = .ok [] ∧
      s.scan FieldDeclaration.recognise = [⟨0, 19, ⟨"count".toList, false⟩⟩] ∧
      count "count".toList s = 1 ∧
      ctx.threshold temporaryField.id .temporaryFieldMinUses = .ok (.int 3) := by
  intro s ctx
  have hscan : s.scan FieldDeclaration.recognise = [⟨0, 19, ⟨"count".toList, false⟩⟩] := by
    decide +kernel
  have hnone : (s.scan FieldDeclaration.recognise).filter (reports s 3) = [] := by decide +kernel
  have hraw : ctx.raw = .text s := rfl
  refine ⟨?_, hscan, by decide +kernel, rfl⟩
  rw [scan_temporaryField_eq hraw (v := .int 3) (n := 3) rfl rfl, hnone]
  rfl

end Rule

end CodeHealth
