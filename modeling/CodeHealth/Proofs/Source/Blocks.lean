import CodeHealth.Proofs.Source.Headers

/-!
# What the two scanners make of one text

The scanners recognise the same headers, but they do not ask for them at the same places: one goes
on behind the body of a block and the other right behind its header. On nested blocks, and where the
parameters of a header hold braces or other headers, their blocks drift apart.

What they keep in common follows from one observation: the brace that closes a balanced block is a
closing brace behind its header (`length_body_lt`). At the start of a balanced block the first-brace
scanner therefore would have an answer. If it is not asked there, one of its blocks covers the
place; and if it is, its block ends no later (`balanced_firstBrace`).
-/

namespace CodeHealth

namespace Text

/-- The characters in front of the first `c` are fewer than those among which there is a `c`. -/
theorem length_takeWhile_lt {c : Char} {s : Text} {n : Nat} (h : c ∈ s.take n) :
    (s.takeWhile (· != c)).length < n ∧ (s.takeWhile (· != c)).length < s.length := by
  induction s generalizing n with
  | nil => simp at h
  | cons d s ih =>
    cases n with
    | zero => contradiction
    | succ n =>
      by_cases hd : d = c
      · simp [hd]
      · have hmem : c ∈ s.take n := by simpa [Ne.symm hd] using h
        have hs := ih hmem
        simpa [List.takeWhile_cons, hd] using hs

theorem length_lines (s : Text) : s.lines.length = List.count '\n' s + 1 := by
  induction s with
  | nil => rfl
  | cons c s ih =>
    rw [lines, List.splitOn] at ih
    rw [lines, List.splitOn, List.splitOnP_cons_eq_if_modifyHead, List.count_cons]
    split
    · rw [List.length_cons, ih]
    · rw [List.length_modifyHead, ih, Nat.add_zero]

/-- A beginning of a text has no more lines than the text. -/
theorem length_lines_le {s t : Text} (h : s <+: t) : s.lines.length ≤ t.lines.length := by
  rw [length_lines, length_lines]
  exact Nat.succ_le_succ (h.count_le '\n')

end Text

/-! ### Headers -/

namespace Header

variable {kind kind' : BlockKind} {s : Text} {header header' : Header}
  {before : Option Char} {size : Nat}

/-- The text behind a header up to the first closing brace. -/
def body (header : Header) : Text :=
  header.rest.takeWhile (· != '\x7d')

/-- A header begins with a keyword of its kind and ends with an opening brace. -/
theorem exists_of_begins? (h : begins? kind s = some header) :
    ∃ word ∈ kind.keywords, ∃ behind, s = word ++ behind ∧ '\x7b' :: header.rest <:+ behind := by
  obtain ⟨text, hwritten, rfl⟩ := begins?_eq_some_iff.mp h
  obtain ⟨word, hword, behind, rfl⟩ := hwritten.exists_append
  exact ⟨word, hword, behind ++ '\x7b' :: header.rest, by simp, List.suffix_append _ _⟩

/-- A method and a class do not begin alike. -/
theorem kind_eq_of_head? :
    ∀ word ∈ kind.keywords, ∀ word' ∈ kind'.keywords, word.head? = word'.head? → kind = kind' := by
  cases kind <;> cases kind' <;> decide

theorem head?_of_begins? (h : begins? kind s = some header) :
    ∃ word ∈ kind.keywords, s.head? = word.head? := by
  obtain ⟨word, hword, behind, rfl, -⟩ := exists_of_begins? h
  refine ⟨word, hword, ?_⟩
  have hne : word ≠ [] := by
    rintro rfl
    cases kind <;> revert hword <;> decide
  obtain ⟨c, more, rfl⟩ := List.exists_cons_of_ne_nil hne
  rfl

theorem kind_eq_of_begins? (h : begins? kind s = some header)
    (h' : begins? kind' s = some header') : kind = kind' := by
  obtain ⟨word, hword, hs⟩ := head?_of_begins? h
  obtain ⟨word', hword', hs'⟩ := head?_of_begins? h'
  exact kind_eq_of_head? word hword word' hword' (hs.symm.trans hs')

/-- A recognised header takes everything up to its opening brace, and that brace. -/
theorem exists_of_recognise (h : recognise kind before s = some (size, header)) :
    begins? kind s = some header ∧ 0 < size ∧ size + header.rest.length = s.length := by
  obtain ⟨_, -, h⟩ := Option.bind_eq_some_iff.mp h
  obtain ⟨found, hfound, h⟩ := Option.bind_eq_some_iff.mp h
  obtain ⟨rfl, rfl⟩ := Prod.mk.inj (Option.some.inj h)
  obtain ⟨word, -, behind, rfl, hsuffix⟩ := exists_of_begins? hfound
  have hlength := hsuffix.length_le
  rw [List.length_cons] at hlength
  rw [List.length_append]
  exact ⟨hfound, by omega, by omega⟩

end Header

/-- What a block says about the text in which it was found: a header begins at its start, which
gives its kind, name and parameters, and its own text is cut off behind `size` characters. -/
structure Block.Headed (b : Block) (s : Text) (front : Nat) (header : Header) (size : Nat) :
    Prop where
  start_lt : b.start < s.length
  begins : Text.answerAt (Header.recognise b.kind) s b.start = some (front, header)
  name : b.name = header.name
  parameters : b.parameters = header.parameters
  text : b.text = (s.drop b.start).take size

/-- Where two blocks begin at the same place, they begin with the same header. -/
theorem Block.Headed.agree {b b' : Block} {s : Text} {front front' size size' : Nat}
    {header header' : Header} (h : b.Headed s front header size)
    (h' : b'.Headed s front' header' size') (hstart : b'.start = b.start) :
    b'.kind = b.kind ∧ front' = front ∧ header' = header := by
  have hb := h.begins
  have hb' := h'.begins
  rw [hstart] at hb'
  have hkind := Header.kind_eq_of_begins? (Header.exists_of_recognise hb').1
    (Header.exists_of_recognise hb).1
  rw [hkind, hb] at hb'
  obtain ⟨rfl, rfl⟩ := Prod.mk.inj (Option.some.inj hb')
  exact ⟨hkind, rfl, rfl⟩

namespace Scanner

open Header

variable {kind : BlockKind} {s : Text} {header : Header} {before : Option Char}
  {front size length offset : Nat} {b r : Block}

/-! ### The closing brace -/

/-- What closes the open braces of some tokens is a closing brace among their characters. -/
theorem mem_take_of_closing? {depth : Nat} {ts : List Token} (h : closing? depth ts = some length) :
    '\x7d' ∈ (ts.flatMap Token.text).take length := by
  fun_induction closing? depth ts generalizing length with
  | case1 => contradiction
  | case2 depth rest ih =>
    obtain ⟨n, hn, rfl⟩ := Option.map_eq_some_iff.mp h
    exact List.mem_cons_of_mem _ (ih hn)
  | case3 depth rest hdepth =>
    obtain rfl := Option.some.inj h
    exact List.mem_cons_self
  | case4 depth rest hdepth ih =>
    obtain ⟨n, hn, rfl⟩ := Option.map_eq_some_iff.mp h
    exact List.mem_cons_self
  | case5 depth t rest _ _ ih =>
    obtain ⟨n, hn, rfl⟩ := Option.map_eq_some_iff.mp h
    rw [List.flatMap_cons, Nat.add_comm, List.take_length_add_append]
    exact List.mem_append_right _ (ih hn)

/-- A balanced block does not end before the first closing brace behind its header. -/
theorem length_body_lt (h : balancedLength? ('\x7b' :: header.rest) = some length) :
    header.body.length + 1 < length ∧ header.body.length < header.rest.length := by
  have hmem := mem_take_of_closing? h
  rw [Text.flatMap_text_tokens] at hmem
  cases length with
  | zero => contradiction
  | succ n =>
    have hrest : '\x7d' ∈ header.rest.take n := by simpa using hmem
    obtain ⟨hn, hlength⟩ := Text.length_takeWhile_lt hrest
    exact ⟨Nat.succ_lt_succ hn, hlength⟩

theorem firstBraceBlock_of_recognise (h : recognise kind before s = some (front, header))
    (hbody : header.body.length < header.rest.length) :
    firstBraceBlock kind before s = some (front + header.body.length + 1, header) := by
  have hguard : (guard (header.body.length < header.rest.length) : Option Unit) = some () :=
    if_pos hbody
  exact Option.bind_eq_some_iff.mpr
    ⟨(front, header), h, Option.bind_eq_some_iff.mpr ⟨(), hguard, rfl⟩⟩

theorem exists_of_firstBraceBlock (h : firstBraceBlock kind before s = some (size, header)) :
    ∃ front, recognise kind before s = some (front, header) ∧
      header.body.length < header.rest.length ∧ size = front + header.body.length + 1 := by
  obtain ⟨⟨front, found⟩, hfound, h⟩ := Option.bind_eq_some_iff.mp h
  obtain ⟨_, hbody, h⟩ := Option.bind_eq_some_iff.mp h
  obtain ⟨rfl, rfl⟩ := Prod.mk.inj (Option.some.inj h)
  exact ⟨front, hfound, Text.prop_of_guard hbody, rfl⟩

theorem size_le_of_firstBraceBlock (h : firstBraceBlock kind before s = some (size, header)) :
    0 < size ∧ size ≤ s.length := by
  obtain ⟨front, hfront, hbody, rfl⟩ := exists_of_firstBraceBlock h
  obtain ⟨-, -, hlength⟩ := exists_of_recognise hfront
  omega

/-! ### Blocks of one text -/

theorem headed_of_mem_firstBrace (h : r ∈ blocks .firstBrace kind s) :
    ∃ front header, r.Headed s front header (front + header.body.length + 1) := by
  obtain ⟨hit, hhit, rfl⟩ := List.mem_map.mp h
  obtain ⟨hlt, hanswer⟩ := Text.answerAt_of_mem_scan hhit
  obtain ⟨front, hfront, -, hsize⟩ := exists_of_firstBraceBlock hanswer
  exact ⟨front, hit.value, hlt, hfront, rfl, rfl, by rw [hsize]⟩

theorem headed_of_mem_balanced (h : b ∈ blocks .balanced kind s) :
    b.kind = kind ∧ ∃ front header length, b.Headed s front header (front - 1 + length) ∧
      balancedLength? ('\x7b' :: header.rest) = some length := by
  obtain ⟨hit, hhit, hblock⟩ := List.mem_filterMap.mp h
  obtain ⟨length, hlength, rfl⟩ := Option.map_eq_some_iff.mp hblock
  obtain ⟨hlt, hanswer⟩ := Text.answerAt_of_mem_scan hhit
  exact ⟨rfl, hit.size, hit.value, length, ⟨hlt, hanswer, rfl, rfl, rfl⟩, hlength⟩

/-- The text of a block is as long as what its match takes, and it is not empty. -/
theorem length_text_of_mem_scan {hit : Hit Header}
    (h : hit ∈ Text.scan (firstBraceBlock kind) s) :
    0 < hit.size ∧ ((s.drop hit.start).take hit.size).length = hit.size := by
  obtain ⟨-, hanswer⟩ := Text.answerAt_of_mem_scan h
  obtain ⟨hpos, hsize⟩ := size_le_of_firstBraceBlock hanswer
  exact ⟨hpos, List.length_take_of_le hsize⟩

/-- Where a block could end at the first brace, such a block begins or covers the place. -/
theorem exists_mem_firstBrace {answer : Nat × Header} (hlt : offset < s.length)
    (h : Text.answerAt (firstBraceBlock kind) s offset = some answer) :
    ∃ r ∈ blocks .firstBrace kind s, r.start ≤ offset ∧ offset < r.start + r.text.length := by
  obtain ⟨hit, hhit, hplace⟩ := Text.exists_mem_scan hlt h
  refine ⟨_, List.mem_map_of_mem hhit, ?_⟩
  obtain ⟨hpos, hlength⟩ := length_text_of_mem_scan hhit
  dsimp only
  omega

/-- Every balanced block begins at the start of a block that ends at the first brace, or inside one.
Where blocks of the two scanners begin at the same place, whatever their kinds, they agree in kind,
name and parameters, and the one that ends at the first brace is a beginning of the other. -/
theorem balanced_firstBrace (kind : BlockKind) (s : Text) :
    ∀ b ∈ blocks .balanced kind s,
      (∃ r ∈ blocks .firstBrace kind s,
        r.start ≤ b.start ∧ b.start < r.start + r.text.length) ∧
      ∀ kind', ∀ r ∈ blocks .firstBrace kind' s, r.start = b.start →
        r.kind = b.kind ∧ r.name = b.name ∧ r.parameters = b.parameters ∧ r.text <+: b.text ∧
          r.lineCount ≤ b.lineCount := by
  intro b hb
  obtain ⟨rfl, front, header, length, hheaded, hlength⟩ := headed_of_mem_balanced hb
  obtain ⟨hbefore, hwithin⟩ := length_body_lt hlength
  constructor
  · exact exists_mem_firstBrace hheaded.start_lt
      (firstBraceBlock_of_recognise hheaded.begins hwithin)
  · intro kind' r hr hstart
    obtain ⟨front', header', hheaded'⟩ := headed_of_mem_firstBrace hr
    obtain ⟨hkind, rfl, rfl⟩ := hheaded.agree hheaded' hstart
    have htext : r.text <+: b.text := by
      rw [hheaded.text, hheaded'.text, hstart]
      exact List.take_prefix_take_left (by omega)
    exact ⟨hkind, hheaded'.name.trans hheaded.name.symm,
      hheaded'.parameters.trans hheaded.parameters.symm, htext, Text.length_lines_le htext⟩

/-- A block inside another one, with a closing brace in a literal. -/
theorem balanced_firstBrace_nested :
    let s := "def a() \x7b def b(x) \x7b '\x7d' \x7d \x7d".toList
    let outer : Block := ⟨.method, "a".toList, s, [], 0⟩
    let inner : Block :=
      ⟨.method, "b".toList, "def b(x) \x7b '\x7d' \x7d".toList, "x".toList, 10⟩
    let short : Block :=
      ⟨.method, "a".toList, "def a() \x7b def b(x) \x7b '\x7d".toList, [], 0⟩
    blocks .balanced .method s = [outer, inner] ∧ blocks .firstBrace .method s = [short] ∧
      (∃ r ∈ [short], r.start ≤ inner.start ∧ inner.start < r.start + r.text.length) ∧
      short.name = outer.name ∧ short.text <+: outer.text ∧
      short.lineCount ≤ outer.lineCount := by
  intro s outer inner short
  have hbalanced : blocks .balanced .method s = [outer, inner] := by decide +kernel
  have hfirst : blocks .firstBrace .method s = [short] := by decide +kernel
  have houter : outer ∈ blocks .balanced .method s := hbalanced ▸ List.mem_cons_self
  have hinner : inner ∈ blocks .balanced .method s :=
    hbalanced ▸ List.mem_cons_of_mem _ List.mem_cons_self
  have hshort : short ∈ blocks .firstBrace .method s := hfirst ▸ List.mem_cons_self
  obtain ⟨hcovered, -⟩ := balanced_firstBrace .method s inner hinner
  obtain ⟨-, hagree⟩ := balanced_firstBrace .method s outer houter
  obtain ⟨-, hname, -, htext, hlines⟩ := hagree .method short hshort rfl
  exact ⟨hbalanced, hfirst, hfirst ▸ hcovered, hname, htext, hlines⟩

end Scanner

end CodeHealth
