import CodeHealth.Proofs.Source.Blocks

/-!
# What the first-brace scanner finds

A block of the first-brace scanner is a header, a body without closing braces, and a closing brace.
The blocks stand in the order of the text and share no character. Nothing that could be a block is
lost without a trace: wherever a header is written and a closing brace comes behind it, a block
begins there or covers the place (`Scanner.firstBrace_spans`). What is covered is not reported on
its own, be it in the body of another block or in the parameters of its header.
-/

namespace CodeHealth

open Text

/-- A text with a closing brace goes on with one behind the body. -/
theorem Header.exists_rest_eq {header : Header} (h : header.body.length < header.rest.length) :
    '\x7d' ∉ header.body ∧ ∃ more, header.rest = header.body ++ '\x7d' :: more := by
  have hnone : '\x7d' ∉ header.body := fun hmem =>
    absurd (all_takeWhile (· != '\x7d') header.rest _ hmem) (by decide)
  have hsplit : header.body ++ header.rest.dropWhile (· != '\x7d') = header.rest :=
    List.takeWhile_append_dropWhile
  have hhead := head?_dropWhile (· != '\x7d') header.rest
  refine ⟨hnone, ?_⟩
  cases hdrop : header.rest.dropWhile (· != '\x7d') with
  | nil =>
    rw [hdrop, List.append_nil] at hsplit
    rw [hsplit] at h
    exact absurd h (Nat.lt_irrefl _)
  | cons c more =>
    rw [hdrop] at hsplit hhead
    obtain rfl : c = '\x7d' := by simpa using hhead
    exact ⟨more, hsplit.symm⟩

namespace Scanner

variable {kind : BlockKind} {s : Text} {b : Block} {offset : Nat}

/-- The spans of the blocks follow each other and do not overlap. -/
theorem pairwise_firstBrace (kind : BlockKind) (s : Text) :
    (blocks .firstBrace kind s).Pairwise fun b b' =>
      b.start < b'.start ∧ b.start + b.text.length ≤ b'.start := by
  refine List.pairwise_map.mpr ((pairwise_scan (firstBraceBlock kind) s).imp_of_mem ?_)
  intro hit hit' hhit _ hle
  obtain ⟨hpos, hlength⟩ := length_text_of_mem_scan hhit
  dsimp only
  omega

/-- A block is a header, a body without closing braces, and a closing brace. -/
theorem exists_parts_of_mem_firstBrace (h : b ∈ blocks .firstBrace kind s) :
    b.kind = kind ∧ b.text = (s.drop b.start).take b.text.length ∧
      startsWord (s.take b.start).getLast? = true ∧
      ∃ front body, Header.Written kind front b.name b.parameters ∧
        b.text = front ++ (body ++ ['\x7d']) ∧ '\x7d' ∉ body := by
  obtain ⟨hit, hhit, rfl⟩ := List.mem_map.mp h
  obtain ⟨-, hanswer⟩ := answerAt_of_mem_scan hhit
  obtain ⟨-, hlength⟩ := length_text_of_mem_scan hhit
  obtain ⟨size, hrecognise, hbody, hsize⟩ := exists_of_firstBraceBlock hanswer
  obtain ⟨hstart, front, hwritten, hdrop, rfl⟩ := Header.recognise_eq_some_iff.mp hrecognise
  obtain ⟨hnone, more, hrest⟩ := Header.exists_rest_eq hbody
  refine ⟨rfl, by rw [hlength], hstart, front, hit.value.body, hwritten, ?_, hnone⟩
  have htext : front ++ (hit.value.body ++ ['\x7d']) ++ more = s.drop hit.start := by
    rw [hdrop, hrest]
    simp
  have htake : hit.size = (front ++ (hit.value.body ++ ['\x7d'])).length := by
    simp only [hsize, List.length_append, List.length_singleton, Nat.add_assoc]
  change (s.drop hit.start).take hit.size = _
  rw [← htext, htake, List.take_left]

/-- Where a header is written with a closing brace behind it, a block begins or covers the place. -/
theorem exists_mem_of_written {front name parameters rest : Text}
    (hstart : startsWord (s.take offset).getLast? = true)
    (hwritten : Header.Written kind front name parameters) (hdrop : s.drop offset = front ++ rest)
    (hbrace : '\x7d' ∈ rest) :
    ∃ b ∈ blocks .firstBrace kind s, b.start ≤ offset ∧ offset < b.start + b.text.length := by
  have hrecognise : answerAt (Header.recognise kind) s offset =
      some (front.length, ⟨name, parameters, rest⟩) :=
    Header.recognise_eq_some_iff.mpr ⟨hstart, front, hwritten, hdrop, rfl⟩
  have hmem : '\x7d' ∈ rest.take rest.length := List.take_length.symm ▸ hbrace
  have hlt : offset < s.length := by
    have hlength := congrArg List.length hdrop
    have hpos := List.length_pos_of_mem hbrace
    rw [List.length_drop, List.length_append] at hlength
    omega
  exact exists_mem_firstBrace hlt
    (firstBraceBlock_of_recognise hrecognise (length_takeWhile_lt hmem).2)

/-- The blocks of a kind stand in the order of the text and do not overlap. Each is cut out of the
text where a word may begin, and consists of a header with its name and parameters, a body without
closing braces, and a closing brace. Every place at which a header with a closing brace behind it is
written lies in one of them. -/
theorem firstBrace_spans (kind : BlockKind) (s : Text) :
    (blocks .firstBrace kind s).Pairwise (fun b b' =>
      b.start < b'.start ∧ b.start + b.text.length ≤ b'.start) ∧
    (∀ b ∈ blocks .firstBrace kind s,
      b.kind = kind ∧ b.text = (s.drop b.start).take b.text.length ∧
      startsWord (s.take b.start).getLast? = true ∧
      ∃ front body, Header.Written kind front b.name b.parameters ∧
        b.text = front ++ (body ++ ['\x7d']) ∧ '\x7d' ∉ body) ∧
    ∀ (offset : Nat) (front name parameters rest : Text),
      startsWord (s.take offset).getLast? = true → Header.Written kind front name parameters →
      s.drop offset = front ++ rest → '\x7d' ∈ rest →
      ∃ b ∈ blocks .firstBrace kind s, b.start ≤ offset ∧ offset < b.start + b.text.length := by
  refine ⟨pairwise_firstBrace kind s, fun b hb => exists_parts_of_mem_firstBrace hb, ?_⟩
  intro offset front name parameters rest hstart hwritten hdrop hbrace
  exact exists_mem_of_written hstart hwritten hdrop hbrace

/-- A header in the parameters of another one is covered, and a header that is cut off is
no block. -/
theorem firstBrace_spans_covered :
    let s := "def f(def g() \x7b x \x7d def h() \x7b".toList
    let outer : Block :=
      ⟨.method, "f".toList, "def f(def g() \x7b x \x7d".toList, "def g(".toList, 0⟩
    blocks .firstBrace .method s = [outer] ∧
      Header.Written .method "def g() \x7b".toList "g".toList [] ∧
      s.drop 6 = "def g() \x7b".toList ++ " x \x7d def h() \x7b".toList ∧
      ∃ b ∈ [outer], b.start ≤ 6 ∧ 6 < b.start + b.text.length := by
  intro s outer
  have hblocks : blocks .firstBrace .method s = [outer] := by decide +kernel
  have hblank : IsRun isBlank " ".toList := ⟨by decide, List.all_eq_true.mp (by decide)⟩
  have hname : IsRun isWord "g".toList := ⟨by decide, List.all_eq_true.mp (by decide)⟩
  have hnone : ∀ c ∈ ([] : Text), isBlank c = true := List.forall_mem_nil _
  have hkeyword : "def".toList ∈ BlockKind.method.keywords := by decide
  have hwritten : Header.Written .method "def g() \x7b".toList "g".toList [] :=
    .method hkeyword hblank hname hnone List.not_mem_nil hblank.2
  have hdrop : s.drop 6 = "def g() \x7b".toList ++ " x \x7d def h() \x7b".toList := by decide
  have hstart : startsWord (s.take 6).getLast? = true := by decide
  obtain ⟨-, -, hcovered⟩ := firstBrace_spans .method s
  obtain ⟨b, hb, hplace⟩ := hcovered 6 _ _ _ _ hstart hwritten hdrop (by decide)
  exact ⟨hblocks, hwritten, hdrop, b, hblocks ▸ hb, hplace⟩

end Scanner

end CodeHealth
