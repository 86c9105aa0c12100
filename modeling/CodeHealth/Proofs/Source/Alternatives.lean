import CodeHealth.Proofs.Source.Decisions
import CodeHealth.Proofs.Text.Counting

/-!
# Every kind of decision point by itself

Ten recognisers are tried at a position, one for each kind of decision point. No two of them have an
answer at the same position, because no word or mark with which a kind begins is the beginning of
another one (`recognise_unique`). It does not matter, then, in which order they are tried
(`firstOf_eq_some_iff`).

Inside of a match there are no answers either, with two exceptions: a mark of two characters begins
again inside of itself, and the `if` of a pair is a word of its own (`inside_recognise`). So the
points of each kind can be counted by themselves (`length_found_recognise`).
-/

namespace CodeHealth.Decision

open Text

/-- All kinds of decision points, in the order in which they are tried. -/
def all : List Decision :=
  [.elseIf, .ifWord, .whileWord, .forWord, .caseWord, .catchWord, .returnWord, .ternary, .and, .or]

/-- The kinds that are a single word or mark. -/
def singles : List Decision :=
  all.filter fun d => d ≠ .elseIf

/-- Whether a decision point is a mark, which counts wherever it stands. -/
def isMark : Decision → Bool
  | .ternary | .and | .or => true
  | _ => false

/-- The word or mark with which a decision point begins. -/
def opening : Decision → Text
  | .elseIf => "else".toList
  | .ifWord => "if".toList
  | .whileWord => "while".toList
  | .forWord => "for".toList
  | .caseWord => "case".toList
  | .catchWord => "catch".toList
  | .returnWord => "return".toList
  | .ternary => "?".toList
  | .and => "&&".toList
  | .or => "||".toList

def recognise : Decision → Recogniser Unit
  | .elseIf => fun before s => (elseIf? before s).map fun (size, _) => (size, ())
  | d => if d.isMark then exactly d.opening else wholeWord d.opening

/-- Tries some kinds in order and recognises the first one that has an answer. -/
def firstOf (order : List Decision) : Recogniser Decision := fun before s =>
  order.findSome? fun d => (d.recognise before s).map fun (size, _) => (size, d)

variable {d d' : Decision} {before : Option Char} {s : Text} {size offset : Nat} {u : Unit}
  {order : List Decision}

theorem mem_all (d : Decision) : d ∈ all := by
  cases d <;> decide

theorem recognise_elseIf : elseIf.recognise before s = some (size, u) ↔
    elseIf? before s = some (size, .elseIf) := by
  constructor
  · intro h
    obtain ⟨⟨size, d⟩, hanswer, heq⟩ := Option.map_eq_some_iff.mp h
    obtain ⟨rfl, -⟩ := Prod.mk.inj heq
    obtain ⟨-, rfl, -⟩ := elseIf?_eq_some_iff.mp hanswer
    exact hanswer
  · intro h
    exact Option.map_eq_some_iff.mpr ⟨_, h, rfl⟩

/-- A word or a mark that is a decision point. -/
theorem recognise_single (hd : d ≠ .elseIf) : d.recognise before s = some (size, u) ↔
    (if d.isMark then exactly d.opening else wholeWord d.opening) before s = some (size, u) := by
  cases d with
  | elseIf => contradiction
  | _ => exact Iff.rfl

/-! ### How a decision point begins -/

/-- No word or mark with which a kind begins is the beginning of another one. -/
theorem eq_of_opening_isPrefix (h : d.opening <+: d'.opening) : d = d' := by
  have hall : ∀ d ∈ all, ∀ d' ∈ all, d.opening <+: d'.opening → d = d' := by decide
  exact hall d (mem_all d) d' (mem_all d') h

theorem exists_eq_opening_append (h : d.recognise before s = some (size, u)) :
    ∃ rest, s = d.opening ++ rest := by
  by_cases hd : d = .elseIf
  · subst hd
    obtain ⟨-, -, gap, rest, hs, -⟩ := elseIf?_eq_some_iff.mp (recognise_elseIf.mp h)
    exact ⟨_, hs⟩
  · rw [recognise_single hd] at h
    split at h
    · obtain ⟨rest, hs, -⟩ := exactly_eq_some_iff.mp h
      exact ⟨rest, hs⟩
    · obtain ⟨-, rest, hs, -⟩ := wholeWord_eq_some_iff.mp h
      exact ⟨rest, hs⟩

theorem startsWord_of_recognise (h : d.recognise before s = some (size, u))
    (hmark : d.isMark = false) : startsWord before = true := by
  by_cases hd : d = .elseIf
  · subst hd
    exact (elseIf?_eq_some_iff.mp (recognise_elseIf.mp h)).1
  · rw [recognise_single hd, if_neg (by rw [hmark]; decide)] at h
    exact (wholeWord_eq_some_iff.mp h).1

/-- At one position there is a decision point of one kind at most. -/
theorem recognise_unique {size' : Nat} {u' : Unit} (h : d.recognise before s = some (size, u))
    (h' : d'.recognise before s = some (size', u')) : d = d' := by
  obtain ⟨rest, rfl⟩ := exists_eq_opening_append h
  obtain ⟨rest', heq⟩ := exists_eq_opening_append h'
  obtain hbegins | hbegins := List.prefix_or_prefix_of_prefix
    (List.prefix_append d.opening rest) ⟨rest', heq.symm⟩
  · exact eq_of_opening_isPrefix hbegins
  · exact (eq_of_opening_isPrefix hbegins).symm

/-! ### The order in which the kinds are tried -/

/-- Whatever the order, at a position that kind is recognised which begins there. -/
theorem firstOf_eq_some_iff : firstOf order before s = some (size, d) ↔
    d ∈ order ∧ d.recognise before s = some (size, ()) := by
  have hanswers {answer : Nat × Decision} (h : firstOf order before s = some answer) :
      answer.2 ∈ order ∧ answer.2.recognise before s = some (answer.1, ()) := by
    obtain ⟨kind, hkind, hmap⟩ := List.exists_of_findSome?_eq_some h
    obtain ⟨⟨size, u⟩, hanswer, rfl⟩ := Option.map_eq_some_iff.mp hmap
    exact ⟨hkind, hanswer⟩
  refine ⟨fun h => hanswers h, fun ⟨hmem, hd⟩ => ?_⟩
  have hsome : (firstOf order before s).isSome = true :=
    List.findSome?_isSome_iff.mpr ⟨d, hmem, by rw [hd]; rfl⟩
  obtain ⟨⟨size', d'⟩, hfirst⟩ := Option.isSome_iff_exists.mp hsome
  obtain ⟨-, hd'⟩ := hanswers hfirst
  obtain rfl := recognise_unique hd hd'
  obtain ⟨rfl, -⟩ := Prod.mk.inj (Option.some.inj (hd.symm.trans hd'))
  exact hfirst

/-- Two orders of the same kinds recognise the same decision points. -/
theorem firstOf_congr {order' : List Decision} (h : ∀ d, d ∈ order ↔ d ∈ order') :
    firstOf order = firstOf order' := by
  funext before s
  refine Option.ext fun ⟨size, d⟩ => ?_
  exact firstOf_eq_some_iff.trans ((and_congr_left' (h d)).trans firstOf_eq_some_iff.symm)

theorem single?_eq_firstOf : single? = firstOf singles := by
  funext before s
  have hsingles : singles = [.ifWord, .whileWord, .forWord, .caseWord, .catchWord, .returnWord] ++
      [.ternary, .and, .or] := rfl
  rw [firstOf, hsingles, List.findSome?_append]
  simp only [single?, Option.orElse_eq_orElse, Option.orElse_eq_or]
  rfl

theorem begins?_eq_firstOf : begins? = firstOf all := by
  funext before s
  have hall : all = .elseIf :: singles := rfl
  rw [begins?_eq_or, single?_eq_firstOf, hall]
  cases hpair : elseIf? before s with
  | none =>
    have hnone : elseIf.recognise before s = none := by
      simp only [recognise, hpair, Option.map_none]
    rw [firstOf, firstOf, List.findSome?_cons, hnone]
    rfl
  | some answer =>
    obtain ⟨size, d⟩ := answer
    obtain ⟨-, rfl, -⟩ := elseIf?_eq_some_iff.mp hpair
    exact (firstOf_eq_some_iff.mpr ⟨List.mem_cons_self, recognise_elseIf.mpr hpair⟩).symm

/-! ### Inside of a match -/

/-- The words with which decision points begin are made of word characters. -/
theorem isWord_of_mem_opening (hmark : d.isMark = false) : ∀ c ∈ d.opening, isWord c = true := by
  have hall : (all.all fun d => d.isMark || d.opening.all isWord) = true := by decide +kernel
  have hd := List.all_eq_true.mp hall d (mem_all d)
  rw [hmark, Bool.false_or] at hd
  exact List.all_eq_true.mp hd

theorem head?_opening_isBlank (d : Decision) : d.opening.head?.any isBlank = false := by
  have hall : ∀ d ∈ all, d.opening.head?.any isBlank = false := by decide
  exact hall d (mem_all d)

theorem head?_opening_isWord (hmark : d.isMark = true) : d.opening.head?.any isWord = false := by
  have hall : ∀ d ∈ all, d.isMark = true → d.opening.head?.any isWord = false := by decide +kernel
  exact hall d (mem_all d) hmark

/-- Only a mark itself begins with one of its characters. -/
theorem eq_of_mem_mark (hmark : d.isMark = true) {c : Char} (hc : c ∈ d.opening)
    (hd' : d'.opening.head? = some c) : d' = d := by
  have hall : ∀ d ∈ all, d.isMark = true → ∀ d' ∈ all,
      d.opening.any (fun c => d'.opening.head? = some c) = true → d' = d := by decide
  exact hall d (mem_all d) hmark d' (mem_all d') (List.any_eq_true.mpr ⟨c, hc, decide_eq_true hd'⟩)

theorem eq_ifWord_of_head? (h : d.opening.head? = some 'i') : d = .ifWord := by
  have hall : ∀ d ∈ all, d.opening.head? = some 'i' → d = .ifWord := by decide
  exact hall d (mem_all d) h

/-- What begins at a position begins with the character there. -/
theorem head?_of_recognise (h : d.recognise before s = some (size, u)) :
    d.opening.head? = s.head? := by
  obtain ⟨rest, rfl⟩ := exists_eq_opening_append h
  cases d <;> rfl

/-- In a run of characters nothing begins that does not begin with such a character. -/
theorem answerFrom_inside_run {p : Char → Bool} {run : Text} (hrun : ∀ c ∈ run, p c = true)
    (hd : d.opening.head?.any p = false) (before : Option Char) (front rest : Text)
    (hle : front.length ≤ offset) (hlt : offset < front.length + run.length) :
    answerFrom d.recognise before (front ++ (run ++ rest)) offset = none := by
  refine Option.eq_none_iff_forall_not_mem.mpr fun ⟨size, u⟩ hanswer => ?_
  obtain ⟨n, rfl⟩ : ∃ n, offset = front.length + n := ⟨offset - front.length, by omega⟩
  have hinside : IsRun p (run.drop n) := by
    refine ⟨fun hnil => ?_, fun c hc => hrun c (List.mem_of_mem_drop hc)⟩
    have := List.drop_eq_nil_iff.mp hnil
    omega
  have hhead := head?_of_recognise hanswer
  rw [List.drop_length_add_append, List.drop_append_of_le_length (by omega)] at hhead
  rw [hhead, hinside.any_head? rest] at hd
  contradiction

/-- Inside of a word nothing begins. -/
theorem answerFrom_inside_word {run : Text} (hrun : ∀ c ∈ run, isWord c = true) (d : Decision)
    (before : Option Char) (front rest : Text) (hlt : front.length < offset)
    (hle : offset < front.length + run.length) :
    answerFrom d.recognise before (front ++ (run ++ rest)) offset = none := by
  cases hmark : d.isMark with
  | true =>
    exact answerFrom_inside_run hrun (head?_opening_isWord hmark) before front rest
      (Nat.le_of_lt hlt) hle
  | false =>
    refine Option.eq_none_iff_forall_not_mem.mpr fun ⟨size, u⟩ hanswer => ?_
    have hstart := startsWord_of_recognise hanswer hmark
    rw [startsWord_inside hrun before front rest hlt (Nat.le_of_lt hle)] at hstart
    contradiction

/-- In a pair only its second word begins. -/
theorem eq_ifWord_of_inside_pair {gap rest : Text} (hgap : ∀ c ∈ gap, isBlank c = true)
    (hpos : 0 < offset) (hlt : offset < 6 + gap.length) {answer : Nat × Unit}
    (hinside :
      answerFrom d.recognise before ("else".toList ++ (gap ++ ("if".toList ++ rest))) offset =
        some answer) : d = .ifWord := by
  have hcases : offset < 4 ∨ 4 ≤ offset ∧ offset < 4 + gap.length ∨ offset = 4 + gap.length ∨
      4 + gap.length < offset := by
    omega
  have hassoc : "else".toList ++ (gap ++ ("if".toList ++ rest)) =
      ("else".toList ++ gap) ++ ("if".toList ++ rest) := by
    rw [List.append_assoc]
  have hfront : ("else".toList ++ gap).length = 4 + gap.length := List.length_append
  obtain hword | ⟨hle, hblank⟩ | rfl | hword := hcases
  · have helse : "else".toList.all isWord = true := by decide +kernel
    have hnone := answerFrom_inside_word (List.all_eq_true.mp helse) d before []
      (gap ++ ("if".toList ++ rest)) hpos (by simpa using hword)
    rw [List.nil_append, hinside] at hnone
    contradiction
  · have hnone := answerFrom_inside_run hgap (head?_opening_isBlank d) before "else".toList
      ("if".toList ++ rest) hle hblank
    rw [hinside] at hnone
    contradiction
  · rw [answerFrom, hassoc, ← hfront, List.drop_left] at hinside
    exact eq_ifWord_of_head? (head?_of_recognise hinside)
  · have hif : "if".toList.all isWord = true := by decide +kernel
    have hnone :=
      answerFrom_inside_word (List.all_eq_true.mp hif) d before ("else".toList ++ gap) rest
      (by rwa [hfront]) (by
        rw [hfront]
        change offset < 4 + gap.length + 2
        omega)
    rw [← hassoc, hinside] at hnone
    contradiction

/-- What begins inside of a decision point: a mark inside of itself, and the `if` of a pair. -/
theorem inside_recognise (h : d.recognise before s = some (size, u)) (hpos : 0 < offset)
    (hlt : offset < size) {answer : Nat × Unit}
    (hinside : answerFrom d'.recognise before s offset = some answer) :
    d.isMark = true ∧ d' = d ∨ d = .elseIf ∧ d' = .ifWord := by
  by_cases hd : d = .elseIf
  · subst hd
    obtain ⟨-, -, gap, rest, rfl, hgap, -, rfl⟩ := elseIf?_eq_some_iff.mp (recognise_elseIf.mp h)
    exact .inr ⟨rfl, eq_ifWord_of_inside_pair hgap.2 hpos hlt hinside⟩
  · rw [recognise_single hd] at h
    split at h
    · rename_i hmark
      obtain ⟨rest, rfl, rfl⟩ := exactly_eq_some_iff.mp h
      have hhead := head?_of_recognise hinside
      rw [List.drop_append_of_le_length (Nat.le_of_lt hlt), List.drop_eq_getElem_cons hlt] at hhead
      exact .inl ⟨hmark, eq_of_mem_mark hmark (List.getElem_mem hlt) hhead⟩
    · rename_i hmark
      obtain ⟨-, rest, rfl, -, rfl⟩ := wholeWord_eq_some_iff.mp h
      have hnone := answerFrom_inside_word (isWord_of_mem_opening (Bool.eq_false_iff.mpr hmark)) d'
        before [] rest hpos (by simpa using hlt)
      rw [List.nil_append, hinside] at hnone
      contradiction

/-! ### Each kind by itself -/

/-- Among other kinds as many decision points of a kind are found as by themselves. Only an `if` is
not, where pairs are found as well. -/
theorem length_found_recognise (hd : d ∈ order) (hpair : d = .ifWord → .elseIf ∉ order) (s : Text) :
    (found d.recognise s).length = (found (firstOf order) s).count d := by
  refine length_foundFrom_kind (fun before s size => ?_) ?_ 0 none s
  · rw [firstOf_eq_some_iff, and_iff_right hd]
    exact ⟨fun ⟨_, h⟩ => h, fun h => ⟨(), h⟩⟩
  · intro before s size other hother hne offset hpos hlt
    obtain ⟨hmem, hother⟩ := firstOf_eq_some_iff.mp hother
    refine Option.eq_none_iff_forall_not_mem.mpr fun answer hanswer => ?_
    obtain ⟨-, heq⟩ | ⟨rfl, heq⟩ := inside_recognise hother hpos hlt hanswer
    · exact hne heq.symm
    · exact hpair heq hmem

end CodeHealth.Decision
