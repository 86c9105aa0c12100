import CodeHealth.Proofs.Text.Places
import CodeHealth.Proofs.Text.Runs
import CodeHealth.Source.Block

/-!
# Headers of methods and classes

`Header.Written` is the grammar of headers. A header is a keyword, blanks and a name; that of a
method goes on with parameters in parentheses, which may hold anything but a closing parenthesis,
and both end with an opening brace.

A header is read without any choice: blanks are no word characters, neither class holds a
parenthesis or a brace, and the parameters end at the first closing parenthesis. So the recogniser
finds a header exactly where one is written, and it finds the name and the parameters that are
written in it (`Header.recognise_eq_some_iff`).
-/

namespace CodeHealth

def BlockKind.keywords : BlockKind → List Text
  | .method => ["function".toList, "def".toList]
  | .classBlock => ["class".toList]

namespace Header

open Text

/-- The headers of a kind: the text of a header through its opening brace, the name in it, and its
parameters. -/
inductive Written : BlockKind → Text → Text → Text → Prop
  | method {word gap name front parameters tail : Text} (hword : word ∈ BlockKind.method.keywords)
      (hgap : IsRun isBlank gap) (hname : IsRun isWord name)
      (hfront : ∀ c ∈ front, isBlank c = true)
      (hparameters : ')' ∉ parameters) (htail : ∀ c ∈ tail, isBlank c = true) :
      Written .method
        (word ++ (gap ++ (name ++ (front ++ '(' :: (parameters ++ ')' :: (tail ++ ['\x7b']))))))
        name parameters
  | classBlock {word gap name tail : Text} (hword : word ∈ BlockKind.classBlock.keywords)
      (hgap : IsRun isBlank gap) (hname : IsRun isWord name)
      (htail : ∀ c ∈ tail, isBlank c = true) :
      Written .classBlock (word ++ (gap ++ (name ++ (tail ++ ['\x7b'])))) name []

variable {kind : BlockKind} {s rest name : Text} {header : Header} {before : Option Char}
  {size : Nat}

/-- A header begins with a keyword of its kind and ends with an opening brace. -/
theorem Written.exists_append {text parameters : Text} (h : Written kind text name parameters) :
    ∃ word ∈ kind.keywords, ∃ behind, text = word ++ (behind ++ ['\x7b']) := by
  cases h with
  | @method word gap _ front _ tail hword =>
    exact ⟨word, hword, gap ++ (name ++ (front ++ '(' :: (parameters ++ ')' :: tail))), by simp⟩
  | @classBlock word gap _ tail hword =>
    exact ⟨word, hword, gap ++ (name ++ tail), by simp⟩

/-! ### The parts of a header -/

theorem name?_eq_some_iff : name? s = some (name, rest) ↔
    ∃ gap, IsRun isBlank gap ∧ IsRun isWord name ∧ rest.head?.any isWord = false ∧
      s = gap ++ (name ++ rest) := by
  constructor
  · intro h
    obtain ⟨_, hblank, h⟩ := Option.bind_eq_some_iff.mp h
    obtain ⟨_, hword, h⟩ := Option.bind_eq_some_iff.mp h
    obtain ⟨rfl, rfl⟩ := Prod.mk.inj (Option.some.inj h)
    refine ⟨s.takeWhile isBlank, isRun_takeWhile (prop_of_guard hblank),
      ⟨prop_of_guard hword, all_takeWhile isWord _⟩, head?_dropWhile isWord _, ?_⟩
    rw [List.takeWhile_append_dropWhile, List.takeWhile_append_dropWhile]
  · rintro ⟨gap, hgap, hword, hrest, rfl⟩
    have hdrop : (gap ++ (name ++ rest)).dropWhile isBlank = name ++ rest :=
      dropWhile_run hgap.2 (hword.head?_append isBlank (fun _ => isBlank_eq_false_of_isWord) rest)
    have hblank := hgap.any_head? (name ++ rest)
    unfold name?
    dsimp only
    rw [hdrop, takeWhile_run hword.2 hrest, dropWhile_run hword.2 hrest]
    exact Option.bind_eq_some_iff.mpr ⟨(), if_pos hblank,
      Option.bind_eq_some_iff.mpr ⟨(), if_pos hword.1, rfl⟩⟩

theorem afterBlanks?_eq_some_iff {c : Char} (hc : isBlank c = false) :
    afterBlanks? c s = some rest ↔
      ∃ gap : Text, (∀ c ∈ gap, isBlank c = true) ∧ s = gap ++ c :: rest := by
  rw [afterBlanks?, after?_eq_some_iff]
  constructor
  · intro h
    refine ⟨s.takeWhile isBlank, all_takeWhile isBlank s, ?_⟩
    exact List.takeWhile_append_dropWhile.symm.trans (congrArg (s.takeWhile isBlank ++ ·) h)
  · rintro ⟨gap, hgap, rfl⟩
    exact dropWhile_run hgap hc

/-- Behind a name stand blanks, or something else that is no part of a word. -/
theorem any_head?_behindName {gap : Text} {c : Char} (hgap : ∀ c ∈ gap, isBlank c = true)
    (hc : isWord c = false) (rest : Text) : (gap ++ c :: rest).head?.any isWord = false := by
  cases gap with
  | nil => exact hc
  | cons d gap => exact isWord_eq_false_of_isBlank (hgap d List.mem_cons_self)

/-- Parameters go up to the first closing parenthesis. -/
theorem closingParenthesis?_eq_some_iff {parameters : Text} :
    s.takeWhile (· != ')') = parameters ∧ after? [')'] (s.dropWhile (· != ')')) = some rest ↔
      ')' ∉ parameters ∧ s = parameters ++ ')' :: rest := by
  rw [after?_eq_some_iff]
  constructor
  · rintro ⟨rfl, hdrop⟩
    have hnone : ')' ∉ s.takeWhile (· != ')') := fun hmem =>
      absurd (all_takeWhile (· != ')') s _ hmem) (by decide)
    exact ⟨hnone, List.takeWhile_append_dropWhile.symm.trans (congrArg (_ ++ ·) hdrop)⟩
  · rintro ⟨hnone, rfl⟩
    have hall : ∀ c ∈ parameters, (c != ')') = true := by
      intro c hc
      exact bne_iff_ne.mpr fun heq => hnone (heq ▸ hc)
    exact ⟨takeWhile_run hall rfl, dropWhile_run hall rfl⟩

theorem keyword?_eq_some_iff :
    (after? "function".toList s <|> after? "def".toList s) = some rest ↔
      ∃ word ∈ BlockKind.method.keywords, s = word ++ rest := by
  rw [Option.orElse_eq_orElse, Option.orElse_eq_or, Option.or_eq_some_iff, after?_eq_some_iff,
    after?_eq_some_iff]
  constructor
  · rintro (rfl | ⟨-, rfl⟩)
    · exact ⟨_, List.mem_cons_self, rfl⟩
    · exact ⟨_, List.mem_cons_of_mem _ List.mem_cons_self, rfl⟩
  · rintro ⟨word, hword, rfl⟩
    obtain rfl | hword := List.mem_cons.mp hword
    · exact .inl rfl
    · obtain rfl := List.mem_singleton.mp hword
      exact .inr ⟨rfl, rfl⟩

/-! ### Headers -/

theorem isBlank_parenthesis : isBlank '(' = false := by
  decide

theorem isBlank_brace : isBlank '\x7b' = false := by
  decide

theorem ofMethod?_eq_some_iff : ofMethod? s = some header ↔
    ∃ text, Written .method text header.name header.parameters ∧ s = text ++ header.rest := by
  constructor
  · intro h
    obtain ⟨s₁, hkeyword, h⟩ := Option.bind_eq_some_iff.mp h
    obtain ⟨⟨name, s₂⟩, hname, h⟩ := Option.bind_eq_some_iff.mp h
    obtain ⟨s₃, hparenthesis, h⟩ := Option.bind_eq_some_iff.mp h
    obtain ⟨s₄, hclosing, h⟩ := Option.bind_eq_some_iff.mp h
    obtain ⟨rest, hrest, h⟩ := Option.bind_eq_some_iff.mp h
    obtain rfl := Option.some.inj h
    obtain ⟨tail, htail, rfl⟩ := (afterBlanks?_eq_some_iff isBlank_brace).mp hrest
    obtain ⟨front, hfront, rfl⟩ := (afterBlanks?_eq_some_iff isBlank_parenthesis).mp hparenthesis
    obtain ⟨gap, hgap, hword, -, rfl⟩ := name?_eq_some_iff.mp hname
    obtain ⟨keyword, hmem, rfl⟩ := keyword?_eq_some_iff.mp hkeyword
    obtain ⟨hparameters, hlist⟩ := closingParenthesis?_eq_some_iff.mp ⟨rfl, hclosing⟩
    exact ⟨_, .method hmem hgap hword hfront hparameters htail, by simp [← hlist]⟩
  · rintro ⟨text, hwritten, rfl⟩
    obtain ⟨name, parameters, rest⟩ := header
    change Written .method text name parameters at hwritten
    cases hwritten with
    | @method word gap _ front _ tail hword hgap hname hfront hparameters htail =>
      simp only [List.append_assoc, List.cons_append, List.nil_append]
      let behindList := tail ++ '\x7b' :: rest
      let behindName := front ++ '(' :: (parameters ++ ')' :: behindList)
      have hkeyword := keyword?_eq_some_iff.mpr
        ⟨word, hword, (rfl : _ = word ++ (gap ++ (name ++ behindName)))⟩
      have hname : name? (gap ++ (name ++ behindName)) = some (name, behindName) :=
        name?_eq_some_iff.mpr ⟨gap, hgap, hname, any_head?_behindName hfront (by decide) _, rfl⟩
      have hparenthesis : afterBlanks? '(' behindName = some (parameters ++ ')' :: behindList) :=
        (afterBlanks?_eq_some_iff isBlank_parenthesis).mpr ⟨front, hfront, rfl⟩
      obtain ⟨hlist, hclosing⟩ := closingParenthesis?_eq_some_iff.mpr
        ⟨hparameters, (rfl : _ = parameters ++ ')' :: behindList)⟩
      have hrest : afterBlanks? '\x7b' behindList = some rest :=
        (afterBlanks?_eq_some_iff isBlank_brace).mpr ⟨tail, htail, rfl⟩
      refine Option.bind_eq_some_iff.mpr ⟨_, hkeyword, Option.bind_eq_some_iff.mpr ⟨_, hname,
        Option.bind_eq_some_iff.mpr ⟨_, hparenthesis, Option.bind_eq_some_iff.mpr ⟨_, hclosing,
          Option.bind_eq_some_iff.mpr ⟨rest, hrest, ?_⟩⟩⟩⟩⟩
      rw [hlist]
      rfl

theorem ofClass?_eq_some_iff : ofClass? s = some header ↔
    ∃ text, Written .classBlock text header.name header.parameters ∧ s = text ++ header.rest := by
  constructor
  · intro h
    obtain ⟨s₁, hkeyword, h⟩ := Option.bind_eq_some_iff.mp h
    obtain ⟨⟨name, s₂⟩, hname, h⟩ := Option.bind_eq_some_iff.mp h
    obtain ⟨rest, hrest, h⟩ := Option.bind_eq_some_iff.mp h
    obtain rfl := Option.some.inj h
    obtain ⟨tail, htail, rfl⟩ := (afterBlanks?_eq_some_iff isBlank_brace).mp hrest
    obtain ⟨gap, hgap, hword, -, rfl⟩ := name?_eq_some_iff.mp hname
    obtain rfl := after?_eq_some_iff.mp hkeyword
    exact ⟨_, .classBlock List.mem_cons_self hgap hword htail, by simp⟩
  · rintro ⟨text, hwritten, rfl⟩
    obtain ⟨name, parameters, rest⟩ := header
    change Written .classBlock text name parameters at hwritten
    cases hwritten with
    | @classBlock word gap _ tail hword hgap hname htail =>
      obtain rfl := List.mem_singleton.mp hword
      simp only [List.append_assoc, List.cons_append, List.nil_append]
      let behindName := tail ++ '\x7b' :: rest
      have hname : name? (gap ++ (name ++ behindName)) = some (name, behindName) :=
        name?_eq_some_iff.mpr ⟨gap, hgap, hname, any_head?_behindName htail (by decide) _, rfl⟩
      have hrest : afterBlanks? '\x7b' behindName = some rest :=
        (afterBlanks?_eq_some_iff isBlank_brace).mpr ⟨tail, htail, rfl⟩
      have hkeyword : after? "class".toList ("class".toList ++ (gap ++ (name ++ behindName))) =
          some (gap ++ (name ++ behindName)) := after?_eq_some_iff.mpr rfl
      rw [ofClass?]
      exact Option.bind_eq_some_iff.mpr ⟨_, hkeyword, Option.bind_eq_some_iff.mpr ⟨_, hname,
        Option.bind_eq_some_iff.mpr ⟨rest, hrest, rfl⟩⟩⟩

/-- A text begins with a header exactly if one is written there. -/
theorem begins?_eq_some_iff : begins? kind s = some header ↔
    ∃ text, Written kind text header.name header.parameters ∧ s = text ++ header.rest := by
  cases kind with
  | method => exact ofMethod?_eq_some_iff
  | classBlock => exact ofClass?_eq_some_iff

/-- The recogniser finds exactly the headers that begin where a word may begin. -/
theorem recognise_eq_some_iff : recognise kind before s = some (size, header) ↔
    startsWord before = true ∧ ∃ text, Written kind text header.name header.parameters ∧
      s = text ++ header.rest ∧ text.length = size := by
  constructor
  · intro h
    obtain ⟨_, hstart, h⟩ := Option.bind_eq_some_iff.mp h
    obtain ⟨found, hfound, h⟩ := Option.bind_eq_some_iff.mp h
    obtain ⟨rfl, rfl⟩ := Prod.mk.inj (Option.some.inj h)
    obtain ⟨text, hwritten, rfl⟩ := begins?_eq_some_iff.mp hfound
    refine ⟨prop_of_guard hstart, text, hwritten, rfl, ?_⟩
    rw [List.length_append, Nat.add_sub_cancel]
  · rintro ⟨hstart, text, hwritten, rfl, rfl⟩
    have hfound : begins? kind (text ++ header.rest) = some header :=
      begins?_eq_some_iff.mpr ⟨text, hwritten, rfl⟩
    refine Option.bind_eq_some_iff.mpr ⟨(), if_pos hstart,
      Option.bind_eq_some_iff.mpr ⟨header, hfound, ?_⟩⟩
    rw [List.length_append, Nat.add_sub_cancel]
    rfl

end Header

end CodeHealth
