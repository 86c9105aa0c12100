import CodeHealth.Proofs.Rule.Scan
import CodeHealth.Proofs.Text.Occurrences
import CodeHealth.Proofs.Value.Numbers
import CodeHealth.Rule.Dispensables

/-!
# Windows of lines that recur

A window of lines, joined again, is a part of the text: it stands where its first line begins. Every
line takes at least one character, its newline, so different lines begin at different offsets.
Windows at two different places with the same text are therefore two occurrences of this text, and
it is enough to count occurrences (`Text.recurs_windowText`).

The window that ends with the last line is not tried. This loses nothing: of two windows with the
same text the earlier one is tried (`Rule.scan_duplicateCode`).
-/

namespace CodeHealth

namespace Text

variable {s : Text} {ls ms : List Text} {i j : Nat}

theorem unlines_cons (l : Text) (h : ls ≠ []) : unlines (l :: ls) = l ++ '\n' :: unlines ls := by
  obtain ⟨m, ms, rfl⟩ := List.exists_cons_of_ne_nil h
  rw [unlines, List.intercalate_cons_cons, List.append_assoc]
  rfl

/-- Lines with a newline behind each of them. -/
def terminated (ls : List Text) : Text :=
  ls.flatMap (· ++ ['\n'])

theorem terminated_cons (l : Text) (ls : List Text) :
    terminated (l :: ls) = l ++ '\n' :: terminated ls := by
  simp [terminated]

theorem terminated_append (ls ms : List Text) :
    terminated (ls ++ ms) = terminated ls ++ terminated ms :=
  List.flatMap_append

theorem unlines_append (ls : List Text) (h : ms ≠ []) :
    unlines (ls ++ ms) = terminated ls ++ unlines ms := by
  induction ls with
  | nil => rfl
  | cons l ls ih =>
    rw [List.cons_append, unlines_cons l (List.append_ne_nil_of_right_ne_nil ls h), ih,
      terminated_cons, List.append_assoc, List.cons_append]

/-- Lines joined begin with the first of them joined. -/
theorem unlines_take_prefix (ls : List Text) (n : Nat) : unlines (ls.take n) <+: unlines ls := by
  induction ls generalizing n with
  | nil => simp only [List.take_nil, List.prefix_rfl]
  | cons l ls ih =>
    cases n with
    | zero => exact List.nil_prefix
    | succ n =>
      by_cases hls : ls = []
      · simp only [hls, List.take_succ_cons, List.take_nil, List.prefix_rfl]
      · rw [List.take_succ_cons, unlines_cons l hls]
        by_cases htake : ls.take n = []
        · rw [htake, unlines, List.intercalate_singleton]
          exact List.prefix_append l _
        · rw [unlines_cons l htake]
          exact (List.prefix_append_right_inj l).mpr (List.cons_prefix_cons.mpr ⟨rfl, ih n⟩)

theorem drop_lines_ne_nil (h : i < s.lines.length) : s.lines.drop i ≠ [] :=
  mt List.drop_eq_nil_iff.mp (Nat.not_le.mpr h)

/-- A text consists of the lines before any of its lines, and of this line and those behind it. -/
theorem terminated_append_unlines (h : i < s.lines.length) :
    terminated (s.lines.take i) ++ unlines (s.lines.drop i) = s := by
  rw [← unlines_append _ (drop_lines_ne_nil h), List.take_append_drop]
  exact List.intercalate_splitOn '\n'

/-- The offset at which a line begins. -/
def lineStart (s : Text) (i : Nat) : Nat :=
  (terminated (s.lines.take i)).length

/-- Each line begins behind the one before it. -/
theorem lineStart_lt (hij : i < j) (h : i < s.lines.length) : lineStart s i < lineStart s j := by
  obtain ⟨n, rfl⟩ : ∃ n, j = i + (n + 1) := ⟨j - i - 1, by omega⟩
  obtain ⟨l, ls, hdrop⟩ := List.exists_cons_of_ne_nil (drop_lines_ne_nil h)
  rw [lineStart, lineStart, List.take_add, hdrop, List.take_succ_cons, terminated_append,
    terminated_cons]
  simp only [List.length_append, List.length_cons]
  omega

/-- The text of a window of lines. -/
def windowText (s : Text) (size i : Nat) : Text :=
  unlines ((s.lines.drop i).take size)

/-- A window of lines stands where its first line begins. -/
theorem occursAt_windowText (size : Nat) (h : i < s.lines.length) :
    OccursAt (windowText s size i) s (lineStart s i) := by
  have hs := terminated_append_unlines h
  have hlength := congrArg List.length hs
  rw [List.length_append] at hlength
  have hdrop : s.drop (lineStart s i) = unlines (s.lines.drop i) :=
    (congrArg (List.drop (lineStart s i)) hs).symm.trans List.drop_left
  refine ⟨?_, hdrop ▸ unlines_take_prefix _ size⟩
  rw [lineStart]
  omega

/-- Windows at different places with the same text are different occurrences of it. -/
theorem recurs_windowText {size : Nat} (hij : i < j) (hj : j < s.lines.length)
    (heq : windowText s size i = windowText s size j) : (windowText s size i).recurs s = true := by
  have hi := Nat.lt_trans hij hj
  refine recurs_iff.mpr ⟨lineStart s i, lineStart s j, lineStart_lt hij hi,
    occursAt_windowText size hi, ?_⟩
  rw [heq]
  exact occursAt_windowText size hj

/-- With a size of one or more, the windows that are tried are those with a line behind them. -/
theorem windows_eq (ls : List Text) {size : Nat} (hsize : 0 < size) :
    windows ls size = (List.range (ls.length - size)).map fun i => (ls.drop i).take size := by
  have hcount : min ((ls.length : Int) - size).toNat (ls.length + 1) = ls.length - size := by
    omega
  rw [windows, hcount]
  refine List.map_congr_left fun i _ => ?_
  have hstop : ¬((i : Int) + size < 0) := by omega
  rw [window, if_neg hstop, List.take_drop]
  rfl

end Text

namespace Rule

open Text

/-- A test that fails for no element is met by any of them or by none. -/
theorem anyPasses_eq_ok {α : Type} {test : α → Except Fault Bool} {passes : α → Bool} {xs : List α}
    (h : ∀ x ∈ xs, test x = .ok (passes x)) : anyPasses test xs = .ok (xs.any passes) := by
  induction xs with
  | nil => rfl
  | cons x xs ih =>
    obtain ⟨hx, hxs⟩ := List.forall_mem_cons.mp h
    rw [List.any_cons]
    refine (bind_eq_of_eq_ok hx _).trans ?_
    cases passes x with
    | true => rfl
    | false => exact ih hxs

def repeatedCode : Smell where
  category := .text "Dispensables"
  name := .text "Duplicate Code"
  description := .text "Similar code blocks found"

/-- Whether a text is longer than a limit. -/
def exceeds (w : Text) (limit : Number) : Bool :=
  limit.exact.lt (.finite (w.length : Int))

theorem length_gt_of_number? {v : Value} {limit : Number} (h : v.number? = some limit) (w : Text) :
    (Value.nat w.length).gt v = .ok (exceeds w limit) :=
  Value.compare_of_number? (v := .nat w.length) (x := .int w.length) rfl h .gt

theorem exceeds_int (w : Text) (n : Int) : exceeds w (.int n) = decide (n < w.length) := by
  rw [exceeds, Number.exact, Double.lt_finite]
  simp only [Rat.intCast_lt_intCast]

/-- Whether a window of lines is longer than a limit and occurs at two offsets of the text. -/
def IsRepeated (s : Text) (size : Nat) (limit : Number) (i : Nat) : Prop :=
  exceeds (windowText s size i) limit = true ∧
    ∃ a b, a < b ∧ OccursAt (windowText s size i) s a ∧ OccursAt (windowText s size i) s b

variable {ctx : Context} {s : Text} {size minChars : Value} {w : Nat} {limit : Number}

/-- The windows that are tried are those with a line behind them. -/
theorem scan_duplicateCode_eq (hraw : ctx.raw = .text s)
    (hsize : ctx.threshold duplicateCode.id .duplicateWindowLines = .ok size)
    (hw : size.number? = some (.int w)) (hpos : 0 < w)
    (hminChars : ctx.threshold duplicateCode.id .duplicateMinChars = .ok minChars)
    (hlimit : minChars.number? = some limit) :
    duplicateCode.scan ctx = .ok (if (List.range (s.lines.length - w)).any (fun i =>
      exceeds (windowText s w i) limit && (windowText s w i).recurs s)
      then [repeatedCode] else []) := by
  have hwhole : windowSize size = .ok w := by
    rw [windowSize, hw]
  have hany : anyPasses (fun ls => do
      let chunk := unlines ls
      return (← (Value.nat chunk.length).gt minChars) && chunk.recurs s) (windows s.lines w) =
      .ok ((windows s.lines w).any fun ls =>
        exceeds (unlines ls) limit && (unlines ls).recurs s) :=
    anyPasses_eq_ok fun ls _ => bind_eq_of_eq_ok (length_gt_of_number? hlimit (unlines ls)) _
  have hfind : duplicateCode.find (ctx.threshold duplicateCode.id) ctx =
      .ok (if (windows s.lines w).any fun ls => exceeds (unlines ls) limit && (unlines ls).recurs s
        then ["Similar code blocks found"] else []) := by
    refine (bind_eq_of_eq_ok (congrArg Fault.lift hsize) _).trans ?_
    refine (bind_eq_of_eq_ok (congrArg Fault.lift hminChars) _).trans ?_
    refine (bind_eq_of_eq_ok (Context.lines_of_raw hraw) _).trans ?_
    refine (bind_eq_of_eq_ok (Context.searched_of_raw hraw) _).trans ?_
    refine (bind_eq_of_eq_ok (congrArg Fault.lift hwhole) _).trans ?_
    exact bind_eq_of_eq_ok (congrArg Fault.lift hany) _
  rw [windows_eq _ hpos, List.any_map] at hfind
  rw [scan_of_find hfind, apply_ite (List.map _)]
  rfl

/-- There is one smell if a window of lines with a line behind it is longer than the limit and
occurs at two offsets of the text, and none otherwise. Trying the last window as well would find no
more: it is enough that any two windows that are longer than the limit have the same text. -/
theorem scan_duplicateCode (hraw : ctx.raw = .text s)
    (hsize : ctx.threshold duplicateCode.id .duplicateWindowLines = .ok size)
    (hw : size.number? = some (.int w)) (hpos : 0 < w)
    (hminChars : ctx.threshold duplicateCode.id .duplicateMinChars = .ok minChars)
    (hlimit : minChars.number? = some limit) :
    ((∃ i, i + w < s.lines.length ∧ IsRepeated s w limit i) →
        duplicateCode.scan ctx = .ok [repeatedCode]) ∧
      ((¬∃ i, i + w < s.lines.length ∧ IsRepeated s w limit i) →
        duplicateCode.scan ctx = .ok []) ∧
      ∀ i j, i < j → j + w ≤ s.lines.length → windowText s w i = windowText s w j →
        exceeds (windowText s w i) limit = true → duplicateCode.scan ctx = .ok [repeatedCode] := by
  have hscan := scan_duplicateCode_eq hraw hsize hw hpos hminChars hlimit
  have hany : (List.range (s.lines.length - w)).any (fun i =>
      exceeds (windowText s w i) limit && (windowText s w i).recurs s) = true ↔
      ∃ i, i + w < s.lines.length ∧ IsRepeated s w limit i := by
    simp only [List.any_eq_true, List.mem_range, Bool.and_eq_true, recurs_iff, IsRepeated,
      Nat.lt_sub_iff_add_lt]
  have hfound (h : ∃ i, i + w < s.lines.length ∧ IsRepeated s w limit i) :
      duplicateCode.scan ctx = .ok [repeatedCode] := by
    rw [hscan, if_pos (hany.mpr h)]
  refine ⟨hfound, fun h => ?_, fun i j hij hj heq hlong => hfound ⟨i, ?_, hlong, ?_⟩⟩
  · rw [hscan, if_neg (mt hany.mp h)]
  · -- The earlier one of the two windows has a line behind it.
    omega
  · exact recurs_iff.mp (recurs_windowText hij (by omega) heq)

/-- Of four equal lines the first three are the same as the last three, which overlap them; three
equal lines are one window only. -/
theorem scan_duplicateCode_overlapping :
    let s : Text := "total = total + 1;\ntotal = total + 1;\ntotal = total + 1;".toList
    let t : Text := s ++ "\ntotal = total + 1;".toList
    duplicateCode.scan (.ofSource (.text t) none .firstBrace) = .ok [repeatedCode] ∧
      duplicateCode.scan (.ofSource (.text s) none .firstBrace) = .ok [] := by
  intro s t
  let ctx : Context := .ofSource (.text s) none .firstBrace
  let ctx' : Context := .ofSource (.text t) none .firstBrace
  have hraw : ctx.raw = .text s := rfl
  have hraw' : ctx'.raw = .text t := rfl
  have hsize : ctx.threshold duplicateCode.id .duplicateWindowLines = .ok (.int 3) := rfl
  have hminChars : ctx.threshold duplicateCode.id .duplicateMinChars = .ok (.int 50) := rfl
  obtain ⟨-, -, hequal⟩ := scan_duplicateCode hraw' hsize (w := 3) rfl (by decide) hminChars rfl
  obtain ⟨-, hnone, -⟩ := scan_duplicateCode hraw hsize (w := 3) rfl (by decide) hminChars rfl
  refine ⟨hequal 0 1 (by decide) (by decide +kernel) (by decide +kernel) ?_, hnone ?_⟩
  · rw [exceeds_int]
    decide +kernel
  · rintro ⟨i, hi, -⟩
    have hlines : s.lines.length = 3 := by decide +kernel
    omega

end Rule

end CodeHealth
