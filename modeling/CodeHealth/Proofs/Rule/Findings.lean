import CodeHealth.Proofs.Engine.Registry
import CodeHealth.Proofs.Entries
import CodeHealth.Proofs.Rule.Catalog
import CodeHealth.Source.Decision

/-!
# How many findings there can be

A match takes at least one character, so a scan of a text has no more matches than the text has
characters, and its complexity is bounded in the same way. Every rule of the catalog describes
single matches or blocks, or gives a single finding, and so the number of its findings is bounded by
the length of the source (`Catalog.bounded`).
-/

namespace CodeHealth

namespace Text

variable {α : Type}

theorem length_scanFrom_le (m : Recogniser α) (owned : Nat) (before : Option Char) (at_ : Nat)
    (s : Text) : (scanFrom m owned before at_ s).length ≤ s.length := by
  fun_induction scanFrom m owned before at_ s with
  | case1 => exact Nat.le_refl 0
  | case2 _ _ _ _ _ ih => exact Nat.le_succ_of_le ih
  | case3 _ _ _ _ _ _ _ ih => exact Nat.succ_le_succ ih
  | case4 _ _ _ _ _ ih => exact Nat.le_succ_of_le ih

theorem length_scan_le (m : Recogniser α) (s : Text) : (scan m s).length ≤ s.length :=
  length_scanFrom_le m 0 none 0 s

theorem length_callCounts_le (s : Text) : s.callCounts.length ≤ s.length := by
  have htally := Entries.length_tally_le ((s.scan callOn).map Hit.value)
  rw [List.length_map] at htally
  exact Nat.le_trans htally (length_scan_le callOn s)

theorem complexity_le (s : Text) : s.complexity ≤ s.length + 1 := by
  have htally := Entries.total_tally s.decisions
  have hscan := length_scan_le Decision.begins? s
  rw [decisions, List.length_map] at htally
  rw [complexity, decisionCounts, decisions]
  omega

theorem length_fieldNames_le (s : Text) : s.fieldNames.length ≤ s.length :=
  Nat.le_trans (List.length_filterMap_le _ _) (length_scan_le _ s)

end Text

theorem Scanner.length_blocks_le (scanner : Scanner) (kind : BlockKind) (s : Text) :
    (scanner.blocks kind s).length ≤ s.length := by
  cases scanner with
  | firstBrace =>
    rw [blocks, List.length_map]
    exact Text.length_scan_le _ s
  | balanced =>
    exact Nat.le_trans (List.length_filterMap_le _ _) (Text.length_scan_le _ s)

namespace Rule

/-- A rule has at most one finding for each character of a text, or a single one. -/
def Bounded (r : Rule) : Prop :=
  ∀ (ctx : Context) (s : Text) (threshold : Threshold → Except Fault Value) (found : List String),
    ctx.raw = .text s → r.find threshold ctx = .ok found → found.length ≤ s.length + 1

/-- A rule that finds the blocks of a kind above a limit finds no more of them than there are. -/
theorem bounded_of_oversized {r : Rule} {kind : BlockKind} {name : Threshold} {size : Block → Nat}
    {description : Value → String} (hfind : ∀ threshold ctx, r.find threshold ctx = (do
      let limit ← threshold name
      oversized size limit (description limit) (← ctx.blocks kind))) : r.Bounded := by
  intro ctx s threshold found hraw h
  rw [hfind] at h
  obtain ⟨limit, -, h⟩ := exists_of_bind_eq_ok h
  obtain ⟨blocks, hblocks, h⟩ := exists_of_bind_eq_ok h
  have hblocks := Fault.eq_ok_of_lift hblocks
  rw [Context.blocks, hraw] at hblocks
  obtain rfl := Except.ok.inj hblocks
  obtain ⟨large, hlarge, h⟩ := exists_of_bind_eq_ok (Fault.eq_ok_of_lift h)
  obtain rfl := Except.ok.inj h
  rw [List.length_map]
  have hle := (sublist_of_filterM hlarge).length_le
  have hscan := Scanner.length_blocks_le ctx.scanner kind s
  omega

theorem bounded_longMethod : longMethod.Bounded :=
  bounded_of_oversized fun _ _ => rfl

theorem bounded_longParameterList : longParameterList.Bounded :=
  bounded_of_oversized fun _ _ => rfl

theorem bounded_largeClass : largeClass.Bounded :=
  bounded_of_oversized fun _ _ => rfl

theorem length_le_of_ite {c : Prop} [Decidable c] {xs ys found : List String} (s : Text)
    (hxs : xs.length ≤ 1) (hys : ys.length ≤ 1)
    (h : (if c then Except.ok xs else Except.ok ys) = (Except.ok found : Except Failure _)) :
    found.length ≤ s.length + 1 := by
  split at h
  · obtain rfl := Except.ok.inj h
    omega
  · obtain rfl := Except.ok.inj h
    omega

theorem bounded_switchStatements : switchStatements.Bounded := by
  intro ctx s threshold found hraw h
  obtain ⟨clean, -, h⟩ := exists_of_bind_eq_ok h
  exact length_le_of_ite s (by decide) (by decide) h

theorem bounded_temporaryField : temporaryField.Bounded := by
  intro ctx s threshold found hraw h
  obtain ⟨minUses, -, h⟩ := exists_of_bind_eq_ok h
  obtain ⟨raw, hsearched, h⟩ := exists_of_bind_eq_ok h
  obtain ⟨rare, hrare, h⟩ := exists_of_bind_eq_ok h
  obtain rfl := Except.ok.inj h
  rw [hraw] at hsearched
  obtain rfl := Except.ok.inj hsearched
  have hle := (sublist_of_filterM hrare).length_le
  have hnames := Text.length_fieldNames_le s
  rw [List.length_map]
  omega

theorem bounded_parallelInheritance : parallelInheritance.Bounded := by
  intro ctx s threshold found hraw h
  obtain ⟨minClasses, -, h⟩ := exists_of_bind_eq_ok h
  obtain ⟨classes, -, h⟩ := exists_of_bind_eq_ok h
  obtain ⟨fewClasses, -, h⟩ := exists_of_bind_eq_ok h
  cases fewClasses with
  | true =>
    obtain rfl := Except.ok.inj h
    exact Nat.zero_le _
  | false =>
    obtain ⟨minExtends, -, h⟩ := exists_of_bind_eq_ok h
    obtain ⟨raw, -, h⟩ := exists_of_bind_eq_ok h
    obtain ⟨fewExtends, -, h⟩ := exists_of_bind_eq_ok h
    exact length_le_of_ite s (by decide) (by decide) h

theorem bounded_comments : comments.Bounded := by
  intro ctx s threshold found hraw h
  obtain ⟨ratio, -, h⟩ := exists_of_bind_eq_ok h
  obtain ⟨raw, -, h⟩ := exists_of_bind_eq_ok h
  obtain ⟨lines, -, h⟩ := exists_of_bind_eq_ok h
  obtain ⟨limit, -, h⟩ := exists_of_bind_eq_ok h
  obtain ⟨above, -, h⟩ := exists_of_bind_eq_ok h
  exact length_le_of_ite s (by decide) (by decide) h

theorem bounded_duplicateCode : duplicateCode.Bounded := by
  intro ctx s threshold found hraw h
  obtain ⟨size, -, h⟩ := exists_of_bind_eq_ok h
  obtain ⟨minChars, -, h⟩ := exists_of_bind_eq_ok h
  obtain ⟨lines, -, h⟩ := exists_of_bind_eq_ok h
  obtain ⟨raw, -, h⟩ := exists_of_bind_eq_ok h
  obtain ⟨windows, -, h⟩ := exists_of_bind_eq_ok h
  obtain ⟨recurs, -, h⟩ := exists_of_bind_eq_ok h
  obtain rfl := Except.ok.inj h
  cases recurs with
  | true => exact Nat.succ_le_succ (Nat.zero_le _)
  | false => exact Nat.zero_le _

theorem bounded_featureEnvy : featureEnvy.Bounded := by
  intro ctx s threshold found hraw h
  obtain ⟨maxCalls, -, h⟩ := exists_of_bind_eq_ok h
  obtain ⟨raw, hsearched, h⟩ := exists_of_bind_eq_ok h
  obtain ⟨often, hoften, h⟩ := exists_of_bind_eq_ok h
  obtain rfl := Except.ok.inj h
  rw [hraw] at hsearched
  obtain rfl := Except.ok.inj hsearched
  have hle := (sublist_of_filterM hoften).length_le
  have hcalls := Text.length_callCounts_le s
  rw [List.length_map]
  omega

end Rule

/-- The findings of a rule of the catalog are bounded by the length of the source. -/
theorem Catalog.bounded {r : Rule} (h : r ∈ rules) : r.Bounded := by
  obtain rfl | rfl | rfl | rfl | rfl | rfl | rfl | rfl | rfl := cases_of_mem_rules h
  · exact Rule.bounded_longMethod
  · exact Rule.bounded_longParameterList
  · exact Rule.bounded_largeClass
  · exact Rule.bounded_switchStatements
  · exact Rule.bounded_temporaryField
  · exact Rule.bounded_parallelInheritance
  · exact Rule.bounded_comments
  · exact Rule.bounded_duplicateCode
  · exact Rule.bounded_featureEnvy

end CodeHealth
