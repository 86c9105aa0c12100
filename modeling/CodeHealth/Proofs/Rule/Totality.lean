import CodeHealth.Proofs.Config.Checks
import CodeHealth.Proofs.Rule.Catalog
import CodeHealth.Proofs.Rule.Scan
import CodeHealth.Proofs.Rule.Windows
import CodeHealth.Proofs.Source.Blocks
import CodeHealth.Proofs.Value.Limits

/-!
# When rules have an answer

Rules take no text amiss, however malformed it is. What may end a scan are the thresholds: all of
them are compared with counts, one is multiplied by the number of lines, and one is the length of a
range of lines. With thresholds of the right kinds every rule of the catalog has an answer for every
text that any memory can hold (`Catalog.answers`).
-/

namespace CodeHealth

/-- Whether a threshold can have a value: a whole number that is not negative or, if it is a ratio,
any number in floating point. -/
def Threshold.Admits (t : Threshold) (v : Value) : Prop :=
  (∃ n : Nat, v.number? = some (.int n)) ∨ t = .commentRatio ∧ ∃ x, v = .double x

namespace Threshold.Admits

variable {t : Threshold} {v : Value}

theorem isNumber (h : t.Admits v) : v.IsNumber := by
  obtain ⟨n, hn⟩ | ⟨-, x, rfl⟩ := h
  · exact ⟨_, hn⟩
  · exact Value.isNumber_double x

theorem exists_int (h : t.Admits v) (ht : t ≠ .commentRatio) :
    ∃ n : Int, v.number? = some (.int n) := by
  obtain ⟨n, hn⟩ | ⟨hratio, -⟩ := h
  · exact ⟨n, hn⟩
  · contradiction

end Threshold.Admits

theorem Threshold.admits_default (t : Threshold) : t.Admits t.default := by
  cases t with
  | commentRatio => exact .inr ⟨rfl, _, rfl⟩
  | _ => exact .inl ⟨_, rfl⟩

/-- The lines of a text that any memory can hold are counted in floating point as well. -/
theorem Text.length_lines_le_two_zpow {s : Text} (hlength : s.length < 2 ^ 1000) :
    (s.lines.length : Rat) ≤ 2 ^ (1023 : Int) := by
  have hlines : s.lines.length ≤ s.length + 1 := by
    rw [length_lines]
    exact Nat.succ_le_succ List.count_le_length
  have hlimit : 2 ^ 1000 ≤ 2 ^ 1023 := by decide +kernel
  exact natCast_le_two_zpow (k := 1023)
    (Nat.le_trans hlines (Nat.le_trans (Nat.succ_le_of_lt hlength) hlimit))

namespace Rule

/-- Whether a rule has an answer for every text, if the thresholds have values that they
can have. -/
def Answers (r : Rule) : Prop :=
  ∀ (threshold : Threshold → Except Fault Value) (ctx : Context) (s clean : Text),
    ctx.raw = .text s → ctx.clean = .text clean → s.length < 2 ^ 1000 →
    (∀ t, ∃ v, threshold t = .ok v ∧ t.Admits v) → ∃ found, r.find threshold ctx = .ok found

variable {r : Rule}

theorem exists_oversized (size : Block → Nat) {limit : Value} (hlimit : limit.IsNumber)
    (description : String) (blocks : List Block) :
    ∃ found, oversized size limit description blocks = .ok found := by
  obtain ⟨n, hn⟩ := hlimit
  exact exists_bind_eq_ok (filterM_ok fun b _ => Value.compare_of_number? rfl hn .gt) ⟨_, rfl⟩

/-- A rule that finds the blocks of a kind above a limit has an answer. -/
theorem answers_of_oversized {kind : BlockKind} {name : Threshold} {size : Block → Nat}
    {description : Value → String} (hfind : ∀ threshold ctx, r.find threshold ctx = (do
      let limit ← threshold name
      oversized size limit (description limit) (← ctx.blocks kind))) : r.Answers := by
  intro threshold ctx s clean hraw _ _ hthreshold
  obtain ⟨limit, hlimit, hadmits⟩ := hthreshold name
  obtain ⟨found, hfound⟩ :=
    exists_oversized size hadmits.isNumber (description limit) (ctx.scanner.blocks kind s)
  rw [hfind]
  refine exists_bind_eq_ok (congrArg Fault.lift hlimit) ?_
  refine exists_bind_eq_ok (Context.blocks_of_raw hraw kind) ?_
  exact ⟨found, congrArg Fault.lift hfound⟩

theorem answers_longMethod : longMethod.Answers :=
  answers_of_oversized fun _ _ => rfl

theorem answers_longParameterList : longParameterList.Answers :=
  answers_of_oversized fun _ _ => rfl

theorem answers_largeClass : largeClass.Answers :=
  answers_of_oversized fun _ _ => rfl

theorem exists_ite_eq_ok (c : Prop) [Decidable c] (xs ys : List String) :
    ∃ found, (if c then Except.ok xs else Except.ok ys : Except Failure _) = .ok found := by
  split
  · exact ⟨xs, rfl⟩
  · exact ⟨ys, rfl⟩

theorem answers_switchStatements : switchStatements.Answers := by
  intro threshold ctx s clean _ hclean _ _
  have hsearched : Fault.lift ctx.clean.searched = .ok clean := by
    rw [hclean]
    rfl
  exact exists_bind_eq_ok hsearched (exists_ite_eq_ok _ _ _)

theorem answers_temporaryField : temporaryField.Answers := by
  intro threshold ctx s clean hraw _ _ hthreshold
  obtain ⟨minUses, hminUses, hadmits⟩ := hthreshold .temporaryFieldMinUses
  obtain ⟨n, hn⟩ := hadmits.isNumber
  refine exists_bind_eq_ok (congrArg Fault.lift hminUses) ?_
  refine exists_bind_eq_ok (Context.searched_of_raw hraw) ?_
  exact exists_bind_eq_ok (filterM_ok fun name _ =>
    congrArg Fault.lift (Value.compare_of_number? rfl hn .lt)) ⟨_, rfl⟩

theorem answers_parallelInheritance : parallelInheritance.Answers := by
  intro threshold ctx s clean hraw _ _ hthreshold
  obtain ⟨minClasses, hminClasses, hclasses⟩ := hthreshold .parallelInheritanceMinClasses
  obtain ⟨minExtends, hminExtends, hextends⟩ := hthreshold .parallelInheritanceMinExtends
  obtain ⟨m, hm⟩ := hclasses.isNumber
  obtain ⟨n, hn⟩ := hextends.isNumber
  refine exists_bind_eq_ok (congrArg Fault.lift hminClasses) ?_
  refine exists_bind_eq_ok (Context.blocks_of_raw hraw .classBlock) ?_
  refine exists_bind_eq_ok (congrArg Fault.lift (Value.compare_of_number? rfl hm .le)) ?_
  split
  · exact ⟨_, rfl⟩
  · refine exists_bind_eq_ok (congrArg Fault.lift hminExtends) ?_
    refine exists_bind_eq_ok (Context.searched_of_raw hraw) ?_
    refine exists_bind_eq_ok (congrArg Fault.lift (Value.compare_of_number? rfl hn .le)) ?_
    exact exists_ite_eq_ok _ _ _

theorem answers_comments : comments.Answers := by
  intro threshold ctx s clean hraw _ hlength hthreshold
  obtain ⟨ratio, hratio, hadmits⟩ := hthreshold .commentRatio
  obtain ⟨n, hn⟩ := hadmits.isNumber
  -- With a ratio in floating point, the number of lines has to be one as well.
  obtain ⟨limit, m, hlimit, hm⟩ :=
    Value.exists_times hn (Text.length_lines_le_two_zpow hlength)
  refine exists_bind_eq_ok (congrArg Fault.lift hratio) ?_
  refine exists_bind_eq_ok (Context.searched_of_raw hraw) ?_
  refine exists_bind_eq_ok (Context.lines_of_raw hraw) ?_
  refine exists_bind_eq_ok (congrArg Fault.lift hlimit) ?_
  refine exists_bind_eq_ok (congrArg Fault.lift (Value.compare_of_number? rfl hm .gt)) ?_
  exact exists_ite_eq_ok _ _ _

theorem answers_duplicateCode : duplicateCode.Answers := by
  intro threshold ctx s clean hraw _ _ hthreshold
  obtain ⟨window, hwindow, hwindowAdmits⟩ := hthreshold .duplicateWindowLines
  obtain ⟨minChars, hminChars, hcharsAdmit⟩ := hthreshold .duplicateMinChars
  -- The range of windows is the only place where a number is not enough.
  obtain ⟨size, hsize⟩ := hwindowAdmits.exists_int nofun
  obtain ⟨n, hn⟩ := hcharsAdmit.isNumber
  have hwhole : windowSize window = .ok size := by
    rw [windowSize, hsize]
  have hany : anyPasses (fun w => do
      let chunk := Text.unlines w
      return (← (Value.nat chunk.length).gt minChars) && chunk.recurs s)
      (Text.windows s.lines size) = .ok ((Text.windows s.lines size).any fun w =>
        exceeds (Text.unlines w) n && (Text.unlines w).recurs s) :=
    anyPasses_eq_ok fun w _ => bind_eq_of_eq_ok (length_gt_of_number? hn (Text.unlines w)) _
  refine exists_bind_eq_ok (congrArg Fault.lift hwindow) ?_
  refine exists_bind_eq_ok (congrArg Fault.lift hminChars) ?_
  refine exists_bind_eq_ok (Context.lines_of_raw hraw) ?_
  refine exists_bind_eq_ok (Context.searched_of_raw hraw) ?_
  refine exists_bind_eq_ok (congrArg Fault.lift hwhole) ?_
  exact exists_bind_eq_ok (congrArg Fault.lift hany) ⟨_, rfl⟩

theorem answers_featureEnvy : featureEnvy.Answers := by
  intro threshold ctx s clean hraw _ _ hthreshold
  obtain ⟨maxCalls, hmaxCalls, hadmits⟩ := hthreshold .featureEnvyCalls
  obtain ⟨n, hn⟩ := hadmits.isNumber
  refine exists_bind_eq_ok (congrArg Fault.lift hmaxCalls) ?_
  refine exists_bind_eq_ok (Context.searched_of_raw hraw) ?_
  exact exists_bind_eq_ok (filterM_ok fun _ _ =>
    congrArg Fault.lift (Value.compare_of_number? rfl hn .gt)) ⟨_, rfl⟩

end Rule

/-- Every rule of the catalog has an answer. -/
theorem Catalog.answers {r : Rule} (h : r ∈ rules) : r.Answers := by
  obtain rfl | rfl | rfl | rfl | rfl | rfl | rfl | rfl | rfl := cases_of_mem_rules h
  · exact Rule.answers_longMethod
  · exact Rule.answers_longParameterList
  · exact Rule.answers_largeClass
  · exact Rule.answers_switchStatements
  · exact Rule.answers_temporaryField
  · exact Rule.answers_parallelInheritance
  · exact Rule.answers_comments
  · exact Rule.answers_duplicateCode
  · exact Rule.answers_featureEnvy

end CodeHealth
