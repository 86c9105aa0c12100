import CodeHealth.Engine.Basic
import CodeHealth.Proofs.Rule.Catalog

/-!
# Rules that share what was looked up

The lines, the methods and the classes of a source are looked up when a rule first asks for them and
then kept for all rules of the run. A rule is given here by its *inquiry*: what it asks for, what it
makes of the answers, and what it asks for next. Which questions come, and in which order, may
depend on all answers before, and a rule may fail at any point.

What is kept is always what a new look would find (`Memory.Sound`); one lookup preserves that, and
so does an inquiry, and a run of many. Therefore a rule finds the same whatever was asked before it,
by itself or by others (`outcomesRemembering_eq`). A lookup that fails leaves nothing behind.
-/

namespace CodeHealth

/-- What a rule can ask for. -/
inductive Question where
  | lines
  | blocks (kind : BlockKind)
deriving DecidableEq

def Question.Answer : Question → Type
  | .lines => List Text
  | .blocks _ => List Block

def Context.answer (ctx : Context) : (q : Question) → Except Fault q.Answer
  | .lines => ctx.lines
  | .blocks kind => ctx.blocks kind

/-- The answers that are kept. -/
abbrev Memory := (q : Question) → Option q.Answer

namespace Memory

/-- The memory of a context that nothing was asked for. -/
def empty : Memory := fun _ => none

/-- Keeps an answer. -/
def keep (m : Memory) (q : Question) (a : q.Answer) : Memory := fun other =>
  if h : q = other then some (h ▸ a) else m other

/-- Answers a question from memory, or else from the context. An answer of the context is kept. -/
def look (ctx : Context) (m : Memory) (q : Question) : Except Fault q.Answer × Memory :=
  match m q with
  | some a => (.ok a, m)
  | none =>
    match ctx.answer q with
    | .ok a => (.ok a, m.keep q a)
    | .error f => (.error f, m)

/-- Whether all that is kept is what the context answers. -/
def Sound (ctx : Context) (m : Memory) : Prop :=
  ∀ q a, m q = some a → ctx.answer q = .ok a

variable {ctx : Context} {m : Memory} {q : Question}

theorem sound_empty (ctx : Context) : empty.Sound ctx := by
  intro q a h
  contradiction

theorem Sound.keep (h : m.Sound ctx) {a : q.Answer} (ha : ctx.answer q = .ok a) :
    (m.keep q a).Sound ctx := by
  intro other b hb
  rw [Memory.keep] at hb
  split at hb
  · rename_i heq
    subst heq
    rw [ha]
    exact congrArg Except.ok (Option.some.inj hb)
  · exact h other b hb

/-- From a sound memory comes the answer of the context, and the memory stays sound. -/
theorem Sound.look (h : m.Sound ctx) (q : Question) :
    (m.look ctx q).1 = ctx.answer q ∧ (m.look ctx q).2.Sound ctx := by
  rw [Memory.look]
  split
  · rename_i a ha
    exact ⟨(h q a ha).symm, h⟩
  · split
    · rename_i a ha
      exact ⟨ha.symm, h.keep ha⟩
    · rename_i f hf
      exact ⟨hf.symm, h⟩

end Memory

/-- The course of a rule: it asks for something and goes on with the answer, or it ends with its
findings or a failure. -/
inductive Inquiry where
  | done (found : Except Failure (List String))
  | ask (q : Question) (next : Except Fault q.Answer → Inquiry)

namespace Inquiry

/-- What is found where every answer comes from the context. -/
def afresh (ctx : Context) : Inquiry → Except Failure (List String)
  | done found => found
  | ask q next => afresh ctx (next (ctx.answer q))

/-- What is found where answers are kept, and the memory afterwards. -/
def remembering (ctx : Context) : Inquiry → Memory → Except Failure (List String) × Memory
  | done found, m => (found, m)
  | ask q next, m => remembering ctx (next (m.look ctx q).1) (m.look ctx q).2

/-- A sound memory does not show in the findings, and it stays sound even if the rule fails. -/
theorem remembering_of_sound {ctx : Context} (i : Inquiry) {m : Memory} (h : m.Sound ctx) :
    (i.remembering ctx m).1 = i.afresh ctx ∧ (i.remembering ctx m).2.Sound ctx := by
  induction i generalizing m with
  | done found => exact ⟨rfl, h⟩
  | ask q next ih =>
    obtain ⟨hanswer, hsound⟩ := h.look q
    rw [remembering, afresh, hanswer]
    exact ih (ctx.answer q) hsound

/-- What an inquiry finds depends on the source and the scanner only. -/
theorem afresh_congr {ctx ctx' : Context} (hraw : ctx.raw = ctx'.raw)
    (hscanner : ctx.scanner = ctx'.scanner) (i : Inquiry) : i.afresh ctx = i.afresh ctx' := by
  have hanswer (q : Question) : ctx.answer q = ctx'.answer q := by
    cases q with
    | lines => exact congrArg Source.lines hraw
    | blocks kind =>
      change ctx.blocks kind = ctx'.blocks kind
      rw [Context.blocks, Context.blocks, hraw, hscanner]
  induction i with
  | done found => rfl
  | ask q next ih =>
    rw [afresh, afresh, hanswer]
    exact ih (ctx'.answer q)

end Inquiry

/-- What is reported of the findings of a rule. -/
def Rule.report (r : Rule) (found : Except Failure (List String)) : Outcome :=
  match found with
  | .ok descriptions => .ok <| descriptions.map fun description =>
      { category := .text r.category, name := .text r.name, description := .text description }
  | .error cause => .error ⟨r.id, cause⟩

theorem Rule.outcome_eq_report (r : Rule) (ctx : Context) :
    r.outcome ctx = r.report (r.find (ctx.threshold r.id) ctx) := by
  rw [outcome, scan]
  cases r.find (ctx.threshold r.id) ctx with
  | ok descriptions => rfl
  | error cause => rfl

/-- Whether an inquiry is the course that a rule takes on a context. -/
def Rule.Follows (r : Rule) (ctx : Context) (i : Inquiry) : Prop :=
  r.find (ctx.threshold r.id) ctx = i.afresh ctx

/-- What comes of rules that take their courses one after the other on one memory, and the memory
afterwards. -/
def outcomesRemembering (ctx : Context) (course : Rule → Inquiry) :
    List Rule → Memory → List Outcome × Memory
  | [], m => ([], m)
  | r :: rest, m =>
    let (found, m) := (course r).remembering ctx m
    let (outcomes, m) := outcomesRemembering ctx course rest m
    (r.report found :: outcomes, m)

section Remembering

variable {ctx : Context} {course : Rule → Inquiry} {rules : List Rule} {m : Memory}

theorem report_remembering {r : Rule} (hfollows : r.Follows ctx (course r)) (h : m.Sound ctx) :
    r.report ((course r).remembering ctx m).1 = r.outcome ctx := by
  rw [((course r).remembering_of_sound h).1, Rule.outcome_eq_report, hfollows]

/-- Rules that share a memory have the outcomes that they have without any, and what is kept in the
end is sound. -/
theorem outcomesRemembering_eq (hfollows : ∀ r ∈ rules, r.Follows ctx (course r))
    (h : m.Sound ctx) :
    (outcomesRemembering ctx course rules m).1 = rules.map (Rule.outcome ctx) ∧
      (outcomesRemembering ctx course rules m).2.Sound ctx := by
  induction rules generalizing m with
  | nil => exact ⟨rfl, h⟩
  | cons r rest ih =>
    obtain ⟨hr, hrest⟩ := List.forall_mem_cons.mp hfollows
    obtain ⟨houtcomes, hsound⟩ := ih hrest ((course r).remembering_of_sound h).2
    refine ⟨?_, hsound⟩
    change r.report ((course r).remembering ctx m).1 ::
      (outcomesRemembering ctx course rest ((course r).remembering ctx m).2).1 = _
    rw [houtcomes, report_remembering hr h, List.map_cons]

end Remembering

/-! ### The courses of the catalog -/

namespace Inquiry

/-- Goes on with a value, unless there is a fault instead. -/
def given {α : Type} (x : Except Fault α) (next : α → Inquiry) : Inquiry :=
  match x with
  | .ok a => next a
  | .error f => .done (.error f)

/-- Asks for something that the rule cannot do without. -/
def need (q : Question) (next : q.Answer → Inquiry) : Inquiry :=
  .ask q fun answer => given answer next

variable {α : Type} (ctx : Context)

theorem afresh_given (x : Except Fault α) (next : α → Inquiry) :
    (given x next).afresh ctx = Fault.lift x >>= fun a => (next a).afresh ctx := by
  cases x with
  | ok a => rfl
  | error f => rfl

theorem afresh_need (q : Question) (next : q.Answer → Inquiry) :
    (need q next).afresh ctx = Fault.lift (ctx.answer q) >>= fun a => (next a).afresh ctx :=
  afresh_given ctx (ctx.answer q) next

def oversized (limit : Except Fault Value) (kind : BlockKind) (size : Block → Nat)
    (description : Value → String) : Inquiry :=
  given limit fun limit => need (.blocks kind) fun blocks =>
    .done (Fault.lift (Rule.oversized size limit (description limit) blocks))

theorem afresh_oversized (limit : Except Fault Value) (kind : BlockKind) (size : Block → Nat)
    (description : Value → String) :
    (oversized limit kind size description).afresh ctx = (do
      let limit ← limit
      Rule.oversized size limit (description limit) (← ctx.blocks kind) :
        Except Failure (List String)) := by
  rw [oversized, afresh_given]
  simp only [afresh_need]
  rfl

end Inquiry

/-- Whether a rule takes courses that know of a context its texts only. The thresholds are given,
and everything else has to be asked for. -/
def Rule.Asks (r : Rule) : Prop :=
  ∃ course : (Threshold → Except Fault Value) → Source → Source → Inquiry,
    ∀ threshold ctx, r.find threshold ctx = (course threshold ctx.raw ctx.clean).afresh ctx

/-- What such a rule finds depends on the thresholds, the texts and the scanner only. -/
theorem Rule.Asks.find_congr {r : Rule} (h : r.Asks) (threshold : Threshold → Except Fault Value)
    (ctx ctx' : Context) (hraw : ctx.raw = ctx'.raw) (hclean : ctx.clean = ctx'.clean)
    (hscanner : ctx.scanner = ctx'.scanner) : r.find threshold ctx = r.find threshold ctx' := by
  obtain ⟨course, hcourse⟩ := h
  rw [hcourse, hcourse, hraw, hclean]
  exact Inquiry.afresh_congr hraw hscanner _

namespace Rule

theorem asks_longMethod : longMethod.Asks :=
  ⟨fun threshold _ _ => .oversized (threshold .longMethodLines) .method Block.lineCount _,
    fun _ ctx => (Inquiry.afresh_oversized ctx _ _ _ _).symm⟩

theorem asks_longParameterList : longParameterList.Asks :=
  ⟨fun threshold _ _ =>
      .oversized (threshold .longParameterCount) .method Block.parameterCount _,
    fun _ ctx => (Inquiry.afresh_oversized ctx _ _ _ _).symm⟩

theorem asks_largeClass : largeClass.Asks :=
  ⟨fun threshold _ _ => .oversized (threshold .largeClassLines) .classBlock Block.lineCount _,
    fun _ ctx => (Inquiry.afresh_oversized ctx _ _ _ _).symm⟩

theorem asks_parallelInheritance : parallelInheritance.Asks := by
  refine ⟨fun threshold raw _ =>
    .given (threshold .parallelInheritanceMinClasses) fun minClasses =>
    .need (.blocks .classBlock) fun classes =>
    .done do
      if ← (Value.nat (List.length classes)).le minClasses then return []
      let minExtends ← threshold .parallelInheritanceMinExtends
      let s ← raw.searched
      let clauses := Text.scan (Text.wholeWord "extends".toList) s
      if ← (Value.nat clauses.length).le minExtends then return []
      return ["Multiple inheritance hierarchies detected"], ?_⟩
  intro threshold ctx
  simp only [Inquiry.afresh_given, Inquiry.afresh_need]
  rfl

theorem asks_comments : comments.Asks := by
  refine ⟨fun threshold raw _ =>
    .given (threshold .commentRatio) fun ratio =>
    .given raw.searched fun s =>
    .need .lines fun ls =>
    .done do
      let limit ← ratio.times (List.length ls)
      if ← (Value.nat (Text.commentCount s)).gt limit then
        return ["High ratio of comments to code"]
      return [], ?_⟩
  intro threshold ctx
  simp only [Inquiry.afresh_given, Inquiry.afresh_need]
  rfl

theorem asks_duplicateCode : duplicateCode.Asks := by
  refine ⟨fun threshold raw _ =>
    .given (threshold .duplicateWindowLines) fun size =>
    .given (threshold .duplicateMinChars) fun minChars =>
    .need .lines fun ls =>
    .given raw.searched fun s =>
    .given (windowSize size) fun size =>
    .given (anyPasses (fun w => do
      let chunk := Text.unlines w
      return (← (Value.nat chunk.length).gt minChars) && chunk.recurs s)
        (Text.windows ls size)) fun found =>
    .done (.ok (if found then ["Similar code blocks found"] else [])), ?_⟩
  intro threshold ctx
  simp only [Inquiry.afresh_given, Inquiry.afresh_need]
  rfl

/-- A rule that looks at nothing but the texts asks for nothing. -/
theorem asks_of_texts {r : Rule}
    (found : (Threshold → Except Fault Value) → Source → Source → Except Failure (List String))
    (h : ∀ threshold ctx, r.find threshold ctx = found threshold ctx.raw ctx.clean) : r.Asks :=
  ⟨fun threshold raw clean => .done (found threshold raw clean), h⟩

end Rule

/-- All rules of the catalog take such courses. -/
theorem Catalog.asks {r : Rule} (h : r ∈ rules) : r.Asks := by
  obtain rfl | rfl | rfl | rfl | rfl | rfl | rfl | rfl | rfl := cases_of_mem_rules h
  · exact Rule.asks_longMethod
  · exact Rule.asks_longParameterList
  · exact Rule.asks_largeClass
  · exact Rule.asks_of_texts (fun threshold raw clean =>
      Rule.switchStatements.find threshold ⟨raw, clean, none, .firstBrace⟩) fun _ _ => rfl
  · exact Rule.asks_of_texts (fun threshold raw clean =>
      Rule.temporaryField.find threshold ⟨raw, clean, none, .firstBrace⟩) fun _ _ => rfl
  · exact Rule.asks_parallelInheritance
  · exact Rule.asks_comments
  · exact Rule.asks_duplicateCode
  · exact Rule.asks_of_texts (fun threshold raw clean =>
      Rule.featureEnvy.find threshold ⟨raw, clean, none, .firstBrace⟩) fun _ _ => rfl

end CodeHealth
