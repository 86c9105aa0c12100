import CodeHealth.Proofs.Diagnostics.Counters
import CodeHealth.Proofs.Diagnostics.Statistics
import CodeHealth.Proofs.Entries

/-!
# What diagnostics have to say of their history

Whatever is asked of them, diagnostics tell about the calls since the last reset: a counter is the
sum of what has been added to it, and of each operation the latest durations are kept, as many as
are to be kept. `Diagnostics.Follows` relates diagnostics to the calls that have been made; each
call keeps it, and so does a sequence of them (`Follows.afterAll`).

Sums do not depend on the order, so callers that share diagnostics find the same counters however
their calls come to be interleaved (`Interleaving.perm`). The number of durations to keep has to be
one that a machine word can hold; a larger one is refused with the first duration.
-/

namespace CodeHealth

/-! ### Calls -/

/-- What may be asked of diagnostics, apart from reading them. -/
inductive DiagnosticsCall where
  | increment (name : String) (amount : Int)
  | record (operation : String) (duration : Value)
  | reset

namespace DiagnosticsCall

def isReset : DiagnosticsCall → Bool
  | .reset => true
  | _ => false

/-- What a call adds to a counter. -/
def amount? (name : String) : DiagnosticsCall → Option Int
  | .increment other amount => if other = name then some amount else none
  | _ => none

def duration? (operation : String) : DiagnosticsCall → Option Value
  | .record other duration => if other = operation then some duration else none
  | _ => none

/-- The counter that a call adds to. -/
def name? : DiagnosticsCall → Option String
  | .increment name _ => some name
  | _ => none

def operation? : DiagnosticsCall → Option String
  | .record operation _ => some operation
  | _ => none

def sinceReset (calls : List DiagnosticsCall) : List DiagnosticsCall :=
  (calls.reverse.takeWhile fun call => !call.isReset).reverse

/-- What has been added to a counter, altogether. -/
def added (name : String) (calls : List DiagnosticsCall) : Int :=
  (calls.filterMap (amount? name)).foldl (· + ·) 0

def recorded (operation : String) (calls : List DiagnosticsCall) : List Value :=
  calls.filterMap (duration? operation)

/-- The counters that have been added to, in the order of their first increments. -/
def names (calls : List DiagnosticsCall) : List String :=
  (calls.filterMap name?).eraseDups

/-- The operations of which durations have been recorded, in the order of their first ones. -/
def operations (calls : List DiagnosticsCall) : List String :=
  (calls.filterMap operation?).eraseDups

variable {calls : List DiagnosticsCall}

theorem sinceReset_append (calls : List DiagnosticsCall) (call : DiagnosticsCall) :
    sinceReset (calls ++ [call]) = if call.isReset then [] else sinceReset calls ++ [call] := by
  unfold sinceReset
  rw [List.reverse_append, List.reverse_singleton, List.singleton_append, List.takeWhile_cons]
  cases call.isReset with
  | true => rfl
  | false => exact List.reverse_cons

theorem added_append (name : String) (calls : List DiagnosticsCall) (call : DiagnosticsCall) :
    added name (calls ++ [call]) = added name calls + (call.amount? name).getD 0 := by
  unfold added
  rw [List.filterMap_append, List.foldl_append]
  cases h : call.amount? name with
  | none => simp [h]
  | some amount => simp [h]

theorem recorded_append (operation : String) (calls : List DiagnosticsCall)
    (call : DiagnosticsCall) : recorded operation (calls ++ [call]) =
      recorded operation calls ++ (call.duration? operation).toList := by
  unfold recorded
  rw [List.filterMap_append]
  cases h : call.duration? operation with
  | none => simp [h]
  | some duration => simp [h]

theorem mem_operations_iff {operation : String} :
    operation ∈ operations calls ↔ recorded operation calls ≠ [] := by
  rw [operations, List.mem_eraseDups, recorded, Ne, List.filterMap_eq_nil_iff, List.mem_filterMap]
  constructor
  · rintro ⟨call, hcall, hoperation⟩ hnone
    have hduration := hnone call hcall
    cases call with
    | record other duration =>
      obtain rfl := Option.some.inj hoperation
      rw [duration?, if_pos rfl] at hduration
      contradiction
    | increment name amount => contradiction
    | reset => contradiction
  · intro hsome
    refine Classical.byContradiction fun hnone => hsome fun call hcall => ?_
    cases call with
    | record other duration =>
      have hne : other ≠ operation := fun heq => hnone ⟨_, hcall, congrArg some heq⟩
      exact if_neg hne
    | increment name amount => rfl
    | reset => rfl

end DiagnosticsCall

/-! ### Callers -/

/-- The calls of several callers in one sequence, those of each caller in its order. -/
inductive Interleaving {α : Type} : (callers : List (List α)) → (calls : List α) → Prop where
  | nil {callers : List (List α)} (h : ∀ caller ∈ callers, caller = []) : Interleaving callers []
  | cons (before : List (List α)) {after : List (List α)} {call : α} {rest calls : List α}
      (h : Interleaving (before ++ rest :: after) calls) :
      Interleaving (before ++ (call :: rest) :: after) (call :: calls)

theorem Interleaving.perm {α : Type} {callers : List (List α)} {calls : List α}
    (h : Interleaving callers calls) : calls.Perm callers.flatten := by
  induction h with
  | nil h => rw [List.flatten_eq_nil_iff.mpr h]
  | cons before h ih =>
    rw [List.flatten_append, List.flatten_cons] at ih ⊢
    exact (ih.cons _).trans List.perm_middle.symm

namespace DiagnosticsCall

variable {calls calls' more : List DiagnosticsCall}

theorem added_perm (h : calls.Perm calls') (name : String) :
    added name calls = added name calls' := by
  refine (h.filterMap (amount? name)).foldl_eq' (fun x _ y _ sum => ?_) 0
  omega

theorem mem_names_perm (h : calls.Perm calls') (name : String) :
    name ∈ names calls ↔ name ∈ names calls' := by
  rw [names, names, List.mem_eraseDups, List.mem_eraseDups]
  exact (h.filterMap name?).mem_iff

theorem sinceReset_append_of_forall (h : ∀ call ∈ more, call.isReset = false) :
    sinceReset (calls ++ more) = sinceReset calls ++ more := by
  induction more generalizing calls with
  | nil => rw [List.append_nil, List.append_nil]
  | cons call rest ih =>
    have hcall : sinceReset (calls ++ [call]) = sinceReset calls ++ [call] := by
      rw [sinceReset_append, if_neg (by simp [h call List.mem_cons_self])]
    rw [List.append_cons, ih fun c hc => h c (List.mem_cons_of_mem call hc), hcall,
      ← List.append_cons]

end DiagnosticsCall

namespace Diagnostics

open DiagnosticsCall

/-! ### Diagnostics after calls -/

def after (d : Diagnostics) : DiagnosticsCall → Except Fault Diagnostics
  | .increment name amount => (d.increment name (.int amount)).1.map fun _ =>
      (d.increment name (.int amount)).2
  | .record operation duration => d.record operation duration
  | .reset => .ok d.reset

def afterAll (d : Diagnostics) (calls : List DiagnosticsCall) : Except Fault Diagnostics :=
  calls.foldlM after d

variable {d : Diagnostics} {m : Nat} {calls : List DiagnosticsCall}

theorem increment_int {name : String} {n : Int} (h : d.count name = .int n) (amount : Int) :
    d.increment name (.int amount) =
      (.ok (), { d with counters := Entries.put name (.int (n + amount)) d.counters }) := by
  rw [increment, h]
  rfl

/-- What is dropped once would be dropped anyway. -/
theorem latest_latest_append (m : Nat) (samples : List Value) (duration : Value) :
    latest (some m) (latest (some m) samples ++ [duration]) =
      latest (some m) (samples ++ [duration]) := by
  unfold latest
  dsimp only
  rw [← List.drop_append_of_le_length (Nat.sub_le _ _), List.drop_drop]
  congr 1
  simp only [List.length_drop, List.length_append, List.length_singleton]
  omega

theorem latest_suffix (m : Nat) (samples : List Value) :
    latest (some m) samples <:+ samples ∧
      (latest (some m) samples).length = Min.min samples.length m := by
  refine ⟨List.drop_suffix _ _, ?_⟩
  unfold latest
  rw [List.length_drop]
  omega

theorem statsValue_of_stats {operation : String} {stats : DurationStats}
    (hstats : d.stats operation = .ok (some stats)) :
    d.statsValue operation = .ok stats.toValue := by
  rw [statsValue, hstats]
  rfl

/-- Diagnostics that tell of the calls since the last reset. -/
structure Follows (m : Nat) (calls : List DiagnosticsCall) (d : Diagnostics) : Prop where
  sampleBound?_eq : d.sampleBound? = .ok (some m)
  count_eq : ∀ name, d.count name = .int (added name (sinceReset calls))
  nodup_counters : d.counters.keys.Nodup
  keys_counters : d.counters.keys = names (sinceReset calls)
  samples_eq : ∀ operation,
    d.samples operation = latest (some m) (recorded operation (sinceReset calls))
  keys_durations : d.durations.keys = operations (sinceReset calls)

namespace Follows

theorem increment (h : Follows m calls d) (name : String) (amount : Int) :
    ∃ d', d.after (.increment name amount) = .ok d' ∧
      Follows m (calls ++ [.increment name amount]) d' := by
  have hlog : sinceReset (calls ++ [.increment name amount]) =
      sinceReset calls ++ [.increment name amount] := sinceReset_append calls _
  refine ⟨_, by rw [after, increment_int (h.count_eq name)]; rfl, ?_⟩
  refine ⟨h.sampleBound?_eq, fun other => ?_, Entries.nodup_keys_put h.nodup_counters, ?_,
    fun operation => ?_, ?_⟩
  · rw [hlog, added_append, amount?, count, Entries.get?_put]
    split
    · rename_i heq
      rw [heq]
      rfl
    · exact (h.count_eq other).trans (congrArg Number.int (Int.add_zero _).symm)
  · rw [hlog, names, List.filterMap_append, Entries.keys_put, h.keys_counters]
    exact (Entries.eraseDups_concat _ _).symm
  · rw [hlog, recorded_append]
    exact (h.samples_eq operation).trans (congrArg (latest (some m)) (List.append_nil _).symm)
  · rw [hlog, operations, List.filterMap_append]
    exact h.keys_durations.trans (congrArg List.eraseDups (List.append_nil _).symm)

theorem record (h : Follows m calls d) (operation : String) (duration : Value) :
    ∃ d', d.after (.record operation duration) = .ok d' ∧
      Follows m (calls ++ [.record operation duration]) d' := by
  have hlog : sinceReset (calls ++ [.record operation duration]) =
      sinceReset calls ++ [.record operation duration] := sinceReset_append calls _
  refine ⟨_, by rw [after, Diagnostics.record, h.sampleBound?_eq]; rfl, ?_⟩
  refine ⟨h.sampleBound?_eq, fun name => ?_, h.nodup_counters, ?_, fun other => ?_, ?_⟩
  · rw [hlog, added_append]
    exact (h.count_eq name).trans (congrArg Number.int (Int.add_zero _).symm)
  · rw [hlog, names, List.filterMap_append]
    exact h.keys_counters.trans (congrArg List.eraseDups (List.append_nil _).symm)
  · rw [hlog, recorded_append, duration?, samples, Entries.get?_alter]
    split
    · rename_i heq
      subst heq
      change latest (some m) (d.samples operation ++ [duration]) = _
      rw [h.samples_eq, latest_latest_append]
      rfl
    · exact (h.samples_eq other).trans (congrArg (latest (some m)) (List.append_nil _).symm)
  · rw [hlog, operations, List.filterMap_append, Entries.keys_alter, h.keys_durations]
    exact (Entries.eraseDups_concat _ _).symm

theorem reset (h : Follows m calls d) :
    ∃ d', d.after .reset = .ok d' ∧ Follows m (calls ++ [.reset]) d' := by
  have hlog : sinceReset (calls ++ [.reset]) = [] := sinceReset_append calls .reset
  refine ⟨_, rfl, h.sampleBound?_eq, fun name => ?_, List.nodup_nil, ?_, fun operation => ?_, ?_⟩
  · rw [hlog]
    rfl
  · rw [hlog]
    rfl
  · rw [hlog]
    exact List.drop_nil.symm
  · rw [hlog]
    rfl

/-- Calls find the diagnostics following the history and leave them so. -/
theorem afterAll (h : Follows m calls d) (more : List DiagnosticsCall) :
    ∃ d', d.afterAll more = .ok d' ∧ Follows m (calls ++ more) d' := by
  induction more generalizing calls d with
  | nil => exact ⟨d, rfl, by rwa [List.append_nil]⟩
  | cons call rest ih =>
    have hstep : ∃ d', d.after call = .ok d' ∧ Follows m (calls ++ [call]) d' := by
      cases call with
      | increment name amount => exact h.increment name amount
      | record operation duration => exact h.record operation duration
      | reset => exact h.reset
    obtain ⟨d', hd', hfollows⟩ := hstep
    obtain ⟨d'', hd'', hfollows'⟩ := ih hfollows
    refine ⟨d'', ?_, by rwa [List.append_assoc] at hfollows'⟩
    rw [Diagnostics.afterAll, List.foldlM_cons, hd']
    exact hd''

/-! ### Reading -/

variable (h : Follows m calls d)
include h

theorem stats_eq (operation : String) : d.stats operation =
    DurationStats.ofSamples (latest (some m) (recorded operation (sinceReset calls))) := by
  rw [stats, h.samples_eq]

/-- There are no statistics of an operation that has not been recorded, and of no other one. -/
theorem stats_eq_none_iff (hpos : 1 ≤ m) (operation : String) :
    d.stats operation = .ok none ↔ operation ∉ operations (sinceReset calls) := by
  have hlength := (latest_suffix m (recorded operation (sinceReset calls))).2
  rw [h.stats_eq, DurationStats.ofSamples_eq_none_iff, mem_operations_iff, Ne,
    ← List.length_eq_zero_iff, hlength, ← List.length_eq_zero_iff]
  omega

/-- A snapshot lists the counters and operations of the history. -/
theorem snapshot_eq {stats : String → DurationStats}
    (hstats : ∀ operation ∈ operations (sinceReset calls),
      d.stats operation = .ok (some (stats operation))) :
    d.snapshot = .ok (.object
      [("counters", .object ((names (sinceReset calls)).map fun name =>
          (name, .int (added name (sinceReset calls))))),
        ("timings", .object ((operations (sinceReset calls)).map fun operation =>
          (operation, (stats operation).toValue)))]) := by
  have hcounters : Entries.mapValues Number.toValue d.counters =
      (names (sinceReset calls)).map fun name =>
        (name, Value.int (added name (sinceReset calls))) := by
    rw [← h.keys_counters]
    refine Entries.mapValues_eq_map_keys h.nodup_counters fun name n hget => ?_
    have hcount := h.count_eq name
    rw [count, hget] at hcount
    exact congrArg Number.toValue hcount
  have htimings : d.durations.keys.mapM (fun operation =>
        return (operation, ← d.statsValue operation)) =
      Except.ok ((operations (sinceReset calls)).map fun operation =>
        (operation, (stats operation).toValue)) := by
    rw [h.keys_durations]
    refine mapM_eq_ok fun operation hoperation => ?_
    rw [statsValue_of_stats (hstats operation hoperation)]
    rfl
  change (d.durations.keys.mapM (fun operation => return (operation, ← d.statsValue operation)) >>=
    fun timings => .ok (Value.object
      [("counters", .object (Entries.mapValues Number.toValue d.counters)),
        ("timings", .object timings)])) = _
  rw [hcounters, htimings]
  rfl

/-- However the calls of some callers come to be interleaved, the counters are the same. -/
theorem counters_of_interleavings {callers : List (List DiagnosticsCall)}
    {calls₁ calls₂ : List DiagnosticsCall}
    (hcallers : ∀ caller ∈ callers, ∀ call ∈ caller, call.isReset = false)
    (h₁ : Interleaving callers calls₁) (h₂ : Interleaving callers calls₂) :
    ∃ d₁ d₂, d.afterAll calls₁ = .ok d₁ ∧ d.afterAll calls₂ = .ok d₂ ∧
      ∀ name, d₁.count name = d₂.count name ∧
        (name ∈ d₁.counters.keys ↔ name ∈ d₂.counters.keys) := by
  have hno {more : List DiagnosticsCall} (hmore : Interleaving callers more) :
      ∀ call ∈ more, call.isReset = false := by
    intro call hcall
    obtain ⟨caller, hcaller, hmem⟩ := List.mem_flatten.mp (hmore.perm.mem_iff.mp hcall)
    exact hcallers caller hcaller call hmem
  have hperm : (sinceReset (calls ++ calls₁)).Perm (sinceReset (calls ++ calls₂)) := by
    rw [sinceReset_append_of_forall (hno h₁), sinceReset_append_of_forall (hno h₂)]
    exact (h₁.perm.trans h₂.perm.symm).append_left _
  obtain ⟨d₁, hd₁, hfollows₁⟩ := h.afterAll calls₁
  obtain ⟨d₂, hd₂, hfollows₂⟩ := h.afterAll calls₂
  refine ⟨d₁, d₂, hd₁, hd₂, fun name => ⟨?_, ?_⟩⟩
  · rw [hfollows₁.count_eq, hfollows₂.count_eq, added_perm hperm]
  · rw [hfollows₁.keys_counters, hfollows₂.keys_counters]
    exact mem_names_perm hperm name

end Follows

/-! ### The whole history -/

/-- New diagnostics that keep up to `m` durations. -/
theorem follows_nil {maxSamples : Value} (hmax : maxSamples.number? = some (.int m))
    (hle : m ≤ 9223372036854775807) : Follows m [] { maxSamples } where
  sampleBound?_eq := by
    have hbound : ({ maxSamples } : Diagnostics).sampleBound? =
        if (m : Int) < -9223372036854775808 ∨ 9223372036854775807 < (m : Int) then
          .error .outOfRange
        else if (m : Int) < 0 then .error .inadmissible else .ok (some (m : Int).toNat) := by
      unfold sampleBound?
      obtain rfl | ⟨b, rfl, hb⟩ := Value.cases_of_number? hmax
      · rfl
      · rw [hb]
        rfl
    rw [hbound, if_neg (by omega), if_neg (by omega), Int.toNat_natCast]
  count_eq := fun _ => rfl
  nodup_counters := List.nodup_nil
  keys_counters := rfl
  samples_eq := fun _ => List.drop_nil.symm
  keys_durations := rfl

/-- What diagnostics that keep up to `m` durations of an operation tell of the calls since the last
reset. -/
structure Tells (m : Nat) (log : List DiagnosticsCall) (d : Diagnostics) : Prop where
  /-- A counter is the sum of what has been added to it. -/
  count_eq : ∀ name, d.count name = .int (added name log)
  /-- The statistics of an operation are those of its latest durations, and of nothing else. -/
  stats_eq : ∀ operation, ∃ kept, kept <:+ recorded operation log ∧
    kept.length = Min.min (recorded operation log).length m ∧
    d.stats operation = DurationStats.ofSamples kept
  /-- There are none exactly if the operation has not been recorded. -/
  stats_eq_none_iff : ∀ operation, d.stats operation = .ok none ↔ operation ∉ operations log
  /-- The statistics say how many durations they are about. -/
  count_of_stats : ∀ operation stats, d.stats operation = .ok (some stats) →
    stats.count = Min.min (recorded operation log).length m
  /-- Durations in floating point have statistics, and so have whole ones with room for
  their sum. -/
  exists_stats : ∀ limit operation, (∀ v ∈ recorded operation log, v.Within limit) →
    ((m * limit : Nat) : Rat) ≤ 2 ^ (1022 : Int) → operation ∈ operations log →
    ∃ stats, d.stats operation = .ok (some stats)
  /-- A snapshot lists these counters and operations with what is told of them one by one. -/
  snapshot_eq : ∀ stats : String → DurationStats,
    (∀ operation ∈ operations log, d.stats operation = .ok (some (stats operation))) →
    d.snapshot = .ok (.object
      [("counters", .object ((names log).map fun name => (name, .int (added name log)))),
        ("timings", .object ((operations log).map fun operation =>
          (operation, (stats operation).toValue)))])

theorem Follows.tells (h : Follows m calls d) (hpos : 1 ≤ m) (hle : m ≤ 9223372036854775807) :
    Tells m (sinceReset calls) d where
  count_eq := h.count_eq
  stats_eq :=
    fun operation => ⟨_, (latest_suffix m _).1, (latest_suffix m _).2, h.stats_eq operation⟩
  stats_eq_none_iff := h.stats_eq_none_iff hpos
  count_of_stats := by
    intro operation stats hstats
    rw [h.stats_eq] at hstats
    rw [DurationStats.count_of_ofSamples hstats]
    exact (latest_suffix m _).2
  exists_stats := by
    intro limit operation hwithin hlimit hmem
    obtain ⟨hsuffix, hlength⟩ := latest_suffix m (recorded operation (sinceReset calls))
    have hcount : (latest (some m) (recorded operation (sinceReset calls))).length ≤ m := by omega
    rw [h.stats_eq]
    refine DurationStats.exists_ofSamples ?_ (fun v hv => hwithin v (hsuffix.subset hv)) ?_ ?_
    · intro hnil
      rw [mem_operations_iff, Ne, ← List.length_eq_zero_iff] at hmem
      rw [hnil, List.length_nil] at hlength
      omega
    · have hword : ((9223372036854775807 : Nat) : Rat) ≤ 2 ^ (1023 : Int) := by decide +kernel
      exact Rat.le_trans (Rat.natCast_le_natCast.mpr (Nat.le_trans hcount hle)) hword
    · exact Rat.le_trans (Rat.natCast_le_natCast.mpr (Nat.mul_le_mul_right limit hcount)) hlimit
  snapshot_eq := fun _ hstats => h.snapshot_eq hstats

/-- Diagnostics that are to keep a number of durations that a machine word can hold tell of the
calls since the last reset, whatever calls have been made. What several callers do to them
afterwards leaves the same counters in whatever order their calls come. -/
theorem tells_afterAll {maxSamples : Value} (hmax : maxSamples.number? = some (.int m))
    (hpos : 1 ≤ m) (hle : m ≤ 9223372036854775807) (calls : List DiagnosticsCall) :
    ∃ d, ({ maxSamples } : Diagnostics).afterAll calls = .ok d ∧ Tells m (sinceReset calls) d ∧
      ∀ callers calls₁ calls₂,
        (∀ caller ∈ callers, ∀ call ∈ caller, call.isReset = false) →
        Interleaving callers calls₁ → Interleaving callers calls₂ →
        ∃ d₁ d₂, d.afterAll calls₁ = .ok d₁ ∧ d.afterAll calls₂ = .ok d₂ ∧
          ∀ name, d₁.count name = d₂.count name ∧
            (name ∈ d₁.counters.keys ↔ name ∈ d₂.counters.keys) := by
  obtain ⟨d, hd, hfollows⟩ := (follows_nil hmax hle).afterAll calls
  rw [List.nil_append] at hfollows
  exact ⟨d, hd, hfollows.tells hpos hle, fun _ _ _ hcallers h₁ h₂ =>
    hfollows.counters_of_interleavings hcallers h₁ h₂⟩

/-- Two durations are kept of the three after the reset, and it does not matter which of two callers
comes first. -/
theorem tells_afterAll_two :
    ∃ d, ({ maxSamples := .int 2 } : Diagnostics).afterAll
        [.record "x" (.int 9), .increment "a" 5, .reset, .increment "a" 1,
          .record "x" (.double (.finite 3)), .record "x" (.int 1), .increment "b" (-2),
          .record "x" (.int 2), .increment "a" 3] = .ok d ∧
      d.count "a" = .int 4 ∧ d.stats "x" = DurationStats.ofSamples [.int 1, .int 2] ∧
      d.stats "y" = .ok none ∧
      ∃ d₁ d₂, d.afterAll [.increment "c" 1, .increment "a" 2, .increment "a" 3] = .ok d₁ ∧
        d.afterAll [.increment "a" 3, .increment "c" 1, .increment "a" 2] = .ok d₂ ∧
        d₁.count "a" = d₂.count "a" := by
  obtain ⟨d, hd, htells, hcallers⟩ := tells_afterAll
    (rfl : (Value.int 2).number? = some (.int (2 : Nat))) (by decide) (by decide)
    [.record "x" (.int 9), .increment "a" 5, .reset, .increment "a" 1,
      .record "x" (.double (.finite 3)), .record "x" (.int 1), .increment "b" (-2),
      .record "x" (.int 2), .increment "a" 3]
  obtain ⟨kept, hsuffix, hlength, hstats⟩ := htells.stats_eq "x"
  have hkept : kept = [.int 1, .int 2] := by
    rw [List.suffix_iff_eq_drop, hlength] at hsuffix
    exact hsuffix
  obtain ⟨d₁, d₂, hd₁, hd₂, hsame⟩ :=
    hcallers [[.increment "c" 1, .increment "a" 2], [.increment "a" 3]]
      [.increment "c" 1, .increment "a" 2, .increment "a" 3]
      [.increment "a" 3, .increment "c" 1, .increment "a" 2]
      (by
        intro caller hcaller call hcall
        simp only [List.mem_cons, List.not_mem_nil, or_false] at hcaller
        obtain rfl | rfl := hcaller
        · simp only [List.mem_cons, List.not_mem_nil, or_false] at hcall
          obtain rfl | rfl := hcall <;> rfl
        · rw [List.mem_singleton.mp hcall]
          rfl)
      (.cons [] (.cons [] (.cons [[]] (.nil (by simp)))))
      (.cons [_] (.cons [] (.cons [] (.nil (by simp)))))
  exact ⟨d, hd, htells.count_eq "a", hkept ▸ hstats, (htells.stats_eq_none_iff "y").mpr (by decide),
    d₁, d₂, hd₁, hd₂, (hsame "a").1⟩

/-- A larger number of durations to keep is refused with the first one. -/
theorem not_tells_beyond_word : ¬∀ m : Nat, 1 ≤ m → ∀ calls : List DiagnosticsCall,
    ∃ d, ({ maxSamples := .int m } : Diagnostics).afterAll calls = .ok d ∧
      Tells m (sinceReset calls) d := by
  intro h
  obtain ⟨d, hd, -⟩ := h 9223372036854775808 (by decide) [.record "a" (.double (.finite 1))]
  have hrefused : ({ maxSamples := .int 9223372036854775808 } : Diagnostics).afterAll
      [.record "a" (.double (.finite 1))] = .error .outOfRange := rfl
  rw [show ((9223372036854775808 : Nat) : Int) = 9223372036854775808 from rfl, hrefused] at hd
  contradiction

end Diagnostics

end CodeHealth
