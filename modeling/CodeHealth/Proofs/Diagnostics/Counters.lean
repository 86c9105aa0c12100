import CodeHealth.Analyzer.Basic
import CodeHealth.Proofs.Fault

/-!
# What the counters show

Each step of an analysis writes to counters of its own, so that a counter shows how often one thing
has happened and nothing else. The counters of requests are out of reach of the analysis.
-/

namespace CodeHealth

theorem Counter.name_injective : ∀ {c c' : Counter}, c.name = c'.name → c = c' := by
  intro c c' h
  cases c <;> cases c' <;> first | rfl | exact absurd h (by decide)

namespace Diagnostics

variable {d : Diagnostics}

/-! ### One increment -/

theorem count_increment {name : String} {n : Int} (h : d.count name = .int n) :
    (d.increment name).2.count name = .int (n + 1) := by
  rw [increment]
  rw [h]
  change ((Entries.get? name (Entries.put name (Number.int (n + 1)) d.counters)).getD _) = _
  rw [Entries.put, Entries.get?_alter, if_pos rfl]
  rfl

theorem count_increment_of_ne {name other : String} (h : name ≠ other) (amount : Value) :
    (d.increment name amount).2.count other = d.count other := by
  rw [increment]
  split
  · simp [count, Entries.put, Entries.get?_alter, h]
  · simp [count, Entries.put, Entries.get?_alter, h]

/-! ### Increments of a counter -/

theorem count_note {name : String} {n : Int} (h : d.count name = .int n) (times : Nat) :
    (d.note name times).count name = .int (n + times) := by
  induction times generalizing d n with
  | zero => simpa [note] using h
  | succ times ih =>
    rw [note, ih (count_increment h)]
    congr 1
    omega

theorem count_note_of_ne {name other : String} (h : name ≠ other) (times : Nat) :
    (d.note name times).count other = d.count other := by
  induction times generalizing d with
  | zero => rfl
  | succ times ih => rw [note, ih, count_increment_of_ne h]

theorem count_add {c : Counter} {n : Int} (h : d.count c.name = .int n) (times : Nat) :
    (d.add c times).count c.name = .int (n + times) :=
  count_note h times

theorem count_add_of_ne {c c' : Counter} (h : c ≠ c') (times : Nat) :
    (d.add c times).count c'.name = d.count c'.name :=
  count_note_of_ne (fun hname => h (Counter.name_injective hname)) times

/-- Durations are kept apart from the counters. -/
theorem counters_of_record {d' : Diagnostics} {operation : String} {duration : Value}
    (h : d.record operation duration = .ok d') : d'.counters = d.counters := by
  obtain ⟨bound?, -, h⟩ := exists_of_bind_eq_ok h
  obtain rfl := Except.ok.inj h
  rfl

theorem count_of_record {d' : Diagnostics} {operation : String} {duration : Value}
    (h : d.record operation duration = .ok d') (name : String) : d'.count name = d.count name := by
  rw [count, count, counters_of_record h]

/-! ### The number of durations to keep -/

theorem maxSamples_increment (d : Diagnostics) (name : String) (amount : Value) :
    (d.increment name amount).2.maxSamples = d.maxSamples := by
  rw [increment]
  split
  · rfl
  · rfl

theorem maxSamples_note (d : Diagnostics) (name : String) (times : Nat) :
    (d.note name times).maxSamples = d.maxSamples := by
  induction times generalizing d with
  | zero => rfl
  | succ times ih => rw [note, ih, maxSamples_increment]

theorem sampleBound?_note (d : Diagnostics) (name : String) (times : Nat) :
    (d.note name times).sampleBound? = d.sampleBound? := by
  rw [sampleBound?, sampleBound?, maxSamples_note]

end Diagnostics

end CodeHealth
