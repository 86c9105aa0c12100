import CodeHealth.Diagnostics.Basic
import CodeHealth.Proofs.Fault

/-!
# Statistics in any arithmetic

How the statistics of durations are put together does not depend on how durations are added and how
quotients are rounded. `Arithmetic` lists the operations that are needed, and the statistics are
written down once for all of them. With the operations on values they are the ones that are reported
(`ofSamples_eq`); with those on rationals nothing is rounded.

A percentile lies at a rank, which is a place in the sorted durations with a fraction. The duration
at the place and the one after it are interpolated, as long as there is one after it.
-/

namespace CodeHealth.DurationStats

/-- The operations of which statistics are made. Durations are of one type, ranks and quotients of
another. -/
structure Arithmetic (δ ρ : Type) where
  /-- The number that a duration is, if it is one. -/
  number : δ → Except Fault Number
  below : δ → δ → Bool
  zero : δ
  add : δ → δ → Except Fault δ
  sub : δ → δ → Except Fault δ
  /-- A part of a duration. -/
  part : ρ → δ → Except Fault δ
  /-- A duration divided by a number of them. -/
  share : δ → Nat → Except Fault ρ
  /-- So many hundredths. -/
  hundredths : Nat → ρ
  whole : Nat → ρ
  times : ρ → ρ → ρ
  minus : ρ → ρ → ρ
  /-- The whole number of a rank. -/
  floor : ρ → Nat

structure Summary (δ ρ : Type) where
  count : Nat
  average : ρ
  least : δ
  greatest : δ
  median : δ
  percentile95 : δ

def ofSummary (s : Summary Value Double) : DurationStats :=
  { count := s.count, average := s.average, least := s.least, greatest := s.greatest,
    median := s.median, percentile95 := s.percentile95 }

namespace Arithmetic

variable {δ ρ : Type} (a : Arithmetic δ ρ)

/-- The place of a percentile among sorted durations, counted from zero and with a fraction. -/
def rank (percent count : Nat) : ρ :=
  a.times (a.hundredths percent) (a.whole (count - 1))

def place (percent count : Nat) : Nat :=
  a.floor (a.rank percent count)

/-- The place after that of a percentile, or the same one at the end. -/
def nextPlace (percent count : Nat) : Nat :=
  if a.place percent count + 1 < count then a.place percent count + 1 else a.place percent count

/-- The duration at a rank, or what is interpolated between the two durations around it. -/
def percentile (percent : Nat) (sorted : List δ) : Except Fault δ := do
  let place := a.place percent sorted.length
  let nextPlace := a.nextPlace percent sorted.length
  let lower := sorted.getD place a.zero
  if place = nextPlace then return lower
  else
    let upper := sorted.getD nextPlace a.zero
    let fraction := a.minus (a.rank percent sorted.length) (a.whole place)
    a.add lower (← a.part fraction (← a.sub upper lower))

def sum (samples : List δ) : Except Fault δ :=
  samples.foldlM a.add a.zero

/-- The summary of some durations, unless there are none. -/
def summary (samples : List δ) : Except Fault (Option (Summary δ ρ)) := do
  let _ ← samples.mapM a.number
  let sorted := Sorting.sort a.below samples
  match sorted.head?, sorted.getLast? with
  | some least, some greatest =>
    let average ← a.share (← a.sum samples) samples.length
    let median ← a.percentile 50 sorted
    let percentile95 ← a.percentile 95 sorted
    return some { count := samples.length, average, least, greatest, median, percentile95 }
  | _, _ => return none

/-- The arithmetic of what is reported: whole numbers are exact, all others are rounded. -/
def rounding : Arithmetic Value Double where
  number v := v.number .notReal
  below := DurationStats.below
  zero := .int 0
  add := Value.add
  sub := Value.sub
  part fraction v := (Value.double fraction).mul v
  share v count := v.div (.nat count)
  hundredths percent := Double.ofQuotient percent 100
  whole n := .nearest n
  times := Double.mul
  minus := Double.sub
  floor rank := (rank.toRat?.getD 0).floor.toNat

/-- Rational numbers, of which none is rounded. -/
def exact : Arithmetic Rat Rat where
  number x := .ok (.double (.finite x))
  below x y := decide (x < y)
  zero := 0
  add x y := .ok (x + y)
  sub x y := .ok (x - y)
  part fraction x := .ok (fraction * x)
  share x count := .ok (x / count)
  hundredths percent := percent / 100
  whole n := n
  times x y := x * y
  minus x y := x - y
  floor rank := rank.floor.toNat

end Arithmetic

open Arithmetic

/-! ### What is reported -/

theorem rank_eq (percent : Nat) {count : Nat} (hcount : 0 < count) :
    DurationStats.rank percent count = rounding.rank percent count := by
  have hlast : ((count - 1 : Nat) : Rat) = count - 1 := by
    obtain ⟨n, rfl⟩ := Nat.exists_eq_add_one.mpr hcount
    rw [Nat.add_sub_cancel, Rat.natCast_add]
    grind
  rw [DurationStats.rank, ← hlast]
  rfl

theorem percentile_eq (percent : Nat) {sorted : List Value} (hne : sorted ≠ []) :
    DurationStats.percentile percent sorted = rounding.percentile percent sorted := by
  have hrank := rank_eq percent (List.length_pos_iff.mpr hne)
  have hplace : ((rounding.rank percent sorted.length).toRat?.getD 0).floor.toNat =
      rounding.place percent sorted.length := rfl
  unfold DurationStats.percentile Arithmetic.percentile
  dsimp only
  rw [hrank, hplace, nextPlace]
  by_cases hnext : rounding.place percent sorted.length + 1 < sorted.length
  · rw [if_pos hnext, if_neg (Nat.ne_of_lt (Nat.lt_succ_self _)), List.getElem?_eq_getElem hnext,
      List.getD_eq_getElem?_getD, List.getD_eq_getElem?_getD, List.getElem?_eq_getElem hnext]
    rfl
  · rw [if_neg hnext, if_pos rfl, List.getElem?_eq_none (Nat.le_of_not_lt hnext)]
    rfl

theorem map_bind_eq {ε α β γ : Type} (x : Except ε α) (f : α → Except ε β) (g : β → γ) :
    (x >>= f).map g = x >>= fun a => (f a).map g := by
  cases x <;> rfl

/-- The statistics that are reported are those of the rounding arithmetic. -/
theorem ofSamples_eq (samples : List Value) :
    ofSamples samples = (rounding.summary samples).map (Option.map ofSummary) := by
  have hnumber : rounding.number = fun v => v.number .notReal := rfl
  have hbelow : rounding.below = below := rfl
  have hsum : rounding.sum = DurationStats.sum := rfl
  unfold ofSamples summary
  dsimp only
  rw [hnumber, hbelow, hsum, map_bind_eq]
  by_cases hsorted : Sorting.sort below samples = []
  · rw [hsorted]
    rfl
  · rw [List.head?_eq_some_head hsorted, List.getLast?_eq_some_getLast hsorted]
    dsimp only
    rw [percentile_eq 50 hsorted, percentile_eq 95 hsorted]
    simp only [map_bind_eq]
    rfl

end CodeHealth.DurationStats
