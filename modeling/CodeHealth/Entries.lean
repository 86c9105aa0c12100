/-!
# Entries in the order in which their keys first came

Settings, groups, counters and registered rules are all looked up by a key and listed in the order
in which their keys first came. `Entries` keeps them as a list of pairs. Writing to a key that is
present changes its value and keeps its place; a new key goes to the end.

The keys of a list built by `alter` or `put` from one with distinct keys are distinct again
(`nodup_keys_alter`), and a key that is removed and written again stands at the end.
-/

namespace CodeHealth

/-- Pairs of keys and values, in the order in which the keys first came. -/
abbrev Entries (κ β : Type) := List (κ × β)

namespace Entries

variable {κ β γ : Type}

def keys (e : Entries κ β) : List κ :=
  e.map Prod.fst

/-- The values in the order of their keys. -/
def values (e : Entries κ β) : List β :=
  e.map Prod.snd

@[simp] theorem keys_nil : keys ([] : Entries κ β) = [] := rfl
@[simp] theorem keys_cons (k : κ) (b : β) (e : Entries κ β) :
    keys ((k, b) :: e) = k :: keys e := rfl
@[simp] theorem values_nil : values ([] : Entries κ β) = [] := rfl

section Lookup

variable [DecidableEq κ]

/-- The value at a key. -/
def get? (k : κ) : Entries κ β → Option β
  | [] => none
  | (k', b) :: rest => if k' = k then some b else get? k rest

/-- Whether a key is present. -/
def has (k : κ) (e : Entries κ β) : Bool :=
  (get? k e).isSome

/-- Writes to a key what `f` makes of its present value. -/
def alter (k : κ) (f : Option β → β) : Entries κ β → Entries κ β
  | [] => [(k, f none)]
  | (k', b) :: rest => if k' = k then (k', f (some b)) :: rest else (k', b) :: alter k f rest

/-- Writes a value to a key. -/
def put (k : κ) (b : β) (e : Entries κ β) : Entries κ β :=
  alter k (fun _ => b) e

/-- The entries without a key. -/
def remove (k : κ) (e : Entries κ β) : Entries κ β :=
  e.filter fun entry => entry.1 ≠ k

/-- Writes all entries of `new`, in order. -/
def putAll (e new : Entries κ β) : Entries κ β :=
  new.foldl (fun acc entry => acc.put entry.1 entry.2) e

@[simp] theorem get?_nil (k : κ) : get? k ([] : Entries κ β) = none := rfl

theorem get?_alter (k j : κ) (f : Option β → β) (e : Entries κ β) :
    get? j (alter k f e) = if k = j then some (f (get? k e)) else get? j e := by
  induction e with
  | nil => by_cases h : k = j <;> simp [alter, get?, h]
  | cons entry rest ih =>
    obtain ⟨k', b⟩ := entry
    by_cases hk : k' = k
    · subst hk
      by_cases h : k' = j <;> simp [alter, get?, h]
    · by_cases hj : k' = j
      · subst hj
        simp [alter, get?, hk, Ne.symm hk]
      · simp [alter, get?, hk, hj, ih]

theorem keys_alter (k : κ) (f : Option β → β) (e : Entries κ β) :
    keys (alter k f e) = if k ∈ keys e then keys e else keys e ++ [k] := by
  induction e with
  | nil => simp [alter]
  | cons entry rest ih =>
    obtain ⟨k', b⟩ := entry
    by_cases hk : k' = k
    · simp [alter, hk]
    · by_cases hm : k ∈ keys rest <;> simp [alter, hk, Ne.symm hk, ih, hm]

/-- Distinct keys stay distinct. -/
theorem nodup_keys_alter {k : κ} {f : Option β → β} {e : Entries κ β} (h : (keys e).Nodup) :
    (keys (alter k f e)).Nodup := by
  rw [keys_alter]
  split
  · exact h
  · rename_i hk
    refine List.nodup_append.mpr ⟨h, by simp, fun a ha b hb hab => ?_⟩
    rw [List.mem_singleton.mp hb] at hab
    exact hk (hab ▸ ha)

/-- The sum of counts. -/
def total : Entries κ Nat → Nat
  | [] => 0
  | (_, n) :: rest => n + total rest

/-- How often each element comes, in the order of first occurrence. -/
def tally (xs : List κ) : Entries κ Nat :=
  xs.foldl (fun counts x => counts.alter x fun n => n.getD 0 + 1) []

end Lookup

end Entries

end CodeHealth
