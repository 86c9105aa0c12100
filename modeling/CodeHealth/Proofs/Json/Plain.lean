import CodeHealth.Proofs.Json.RoundTrip
import CodeHealth.Proofs.Number.Numerals

/-!
# What is read from JSON text is plain

A numeral is read as a number of the format, and a name that is repeated in an object counts once.
So every value that was read can be written and is read back as it is.
-/

namespace CodeHealth

theorem Numeral.inFormat_toDouble (n : Numeral) : n.toDouble.InFormat := by
  rw [toDouble_eq]
  exact Double.inFormat_ofMagnitude n.negative n.magnitude

namespace Json

/-! ### Words and numbers -/

theorem eq_some_of_expect {α : Type} {x : Option α} {a : α} (h : expect x = .ok a) :
    x = some a := by
  cases x with
  | none => contradiction
  | some b => exact congrArg some (Except.ok.inj h)

/-- The whole part of a number consists of digits. -/
theorem digits_of_whole? {s ds rest : Text} (h : whole? s = some (ds, rest)) :
    ds ≠ [] ∧ ∀ c ∈ ds, isDecimalDigit c = true := by
  have hdigits : ∀ c ∈ (digits s).1, isDecimalDigit c = true :=
    List.all_eq_true.mp List.all_takeWhile
  unfold whole? at h
  split at h
  · contradiction
  · obtain ⟨rfl, -⟩ := Prod.mk.inj (Option.some.inj h)
    exact ⟨List.cons_ne_nil _ _, List.forall_mem_singleton.mpr rfl⟩
  · rename_i hne _ heq
    obtain ⟨rfl, rfl⟩ := Prod.mk.inj (Option.some.inj h)
    rw [heq] at hdigits
    exact ⟨hne, hdigits⟩

theorem plain_of_readUnsigned {negative : Bool} {s rest : Text} {v : Value}
    (h : readUnsigned negative s = .ok (v, rest)) : v.Plain := by
  obtain ⟨⟨ds, behind⟩, hwhole, h⟩ := exists_of_bind_eq_ok h
  dsimp only at h
  split at h
  · obtain ⟨rfl, -⟩ := Prod.mk.inj (Except.ok.inj h)
    exact .double (Numeral.inFormat_toDouble _)
  · obtain ⟨rfl, -⟩ := Prod.mk.inj (Except.ok.inj h)
    exact .double (Numeral.inFormat_toDouble _)
  · split at h
    · contradiction
    · rename_i hlength
      obtain ⟨rfl, -⟩ := Prod.mk.inj (Except.ok.inj h)
      obtain ⟨hne, hdigits⟩ := digits_of_whole? (eq_some_of_expect hwhole)
      have hsign : (if negative then -(digitsValue ds : Int) else digitsValue ds).natAbs =
          digitsValue ds := by
        split <;> omega
      refine .int ?_
      rw [hsign]
      exact Nat.le_trans (length_decimalDigits_digitsValue_le hdigits hne) (Nat.not_lt.mp hlength)

theorem plain_of_readNumber {s rest : Text} {v : Value} (h : readNumber s = .ok (v, rest)) :
    v.Plain := by
  unfold readNumber at h
  split at h
  · exact plain_of_readUnsigned h
  · exact plain_of_readUnsigned h

theorem plain_of_word? {s rest : Text} {v : Value} (h : word? s = some (v, rest)) : v.Plain := by
  obtain ⟨⟨w, v'⟩, hmem, h⟩ := List.exists_of_findSome?_eq_some h
  obtain ⟨rest', -, heq⟩ := Option.map_eq_some_iff.mp h
  obtain ⟨rfl, -⟩ := Prod.mk.inj heq
  simp only [words, List.mem_cons, Prod.mk.injEq, List.not_mem_nil, or_false] at hmem
  obtain ⟨-, rfl⟩ | ⟨-, rfl⟩ | ⟨-, rfl⟩ | ⟨-, rfl⟩ | ⟨-, rfl⟩ | ⟨-, rfl⟩ := hmem
  · exact .null
  · exact .bool true
  · exact .bool false
  · exact .double trivial
  · exact .double trivial
  · exact .double trivial

theorem plain_of_readScalar {s rest : Text} {v : Value} (h : readScalar s = .ok (v, rest)) :
    v.Plain := by
  unfold readScalar at h
  cases hword : word? s with
  | none =>
    rw [hword] at h
    exact plain_of_readNumber h
  | some p =>
    rw [hword] at h
    obtain rfl : p = (v, rest) := Except.ok.inj h
    exact plain_of_word? hword

/-! ### Values -/

/-- What the readers of values, of items and of members answer within a bound is plain. -/
structure ReadsPlain (bound : Nat) : Prop where
  value : ∀ {s v rest}, readValue bound s = .ok (v, rest) → v.Plain
  items : ∀ {s items rest}, readItems bound s = .ok (items, rest) → ∀ v ∈ items, v.Plain
  members : ∀ {s members rest}, readMembers bound s = .ok (members, rest) →
    ∀ member ∈ members, member.2.Plain

theorem readsPlain_zero : ReadsPlain 0 :=
  ⟨fun h => by contradiction, fun h => by contradiction, fun h => by contradiction⟩

variable {bound : Nat}

/-- An object is plain if all members that were read for it are: of several members of one name only
the last one is left. -/
theorem plain_putAll {members : List (String × Value)} (h : ∀ member ∈ members, member.2.Plain) :
    (Value.object (Entries.putAll [] members)).Plain := by
  refine .object (Entries.nodup_keys_putAll members List.nodup_nil) fun member hmem => ?_
  obtain hnil | hmem := Entries.mem_putAll hmem
  · contradiction
  · exact h member hmem

namespace ReadsPlain

theorem value_succ (h : ReadsPlain bound) {s rest : Text} {v : Value}
    (hv : readValue (bound + 1) s = .ok (v, rest)) : v.Plain := by
  unfold readValue at hv
  split at hv
  · obtain ⟨p, -, heq⟩ := exists_of_bind_eq_ok hv
    obtain ⟨rfl, -⟩ := Prod.mk.inj (Except.ok.inj heq)
    exact .text _
  · split at hv
    · obtain ⟨rfl, -⟩ := Prod.mk.inj (Except.ok.inj hv)
      exact .list fun _ hmem => absurd hmem List.not_mem_nil
    · obtain ⟨p, hp, heq⟩ := exists_of_bind_eq_ok hv
      obtain ⟨rfl, -⟩ := Prod.mk.inj (Except.ok.inj heq)
      exact .list (h.items hp)
  · split at hv
    · obtain ⟨rfl, -⟩ := Prod.mk.inj (Except.ok.inj hv)
      exact .object List.nodup_nil fun _ hmem => absurd hmem List.not_mem_nil
    · obtain ⟨p, hp, heq⟩ := exists_of_bind_eq_ok hv
      obtain ⟨rfl, -⟩ := Prod.mk.inj (Except.ok.inj heq)
      exact plain_putAll (h.members hp)
  · exact plain_of_readScalar hv

theorem items_succ (h : ReadsPlain bound) {s rest : Text} {items : List Value}
    (hitems : readItems (bound + 1) s = .ok (items, rest)) : ∀ v ∈ items, v.Plain := by
  unfold readItems at hitems
  obtain ⟨⟨v, behind⟩, hv, hitems⟩ := exists_of_bind_eq_ok hitems
  dsimp only at hitems
  split at hitems
  · obtain ⟨⟨others, _⟩, hothers, heq⟩ := exists_of_bind_eq_ok hitems
    obtain ⟨rfl, -⟩ := Prod.mk.inj (Except.ok.inj heq)
    exact List.forall_mem_cons.mpr ⟨h.value hv, h.items hothers⟩
  · obtain ⟨rfl, -⟩ := Prod.mk.inj (Except.ok.inj hitems)
    exact List.forall_mem_singleton.mpr (h.value hv)
  · contradiction

theorem members_succ (h : ReadsPlain bound) {s rest : Text} {members : List (String × Value)}
    (hmembers : readMembers (bound + 1) s = .ok (members, rest)) :
    ∀ member ∈ members, member.2.Plain := by
  unfold readMembers at hmembers
  split at hmembers
  · obtain ⟨⟨name, behind⟩, -, hmembers⟩ := exists_of_bind_eq_ok hmembers
    dsimp only at hmembers
    split at hmembers
    · obtain ⟨⟨v, behind⟩, hv, hmembers⟩ := exists_of_bind_eq_ok hmembers
      dsimp only at hmembers
      split at hmembers
      · obtain ⟨⟨others, _⟩, hothers, heq⟩ := exists_of_bind_eq_ok hmembers
        obtain ⟨rfl, -⟩ := Prod.mk.inj (Except.ok.inj heq)
        exact List.forall_mem_cons.mpr ⟨h.value hv, h.members hothers⟩
      · obtain ⟨rfl, -⟩ := Prod.mk.inj (Except.ok.inj hmembers)
        exact List.forall_mem_singleton.mpr (h.value hv)
      · contradiction
    · contradiction
  · contradiction

end ReadsPlain

theorem readsPlain (bound : Nat) : ReadsPlain bound := by
  induction bound with
  | zero => exact readsPlain_zero
  | succ bound ih => exact ⟨ih.value_succ, ih.items_succ, ih.members_succ⟩

end Json

/-- What a JSON text stands for is plain. -/
theorem Value.plain_of_ofJson {s : Text} {v : Value} (h : ofJson s = .ok v) : v.Plain := by
  obtain ⟨⟨v', rest⟩, hv, h⟩ := exists_of_bind_eq_ok h
  dsimp only at h
  split at h
  · obtain rfl := Except.ok.inj h
    exact (Json.readsPlain _).value hv
  · contradiction

theorem Value.plain_of_ofJson? {s : Text} {v : Value} (h : ofJson? s = some v) : v.Plain := by
  unfold ofJson? at h
  cases hread : ofJson s with
  | error defect =>
    rw [hread] at h
    contradiction
  | ok v' =>
    rw [hread] at h
    obtain rfl := Option.some.inj h
    exact plain_of_ofJson hread

end CodeHealth
