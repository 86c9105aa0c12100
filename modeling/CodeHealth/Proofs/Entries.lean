import CodeHealth.Entries

/-!
# Counting, writing and removing

Entries with distinct keys are determined by their keys in order and by what is found at each of
them (`ext_get?`). What is written on top of entries therefore stays as it is when it is written
again, and entries that begin with all keys of others take their place. Writing is associative: it
does not matter whether entries are put together before or while they are written (`putAll_assoc`).
-/

namespace CodeHealth.Entries

variable {κ β γ : Type}

def mapValues (f : β → γ) (e : Entries κ β) : Entries κ γ :=
  e.map fun entry => (entry.1, f entry.2)

@[simp] theorem keys_mapValues (f : β → γ) (e : Entries κ β) : keys (mapValues f e) = keys e := by
  simp [keys, mapValues, Function.comp_def]

variable [DecidableEq κ]

/-! ### Counting -/

theorem total_alter_succ (k : κ) (e : Entries κ Nat) :
    total (e.alter k fun n => n.getD 0 + 1) = total e + 1 := by
  induction e with
  | nil => rfl
  | cons entry rest ih =>
    obtain ⟨j, n⟩ := entry
    by_cases hj : j = k
    · simp only [alter, if_pos hj, total, Option.getD_some]
      omega
    · simp only [alter, if_neg hj, total, ih]
      omega

/-- Every element is counted once. -/
theorem total_tally (xs : List κ) : total (tally xs) = xs.length := by
  suffices h : ∀ e : Entries κ Nat,
      total (xs.foldl (fun counts x => counts.alter x fun n => n.getD 0 + 1) e) =
        total e + xs.length by
    simpa [tally, total] using h []
  induction xs with
  | nil => simp
  | cons x xs ih =>
    intro e
    rw [List.foldl_cons, ih, total_alter_succ, List.length_cons]
    omega

/-- Counted key by key, nothing is missed where every element is one of the keys. -/
theorem total_count {ks xs : List κ} (hks : ks.Nodup) (hmem : ∀ x ∈ xs, x ∈ ks) :
    total (ks.map fun k => (k, xs.count k)) = xs.length := by
  induction ks generalizing xs with
  | nil =>
    obtain rfl : xs = [] := List.eq_nil_iff_forall_not_mem.mpr fun x hx =>
      List.not_mem_nil (hmem x hx)
    rfl
  | cons k ks ih =>
    obtain ⟨hk, hks⟩ := List.nodup_cons.mp hks
    have hrest : ∀ x ∈ xs.filter (· ≠ k), x ∈ ks := by
      intro x hx
      obtain ⟨hx, hne⟩ := List.mem_filter.mp hx
      exact (List.mem_cons.mp (hmem x hx)).resolve_left (of_decide_eq_true hne)
    have hcount : ∀ j ∈ ks, xs.count j = (xs.filter (· ≠ k)).count j := by
      intro j hj
      have hne : j ≠ k := fun heq => hk (heq ▸ hj)
      rw [List.count_filter (by simpa using hne)]
    have hsplit : xs.length = xs.count k + (xs.filter (· ≠ k)).length := by
      rw [List.length_eq_countP_add_countP (· == k), ← List.count_eq_countP,
        ← List.countP_eq_length_filter]
      simp only [beq_iff_eq, ne_eq]
    rw [List.map_cons, total, List.map_congr_left fun j hj => by rw [hcount j hj], ih hks hrest]
    omega

theorem length_alter_le (k : κ) (f : Option β → β) (e : Entries κ β) :
    (e.alter k f).length ≤ e.length + 1 := by
  induction e with
  | nil => exact Nat.le_refl 1
  | cons entry rest ih =>
    rw [alter]
    split
    · exact Nat.le_succ _
    · exact Nat.succ_le_succ ih

/-- There are no more counters than there are elements. -/
theorem length_tally_le (xs : List κ) : (tally xs).length ≤ xs.length := by
  suffices h : ∀ e : Entries κ Nat,
      (xs.foldl (fun counts x => counts.alter x fun n => n.getD 0 + 1) e).length ≤
        e.length + xs.length by
    simpa [tally] using h []
  induction xs with
  | nil => simp
  | cons x xs ih =>
    intro e
    have hstep := ih (e.alter x fun n => n.getD 0 + 1)
    have halter := length_alter_le x (fun n => n.getD 0 + 1) e
    rw [List.foldl_cons, List.length_cons]
    omega

/-! ### Membership -/

theorem mem_alter {k : κ} {f : Option β → β} {e : Entries κ β} {p : κ × β}
    (h : p ∈ e.alter k f) : p ∈ e ∨ ∃ b?, p = (k, f b?) := by
  induction e with
  | nil => exact .inr ⟨none, List.mem_singleton.mp h⟩
  | cons entry rest ih =>
    obtain ⟨j, b⟩ := entry
    rw [alter] at h
    split at h
    · rename_i hj
      subst hj
      obtain rfl | h := List.mem_cons.mp h
      · exact .inr ⟨some b, rfl⟩
      · exact .inl (List.mem_cons_of_mem _ h)
    · obtain rfl | h := List.mem_cons.mp h
      · exact .inl List.mem_cons_self
      · exact (ih h).imp_left (List.mem_cons_of_mem _)

theorem mem_put {k : κ} {b : β} {e : Entries κ β} {p : κ × β} (h : p ∈ put k b e) :
    p ∈ e ∨ p = (k, b) :=
  (mem_alter h).imp_right fun ⟨_, hp⟩ => hp

theorem mem_putAll {e new : Entries κ β} {p : κ × β} (h : p ∈ putAll e new) :
    p ∈ e ∨ p ∈ new := by
  induction new generalizing e with
  | nil => exact .inl h
  | cons entry new ih =>
    obtain h | h := ih h
    · obtain h | rfl := mem_put h
      · exact .inl h
      · exact .inr List.mem_cons_self
    · exact .inr (List.mem_cons_of_mem _ h)

/-- A value that is found has an entry. -/
theorem mem_of_get? {k : κ} {b : β} {e : Entries κ β} (h : get? k e = some b) : (k, b) ∈ e := by
  induction e with
  | nil => contradiction
  | cons entry rest ih =>
    rw [get?] at h
    split at h
    · rename_i hk
      obtain rfl := Option.some.inj h
      obtain rfl := hk
      exact List.mem_cons_self
    · exact List.mem_cons_of_mem _ (ih h)

/-- Something is found at the keys that are present. -/
theorem isSome_get?_iff {k : κ} {e : Entries κ β} : (get? k e).isSome = true ↔ k ∈ keys e := by
  induction e with
  | nil => simp
  | cons entry rest ih =>
    obtain ⟨j, b⟩ := entry
    rw [get?, keys_cons, List.mem_cons]
    split
    · rename_i hj
      simp [hj]
    · rename_i hj
      simp [ih, Ne.symm hj]

theorem get?_eq_none_iff {k : κ} {e : Entries κ β} : get? k e = none ↔ k ∉ keys e := by
  rw [← isSome_get?_iff, Option.not_isSome_iff_eq_none]

/-- With distinct keys every entry is found. -/
theorem get?_eq_some_iff {e : Entries κ β} (h : (keys e).Nodup) {k : κ} {b : β} :
    get? k e = some b ↔ (k, b) ∈ e := by
  refine ⟨mem_of_get?, fun hmem => ?_⟩
  induction e with
  | nil => contradiction
  | cons entry rest ih =>
    obtain ⟨hk, hrest⟩ := List.nodup_cons.mp h
    obtain rfl | hmem := List.mem_cons.mp hmem
    · rw [get?, if_pos rfl]
    · have hne : entry.1 ≠ k := fun heq => hk (heq ▸ List.mem_map_of_mem hmem)
      rw [get?, if_neg hne, ih hrest hmem]

/-! ### Writing -/

/-- Two lists of entries with the same distinct keys and the same value at each of them. -/
theorem ext_get? {e e' : Entries κ β} (hkeys : keys e = keys e') (hnodup : (keys e).Nodup)
    (h : ∀ k ∈ keys e, get? k e = get? k e') : e = e' := by
  induction e generalizing e' with
  | nil => cases e' with
    | nil => rfl
    | cons _ _ => contradiction
  | cons entry rest ih =>
    obtain ⟨k, b⟩ := entry
    cases e' with
    | nil => contradiction
    | cons entry' rest' =>
      obtain ⟨k', b'⟩ := entry'
      obtain ⟨rfl, hrest⟩ := List.cons.inj hkeys
      obtain ⟨hk, hnodup⟩ := List.nodup_cons.mp hnodup
      have hb := h k List.mem_cons_self
      rw [get?, get?, if_pos rfl, if_pos rfl] at hb
      obtain rfl := Option.some.inj hb
      rw [ih hrest hnodup]
      intro j hj
      have hne : k ≠ j := fun heq => hk (heq ▸ hj)
      have := h j (List.mem_cons_of_mem k hj)
      rwa [get?, get?, if_neg hne, if_neg hne] at this

/-- Entries whose values depend on what is found at their keys. -/
theorem mapValues_eq_map_keys {e : Entries κ β} (h : (keys e).Nodup) {f : β → γ} {g : κ → γ}
    (hg : ∀ k b, get? k e = some b → f b = g k) :
    mapValues f e = (keys e).map fun k => (k, g k) := by
  rw [mapValues, keys, List.map_map]
  refine List.map_congr_left fun entry hentry => ?_
  rw [hg entry.1 entry.2 ((get?_eq_some_iff h).mpr hentry)]
  rfl

theorem get?_put (k j : κ) (b : β) (e : Entries κ β) :
    get? j (put k b e) = if k = j then some b else get? j e :=
  get?_alter k j _ e

theorem keys_put (k : κ) (b : β) (e : Entries κ β) :
    keys (put k b e) = if k ∈ keys e then keys e else keys e ++ [k] :=
  keys_alter k _ e

theorem nodup_keys_put {k : κ} {b : β} {e : Entries κ β} (h : (keys e).Nodup) :
    (keys (put k b e)).Nodup :=
  nodup_keys_alter h

/-- A new key goes to the end. -/
theorem alter_of_not_mem {k : κ} {e : Entries κ β} (h : k ∉ keys e) (f : Option β → β) :
    e.alter k f = e ++ [(k, f none)] := by
  induction e with
  | nil => rfl
  | cons entry rest ih =>
    obtain ⟨j, b⟩ := entry
    rw [keys_cons, List.mem_cons, not_or] at h
    rw [alter, if_neg (Ne.symm h.1), ih h.2]
    rfl

theorem put_of_not_mem {k : κ} {b : β} {e : Entries κ β} (h : k ∉ keys e) :
    put k b e = e ++ [(k, b)] :=
  alter_of_not_mem h _

/-- What is written to a key that is present takes the place of the value there. -/
theorem values_put_of_mem {e : Entries κ β} (h : (keys e).Nodup) {k : κ} (hk : k ∈ keys e) (b : β) :
    values (put k b e) = e.map fun entry => if entry.1 = k then b else entry.2 := by
  induction e with
  | nil => contradiction
  | cons entry rest ih =>
    obtain ⟨hnot, hrest⟩ := List.nodup_cons.mp h
    change values (if entry.1 = k then (entry.1, b) :: rest else entry :: put k b rest) = _
    rw [List.map_cons]
    split
    · rename_i heq
      have hsame : rest.map (fun entry => if entry.1 = k then b else entry.2) = values rest := by
        refine List.map_congr_left fun other hother => if_neg fun hkey => hnot ?_
        rw [heq, ← hkey]
        exact List.mem_map_of_mem hother
      rw [hsame]
      rfl
    · rename_i hne
      rw [← ih hrest ((List.mem_cons.mp hk).resolve_left (Ne.symm hne))]
      rfl

@[simp] theorem putAll_nil (e : Entries κ β) : putAll e [] = e := rfl

@[simp] theorem putAll_cons (e new : Entries κ β) (k : κ) (b : β) :
    putAll e ((k, b) :: new) = putAll (put k b e) new := rfl

theorem putAll_append (e new new' : Entries κ β) :
    putAll e (new ++ new') = putAll (putAll e new) new' :=
  List.foldl_append

theorem nodup_keys_putAll {e : Entries κ β} (new : Entries κ β) (h : (keys e).Nodup) :
    (keys (putAll e new)).Nodup := by
  induction new generalizing e with
  | nil => exact h
  | cons entry new ih => exact ih (nodup_keys_put h)

/-- What is written takes no key away and comes behind the keys that there are. -/
theorem keys_isPrefix_putAll (e new : Entries κ β) : keys e <+: keys (putAll e new) := by
  induction new generalizing e with
  | nil => exact List.prefix_rfl
  | cons entry new ih =>
    refine List.IsPrefix.trans ?_ (ih (put entry.1 entry.2 e))
    rw [keys_put]
    split
    · exact List.prefix_rfl
    · exact List.prefix_append _ _

theorem keys_putAll_of_subset {e new : Entries κ β} (h : ∀ k ∈ keys new, k ∈ keys e) :
    keys (putAll e new) = keys e := by
  induction new generalizing e with
  | nil => rfl
  | cons entry new ih =>
    have hput : keys (put entry.1 entry.2 e) = keys e := by
      rw [keys_put, if_pos (h _ List.mem_cons_self)]
    rw [putAll_cons, ih, hput]
    intro k hk
    rw [hput]
    exact h k (List.mem_cons_of_mem _ hk)

theorem get?_putAll_of_not_mem {k : κ} {e new : Entries κ β} (h : k ∉ keys new) :
    get? k (putAll e new) = get? k e := by
  induction new generalizing e with
  | nil => rfl
  | cons entry new ih =>
    have hne : entry.1 ≠ k := fun heq => h (heq ▸ List.mem_cons_self)
    rw [putAll_cons, ih fun hmem => h (List.mem_cons_of_mem _ hmem), get?_put, if_neg hne]

/-- What is found at a key that is written does not depend on what was there before. -/
theorem get?_putAll_congr {k : κ} {new : Entries κ β} (h : k ∈ keys new) (e e' : Entries κ β) :
    get? k (putAll e new) = get? k (putAll e' new) := by
  induction new generalizing e e' with
  | nil => contradiction
  | cons entry new ih =>
    rw [putAll_cons, putAll_cons]
    by_cases hmem : k ∈ keys new
    · exact ih hmem _ _
    · obtain rfl := (List.mem_cons.mp h).resolve_right hmem
      rw [get?_putAll_of_not_mem hmem, get?_putAll_of_not_mem hmem, get?_put, get?_put, if_pos rfl,
        if_pos rfl]

theorem mem_keys_putAll {k : κ} {e new : Entries κ β} (h : k ∈ keys new) :
    k ∈ keys (putAll e new) := by
  induction new generalizing e with
  | nil => contradiction
  | cons entry new ih =>
    rw [putAll_cons]
    obtain rfl | hmem := List.mem_cons.mp h
    · refine (keys_isPrefix_putAll _ new).subset ?_
      rw [keys_put]
      split
      · assumption
      · exact List.mem_append_right _ List.mem_cons_self
    · exact ih hmem

/-- New entries come behind those that there are. -/
theorem putAll_of_nodup_append {e new : Entries κ β} (h : (keys (e ++ new)).Nodup) :
    putAll e new = e ++ new := by
  induction new generalizing e with
  | nil => rw [putAll_nil, List.append_nil]
  | cons entry new ih =>
    have hassoc : e ++ entry :: new = e ++ [entry] ++ new := by rw [List.append_assoc]; rfl
    have hnot : entry.1 ∉ keys e := by
      intro hmem
      rw [keys, List.map_append] at h
      exact (List.nodup_append.mp h).2.2 _ hmem _ List.mem_cons_self rfl
    rw [putAll_cons, put_of_not_mem hnot, hassoc]
    exact ih (hassoc ▸ h)

theorem putAll_nil_left {new : Entries κ β} (h : (keys new).Nodup) : putAll [] new = new :=
  putAll_of_nodup_append h

/-- Entries whose first keys are those of others take their place. -/
theorem putAll_eq_right {e new : Entries κ β} (hkeys : keys e <+: keys new)
    (hnodup : (keys new).Nodup) : putAll e new = new := by
  obtain ⟨behind, hbehind⟩ := hkeys
  obtain ⟨first, rest, rfl, hfirst, -⟩ := List.append_eq_map_iff.mp hbehind
  have hnodup' : (keys first).Nodup := by
    rw [keys, List.map_append] at hnodup
    exact (List.nodup_append.mp hnodup).1
  have hsame : keys (putAll e first) = keys first := by
    rw [keys_putAll_of_subset, ← hfirst]
    · rfl
    · intro k hk
      rw [← hfirst]
      exact hk
  have heq : putAll e first = first := by
    refine ext_get? hsame (hsame ▸ hnodup') fun k hk => ?_
    rw [get?_putAll_congr (hsame ▸ hk) e [], putAll_nil_left hnodup']
  rw [putAll_append, heq, putAll_of_nodup_append hnodup]

/-- Writing the same entries again changes nothing. -/
theorem putAll_putAll {e : Entries κ β} (h : (keys e).Nodup) (new : Entries κ β) :
    putAll (putAll e new) new = putAll e new := by
  have hsame : keys (putAll (putAll e new) new) = keys (putAll e new) :=
    keys_putAll_of_subset fun k hk => mem_keys_putAll hk
  refine ext_get? hsame (nodup_keys_putAll new (nodup_keys_putAll new h)) fun k _ => ?_
  by_cases hmem : k ∈ keys new
  · exact get?_putAll_congr hmem _ _
  · exact get?_putAll_of_not_mem hmem

/-! ### Writing in parts -/

/-- Of several values that are written to a key the last one is found. -/
theorem get?_putAll {new : Entries κ β} (h : (keys new).Nodup) (k : κ) (e : Entries κ β) :
    get? k (putAll e new) = (get? k new).or (get? k e) := by
  by_cases hmem : k ∈ keys new
  · obtain ⟨b, hb⟩ := Option.isSome_iff_exists.mp (isSome_get?_iff.mpr hmem)
    rw [get?_putAll_congr hmem e [], putAll_nil_left h, hb, Option.some_or]
  · rw [get?_putAll_of_not_mem hmem, get?_eq_none_iff.mpr hmem, Option.none_or]

theorem eraseDups_append_cons {l : List κ} {k : κ} (h : k ∈ l) (l' : List κ) :
    (l ++ k :: l').eraseDups = (l ++ l').eraseDups := by
  rw [List.eraseDups_append, List.eraseDups_append, List.removeAll, List.filter_cons_of_neg]
  · rfl
  · simp [h]

theorem eraseDups_of_nodup {l : List κ} (h : l.Nodup) : l.eraseDups = l := by
  induction l with
  | nil => rfl
  | cons k l ih =>
    obtain ⟨hk, hl⟩ := List.nodup_cons.mp h
    have hfilter : l.filter (fun j => !j == k) = l := by
      apply List.filter_eq_self.mpr
      intro j hj
      have hne : j ≠ k := fun heq => hk (heq ▸ hj)
      simpa using hne
    rw [List.eraseDups_cons, hfilter, ih hl]

/-- One more element at the end of a list without its repetitions. -/
theorem eraseDups_concat (l : List κ) (k : κ) :
    (l ++ [k]).eraseDups = if k ∈ l.eraseDups then l.eraseDups else l.eraseDups ++ [k] := by
  split
  · rename_i h
    rw [eraseDups_append_cons (List.mem_eraseDups.mp h), List.append_nil]
  · rename_i h
    rw [List.mem_eraseDups] at h
    rw [List.eraseDups_append, List.removeAll, List.filter_cons_of_pos]
    · rfl
    · simpa using h

/-- The keys stand in the order in which they were first written. -/
theorem keys_putAll {e : Entries κ β} (h : (keys e).Nodup) (new : Entries κ β) :
    keys (putAll e new) = (keys e ++ keys new).eraseDups := by
  induction new generalizing e with
  | nil => rw [putAll_nil, keys_nil, List.append_nil, eraseDups_of_nodup h]
  | cons entry new ih =>
    rw [putAll_cons, ih (nodup_keys_put h), keys_put, keys_cons]
    split
    · rename_i hmem
      rw [eraseDups_append_cons hmem]
    · rw [List.append_assoc]
      rfl

/-- What is written behind other entries might as well be one of them. -/
theorem put_putAll {e new : Entries κ β} (he : (keys e).Nodup) (hnew : (keys new).Nodup) (k : κ)
    (b : β) : put k b (putAll e new) = putAll e (put k b new) := by
  by_cases hmem : k ∈ keys new
  · have hkeys : keys (put k b (putAll e new)) = keys (putAll e (put k b new)) := by
      rw [keys_put, if_pos (mem_keys_putAll hmem), keys_putAll he, keys_putAll he, keys_put,
        if_pos hmem]
    refine ext_get? hkeys (nodup_keys_put (nodup_keys_putAll new he)) fun j _ => ?_
    rw [get?_put, get?_putAll hnew, get?_putAll (nodup_keys_put hnew), get?_put]
    split
    · rfl
    · rfl
  · rw [put_of_not_mem hmem, putAll_append]
    rfl

/-- Entries may be put together before they are written. -/
theorem putAll_assoc {a b : Entries κ β} (ha : (keys a).Nodup) (hb : (keys b).Nodup)
    (c : Entries κ β) : putAll (putAll a b) c = putAll a (putAll b c) := by
  induction c generalizing b with
  | nil => rfl
  | cons entry c ih => rw [putAll_cons, putAll_cons, put_putAll ha hb, ih (nodup_keys_put hb)]

/-! ### Counting in order -/

/-- What is listed once is not listed twice. -/
theorem nodup_eraseDups {α : Type} [BEq α] [LawfulBEq α] (l : List α) : l.eraseDups.Nodup := by
  induction hlength : l.length using Nat.strongRecOn generalizing l with
  | ind n ih =>
    subst hlength
    cases l with
    | nil => exact List.nodup_nil
    | cons a rest =>
      have hfilter := List.length_filter_le (fun b => !b == a) rest
      rw [List.eraseDups_cons, List.nodup_cons, List.mem_eraseDups, List.mem_filter]
      exact ⟨by simp, ih _ (Nat.lt_succ_of_le hfilter) _ rfl⟩

/-- The elements are listed in the order in which they first came. -/
theorem keys_tally (xs : List κ) : keys (tally xs) = xs.eraseDups := by
  suffices h : ∀ e : Entries κ Nat, (keys e).Nodup →
      keys (xs.foldl (fun counts x => counts.alter x fun n => n.getD 0 + 1) e) =
        (keys e ++ xs).eraseDups from h [] List.nodup_nil
  induction xs with
  | nil =>
    intro e he
    rw [List.append_nil, eraseDups_of_nodup he]
    rfl
  | cons x xs ih =>
    intro e he
    rw [List.foldl_cons, ih _ (nodup_keys_alter he), keys_alter]
    split
    · rename_i hmem
      rw [eraseDups_append_cons hmem]
    · rw [List.append_assoc]
      rfl

theorem nodup_keys_tally (xs : List κ) : (keys (tally xs)).Nodup := by
  rw [keys_tally]
  exact nodup_eraseDups xs

theorem getD_get?_tally (xs : List κ) (k : κ) : ((tally xs).get? k).getD 0 = xs.count k := by
  suffices h : ∀ e : Entries κ Nat,
      (get? k (xs.foldl (fun counts x => counts.alter x fun n => n.getD 0 + 1) e)).getD 0 =
        (get? k e).getD 0 + xs.count k by
    simpa [tally] using h []
  induction xs with
  | nil => exact fun e => rfl
  | cons x xs ih =>
    intro e
    rw [List.foldl_cons, ih, get?_alter, List.count_cons]
    by_cases hx : x = k
    · subst hx
      simp only [if_pos, beq_self_eq_true, Option.getD_some]
      omega
    · simp [hx]

/-- Every element is listed once, in the order in which the elements first came, and with the number
of times that it comes. -/
theorem tally_eq (xs : List κ) : tally xs = xs.eraseDups.map fun x => (x, xs.count x) := by
  rw [← keys_tally, ← mapValues_eq_map_keys (f := id) (nodup_keys_tally xs)]
  · simp [mapValues]
  · intro k n hn
    rw [← getD_get?_tally, hn]
    rfl

/-- The element that comes first has come before the other one comes at all. -/
theorem pairwise_eraseDups_filterMap_range (f : Nat → Option κ) (n : Nat) :
    ((List.range n).filterMap f).eraseDups.Pairwise fun x y =>
      ∃ i, f i = some x ∧ ∀ j, f j = some y → i < j := by
  induction n with
  | zero => exact List.Pairwise.nil
  | succ n ih =>
    rw [List.range_succ, List.filterMap_append]
    cases hn : f n with
    | none => simpa [hn] using ih
    | some y =>
      have hlast : [n].filterMap f = [y] := by simp [hn]
      rw [hlast, eraseDups_concat]
      split
      · exact ih
      · rename_i hnew
        refine List.pairwise_append.mpr ⟨ih, List.pairwise_singleton _ _, ?_⟩
        intro x hx y' hy'
        obtain rfl := List.mem_singleton.mp hy'
        obtain ⟨i, hi, hfi⟩ := List.mem_filterMap.mp (List.mem_eraseDups.mp hx)
        refine ⟨i, hfi, fun j hj => ?_⟩
        -- An earlier place of the new element would make it an old one.
        have hle : n ≤ j := Nat.not_lt.mp fun hlt =>
          hnew (List.mem_eraseDups.mpr (List.mem_filterMap.mpr ⟨j, List.mem_range.mpr hlt, hj⟩))
        exact Nat.lt_of_lt_of_le (List.mem_range.mp hi) hle

/-- What is found at places is counted by its places, and listed in the order of the first ones. -/
theorem exists_tally_filterMap_range (f : Nat → Option κ) (n : Nat) : ∃ xs : List κ,
    tally ((List.range n).filterMap f) =
      xs.map (fun x => (x, ((List.range n).filter fun i => f i = some x).length)) ∧
    (∀ x, x ∈ xs ↔ ∃ i < n, f i = some x) ∧
    xs.Pairwise fun x y => ∃ i, f i = some x ∧ ∀ j, f j = some y → i < j := by
  refine ⟨((List.range n).filterMap f).eraseDups, ?_, fun x => ?_,
    pairwise_eraseDups_filterMap_range f n⟩
  · rw [tally_eq]
    refine List.map_congr_left fun x _ => ?_
    rw [List.count_filterMap, List.countP_eq_length_filter]
    congr 3
    exact funext fun i => Bool.beq_eq_decide_eq _ _
  · rw [List.mem_eraseDups, List.mem_filterMap]
    simp only [List.mem_range]

/-! ### The same change to every value -/

theorem mapValues_put (f : β → γ) (k : κ) (b : β) (e : Entries κ β) :
    mapValues f (put k b e) = put k (f b) (mapValues f e) := by
  induction e with
  | nil => rfl
  | cons entry rest ih =>
    change mapValues f (if entry.1 = k then (entry.1, b) :: rest else entry :: put k b rest) =
      if entry.1 = k then (entry.1, f b) :: mapValues f rest
      else (entry.1, f entry.2) :: put k (f b) (mapValues f rest)
    split
    · rfl
    · rw [← ih]
      rfl

theorem mapValues_putAll (f : β → γ) (e new : Entries κ β) :
    mapValues f (putAll e new) = putAll (mapValues f e) (mapValues f new) := by
  induction new generalizing e with
  | nil => rfl
  | cons entry new ih =>
    rw [putAll_cons, ih, mapValues_put]
    rfl

/-! ### Removing -/

theorem remove_cons (k : κ) (entry : κ × β) (rest : Entries κ β) :
    remove k (entry :: rest) = if entry.1 = k then remove k rest else entry :: remove k rest := by
  unfold remove
  rw [List.filter_cons]
  by_cases h : entry.1 = k <;> simp [h]

theorem keys_remove_sublist (k : κ) (e : Entries κ β) : (e.remove k).keys.Sublist e.keys :=
  List.filter_sublist.map Prod.fst

theorem get?_remove (k j : κ) (e : Entries κ β) :
    get? j (e.remove k) = if k = j then none else get? j e := by
  induction e with
  | nil => by_cases h : k = j <;> simp [remove, h]
  | cons entry rest ih =>
    rw [remove_cons]
    by_cases hk : entry.1 = k
    · by_cases hj : k = j
      · rw [if_pos hk, ih, if_pos hj, if_pos hj]
      · rw [if_pos hk, ih, if_neg hj, if_neg hj, get?, if_neg (hk ▸ hj)]
    · rw [if_neg hk, get?, get?, ih]
      by_cases hj : k = j
      · rw [if_pos hj, if_neg (hj ▸ hk), if_pos hj]
      · rw [if_neg hj, if_neg hj]

end CodeHealth.Entries
