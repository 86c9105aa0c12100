import CodeHealth.Rule.Basic

/-!
# Groups keep the order of smells

Smells that come in the order of their categories are grouped without any of them changing its
place: the groups, one after the other, are the smells again. The categories of the groups then
stand in canonical order as well, some of them possibly missing, and there is no empty group.

A smell that is added belongs to the last group or opens a new one at the end
(`SmellGroups.add_cases`); everything else follows from that.
-/

namespace CodeHealth

theorem Value.same_text (a b : String) : (text a).same (text b) = decide (a = b) := rfl

namespace Category

/-- The place of a category in canonical order. What is no category comes last. -/
def place : Value → Nat
  | .text name => position name
  | _ => all.length

theorem eq_of_position_eq :
    ∀ c ∈ all, ∀ c' ∈ all, position c.name = position c'.name → c = c' := by
  decide

/-- Categories in ascending order are some of all categories. -/
theorem sublist_all {cs : List Category} (hmem : ∀ c ∈ cs, c ∈ all)
    (h : cs.Pairwise fun c c' => position c.name < position c'.name) : cs.Sublist all := by
  have hall : all.Pairwise fun c c' => position c.name < position c'.name := by decide
  generalize all = cs' at hmem hall
  induction cs' generalizing cs with
  | nil =>
    obtain rfl : cs = [] := List.eq_nil_iff_forall_not_mem.mpr fun c hc =>
      List.not_mem_nil (hmem c hc)
    exact List.nil_sublist _
  | cons c' rest ih =>
    cases cs with
    | nil => exact List.nil_sublist _
    | cons c cs =>
      obtain ⟨hc, hcs⟩ := List.pairwise_cons.mp h
      obtain ⟨hc', hrest⟩ := List.pairwise_cons.mp hall
      obtain rfl | hmemc := List.mem_cons.mp (hmem c List.mem_cons_self)
      · refine (ih hcs (fun d hd => ?_) hrest).cons_cons c
        obtain rfl | hd' := List.mem_cons.mp (hmem d (List.mem_cons_of_mem c hd))
        · exact absurd (hc d hd) (Nat.lt_irrefl _)
        · exact hd'
      · refine (ih h (fun d hd => ?_) hrest).cons c'
        obtain rfl | hd' := List.mem_cons.mp (hmem d hd)
        · obtain rfl | hd := List.mem_cons.mp hd
          · exact hmemc
          · exact absurd (Nat.lt_trans (hc d hd) (hc' c hmemc)) (Nat.lt_irrefl _)
        · exact hd'

end Category

namespace SmellGroups

/-- Groups as an analysis lists them: the categories in canonical order, each of them with all its
smells and with one at least. -/
structure Canonical (groups : SmellGroups) : Prop where
  /-- The categories are some of all categories, in the order of these. -/
  categories : (groups.map Prod.fst).Sublist (Category.all.map fun c => .text c.name)
  ne_nil : ∀ group ∈ groups, group.2 ≠ []
  category_eq : ∀ group ∈ groups, ∀ x ∈ group.2, x.category = group.1

/-- Groups of known categories, each category later than the one before it. -/
structure Ascending (groups : SmellGroups) : Prop where
  known : ∀ group ∈ groups, ∃ c ∈ Category.all, group.1 = .text c.name
  pairwise : groups.Pairwise fun g g' => Category.place g.1 < Category.place g'.1
  ne_nil : ∀ group ∈ groups, group.2 ≠ []
  category_eq : ∀ group ∈ groups, ∀ x ∈ group.2, x.category = group.1

variable {groups : SmellGroups}

theorem Ascending.canonical (h : groups.Ascending) : groups.Canonical where
  categories := by
    obtain ⟨cs, hmem, hcs⟩ : ∃ cs : List Category, (∀ c ∈ cs, c ∈ Category.all) ∧
        groups.map Prod.fst = cs.map fun c => .text c.name := by
      have hknown := h.known
      clear h
      induction groups with
      | nil => exact ⟨[], by simp, rfl⟩
      | cons group groups ih =>
        obtain ⟨⟨c, hc, hgroup⟩, hrest⟩ := List.forall_mem_cons.mp hknown
        obtain ⟨cs, hmem, hcs⟩ := ih hrest
        exact ⟨c :: cs, List.forall_mem_cons.mpr ⟨hc, hmem⟩, by simp [hgroup, hcs]⟩
    have hpairwise : (groups.map Prod.fst).Pairwise fun v v' =>
        Category.place v < Category.place v' := List.pairwise_map.mpr h.pairwise
    rw [hcs, List.pairwise_map] at hpairwise
    rw [hcs]
    exact (Category.sublist_all hmem hpairwise).map _
  ne_nil := h.ne_nil
  category_eq := h.category_eq

theorem add_cons_of_eq {name : String} {x : Smell} (hx : x.category = .text name)
    (smells : List Smell) (rest : SmellGroups) :
    add ((.text name, smells) :: rest) x = (.text name, smells ++ [x]) :: rest := by
  rw [add, hx, alter, if_pos (by rw [Value.same_text, decide_eq_true rfl])]
  rfl

theorem add_cons_of_ne {name name' : String} (hne : name ≠ name') {x : Smell}
    (hx : x.category = .text name') (smells : List Smell) (rest : SmellGroups) :
    add ((.text name, smells) :: rest) x = (.text name, smells) :: add rest x := by
  rw [add, hx, alter,
    if_neg (by rw [Value.same_text, decide_eq_false hne]; exact Bool.false_ne_true),
    add, hx]

/-- A smell whose category is not before that of any group joins the last group, or it opens a new
one behind all others. -/
theorem add_cases (h : groups.Ascending) {x : Smell}
    (hx : ∃ c ∈ Category.all, x.category = .text c.name)
    (hle : ∀ group ∈ groups, Category.place group.1 ≤ Category.place x.category) :
    (∃ before smells, groups = before ++ [(x.category, smells)] ∧
      groups.add x = before ++ [(x.category, smells ++ [x])]) ∨
    (∀ group ∈ groups, Category.place group.1 < Category.place x.category) ∧
      groups.add x = groups ++ [(x.category, [x])] := by
  induction groups with
  | nil => exact .inr ⟨by simp, rfl⟩
  | cons group rest ih =>
    obtain ⟨category, smells⟩ := group
    obtain ⟨hfirst, hlater⟩ := List.pairwise_cons.mp h.pairwise
    obtain ⟨⟨c, hc, rfl⟩, hknown⟩ := List.forall_mem_cons.mp h.known
    obtain ⟨c', hc', hxc⟩ := hx
    rw [hxc] at hle ⊢
    obtain ⟨hplace, hle⟩ := List.forall_mem_cons.mp hle
    by_cases heq : c = c'
    · subst heq
      have hrest : rest = [] := by
        refine List.eq_nil_iff_forall_not_mem.mpr fun group hgroup => ?_
        exact Nat.lt_irrefl _ (Nat.lt_of_lt_of_le (hfirst group hgroup) (hle group hgroup))
      subst hrest
      exact .inl ⟨[], smells, rfl, add_cons_of_eq hxc smells []⟩
    · have hne : c.name ≠ c'.name := fun hname =>
        heq (Category.eq_of_position_eq c hc c' hc' (congrArg Category.position hname))
      have hrest : Ascending rest :=
        ⟨hknown, hlater, fun g hg => h.ne_nil g (List.mem_cons_of_mem _ hg),
          fun g hg => h.category_eq g (List.mem_cons_of_mem _ hg)⟩
      rw [add_cons_of_ne hne hxc]
      obtain ⟨before, smells', hbefore, hadd'⟩ | ⟨hlt, hadd'⟩ :=
        ih hrest (by rwa [hxc])
      · rw [hxc] at hbefore hadd'
        exact .inl ⟨(.text c.name, smells) :: before, smells', by rw [hbefore]; rfl,
          by rw [hadd']; rfl⟩
      · rw [hxc] at hlt hadd'
        refine .inr ⟨List.forall_mem_cons.mpr ⟨?_, hlt⟩, by rw [hadd']; rfl⟩
        exact Nat.lt_of_le_of_ne hplace fun hpos =>
          heq (Category.eq_of_position_eq c hc c' hc' hpos)

/-- Adding a smell at the end puts it at the end of all groups. -/
theorem Ascending.add (h : groups.Ascending) {x : Smell}
    (hx : ∃ c ∈ Category.all, x.category = .text c.name)
    (hle : ∀ group ∈ groups, Category.place group.1 ≤ Category.place x.category) :
    (groups.add x).Ascending ∧
      (groups.add x).flatMap Prod.snd = groups.flatMap Prod.snd ++ [x] := by
  obtain ⟨before, smells, rfl, hadd⟩ | ⟨hlt, hadd⟩ := add_cases h hx hle
  · rw [hadd]
    refine ⟨⟨?_, ?_, ?_, ?_⟩, by simp⟩
    · have := h.known
      simp only [List.forall_mem_append, List.forall_mem_singleton] at this ⊢
      exact this
    · have := h.pairwise
      simp only [List.pairwise_append, List.pairwise_singleton, List.forall_mem_singleton] at this ⊢
      exact this
    · have := h.ne_nil
      simp only [List.forall_mem_append, List.forall_mem_singleton] at this ⊢
      exact ⟨this.1, by simp⟩
    · have := h.category_eq
      simp only [List.forall_mem_append, List.forall_mem_singleton] at this ⊢
      exact ⟨this.1, this.2, trivial⟩
  · rw [hadd]
    refine ⟨⟨?_, ?_, ?_, ?_⟩, by simp⟩
    · simp only [List.forall_mem_append, List.forall_mem_singleton]
      exact ⟨h.known, hx⟩
    · simp only [List.pairwise_append, List.pairwise_singleton, List.forall_mem_singleton]
      exact ⟨h.pairwise, trivial, hlt⟩
    · simp only [List.forall_mem_append, List.forall_mem_singleton]
      exact ⟨h.ne_nil, by simp⟩
    · simp only [List.forall_mem_append, List.forall_mem_singleton]
      exact ⟨h.category_eq, trivial⟩

/-- Grouping smells that come in the order of their categories keeps their order. -/
theorem ascending_ofSmells {smells : List Smell}
    (hknown : ∀ x ∈ smells, ∃ c ∈ Category.all, x.category = .text c.name)
    (h : smells.Pairwise fun x y => Category.place x.category ≤ Category.place y.category) :
    (ofSmells smells).Ascending ∧ (ofSmells smells).flatMap Prod.snd = smells := by
  -- The fold takes the smells from the left, so the last one is split off.
  rw [← List.reverse_reverse smells] at hknown h ⊢
  generalize smells.reverse = reversed at hknown h ⊢
  induction reversed with
  | nil =>
    exact ⟨⟨by simp [ofSmells], by simp [ofSmells], by simp [ofSmells], by simp [ofSmells]⟩, rfl⟩
  | cons x reversed ih =>
    rw [List.reverse_cons] at hknown h ⊢
    obtain ⟨hbefore, hx⟩ := List.forall_mem_append.mp hknown
    obtain ⟨hpairwise, -, hle⟩ := List.pairwise_append.mp h
    obtain ⟨hgroups, hflat⟩ := ih hbefore hpairwise
    have hstep : ofSmells (reversed.reverse ++ [x]) = (ofSmells reversed.reverse).add x := by
      rw [ofSmells, List.foldl_append]
      rfl
    have hlast : ∀ group ∈ ofSmells reversed.reverse,
        Category.place group.1 ≤ Category.place x.category := by
      intro group hgroup
      obtain ⟨y, hy⟩ := List.exists_mem_of_ne_nil _ (hgroups.ne_nil group hgroup)
      have hmem : y ∈ reversed.reverse := by
        rw [← hflat]
        exact List.mem_flatMap.mpr ⟨group, hgroup, hy⟩
      rw [← hgroups.category_eq group hgroup y hy]
      exact hle y hmem x (List.mem_singleton.mpr rfl)
    have hadd := hgroups.add (hx x (List.mem_singleton.mpr rfl)) hlast
    rw [hstep, hadd.2, hflat]
    exact ⟨hadd.1, rfl⟩

end SmellGroups

end CodeHealth
