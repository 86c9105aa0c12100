import CodeHealth.Proofs.Config.Saving
import Mathlib.Data.List.Induction

/-!
# Layers of configurations

Configurations are laid on top of each other one by one, beginning with the defaults. The uppermost
layer decides alone about everything but the enabled categories and the rules. The enabled
categories are those of the last layer that names any, and the settings of a rule are those of the
last layer that mentions it, as a whole. The rules stand in the order in which the layers first
mention them.

It does not matter which layers are put together first (`Config.merge_layers`).
-/

namespace CodeHealth.Config

/-! ### One layer on top -/

/-- The enabled categories that remain when others are laid on top. -/
def overlaid (below : Value) : (above : Value) → Value
  | .null => below
  | above => above

theorem overlaid_assoc (a b c : Value) : overlaid (overlaid a b) c = overlaid a (overlaid b c) := by
  cases c with
  | null => rfl
  | _ => rfl

theorem Settled.mergedCategories_eq {above : Config} (h : Settled above) (below : Value) :
    mergedCategories below above.enabledCategories =
      .ok (overlaid below above.enabledCategories) := by
  obtain hnull | ⟨items, hitems⟩ := h.categories
  · rw [hnull]
    rfl
  · rw [hitems]
    rfl

/-- A settled configuration can be laid on top of any other. -/
theorem Settled.merge_eq {above : Config} (h : Settled above) (b : Config) :
    b.merge above = .ok { above with
      enabledCategories := overlaid b.enabledCategories above.enabledCategories
      rules := Entries.putAll b.rules above.rules } := by
  rw [Config.merge, h.mergedCategories_eq]
  rfl

/-- Three layers make up the same configuration, whichever two are put together first. -/
theorem exists_merge_merge {a b c : Config} (ha : Settled a) (hb : Settled b) (hc : Settled c) :
    ∃ abc, (a.merge b >>= fun ab => ab.merge c) = .ok abc ∧
      (b.merge c >>= fun bc => a.merge bc) = .ok abc := by
  have hbc := hb.merge (hc.merge_eq b)
  refine ⟨{ c with
    enabledCategories :=
      overlaid (overlaid a.enabledCategories b.enabledCategories) c.enabledCategories
    rules := Entries.putAll (Entries.putAll a.rules b.rules) c.rules }, ?_, ?_⟩
  · rw [hb.merge_eq]
    exact hc.merge_eq _
  · rw [hc.merge_eq, overlaid_assoc, Entries.putAll_assoc ha.rules hb.rules]
    exact hbc.merge_eq a

/-! ### Any number of layers -/

def namesCategories (c : Config) : Bool :=
  match c.enabledCategories with
  | .null => false
  | _ => true

def lastCategories (layers : List Config) : Value :=
  ((layers.filter namesCategories).getLast?.map enabledCategories).getD .null

theorem lastCategories_append (layers : List Config) (top : Config) :
    lastCategories (layers ++ [top]) = overlaid (lastCategories layers) top.enabledCategories := by
  rw [lastCategories, lastCategories, List.filter_append]
  cases htop : top.enabledCategories with
  | null => simp [overlaid, namesCategories, htop]
  | _ => simp [overlaid, namesCategories, htop]

/-- The rules of all layers, written one layer after the other. -/
def writtenRules (layers : List Config) : Entries String RuleSettings :=
  Entries.putAll [] (layers.flatMap rules)

theorem writtenRules_append (layers : List Config) (top : Config) :
    writtenRules (layers ++ [top]) = Entries.putAll (writtenRules layers) top.rules := by
  rw [writtenRules, List.flatMap_append, Entries.putAll_append, List.flatMap_singleton]
  rfl

/-- The rules stand in the order in which they are first mentioned. -/
theorem keys_writtenRules (layers : List Config) :
    (writtenRules layers).keys = (layers.flatMap fun layer => layer.rules.keys).eraseDups := by
  have hempty : (Entries.keys ([] : Entries String RuleSettings)).Nodup := List.nodup_nil
  have hkeys : Entries.keys (layers.flatMap rules) = layers.flatMap fun layer => layer.rules.keys :=
    List.map_flatMap
  rw [writtenRules, Entries.keys_putAll hempty, Entries.keys_nil, List.nil_append, hkeys]

/-- The last layer that mentions a rule has its settings. -/
theorem get?_writtenRules {layers : List Config} (h : ∀ layer ∈ layers, Settled layer)
    (id : String) :
    (writtenRules layers).get? id =
      (layers.filterMap fun layer => layer.rules.get? id).getLast? := by
  induction layers using List.reverseRecOn with
  | nil => rfl
  | append_singleton layers top ih =>
    rw [List.forall_mem_append, List.forall_mem_singleton] at h
    rw [writtenRules_append, Entries.get?_putAll h.2.rules, ih h.1, List.filterMap_append,
      List.getLast?_append]
    cases htop : Entries.get? id top.rules <;> simp [htop]

/-- A configuration that layers on top of the defaults make up. -/
structure MadeOf (layers : List Config) (c : Config) : Prop where
  foldlM_eq : layers.foldlM merge {} = .ok c
  categories : c.enabledCategories = lastCategories layers
  rules : c.rules = writtenRules layers

theorem madeOf_nil : MadeOf [] {} :=
  ⟨rfl, rfl, rfl⟩

/-- One more layer leaves nothing of the others but their enabled categories, if it names none, and
their rules. -/
theorem MadeOf.add {layers : List Config} {c top : Config} (h : MadeOf layers c)
    (htop : Settled top) :
    MadeOf (layers ++ [top]) { top with
      enabledCategories := lastCategories (layers ++ [top])
      rules := writtenRules (layers ++ [top]) } where
  foldlM_eq := by
    rw [lastCategories_append, writtenRules_append, ← h.categories, ← h.rules, List.foldlM_append,
      h.foldlM_eq]
    change List.foldlM merge c [top] = _
    rw [List.foldlM_cons, htop.merge_eq]
    rfl
  categories := rfl
  rules := rfl

theorem exists_madeOf {layers : List Config} (h : ∀ layer ∈ layers, Settled layer) :
    ∃ c, MadeOf layers c := by
  induction layers using List.reverseRecOn with
  | nil => exact ⟨{}, madeOf_nil⟩
  | append_singleton layers top ih =>
    rw [List.forall_mem_append, List.forall_mem_singleton] at h
    obtain ⟨c, hc⟩ := ih h.1
    exact ⟨_, hc.add h.2⟩

/-- Putting layers together is associative. Of any number of layers on top of the defaults the last
one decides about everything but the enabled categories and the rules: the enabled categories are
those of the last layer that names any, and every rule has all settings of the last layer that
mentions it. The rules stand in the order in which they are first mentioned. -/
theorem merge_layers :
    (∀ a b c : Config, Settled a → Settled b → Settled c →
      ∃ abc, (a.merge b >>= fun ab => ab.merge c) = .ok abc ∧
        (b.merge c >>= fun bc => a.merge bc) = .ok abc) ∧
    ∀ (lower : List Config) (top : Config), (∀ layer ∈ lower ++ [top], Settled layer) →
      ∃ rules : Entries String RuleSettings,
        (lower ++ [top]).foldlM merge {} = .ok { top with
          enabledCategories := lastCategories (lower ++ [top])
          rules := rules } ∧
        (∀ id, rules.get? id =
          ((lower ++ [top]).filterMap fun layer => layer.rules.get? id).getLast?) ∧
        rules.keys = ((lower ++ [top]).flatMap fun layer => layer.rules.keys).eraseDups := by
  refine ⟨fun a b c ha hb hc => exists_merge_merge ha hb hc, fun lower top h => ?_⟩
  have hlower : ∀ layer ∈ lower, Settled layer :=
    fun layer hlayer => h layer (List.mem_append_left [top] hlayer)
  have htop : Settled top := h top List.mem_concat_self
  obtain ⟨c, hc⟩ := exists_madeOf hlower
  exact ⟨writtenRules (lower ++ [top]), (hc.add htop).foldlM_eq, get?_writtenRules h,
    keys_writtenRules (lower ++ [top])⟩

/-- Three layers: the middle one names a category and sets two rules, the last one sets one of them
and a new one. -/
theorem merge_layers_three :
    let first : Config := { rules := [("A", { enabled := .bool false })], continueOnError := .null }
    let second : Config :=
      { enabledCategories := .list [.text "Bloaters"]
        rules := [("B", { parameters := .object [("lines", .int 1)] }), ("A", {})] }
    let third : Config :=
      { structureScanner := .text "brace"
        rules := [("C", {}), ("B", { enabled := .bool false })] }
    Settled first ∧ Settled second ∧ Settled third ∧
      (∃ c, (first.merge second >>= fun ab => ab.merge third) = .ok c ∧
        (second.merge third >>= fun bc => first.merge bc) = .ok c) ∧
      [first, second, third].foldlM merge {} = .ok { third with
        enabledCategories := .list [.text "Bloaters"]
        rules := [("A", {}), ("B", { enabled := .bool false }), ("C", {})] } := by
  intro first second third
  have hfirst : Settled first := ⟨.inl rfl, by decide⟩
  have hsecond : Settled second := ⟨.inr ⟨_, rfl⟩, by decide⟩
  have hthird : Settled third := ⟨.inl rfl, by decide⟩
  obtain ⟨hassoc, hlayers⟩ := merge_layers
  obtain ⟨rules, hmerged, hsettings, hkeys⟩ := hlayers [first, second] third (by
    simp [hfirst, hsecond, hthird])
  have hrules : rules = [("A", {}), ("B", { enabled := .bool false }), ("C", {})] := by
    have hkeys : rules.keys = ["A", "B", "C"] := hkeys.trans (by decide)
    refine Entries.ext_get? hkeys (hkeys ▸ by decide) fun id hid => ?_
    rw [hsettings]
    simp only [hkeys, List.mem_cons, List.not_mem_nil, or_false] at hid
    obtain rfl | rfl | rfl := hid
    · rfl
    · rfl
    · rfl
  exact ⟨hfirst, hsecond, hthird, hassoc first second third hfirst hsecond hthird, hrules ▸ hmerged⟩

end CodeHealth.Config
