import CodeHealth.CommandLine.Run
import CodeHealth.Proofs.Config.Checks
import CodeHealth.Proofs.Config.Sections
import CodeHealth.Proofs.Entries

/-!
# Loading and checking configuration files

A file that is no configuration is skipped: leaving it out altogether makes the same configuration.
That holds of files that are no text, no JSON or no object, and of objects with sections whose
fields cannot be looked up. It does not hold of an object whose other sections are of the wrong
kind. Such a file ends the loading, and so does one that names as enabled categories what has no
elements.

Checking what was loaded is not free of faults either. A condition that cannot be judged is one, if
those before it are met.
-/

namespace CodeHealth

namespace FileTree

def remove (t : FileTree) (p : FilePath) : FileTree :=
  { t with files := Entries.remove p t.files }

theorem file?_remove (t : FileTree) (p q : FilePath) :
    (t.remove p).file? q = if p = q then none else t.file? q :=
  Entries.get?_remove p q t.files

end FileTree

/-- Whether a value names categories: the absent value does, and so does any value with elements. -/
def Value.NamesCategories : Value → Prop
  | .bool _ | .int _ | .double _ => False
  | _ => True

namespace Config

/-- No configuration can be made of a file. It holds no object, or an object with sections whose
fields cannot be looked up. -/
def Unusable (b : Bytes) : Prop :=
  ∀ members, fileValue? b = some (.object members) → ¬HasSections members

/-- A file holds an object that is no configuration although all fields can be looked up. -/
def Misshapen (b : Bytes) : Prop :=
  ∃ members, fileValue? b = some (.object members) ∧ HasSections members ∧
    ¬(HasObjects members ∧ (categoriesOf members).NamesCategories)

theorem merge_cases (below above : Config) :
    (above.enabledCategories.NamesCategories ∧ ∃ c, below.merge above = .ok c) ∨
      ¬above.enabledCategories.NamesCategories ∧ ∃ f, below.merge above = .error f := by
  unfold merge
  cases above.enabledCategories with
  | null => exact .inl ⟨trivial, _, rfl⟩
  | text s => exact .inl ⟨trivial, _, rfl⟩
  | list items => exact .inl ⟨trivial, _, rfl⟩
  | object members => exact .inl ⟨trivial, _, rfl⟩
  | _ => exact .inr ⟨id, _, rfl⟩

variable {t : FileTree} {c : Config} {p : FilePath} {b : Bytes}

theorem mergeFile_of_eq_none (h : t.file? p = none) : mergeFile t c p = .ok c := by
  rw [mergeFile, h]
  rfl

theorem mergeFile_of_eq_some (h : t.file? p = some b) :
    mergeFile t c p = ofBytes b >>= fun above? =>
      match above? with
      | none => .ok c
      | some above => c.merge above := by
  rw [mergeFile, h]
  rfl

/-- A file is skipped, or a configuration, or it ends the loading. -/
theorem ofBytes_cases (b : Bytes) :
    (Unusable b ∧ ofBytes b = .ok none) ∨
    (Misshapen b ∧ ∃ f, ofBytes b = .error f) ∨
    ∃ members above, fileValue? b = some (.object members) ∧ HasSections members ∧
      HasObjects members ∧ above.enabledCategories = categoriesOf members ∧
      ofBytes b = .ok (some above) := by
  by_cases hobject : ∃ members, fileValue? b = some (.object members)
  · obtain ⟨members, hmembers⟩ := hobject
    obtain ⟨hsections, hobjects, c, hc, hcategories⟩ | ⟨hsections, hobjects, f, hf, hskipped⟩ |
      ⟨hsections, f, hf, hskipped⟩ := ofValue_cases members
    · exact .inr (.inr ⟨members, c, hmembers, hsections, hobjects, hcategories,
        by simp [ofBytes, hmembers, hc]⟩)
    · refine .inr (.inl ⟨⟨members, hmembers, hsections, fun h => hobjects h.1⟩, f, ?_⟩)
      simp [ofBytes, hmembers, hf, hskipped]
    · refine .inl ⟨fun members' hmembers' => ?_, ?_⟩
      · rw [hmembers] at hmembers'
        obtain rfl := Value.object.inj (Option.some.inj hmembers')
        exact hsections
      · simp [ofBytes, hmembers, hf, hskipped]
  · refine .inl ⟨fun members hmembers => absurd ⟨members, hmembers⟩ hobject, ?_⟩
    unfold ofBytes
    split
    · exact absurd ⟨_, ‹_›⟩ hobject
    · rfl

theorem not_misshapen_of_unusable (h : Unusable b) : ¬Misshapen b := by
  rintro ⟨members, hmembers, hsections, -⟩
  exact h members hmembers hsections

theorem mergeFile_of_unusable (h : t.file? p = some b) (hb : Unusable b) :
    mergeFile t c p = .ok c := by
  rw [mergeFile_of_eq_some h]
  obtain ⟨-, hnone⟩ | ⟨hmisshapen, -⟩ | ⟨members, above, hmembers, hsections, -⟩ := ofBytes_cases b
  · rw [hnone]
    rfl
  · exact absurd hmisshapen (not_misshapen_of_unusable hb)
  · exact absurd hsections (hb members hmembers)

theorem exists_mergeFile_error_iff :
    (∃ f, mergeFile t c p = .error f) ↔ ∃ b, t.file? p = some b ∧ Misshapen b := by
  cases hfile : t.file? p with
  | none =>
    rw [mergeFile_of_eq_none hfile]
    simp
  | some b =>
    rw [mergeFile_of_eq_some hfile]
    have hsome : (∃ b', some b = some b' ∧ Misshapen b') ↔ Misshapen b := by simp
    rw [hsome]
    obtain ⟨hunusable, hnone⟩ | ⟨hmisshapen, f, hf⟩ |
      ⟨members, above, hmembers, hsections, hobjects, hcategories, habove⟩ := ofBytes_cases b
    · rw [hnone]
      constructor
      · rintro ⟨f, hf⟩
        contradiction
      · exact fun h => absurd h (not_misshapen_of_unusable hunusable)
    · rw [hf]
      exact ⟨fun _ => hmisshapen, fun _ => ⟨f, rfl⟩⟩
    · rw [habove]
      change (∃ f, c.merge above = .error f) ↔ _
      obtain ⟨hnames, c', hc'⟩ | ⟨hnames, hf⟩ := merge_cases c above
      · rw [hc']
        constructor
        · rintro ⟨f, hf⟩
          contradiction
        · rintro ⟨members', hmembers', -, hnot⟩
          rw [hmembers] at hmembers'
          obtain rfl := Value.object.inj (Option.some.inj hmembers')
          exact absurd ⟨hobjects, hcategories ▸ hnames⟩ hnot
      · refine ⟨fun _ => ⟨members, hmembers, hsections, fun h => hnames ?_⟩, fun _ => hf⟩
        rw [hcategories]
        exact h.2

/-- Loading fails exactly if one of the files is misshapen. -/
theorem exists_load_error_iff (t : FileTree) (places : ConfigPlaces) :
    (∃ f, load t places = .error f) ↔
      ∃ p ∈ places.candidates, ∃ b, t.file? p = some b ∧ Misshapen b := by
  unfold load
  generalize places.candidates = paths
  generalize ({} : Config) = c
  induction paths generalizing c with
  | nil => simp [pure, Except.pure]
  | cons p rest ih =>
    rw [List.foldlM_cons]
    cases hmerge : mergeFile t c p with
    | error f =>
      have hp := exists_mergeFile_error_iff.mp ⟨f, hmerge⟩
      exact ⟨fun _ => ⟨p, List.mem_cons_self, hp⟩, fun _ => ⟨f, rfl⟩⟩
    | ok c' =>
      have hp : ¬∃ b, t.file? p = some b ∧ Misshapen b := by
        rw [← exists_mergeFile_error_iff (c := c), hmerge]
        simp
      change (∃ f, rest.foldlM (mergeFile t) c' = .error f) ↔ _
      rw [ih]
      simp [hp]

/-- A file of which no configuration can be made might as well not be there. -/
theorem load_remove (h : t.file? p = some b) (hb : Unusable b) (places : ConfigPlaces) :
    load (t.remove p) places = load t places := by
  have hmerge : mergeFile (t.remove p) = mergeFile t := by
    funext c q
    by_cases hq : p = q
    · subst hq
      have hnone : (t.remove p).file? p = none := by
        rw [FileTree.file?_remove, if_pos rfl]
      rw [mergeFile_of_unusable h hb, mergeFile_of_eq_none hnone]
    · have hsame : (t.remove p).file? q = t.file? q := by
        rw [FileTree.file?_remove, if_neg hq]
      rw [mergeFile, mergeFile, hsame]
  rw [load, load, hmerge]

/-- No file of a configuration that was loaded is misshapen. -/
theorem not_misshapen_of_load {places : ConfigPlaces} (h : load t places = .ok c) :
    ∀ path ∈ places.candidates, ∀ b, t.file? path = some b → ¬Misshapen b := by
  intro path hmem b hb hmisshapen
  obtain ⟨f, hf⟩ := (exists_load_error_iff t places).mpr ⟨path, hmem, b, hb, hmisshapen⟩
  rw [h] at hf
  contradiction

/-- A configuration that is given out once it has been checked is given out, or there is a problem
about it, exactly if it can be judged. -/
theorem checked_iff_judgeable (config : Config) :
    ((∃ config', (do config.validate; return config) = Except.ok config') ∨
      ∃ p : Problem, p.category = .configuration ∧
        (do config.validate; return config) = .error (.problem p)) ↔ config.Judgeable := by
  rw [config.judgeable_iff]
  cases config.validate with
  | ok _ => exact ⟨fun _ => .inl rfl, fun _ => .inl ⟨config, rfl⟩⟩
  | error e =>
    constructor
    · rintro (⟨config', h⟩ | ⟨p, hcategory, h⟩)
      · contradiction
      · exact .inr ⟨p, hcategory, by rw [Except.error.inj h]⟩
    · rintro (h | ⟨p, hcategory, h⟩)
      · contradiction
      · exact .inr ⟨p, hcategory, by rw [h]; rfl⟩

end Config

namespace CommandPlace

def places (c : CommandPlace) (project : FilePath) (explicit : Option FilePath) : ConfigPlaces where
  shared := c.shared
  project := project
  explicit := explicit

/-- A command gets its configuration, or a problem about it, exactly if no file is misshapen and
every condition that is reached can be judged. It makes no difference to the answer whether a file
of which no configuration can be made is there. -/
theorem config_answers (c : CommandPlace) (project : FilePath) (explicit : Option FilePath) :
    (((∃ config, c.config project explicit = .ok config) ∨
        ∃ p : Problem, p.category = .configuration ∧
          c.config project explicit = .error (.problem p)) ↔
      (∀ path ∈ (c.places project explicit).candidates, ∀ b, c.tree.file? path = some b →
        ¬Config.Misshapen b) ∧
      ∀ config, Config.load c.tree (c.places project explicit) = .ok config → config.Judgeable) ∧
    ∀ path b, c.tree.file? path = some b → Config.Unusable b →
      config { c with tree := c.tree.remove path } project explicit =
        c.config project explicit := by
  have hconfig (t : FileTree) : config { c with tree := t } project explicit = (do
      let config ← Fault.lift (Config.load t (c.places project explicit))
      config.validate
      return config) := rfl
  constructor
  · rw [show c.config project explicit = _ from hconfig c.tree]
    cases hloaded : Config.load c.tree (c.places project explicit) with
    | error f =>
      obtain ⟨path, hmem, b, hb, hmisshapen⟩ :=
        (Config.exists_load_error_iff c.tree (c.places project explicit)).mp ⟨f, hloaded⟩
      constructor
      · rintro (⟨config, h⟩ | ⟨p, -, h⟩)
        · contradiction
        · exact absurd (Except.error.inj h) Failure.noConfusion
      · exact fun h => absurd hmisshapen (h.1 path hmem b hb)
    | ok config =>
      refine config.checked_iff_judgeable.trans
        ⟨fun h => ⟨Config.not_misshapen_of_load hloaded, fun config' h' => ?_⟩,
          fun h => h.2 config rfl⟩
      rwa [← Except.ok.inj h']
  · intro path b hb hunusable
    rw [hconfig, Config.load_remove hb hunusable]
    rfl

/-- A place with a project whose configuration has a list in place of the settings of
single rules. -/
def withListOfRules : CommandPlace where
  tree := { files := [(["work", ".debt", "debt.config.json"],
    Bytes.ofText "\x7b\"rules\": []\x7d".toList)] }
  here := []
  shared := ["global"]
  input := []

def withoutListOfRules : CommandPlace :=
  { withListOfRules with tree := withListOfRules.tree.remove ["work", ".debt", "debt.config.json"] }

/-- The type under which it is reported that there is no configuration. -/
def failureType : Except Failure Config → Option String
  | .ok _ => none
  | .error e => some e.typeName

/-- A list in place of the settings of single rules is no configuration, and yet the file is not
skipped. Nor is it a problem for the reader. -/
theorem config_listOfRules :
    (∃ e, withListOfRules.config ["work"] none = .error e ∧ e.typeName = "AttributeError") ∧
      ∃ config, withoutListOfRules.config ["work"] none = .ok config := by
  have hwith : failureType (withListOfRules.config ["work"] none) = some "AttributeError" := by
    decide +kernel
  have hwithout : failureType (withoutListOfRules.config ["work"] none) = none := by
    decide +kernel
  generalize withListOfRules.config ["work"] none = answer at hwith ⊢
  generalize withoutListOfRules.config ["work"] none = answer' at hwithout ⊢
  constructor
  · cases answer with
    | ok config => contradiction
    | error e => exact ⟨e, rfl, Option.some.inj hwith⟩
  · cases answer' with
    | ok config => exact ⟨config, rfl⟩
    | error e => contradiction

end CommandPlace

end CodeHealth
