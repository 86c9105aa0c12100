import CodeHealth.Proofs.Config.Plain
import CodeHealth.Proofs.Config.ReadBack

/-!
# Saving a configuration and loading it again

Laying a file on top of a configuration only ever adds to it: rules that are present keep their
places, and enabled categories that are named stay named. `Beneath` says so of two configurations,
and `merge_readBack` says what comes of it: a configuration that is read back from a file takes the
place of everything that lies beneath it.

So it does not matter what the files below the saved one hold, nor whether they can be read. A file
above the saved one has been laid on top of the configuration before, and laying it on top again
changes nothing (`toValue_mergeFile_readBack`).
-/

namespace CodeHealth

namespace Config

/-- The enabled categories are absent or a list, and every rule has one place. -/
structure Settled (c : Config) : Prop where
  categories : c.enabledCategories = .null ∨ ∃ items, c.enabledCategories = .list items
  rules : c.rules.keys.Nodup

/-- The rules of a configuration come first in another one, in their order, and the other one names
enabled categories if the first one does. -/
structure Beneath (below c : Config) : Prop where
  categories : c.enabledCategories = .null → below.enabledCategories = .null
  rules : below.rules.keys <+: c.rules.keys

namespace Beneath

theorem refl (c : Config) : Beneath c c :=
  ⟨id, List.prefix_rfl⟩

theorem trans {a b c : Config} (h : Beneath a b) (h' : Beneath b c) : Beneath a c :=
  ⟨fun hc => h.categories (h'.categories hc), h.rules.trans h'.rules⟩

end Beneath

theorem keys_readBack (c : Config) : c.readBack.rules.keys = c.rules.keys :=
  Entries.keys_mapValues RuleSettings.readBack c.rules

theorem beneath_readBack (c : Config) : Beneath c.readBack c :=
  ⟨id, [], by rw [List.append_nil, keys_readBack]⟩

theorem Beneath.readBack {b c : Config} (h : Beneath b c) : Beneath b c.readBack :=
  ⟨h.categories, by rw [keys_readBack]; exact h.rules⟩

theorem Settled.readBack {c : Config} (h : Settled c) : Settled c.readBack :=
  ⟨h.categories, by rw [keys_readBack]; exact h.rules⟩

theorem settled_default : Settled {} :=
  ⟨.inl rfl, List.nodup_nil⟩

/-! ### What is loaded -/

section Loaded

variable {t : FileTree} {b c c' above : Config} {p : FilePath}

theorem mergedCategories_eq {below above v : Value} (h : mergedCategories below above = .ok v) :
    (above = .null ∧ v = below) ∨ ∃ items, v = .list items := by
  cases above with
  | null => exact .inl ⟨rfl, (Except.ok.inj h).symm⟩
  | text s => exact .inr ⟨_, (Except.ok.inj h).symm⟩
  | list items => exact .inr ⟨_, (Except.ok.inj h).symm⟩
  | object members => exact .inr ⟨_, (Except.ok.inj h).symm⟩
  | _ => contradiction

theorem mergedCategories_again {below above v : Value} (h : mergedCategories below above = .ok v) :
    mergedCategories v above = .ok v := by
  cases above with
  | null => rfl
  | _ => exact h

theorem merge_eq_ok (h : b.merge above = .ok c) :
    ∃ v, mergedCategories b.enabledCategories above.enabledCategories = .ok v ∧
      c = { above with enabledCategories := v, rules := Entries.putAll b.rules above.rules } := by
  obtain ⟨v, hv, h⟩ := exists_of_bind_eq_ok h
  exact ⟨v, hv, (Except.ok.inj h).symm⟩

theorem Settled.merge (hb : Settled b) (h : b.merge above = .ok c) : Settled c := by
  obtain ⟨v, hv, rfl⟩ := merge_eq_ok h
  refine ⟨?_, Entries.nodup_keys_putAll _ hb.rules⟩
  obtain ⟨-, rfl⟩ | hlist := mergedCategories_eq hv
  · exact hb.categories
  · exact .inr hlist

theorem beneath_of_merge (h : b.merge above = .ok c) : Beneath b c := by
  obtain ⟨v, hv, rfl⟩ := merge_eq_ok h
  refine ⟨fun hnull => ?_, Entries.keys_isPrefix_putAll _ _⟩
  obtain ⟨-, rfl⟩ | ⟨items, rfl⟩ := mergedCategories_eq hv
  · exact hnull
  · contradiction

/-- A file changes nothing, or what it holds is laid on top. -/
theorem mergeFile_eq_ok (h : mergeFile t c p = .ok c') :
    ((∀ d, mergeFile t d p = .ok d) ∧ c' = c) ∨
      ∃ above, (∀ d, mergeFile t d p = d.merge above) ∧ c.merge above = .ok c' := by
  cases hfile : t.file? p with
  | none =>
    have hsame (d : Config) : mergeFile t d p = .ok d := mergeFile_of_eq_none hfile
    rw [hsame] at h
    exact .inl ⟨hsame, (Except.ok.inj h).symm⟩
  | some bytes =>
    have hmerge (d : Config) := mergeFile_of_eq_some (c := d) hfile
    rw [hmerge] at h
    obtain ⟨above?, habove, h⟩ := exists_of_bind_eq_ok h
    simp only [habove] at hmerge
    cases above? with
    | none => exact .inl ⟨hmerge, (Except.ok.inj h).symm⟩
    | some above => exact .inr ⟨above, hmerge, h⟩

theorem Settled.mergeFile (hc : Settled c) (h : mergeFile t c p = .ok c') : Settled c' := by
  obtain ⟨-, rfl⟩ | ⟨above, -, h⟩ := mergeFile_eq_ok h
  · exact hc
  · exact hc.merge h

theorem beneath_of_mergeFile (h : mergeFile t c p = .ok c') : Beneath c c' := by
  obtain ⟨-, rfl⟩ | ⟨above, -, h⟩ := mergeFile_eq_ok h
  · exact .refl _
  · exact beneath_of_merge h

theorem Settled.foldlM {paths : List FilePath} (hc : Settled c)
    (h : paths.foldlM (Config.mergeFile t) c = .ok c') : Settled c' :=
  foldlM_preserves (fun _ _ _ _ hd h => hd.mergeFile h) hc h

theorem beneath_of_foldlM {paths : List FilePath}
    (h : paths.foldlM (Config.mergeFile t) c = .ok c') : Beneath c c' :=
  foldlM_preserves (P := Beneath c) (fun _ _ _ _ hd h => hd.trans (beneath_of_mergeFile h))
    (.refl c) h

end Loaded

/-! ### What is saved -/

section Saved

variable {t t' : FileTree} {b c c' : Config} {p : FilePath}

theorem mergeFile_congr (h : t'.file? p = t.file? p) : mergeFile t' c p = mergeFile t c p := by
  unfold mergeFile
  rw [h]

/-- A configuration takes the place of what lies beneath it. -/
theorem merge_readBack (hc : Settled c) (h : Beneath b c) :
    b.merge c.readBack = .ok c.readBack := by
  have hcategories : mergedCategories b.enabledCategories c.enabledCategories =
      .ok c.enabledCategories := by
    obtain hnull | ⟨items, hitems⟩ := hc.categories
    · rw [hnull, h.categories hnull]
      rfl
    · rw [hitems]
      rfl
  have hrules : Entries.putAll b.rules c.readBack.rules = c.readBack.rules :=
    Entries.putAll_eq_right h.readBack.rules (hc.readBack).rules
  change (mergedCategories b.enabledCategories c.enabledCategories >>= fun v => Except.ok
    { c.readBack with
      enabledCategories := v, rules := Entries.putAll b.rules c.readBack.rules }) = _
  rw [hcategories, hrules]
  rfl

theorem mergeFile_of_reads (hc : Settled c) (hread : fileValue? c.toBytes = some c.toValue)
    (hfile : t.file? p = some c.toBytes) (h : Beneath b c) : mergeFile t b p = .ok c.readBack := by
  have hbytes : ofBytes c.toBytes = .ok (some c.readBack) := by
    have hvalue := ofValue_toValue hc.rules
    rw [toValue] at hread hvalue
    simp [ofBytes, hread, hvalue]
  rw [mergeFile_of_eq_some hfile, hbytes]
  exact merge_readBack hc h

/-- A file that has been laid on top of a configuration changes nothing when it is laid on top
again, also after the configuration has been read back. -/
theorem toValue_merge_readBack {above : Config} (hb : Settled b) (h : b.merge above = .ok c) :
    ∃ c', c.readBack.merge above = .ok c' ∧ c'.toValue = c.toValue := by
  obtain ⟨v, hv, rfl⟩ := merge_eq_ok h
  refine ⟨{ above with
    enabledCategories := v
    rules := Entries.putAll (Entries.mapValues RuleSettings.readBack
      (Entries.putAll b.rules above.rules)) above.rules }, ?_, ?_⟩
  · change (mergedCategories v above.enabledCategories >>= _) = _
    rw [mergedCategories_again hv]
    rfl
  · have hkeys : (Entries.mapValues RuleSettings.toValue b.rules).keys.Nodup := by
      rw [Entries.keys_mapValues]
      exact hb.rules
    refine toValue_congr (c := { above with enabledCategories := v }) ?_
    rw [Entries.mapValues_putAll, mapValues_toValue_readBack, Entries.mapValues_putAll,
      Entries.putAll_putAll hkeys]

theorem toValue_mergeFile_readBack (hb : Settled b) (h : mergeFile t b p = .ok c) :
    ∃ c', mergeFile t c.readBack p = .ok c' ∧ c'.toValue = c.toValue := by
  obtain ⟨hsame, rfl⟩ | ⟨above, hmerge, h⟩ := mergeFile_eq_ok h
  · exact ⟨_, hsame _, toValue_readBack c⟩
  · rw [hmerge]
    exact toValue_merge_readBack hb h

theorem file?_save {project : FilePath} {isLocal : Bool} (h : c.save t project isLocal = .ok t')
    (q : FilePath) : t'.file? q =
      if ConfigPlaces.projectFile project isLocal = q then some c.toBytes else t.file? q := by
  obtain ⟨t₁, ht₁, h⟩ := exists_of_bind_eq_ok h
  rw [FileTree.file?_write h, FileTree.file?_addDirectory ht₁]

theorem isDirectory_addDirectory {project : FilePath} {isLocal : Bool} {t₁ : FileTree}
    (h : t.addDirectory (ConfigPlaces.directory project) = .ok t₁) :
    t₁.isDirectory (ConfigPlaces.projectFile project isLocal) =
      t.isDirectory (ConfigPlaces.projectFile project isLocal) := by
  unfold FileTree.addDirectory at h
  split at h
  · contradiction
  · split at h
    · rw [Except.ok.inj h]
    · obtain rfl := Except.ok.inj h
      have hlonger : (ConfigPlaces.projectFile project isLocal).isPrefixOf
          (ConfigPlaces.directory project) = false := by
        refine Bool.eq_false_iff.mpr fun hprefix => ?_
        have hle := (List.isPrefixOf_iff_prefix.mp hprefix).length_le
        rw [ConfigPlaces.projectFile, List.length_append] at hle
        exact absurd hle (Nat.not_succ_le_self _)
      simp [FileTree.isDirectory, hlonger]

/-- A configuration can be saved where no file stands in place of the directory, and no directory in
place of the file. -/
theorem exists_save_iff {project : FilePath} {isLocal : Bool} :
    (∃ t', c.save t project isLocal = .ok t') ↔
      t.file? (ConfigPlaces.directory project) = none ∧
        t.isDirectory (ConfigPlaces.projectFile project isLocal) = false := by
  constructor
  · rintro ⟨t', h⟩
    obtain ⟨t₁, ht₁, h⟩ := exists_of_bind_eq_ok h
    constructor
    · unfold FileTree.addDirectory at ht₁
      split at ht₁
      · contradiction
      · rename_i hnone
        exact Option.not_isSome_iff_eq_none.mp hnone
    · rw [← isDirectory_addDirectory ht₁]
      unfold FileTree.write at h
      split at h
      · contradiction
      · rename_i hfree
        exact Bool.eq_false_iff.mpr hfree
  · rintro ⟨hdirectory, hfile⟩
    obtain ⟨t₁, ht₁⟩ : ∃ t₁, t.addDirectory (ConfigPlaces.directory project) = .ok t₁ := by
      rw [FileTree.addDirectory, hdirectory]
      by_cases hpresent : t.isDirectory (ConfigPlaces.directory project)
      · exact ⟨_, if_pos hpresent⟩
      · exact ⟨_, if_neg hpresent⟩
    rw [← isDirectory_addDirectory ht₁] at hfile
    let written := Entries.put (ConfigPlaces.projectFile project isLocal) c.toBytes t₁.files
    refine ⟨{ t₁ with files := written }, ?_⟩
    rw [save, ht₁]
    exact if_neg (Bool.eq_false_iff.mp hfile)

end Saved

/-! ### The files of a project -/

section Project

variable {t t' : FileTree} {places : ConfigPlaces} {c c₁ c₂ c₃ : Config}

theorem sharedFile_ne_localFile (places : ConfigPlaces) :
    places.shared ++ [ConfigPlaces.fileName false] ≠ ConfigPlaces.projectFile places.project true :=
  fun h => absurd (List.append_inj' h rfl).2 (by decide)

theorem projectFile_ne_localFile (project : FilePath) :
    ConfigPlaces.projectFile project false ≠ ConfigPlaces.projectFile project true :=
  fun h => absurd (List.append_inj' h rfl).2 (by decide)

/-- The three files that are always looked for, one after the other. -/
structure Layers (t : FileTree) (places : ConfigPlaces) (c₁ c₂ c₃ : Config) : Prop where
  shared : mergeFile t {} (places.shared ++ [ConfigPlaces.fileName false]) = .ok c₁
  project : mergeFile t c₁ (ConfigPlaces.projectFile places.project false) = .ok c₂
  localFile : mergeFile t c₂ (ConfigPlaces.projectFile places.project true) = .ok c₃

theorem load_eq_bind (t : FileTree) (places : ConfigPlaces) : load t places = (do
    let c₁ ← mergeFile t {} (places.shared ++ [ConfigPlaces.fileName false])
    let c₂ ← mergeFile t c₁ (ConfigPlaces.projectFile places.project false)
    let c₃ ← mergeFile t c₂ (ConfigPlaces.projectFile places.project true)
    places.explicit.toList.foldlM (mergeFile t) c₃) :=
  rfl

theorem exists_layers (h : load t places = .ok c) : ∃ c₁ c₂ c₃, Layers t places c₁ c₂ c₃ ∧
    places.explicit.toList.foldlM (mergeFile t) c₃ = .ok c := by
  obtain ⟨c₁, hshared, h⟩ := exists_of_bind_eq_ok (load_eq_bind t places ▸ h)
  obtain ⟨c₂, hproject, h⟩ := exists_of_bind_eq_ok h
  obtain ⟨c₃, hlocal, h⟩ := exists_of_bind_eq_ok h
  exact ⟨c₁, c₂, c₃, ⟨hshared, hproject, hlocal⟩, h⟩

namespace Layers

theorem load_eq (h : Layers t places c₁ c₂ c₃) :
    load t { places with explicit := none } = .ok c₃ := by
  rw [load_eq_bind, h.shared]
  change (mergeFile t c₁ _ >>= _) = _
  rw [h.project]
  change (mergeFile t c₂ _ >>= _) = _
  rw [h.localFile]
  rfl

theorem settled (h : Layers t places c₁ c₂ c₃) : Settled c₂ :=
  (settled_default.mergeFile h.shared).mergeFile h.project

/-- The local file holds what was loaded. What lies beneath it is as it was. -/
theorem save_local (h : Layers t places c₁ c₂ c₃) (hc : Settled c) (hbeneath : Beneath c₃ c)
    (hread : fileValue? c.toBytes = some c.toValue)
    (hsave : c.save t places.project true = .ok t') : Layers t' places c₁ c₂ c.readBack := by
  have hsame {b : Config} {p : FilePath} (hp : p ≠ ConfigPlaces.projectFile places.project true) :
      mergeFile t' b p = mergeFile t b p :=
    mergeFile_congr (by rw [file?_save hsave, if_neg (Ne.symm hp)])
  exact {
    shared := (hsame (sharedFile_ne_localFile places)).trans h.shared
    project := (hsame (projectFile_ne_localFile places.project)).trans h.project
    localFile := mergeFile_of_reads hc hread (by rw [file?_save hsave, if_pos rfl])
      ((beneath_of_mergeFile h.localFile).trans hbeneath) }

/-- The file of the project holds what was loaded. It may be the shared file at the same time. The
local file is laid on top of it as it was laid on top of the file before. -/
theorem save_project (h : Layers t places c₁ c₂ c) (hc : Settled c)
    (hread : fileValue? c.toBytes = some c.toValue)
    (hsave : c.save t places.project false = .ok t') :
    ∃ c₁' c₃', Layers t' places c₁' c.readBack c₃' ∧ c₃'.toValue = c.toValue := by
  have hbeneath : Beneath c₁ c := (beneath_of_mergeFile h.project).trans
    (beneath_of_mergeFile h.localFile)
  have hsaved : t'.file? (ConfigPlaces.projectFile places.project false) = some c.toBytes := by
    rw [file?_save hsave, if_pos rfl]
  have hlocal : mergeFile t' c.readBack (ConfigPlaces.projectFile places.project true) =
      mergeFile t c.readBack (ConfigPlaces.projectFile places.project true) :=
    mergeFile_congr (by rw [file?_save hsave, if_neg (projectFile_ne_localFile places.project)])
  obtain ⟨c₁', hshared, hbeneath'⟩ : ∃ c₁',
      mergeFile t' {} (places.shared ++ [ConfigPlaces.fileName false]) = .ok c₁' ∧
        Beneath c₁' c := by
    -- The file may be laid on top twice. Once it has been, there is nothing else beneath it.
    by_cases hp : ConfigPlaces.projectFile places.project false =
        places.shared ++ [ConfigPlaces.fileName false]
    · rw [← hp]
      exact ⟨c.readBack, mergeFile_of_reads hc hread hsaved
        ((beneath_of_mergeFile h.shared).trans hbeneath), beneath_readBack c⟩
    · refine ⟨c₁, ?_, hbeneath⟩
      rw [← h.shared]
      exact mergeFile_congr (by rw [file?_save hsave, if_neg hp])
  obtain ⟨c₃', hc₃', hvalue⟩ := toValue_mergeFile_readBack h.settled h.localFile
  exact ⟨c₁', c₃',
    ⟨hshared, mergeFile_of_reads hc hread hsaved hbeneath', hlocal.trans hc₃'⟩, hvalue⟩

end Layers

/-- A configuration that was loaded can be saved unless something stands in the way, and it is
loaded again once it has been saved, up to parameters that count as false. It may be saved on top of
all other files of the project, or below a local file if no file was named explicitly. -/
theorem load_save (h : load t places = .ok c) :
    (∀ isLocal, (∃ t', c.save t places.project isLocal = .ok t') ↔
      t.file? (ConfigPlaces.directory places.project) = none ∧
        t.isDirectory (ConfigPlaces.projectFile places.project isLocal) = false) ∧
    (∀ t', c.save t places.project true = .ok t' →
      ∃ c', load t' { places with explicit := none } = .ok c' ∧ c'.toValue = c.toValue) ∧
    (places.explicit = none → ∀ t', c.save t places.project false = .ok t' →
      ∃ c', load t' { places with explicit := none } = .ok c' ∧ c'.toValue = c.toValue) := by
  have hc : Settled c := settled_default.foldlM h
  have hread := fileValue?_toBytes ((plain_load h).toValue hc.rules)
  obtain ⟨c₁, c₂, c₃, hlayers, hrest⟩ := exists_layers h
  refine ⟨fun _ => exists_save_iff, ?_, ?_⟩
  · intro t' hsave
    exact ⟨c.readBack, (hlayers.save_local hc (beneath_of_foldlM hrest) hread hsave).load_eq,
      toValue_readBack c⟩
  · intro hnone t' hsave
    rw [hnone] at hrest
    obtain rfl := Except.ok.inj hrest
    obtain ⟨c₁', c₃', hlayers', hvalue⟩ := hlayers.save_project hc hread hsave
    exact ⟨c₃', hlayers'.load_eq, hvalue⟩

/-- A project with a file of its own and a local file, both of which have settings of
single rules. -/
def twoFiles : FileTree where
  files := [
    (["work", ".debt", "debt.config.json"],
      Bytes.ofText "\x7b\"rules\": \x7b\"b\": \x7b\"enabled\": false\x7d\x7d\x7d".toList),
    (["work", ".debt", "debt.config.local.json"],
      Bytes.ofText
        "\x7b\"enabledCategories\": [\"c\"], \"rules\": \x7b\"a\": \x7b\x7d\x7d\x7d".toList)]

def besideHome : ConfigPlaces where
  shared := ["home"]
  project := ["work"]

theorem load_save_twoFiles : ∃ c, load twoFiles besideHome = .ok c ∧ ∀ isLocal,
    ∃ t' c', c.save twoFiles ["work"] isLocal = .ok t' ∧ load t' besideHome = .ok c' ∧
      c'.toValue = c.toValue := by
  obtain ⟨c, hload⟩ : ∃ c, load twoFiles besideHome = .ok c :=
    exists_of_isOk (by decide +kernel)
  obtain ⟨hsaves, hlocal, hproject⟩ := load_save hload
  refine ⟨c, hload, fun isLocal => ?_⟩
  have hdirectory : twoFiles.file? (ConfigPlaces.directory ["work"]) = none := by decide
  have hfile : twoFiles.isDirectory (ConfigPlaces.projectFile ["work"] isLocal) = false := by
    cases isLocal with
    | true => decide
    | false => decide
  obtain ⟨t', hsave⟩ := (hsaves isLocal).mpr ⟨hdirectory, hfile⟩
  cases isLocal with
  | true =>
    obtain ⟨c', h⟩ := hlocal t' hsave
    exact ⟨t', c', hsave, h⟩
  | false =>
    obtain ⟨c', h⟩ := hproject rfl t' hsave
    exact ⟨t', c', hsave, h⟩

end Project

end Config

end CodeHealth
