import Mathlib.Data.Set.Function
import Mathlib.Logic.Relation
import SparkPulse.Recipes.Collections
import SparkPulse.Recipes.Sweep

/-!
# Keeping local edits

What may become of the installed recipes: files are renamed to their slugs, what a file's record
does not say an installation wrote is left alone, and a recipe recorded as installed from a
collection of a registry gets only content that this collection of this registry has. The sweep of
the names does no more than that, unless a sidecar was left behind; writing recipes does no more as
long as it goes over stems whose files are as they were installed, and from the same place.
-/

namespace SparkPulse.Recipes

/-! ## Edited files -/

namespace Directory

variable (d : Directory)

/-- The mapping in the sidecar of a stem. -/
def mapping? (stem : Text) : Option Sidecar :=
  match d.sidecars.lookup stem with
  | some (.mapping m) => some m
  | _ => none

/-- What is recorded of the installation of a file. -/
def record (name : Text) : Option Sidecar := (sidecarStem name).bind d.mapping?

/-- A file holds this content, and its recorded installation did not write it. -/
def Edited (sha256 : Text → Text) (name content : Text) : Prop :=
  d.files.lookup name = some content ∧ ∀ m, d.record name = some m → ¬m.Wrote sha256 content

variable {d} {d' : Directory} {name : Text}

theorem record_congr
    (h : ∀ stem, sidecarStem name = some stem → d'.sidecars.lookup stem = d.sidecars.lookup stem) :
    d'.record name = d.record name := by
  rw [record, record]
  cases hstem : sidecarStem name with
  | none => rfl
  | some stem => rw [Option.bind_some, Option.bind_some, mapping?, mapping?, h stem hstem]

theorem mapping?_eq_some_iff {stem : Text} {m : Sidecar} :
    d.mapping? stem = some m ↔ d.sidecars.lookup stem = some (.mapping m) := by
  rw [mapping?]
  split
  · rename_i m' h
    rw [h, Option.some.injEq, Option.some.injEq, SidecarFile.mapping.injEq]
  · rename_i h
    exact ⟨fun hm ↦ (nomatch hm), fun hm ↦ (h m hm).elim⟩

theorem record_eq_some_iff {m : Sidecar} :
    d.record name = some m ↔
      ∃ stem, sidecarStem name = some stem ∧ d.sidecars.lookup stem = some (.mapping m) := by
  rw [record, Option.bind_eq_some_iff]
  exact exists_congr fun stem ↦ and_congr_right fun _ ↦ mapping?_eq_some_iff

end Directory

/-! ## What updates may do -/

/-- A name, or one it was given by the slug rule. -/
def Renamed : Text → Text → Prop :=
  Relation.ReflTransGen fun name name' ↦
    ∃ stem suffix, recipeName? name = some (stem, suffix) ∧ name' = recipeSlug stem ++ suffix

/-- A file of `d` under its name in `d'`: if its recorded installation did not write it, it still
holds what it held, and otherwise that or what its collection ships in its registry. -/
structure Survives (py : Python) (ships : Text → Text → Text → Prop) (d d' : Directory)
    (name name' : Text) : Prop where
  edited : ∀ content, d.Edited py.sha256 name content → d'.Edited py.sha256 name' content
  recorded : ∀ content m, d.files.lookup name = some content → d.record name = some m →
    ∃ content', d'.files.lookup name' = some content' ∧
      (content' = content ∨ ships m.source m.collection content') ∧
      (d'.Edited py.sha256 name' content' ∨
        ∃ m', d'.record name' = some m' ∧ m'.source = m.source ∧ m'.collection = m.collection)

/-- Every file of `d` survives in `d'`, under a name of its own. -/
def Kept (py : Python) (ships : Text → Text → Text → Prop) (d d' : Directory) : Prop :=
  ∃ moved : Text → Text, Set.InjOn moved {name | name ∈ d.files} ∧
    ∀ name ∈ d.files, Renamed name (moved name) ∧ Survives py ships d d' name (moved name)

section
variable {py : Python} {ships ships' : Text → Text → Text → Prop} {d d' d'' : Directory}
  {name name' name'' : Text}

theorem Survives.exists_content (h : Survives py ships d d' name name') (hname : name ∈ d.files) :
    name' ∈ d'.files := by
  obtain ⟨content, hcontent⟩ := Option.isSome_iff_exists.mp (AList.lookup_isSome.mpr hname)
  by_cases hedited : d.Edited py.sha256 name content
  · exact AList.lookup_isSome.mp (by rw [(h.edited content hedited).1]; rfl)
  · obtain ⟨m, hm⟩ : ∃ m, d.record name = some m := by
      by_contra hnone
      exact hedited ⟨hcontent, fun m hm ↦ (hnone ⟨m, hm⟩).elim⟩
    obtain ⟨content', hcontent', -⟩ := h.recorded content m hcontent hm
    exact AList.lookup_isSome.mp (by rw [hcontent']; rfl)

theorem Survives.trans (h : Survives py ships d d' name name')
    (h' : Survives py ships d' d'' name' name'') : Survives py ships d d'' name name'' where
  edited _ hedited := h'.edited _ (h.edited _ hedited)
  recorded content m hcontent hm := by
    obtain ⟨content', hcontent', hfrom, hedited | ⟨m', hm', hsource, hcollection⟩⟩ :=
      h.recorded content m hcontent hm
    · have hedited' := h'.edited content' hedited
      exact ⟨content', hedited'.1, hfrom, .inl hedited'⟩
    · obtain ⟨content'', hcontent'', hfrom', hkept⟩ := h'.recorded content' m' hcontent' hm'
      rw [hsource, hcollection] at hfrom' hkept
      refine ⟨content'', hcontent'', ?_, hkept⟩
      rcases hfrom' with rfl | hships
      · exact hfrom
      · exact .inr hships

theorem Survives.mono (hships : ∀ source collection content,
      ships source collection content → ships' source collection content)
    (h : Survives py ships d d' name name') : Survives py ships' d d' name name' where
  edited := h.edited
  recorded content m hcontent hm := by
    obtain ⟨content', hcontent', hfrom, hkept⟩ := h.recorded content m hcontent hm
    exact ⟨content', hcontent', hfrom.imp_right (hships _ _ _), hkept⟩

/-- A file survives when neither it nor its sidecar changes. -/
theorem Survives.of_same (hfile : d'.files.lookup name' = d.files.lookup name)
    (hrecord : d'.record name' = d.record name) : Survives py ships d d' name name' where
  edited _ hedited := ⟨hfile.trans hedited.1, fun m hm ↦ hedited.2 m (hrecord ▸ hm)⟩
  recorded content m hcontent hm :=
    ⟨content, hfile.trans hcontent, .inl rfl, .inr ⟨m, hrecord.trans hm, rfl, rfl⟩⟩

/-- A file survives when it does not change and is left without a record. -/
theorem Survives.of_forgotten (hfile : d'.files.lookup name' = d.files.lookup name)
    (hrecord : d'.record name' = none) : Survives py ships d d' name name' where
  edited _ hedited := ⟨hfile.trans hedited.1, by simp [hrecord]⟩
  recorded content m hcontent _ :=
    ⟨content, hfile.trans hcontent, .inl rfl, .inl ⟨hfile.trans hcontent, by simp [hrecord]⟩⟩

theorem Kept.refl : Kept py ships d d :=
  ⟨id, Set.injOn_id _, fun _ _ ↦ ⟨.refl, .of_same rfl rfl⟩⟩

theorem Kept.trans (h : Kept py ships d d') (h' : Kept py ships d' d'') : Kept py ships d d'' := by
  obtain ⟨moved, hinj, hmoved⟩ := h
  obtain ⟨moved', hinj', hmoved'⟩ := h'
  have hmaps : ∀ name ∈ d.files, moved name ∈ d'.files :=
    fun name hname ↦ (hmoved name hname).2.exists_content hname
  refine ⟨moved' ∘ moved, hinj'.comp hinj hmaps, fun name hname ↦ ?_⟩
  obtain ⟨hrenamed, hsurvives⟩ := hmoved name hname
  obtain ⟨hrenamed', hsurvives'⟩ := hmoved' (moved name) (hmaps name hname)
  exact ⟨hrenamed.trans hrenamed', hsurvives.trans hsurvives'⟩

theorem Kept.mono (hships : ∀ source collection content,
      ships source collection content → ships' source collection content)
    (h : Kept py ships d d') : Kept py ships' d d' := by
  obtain ⟨moved, hinj, hmoved⟩ := h
  exact ⟨moved, hinj, fun name hname ↦ ⟨(hmoved name hname).1, (hmoved name hname).2.mono hships⟩⟩

end

/-! ## The sweep -/

/-- No sidecar was left at a slug that records just what the file to be renamed to it holds. -/
def SweepsClean (py : Python) (d : Directory) : Prop :=
  ∀ r ∈ d.renames, ∀ m ∈ d.mapping? r.slug, ∀ content ∈ d.files.lookup r.file,
    ¬m.Wrote py.sha256 content

/-- `SweepsClean`, of one rename. -/
def MovesClean (py : Python) (d : Directory) (r : Rename) : Prop :=
  ∀ m ∈ d.mapping? r.slug, ∀ content ∈ d.files.lookup r.file, ¬m.Wrote py.sha256 content

section
variable {py : Python} {ships : Text → Text → Text → Prop} {d : Directory} {r r' : Rename}
  {name : Text}

/-- The renamed file survives: it takes its record along, or it has none that says it was not
edited. -/
theorem survives_file (h : d.Movable r) (hclean : MovesClean py d r) :
    Survives py ships d (d.applyRename r) r.file r.target := by
  have hfile : (d.applyRename r).files.lookup r.target = d.files.lookup r.file := by
    rw [h.lookup_applyRename, if_pos rfl]
  have hstem := sidecarStem_of_recipeName? h.file
  have hslug := sidecarStem_of_recipeName? h.target
  have hlookup := Directory.lookup_slug_applyRename (d := d) (r := r)
  cases hstray : d.sidecars.lookup r.slug with
  | some file =>
    rw [hstray, Option.some_or, Option.map_some] at hlookup
    obtain ⟨content, hcontent⟩ := Option.isSome_iff_exists.mp (AList.lookup_isSome.mpr h.present)
    have hedited : (d.applyRename r).Edited py.sha256 r.target content := by
      refine ⟨hfile.trans hcontent, fun m hm ↦ ?_⟩
      obtain ⟨stem, hs, hm⟩ := Directory.record_eq_some_iff.mp hm
      obtain rfl : r.slug = stem := Option.some.inj (hslug.symm.trans hs)
      rw [hlookup] at hm
      cases file with
      | mapping m' =>
        have hwrote := hclean m' (Directory.mapping?_eq_some_iff.mpr hstray) content hcontent
        rw [recordPreviousName, Option.some.injEq, SidecarFile.mapping.injEq] at hm
        subst hm
        split_ifs <;> exact hwrote
      | unreadable => cases hm
      | other => cases hm
    constructor
    · intro content' hcontent'
      obtain rfl : content = content' := Option.some.inj (hcontent.symm.trans hcontent'.1)
      exact hedited
    · intro content' m hcontent' _
      obtain rfl : content = content' := Option.some.inj (hcontent.symm.trans hcontent')
      exact ⟨content, hfile.trans hcontent, .inl rfl, .inl hedited⟩
  | none =>
    rw [hstray, Option.none_or] at hlookup
    -- The record moves along with the file, with one more name in it.
    have hrecord : ∀ m', (d.applyRename r).record r.target = some m' →
        ∃ m, d.record r.file = some m ∧ m'.digest = m.digest := by
      intro m' hm'
      obtain ⟨stem, hs, hm'⟩ := Directory.record_eq_some_iff.mp hm'
      obtain rfl : r.slug = stem := Option.some.inj (hslug.symm.trans hs)
      rw [hlookup] at hm'
      obtain ⟨file, hfile, hm'⟩ := Option.map_eq_some_iff.mp hm'
      cases file with
      | mapping m =>
        rw [recordPreviousName, SidecarFile.mapping.injEq] at hm'
        refine ⟨m, Directory.record_eq_some_iff.mpr ⟨r.stem, hstem, hfile⟩, ?_⟩
        rw [← hm']
        split_ifs <;> rfl
      | unreadable => cases hm'
      | other => cases hm'
    constructor
    · intro content hedited
      refine ⟨hfile.trans hedited.1, fun m' hm' ↦ ?_⟩
      obtain ⟨m, hm, hdigest⟩ := hrecord m' hm'
      have := hedited.2 m hm
      rwa [Sidecar.Wrote, Sidecar.hash, ← hdigest] at this
    · intro content m hcontent hm
      obtain ⟨stem, hs, hm⟩ := Directory.record_eq_some_iff.mp hm
      obtain rfl : r.stem = stem := Option.some.inj (hstem.symm.trans hs)
      rw [hm, Option.map_some, recordPreviousName] at hlookup
      have hm' := Directory.record_eq_some_iff.mpr ⟨r.slug, hslug, hlookup⟩
      refine ⟨content, hfile.trans hcontent, .inl rfl, .inr ⟨_, hm', ?_⟩⟩
      split_ifs <;> exact ⟨rfl, rfl⟩

/-- Every other file survives: at most it loses a record that it shared with the renamed file. -/
theorem survives_other (h : d.Movable r) (hname : name ∈ d.files) (hne : name ≠ r.file) :
    Survives py ships d (d.applyRename r) name name := by
  have htarget : name ≠ r.target := fun heq ↦ h.target_not_mem (heq ▸ hname)
  have hfile : (d.applyRename r).files.lookup name = d.files.lookup name := by
    rw [h.lookup_applyRename, if_neg htarget, if_neg hne]
  have hslug := h.sidecarStem_ne_slug hname
  by_cases hstem : sidecarStem name = some r.stem
  · rcases d.lookup_stem_applyRename h.slug_ne_stem with hnone | hsame
    · refine .of_forgotten hfile ?_
      rw [Directory.record, hstem, Option.bind_some, Directory.mapping?, hnone]
    · refine .of_same hfile (Directory.record_congr fun stem hs ↦ ?_)
      obtain rfl : r.stem = stem := Option.some.inj (hstem.symm.trans hs)
      exact hsame
  · refine .of_same hfile (Directory.record_congr fun stem hs ↦ ?_)
    exact Directory.lookup_sidecars_applyRename (fun heq ↦ hstem (heq ▸ hs))
      fun heq ↦ hslug (heq ▸ hs)

theorem kept_applyRename (h : d.Movable r) (hclean : MovesClean py d r) :
    Kept py ships d (d.applyRename r) := by
  refine ⟨fun name ↦ if name = r.file then r.target else name, ?_, fun name hname ↦ ?_⟩
  · intro name hname name' hname' heq
    simp only at heq
    split_ifs at heq with hfile hfile' hfile'
    · rw [hfile, hfile']
    · exact (h.target_not_mem (heq ▸ hname')).elim
    · exact (h.target_not_mem (heq ▸ hname)).elim
    · exact heq
  · simp only
    split_ifs with hfile
    · rw [hfile]
      refine ⟨.single ⟨r.stem, r.suffix, h.file, ?_⟩, survives_file h hclean⟩
      rw [← h.slug]
      rfl
    · exact ⟨.refl, survives_other h hname hfile⟩

/-- A rename leaves no record where another one of the sweep goes. -/
theorem MovesClean.applyRename (hclean : MovesClean py d r') (h : d.Movable r) (h' : d.Movable r')
    (hne : r.slug ≠ r'.slug ∧ r.stem ≠ r'.stem) : MovesClean py (d.applyRename r) r' := by
  have hstem : r'.slug ≠ r.stem := fun heq ↦ h'.free (by rw [heq]; exact h.stem_mem)
  intro m hm content hcontent
  refine hclean m ?_ content ((h.lookup_file_applyRename h' hne).symm.trans hcontent)
  rw [Option.mem_def, Directory.mapping?_eq_some_iff] at hm ⊢
  rwa [Directory.lookup_sidecars_applyRename hstem hne.1.symm] at hm

/-- A sweep keeps every file. -/
theorem kept_foldl_applyRename {rs : List Rename}
    (hrs : ∀ r ∈ rs, d.Movable r ∧ MovesClean py d r)
    (hpairwise : rs.Pairwise fun r r' ↦ r.slug ≠ r'.slug ∧ r.stem ≠ r'.stem) :
    Kept py ships d (rs.foldl Directory.applyRename d) := by
  induction rs generalizing d with
  | nil => exact .refl
  | cons r rs ih =>
    obtain ⟨hne, hpairwise⟩ := List.pairwise_cons.mp hpairwise
    obtain ⟨hmovable, hclean⟩ := hrs r List.mem_cons_self
    refine (kept_applyRename hmovable hclean).trans (ih (fun r' hr' ↦ ?_) hpairwise)
    obtain ⟨hmovable', hclean'⟩ := hrs r' (List.mem_cons_of_mem _ hr')
    exact ⟨hmovable.applyRename hmovable' (hne r' hr'),
      hclean'.applyRename hmovable hmovable' (hne r' hr')⟩

theorem kept_normalize (h : SweepsClean py d) : Kept py ships d d.normalize :=
  kept_foldl_applyRename (fun r hr ↦ ⟨Directory.movable_of_mem_renames hr, h r hr⟩)
    Directory.pairwise_renames

end

/-! ## Writing recipes -/

/-- Every recipe file with this stem is recorded as installed from the collection of the registry,
and is as it was installed. -/
def StemClean (py : Python) (d : Directory) (source collection stem : Text) : Prop :=
  ∀ name ∈ d.files.keys, sidecarStem name = some stem →
    ∃ m ∈ d.record name, (m.source = source ∧ m.collection = collection) ∧
      ∃ content ∈ d.files.lookup name, m.Wrote py.sha256 content

/-- From `d` on, recipes of a collection were written over clean stems only. -/
structure Written (py : Python) (source collection : Text) (shipped : Text → Prop)
    (d d' : Directory) : Prop where
  clean : ∀ stem name content, StemClean py d source collection stem →
    sidecarStem name = some stem → d.files.lookup name = some content →
    (∃ content', d'.files.lookup name = some content' ∧ (content' = content ∨ shipped content')) ∧
      ∃ m, d'.sidecars.lookup stem = some (.mapping m) ∧ m.source = source ∧
        m.collection = collection
  files : ∀ name, (∀ stem, sidecarStem name = some stem → ¬StemClean py d source collection stem) →
    d'.files.lookup name = d.files.lookup name
  sidecars : ∀ stem, ¬StemClean py d source collection stem →
    d'.sidecars.lookup stem = d.sidecars.lookup stem

section
variable {py : Python} {env : Env} {reg : Registry} {d d' : Directory} {shipped : Text → Prop}
  {source collection version displayName : Text} {r : PulledRecipe}

/-- The file is written, whatever was there. -/
theorem lookup_files_writeRecipe (name : Text) :
    (writeRecipe env reg collection version displayName r d).1.files.lookup name =
      if name = installedFilename r.filename then some r.content else d.files.lookup name := by
  have hfiles : (writeRecipe env reg collection version displayName r d).1.files =
      d.files.insert (installedFilename r.filename) r.content := by
    rw [writeRecipe, writeRecipeMeta]
    split <;> rfl
  rw [hfiles]
  split_ifs with hname
  · rw [hname, AList.lookup_insert]
  · rw [AList.lookup_insert_ne hname]

/-- The sidecar named for the file is written, unless there is one that cannot be updated. -/
theorem lookup_sidecars_writeRecipe :
    (∃ m, (writeRecipe env reg collection version displayName r d).1.sidecars =
        d.sidecars.insert (installedName r.filename) (.mapping m) ∧
      m.source = reg.name ∧ m.collection = collection) ∨
    ((writeRecipe env reg collection version displayName r d).1.sidecars = d.sidecars ∧
      ∃ type, d.sidecars.lookup (installedName r.filename) = some (.other type)) := by
  have hmem : installedFilename r.filename ∈
      d.files.insert (installedFilename r.filename) r.content :=
    AList.lookup_isSome.mp (by rw [AList.lookup_insert]; rfl)
  have hstem := Directory.installedStem_installedFilename (d :=
    { d with files := d.files.insert (installedFilename r.filename) r.content }) hmem
  rw [writeRecipe, writeRecipeMeta, hstem]
  split
  · exact .inl ⟨_, rfl, rfl, rfl⟩
  · exact .inl ⟨_, rfl, rfl, rfl⟩
  · rename_i type htype
    exact .inr ⟨rfl, type, htype⟩
  · exact .inl ⟨_, rfl, rfl, rfl⟩

theorem Written.refl (d : Directory) : Written py source collection shipped d d where
  clean stem name content hclean hstem hcontent := by
    obtain ⟨m, hm, ⟨hsource, hcollection⟩, -⟩ :=
      hclean name (AList.mem_keys.mp (AList.lookup_isSome.mp (by rw [hcontent]; rfl))) hstem
    obtain ⟨stem', hstem', hm⟩ := Directory.record_eq_some_iff.mp hm
    obtain rfl : stem = stem' := Option.some.inj (hstem.symm.trans hstem')
    exact ⟨⟨content, hcontent, .inl rfl⟩, m, hm, hsource, hcollection⟩
  files _ _ := rfl
  sidecars _ _ := rfl

theorem Written.writeRecipe (env : Env) (version displayName : Text)
    (h : Written py reg.name collection shipped d d')
    (hclean : StemClean py d reg.name collection (installedName r.filename))
    (hshipped : shipped r.content) :
    Written py reg.name collection shipped d
      (writeRecipe env reg collection version displayName r d').1 where
  clean stem name content hstemClean hstem hcontent := by
    obtain ⟨⟨content', hcontent', hfrom⟩, m, hm, hfields⟩ :=
      h.clean stem name content hstemClean hstem hcontent
    constructor
    · rw [lookup_files_writeRecipe]
      split_ifs
      · exact ⟨r.content, rfl, .inr hshipped⟩
      · exact ⟨content', hcontent', hfrom⟩
    · rcases @lookup_sidecars_writeRecipe env reg d' collection version displayName r with
        ⟨m', hm', hfields'⟩ | ⟨hsame, type, htype⟩
      · rw [hm']
        by_cases heq : stem = installedName r.filename
        · exact ⟨m', by rw [heq, AList.lookup_insert], hfields'⟩
        · exact ⟨m, by rw [AList.lookup_insert_ne heq, hm], hfields⟩
      · exact ⟨m, by rw [hsame, hm], hfields⟩
  files name hname := by
    rw [lookup_files_writeRecipe, if_neg, h.files name hname]
    rintro rfl
    exact hname _ sidecarStem_installedFilename hclean
  sidecars stem hstem := by
    have hne : stem ≠ installedName r.filename := fun heq ↦ hstem (heq ▸ hclean)
    rcases @lookup_sidecars_writeRecipe env reg d' collection version displayName r with
      ⟨m, hm, -⟩ | ⟨hsame, -⟩
    · rw [hm, AList.lookup_insert_ne hne, h.sidecars stem hstem]
    · rw [hsame, h.sidecars stem hstem]

/-- Writing over clean stems keeps every file. -/
theorem Written.kept {ships : Text → Text → Text → Prop}
    (h : Written py source collection shipped d d')
    (hships : ∀ content, shipped content → ships source collection content) :
    Kept py ships d d' := by
  refine ⟨id, Set.injOn_id _, fun name hname ↦ ⟨.refl, ?_⟩⟩
  by_cases hclean :
      ∃ stem, sidecarStem name = some stem ∧ StemClean py d source collection stem
  · obtain ⟨stem, hstem, hclean⟩ := hclean
    obtain ⟨m, hm, ⟨rfl, rfl⟩, content, hcontent, hwrote⟩ :=
      hclean name (AList.mem_keys.mp hname) hstem
    constructor
    · intro content' hedited
      obtain rfl : content = content' := Option.some.inj (hcontent.symm.trans hedited.1)
      exact (hedited.2 m hm hwrote).elim
    · intro content' m₀ hcontent' hm₀
      obtain rfl : m = m₀ := Option.some.inj (hm.symm.trans hm₀)
      obtain ⟨⟨content'', hcontent'', hfrom⟩, m', hm', hfields⟩ :=
        h.clean stem name content' hclean hstem hcontent'
      exact ⟨content'', hcontent'', hfrom.imp_right (hships _),
        .inr ⟨m', Directory.record_eq_some_iff.mpr ⟨stem, hstem, hm'⟩, hfields⟩⟩
  · have hunclean : ∀ stem, sidecarStem name = some stem →
        ¬StemClean py d source collection stem :=
      fun stem hstem hclean' ↦ hclean ⟨stem, hstem, hclean'⟩
    exact .of_same (h.files name hunclean)
      (Directory.record_congr fun stem hstem ↦ h.sidecars stem (hunclean stem hstem))

/-- The loop of an install, over recipes whose stems are all clean. -/
theorem written_installRecipes (env : Env) (version : Text) {recipes : List PulledRecipe}
    (h : Written py reg.name collection shipped d d')
    (hclean : ∀ r ∈ recipes, StemClean py d reg.name collection (installedName r.filename))
    (hshipped : ∀ r ∈ recipes, shipped r.content) :
    Written py reg.name collection shipped d
      (installRecipes py env reg collection version recipes d').1 := by
  induction recipes generalizing d' with
  | nil => exact h
  | cons r recipes ih =>
    have hwrite := h.writeRecipe env version (declaredName py r.content)
      (hclean r List.mem_cons_self) (hshipped r List.mem_cons_self)
    rw [installRecipes]
    split
    · rename_i d₁ e heq
      rw [heq] at hwrite
      exact hwrite
    · rename_i d₁ heq
      rw [heq] at hwrite
      exact ih hwrite (fun r hr ↦ hclean r (List.mem_cons_of_mem _ hr))
        fun r hr ↦ hshipped r (List.mem_cons_of_mem _ hr)

theorem mem_of_findInLayout {recipes : List PulledRecipe} {recipeName : Text}
    (h : findInLayout py recipes recipeName = some r) : r ∈ recipes := by
  simp only [findInLayout] at h
  split_ifs at h
  cases hfirst : recipes.find? fun r ↦ recipeSlug r.filename = recipeSlug recipeName with
  | some r' =>
    rw [hfirst] at h
    obtain rfl : r' = r := Option.some.inj h
    exact List.mem_of_find?_eq_some hfirst
  | none =>
    rw [hfirst] at h
    exact List.mem_of_find?_eq_some h

/-- What one recipe of the loop can do: nothing, or write the recipe, over a file of other content
only when its record says that it is not edited. -/
theorem applyRecipe_cases {pulled : List PulledRecipe} {recipeName : Text}
    (hfind : findInLayout py pulled recipeName = some r) :
    (applyRecipe py env reg collection version pulled false recipeName d).1 = d ∨
      (∃ displayName, (applyRecipe py env reg collection version pulled false recipeName d).1 =
        (writeRecipe env reg collection version displayName r d).1) ∧
      ∀ content, d.files.lookup (installedFilename r.filename) = some content →
        content ≠ r.content ∧ ∃ found,
          readRecipeMeta py d (installedFilename r.filename) = .ok (some found) ∧
            found.localChanges = false := by
  simp only [applyRecipe, hfind]
  generalize (if declaredName py r.content = [] then recipeName else declaredName py r.content) =
    displayName
  cases hlookup : d.files.lookup (installedFilename r.filename) with
  | none => exact .inr ⟨⟨displayName, rfl⟩, fun _ h ↦ (nomatch h)⟩
  | some content =>
    simp only
    split_ifs with hsame
    · exact .inl rfl
    · split
      · exact .inl rfl
      · rename_i found hfound
        split_ifs with hskip
        · exact .inl rfl
        · refine .inr ⟨⟨displayName, rfl⟩, fun content' h ↦ ?_⟩
          obtain rfl : content = content' := Option.some.inj h
          cases found with
          | none => exact (hskip (by simp)).elim
          | some found => exact ⟨hsame, found, hfound, by simpa using hskip⟩

/-- What is already at the name of a recipe that is to be applied: clean files, or an edited one that
is found by its name, or just what the recipe holds. -/
def RecipeAllowed (py : Python) (d : Directory) (source collection : Text) (r : PulledRecipe) :
    Prop :=
  StemClean py d source collection (installedName r.filename) ∨
    (∃ content, d.Edited py.sha256 (installedFilename r.filename) content) ∧
      d.recipePath (installedFilename r.filename) = installedFilename r.filename ∨
    d.files.lookup (installedFilename r.filename) = some r.content

theorem recipePath_installedFilename {filename : Text} (h : installedFilename filename ∈ d.files) :
    d.recipePath (installedFilename filename) =
      if installedName filename ++ yaml ∈ d.files then installedName filename ++ yaml
      else if installedName filename ++ yml ∈ d.files then installedName filename ++ yml
      else installedName filename ++ yaml := by
  rw [Directory.recipePath, Directory.installedStem_installedFilename h]

/-- A recipe that does not go over a clean stem is not written. -/
theorem Written.applyRecipe_eq {pulled : List PulledRecipe} {recipeName : Text}
    (h : Written py reg.name collection shipped d d')
    (hfind : findInLayout py pulled recipeName = some r)
    (hallowed : RecipeAllowed py d reg.name collection r)
    (hclean : ¬StemClean py d reg.name collection (installedName r.filename)) :
    (applyRecipe py env reg collection version pulled false recipeName d').1 = d' := by
  have hfile : ∀ name, sidecarStem name = some (installedName r.filename) →
      d'.files.lookup name = d.files.lookup name := by
    refine fun name hname ↦ h.files name fun stem hstem ↦ ?_
    obtain rfl : installedName r.filename = stem := Option.some.inj (hname.symm.trans hstem)
    exact hclean
  have hsidecar := h.sidecars _ hclean
  have hmem : ∀ name, sidecarStem name = some (installedName r.filename) →
      (name ∈ d'.files ↔ name ∈ d.files) := by
    intro name hname
    rw [← AList.lookup_isSome, ← AList.lookup_isSome, hfile name hname]
  rcases hallowed with hallowed | ⟨⟨content, hcontent, hedited⟩, hpath⟩ | hsame
  · exact (hclean hallowed).elim
  · have hcontent' := (hfile _ sidecarStem_installedFilename).trans hcontent
    have hdest : installedFilename r.filename ∈ d.files :=
      AList.lookup_isSome.mp (by rw [hcontent]; rfl)
    have hdest' := (hmem _ sidecarStem_installedFilename).mpr hdest
    -- The content that the digest is compared with is that of this file.
    have hpath' : d'.recipePath (installedFilename r.filename) = installedFilename r.filename := by
      rw [recipePath_installedFilename hdest] at hpath
      rw [recipePath_installedFilename hdest']
      have hyaml := hmem (installedName r.filename ++ yaml)
        (by rw [sidecarStem, removeSuffix?_append]; rfl)
      have hyml := hmem (installedName r.filename ++ yml)
        (by rw [sidecarStem, removeSuffix?_yaml_append_yml, removeSuffix?_append]; rfl)
      simp only [hyaml, hyml]
      exact hpath
    refine (applyRecipe_cases hfind).resolve_right fun hcase ↦ ?_
    obtain ⟨-, hwrites⟩ := hcase
    obtain ⟨-, found, hfound, hunedited⟩ := hwrites content hcontent'
    rw [readRecipeMeta, Directory.installedStem_installedFilename hdest', hsidecar, hpath',
      hcontent'] at hfound
    cases hstem : d.sidecars.lookup (installedName r.filename) with
    | none => simp [hstem] at hfound
    | some file =>
      cases file with
      | unreadable => simp [hstem] at hfound
      | other type => simp [hstem] at hfound
      | mapping m =>
        have hrecord := Directory.record_eq_some_iff.mpr ⟨_, sidecarStem_installedFilename, hstem⟩
        simp only [hstem, Except.ok.injEq, Option.some.injEq] at hfound
        rw [← hfound] at hunedited
        simp [hedited m hrecord] at hunedited
  · have hcontent' := (hfile _ sidecarStem_installedFilename).trans hsame
    refine (applyRecipe_cases hfind).resolve_right fun hcase ↦ ?_
    obtain ⟨-, hwrites⟩ := hcase
    exact (hwrites r.content hcontent').1 rfl

/-- One recipe of the loop. -/
theorem Written.applyRecipe {pulled : List PulledRecipe} {recipeName : Text}
    (h : Written py reg.name collection shipped d d')
    (hallowed : ∀ r, findInLayout py pulled recipeName = some r →
      RecipeAllowed py d reg.name collection r)
    (hshipped : ∀ r ∈ pulled, shipped r.content) :
    Written py reg.name collection shipped d
      (applyRecipe py env reg collection version pulled false recipeName d').1 := by
  cases hfind : findInLayout py pulled recipeName with
  | none =>
    simp only [SparkPulse.Recipes.applyRecipe, hfind]
    exact h
  | some r =>
    by_cases hclean : StemClean py d reg.name collection (installedName r.filename)
    · rcases applyRecipe_cases (d := d') hfind with hnothing | ⟨⟨displayName, hwrites⟩, -⟩
      · rw [hnothing]
        exact h
      · rw [hwrites]
        exact h.writeRecipe env version displayName hclean (hshipped r (mem_of_findInLayout hfind))
    · rw [h.applyRecipe_eq hfind (hallowed r hfind) hclean]
      exact h

end

end SparkPulse.Recipes
