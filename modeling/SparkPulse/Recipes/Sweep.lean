import SparkPulse.Recipes.Directory

/-!
# The sweep of the names

What `normalize_installed_recipe_names` does. Each rename moves a recipe file whose stem is not a
slug to the slug, which no recipe file has, and takes its sidecar along unless one was left there.
The renames of one sweep do not get into each other's way, so the sweep does them all.
-/

namespace SparkPulse.Recipes

/-! ## The decisions -/

section
variable {es : List (Text × Text)} {onDisk : List Text} {r : Rename}

theorem of_mem_renamesOf (h : r ∈ renamesOf es onDisk) :
    (r.stem, r.suffix) ∈ es ∧ r.slug = recipeSlug r.stem ∧ r.slug ≠ [] ∧ r.slug ≠ r.stem ∧
      r.slug ∉ onDisk := by
  induction es generalizing onDisk with
  | nil => cases h
  | cons e es ih =>
    obtain ⟨stem, suffix⟩ := e
    rw [renamesOf] at h
    split_ifs at h with hskip
    · exact ⟨List.mem_cons_of_mem _ (ih h).1, (ih h).2⟩
    · rcases List.mem_cons.mp h with rfl | h
      · obtain ⟨hne, hslug⟩ := not_or.mp hskip
        exact ⟨List.mem_cons_self, rfl, hne, not_or.mp hslug⟩
      · obtain ⟨hmem, hslug, hne, hstem, hfree⟩ := ih h
        exact ⟨List.mem_cons_of_mem _ hmem, hslug, hne, hstem,
          fun hdisk ↦ hfree (List.mem_cons_of_mem _ hdisk)⟩

/-- A stem that is not renamed has no slug, is its slug, or finds it taken. -/
theorem of_not_renamed {e : Text × Text} (he : e ∈ es)
    (h : ∀ r ∈ renamesOf es onDisk, r.stem ≠ e.1) :
    recipeSlug e.1 = [] ∨ recipeSlug e.1 = e.1 ∨ recipeSlug e.1 ∈ onDisk ∨
      ∃ r ∈ renamesOf es onDisk, r.slug = recipeSlug e.1 := by
  induction es generalizing onDisk with
  | nil => cases he
  | cons a es ih =>
    obtain ⟨stem, suffix⟩ := a
    by_cases hskip : recipeSlug stem = [] ∨ recipeSlug stem = stem ∨ recipeSlug stem ∈ onDisk
    · rw [renamesOf, if_pos hskip] at h ⊢
      rcases List.mem_cons.mp he with rfl | he
      · exact hskip.imp_right fun h ↦ h.imp_right .inl
      · exact ih he h
    · rw [renamesOf, if_neg hskip] at h ⊢
      rcases List.mem_cons.mp he with rfl | he
      · exact (h _ List.mem_cons_self rfl).elim
      · rcases ih he fun r hr ↦ h r (List.mem_cons_of_mem _ hr) with hnil | hself | htaken | hslug
        · exact .inl hnil
        · exact .inr (.inl hself)
        · rcases List.mem_cons.mp htaken with heq | hdisk
          · exact .inr (.inr (.inr ⟨_, List.mem_cons_self, heq.symm⟩))
          · exact .inr (.inr (.inl hdisk))
        · obtain ⟨r, hr, hslug⟩ := hslug
          exact .inr (.inr (.inr ⟨r, List.mem_cons_of_mem _ hr, hslug⟩))

/-- Where no stem can be renamed there are no renames. -/
theorem renamesOf_eq_nil
    (h : ∀ e ∈ es, recipeSlug e.1 = [] ∨ recipeSlug e.1 = e.1 ∨ recipeSlug e.1 ∈ onDisk) :
    renamesOf es onDisk = [] := by
  induction es with
  | nil => rfl
  | cons e es ih =>
    obtain ⟨stem, suffix⟩ := e
    rw [renamesOf, if_pos (h _ List.mem_cons_self)]
    exact ih fun e he ↦ h e (List.mem_cons_of_mem _ he)

/-- No two renames take one slug, or move one stem. -/
theorem pairwise_renamesOf (hes : (es.map Prod.fst).Nodup) :
    (renamesOf es onDisk).Pairwise fun r r' ↦ r.slug ≠ r'.slug ∧ r.stem ≠ r'.stem := by
  induction es generalizing onDisk with
  | nil => exact List.Pairwise.nil
  | cons e es ih =>
    obtain ⟨stem, suffix⟩ := e
    obtain ⟨hnew, hes⟩ := List.nodup_cons.mp hes
    rw [renamesOf]
    split_ifs
    · exact ih hes
    · refine List.pairwise_cons.mpr ⟨fun r hr ↦ ?_, ih hes⟩
      obtain ⟨hmem, -, -, -, hfree⟩ := of_mem_renamesOf hr
      constructor
      · exact fun h ↦ hfree (h ▸ List.mem_cons_self)
      · exact fun h ↦ hnew (List.mem_map.mpr ⟨_, hmem, h.symm⟩)

end

namespace Directory

variable {d : Directory} {r : Rename} {name : Text}

/-- What makes a rename possible: a recipe file, and a slug that no recipe file has. -/
structure Movable (d : Directory) (r : Rename) : Prop where
  file : recipeName? r.file = some (r.stem, r.suffix)
  target : recipeName? r.target = some (r.slug, r.suffix)
  slug : r.slug = recipeSlug r.stem
  free : r.slug ∉ d.stems
  present : r.file ∈ d.files

theorem movable_of_mem_renames (h : r ∈ d.renames) : d.Movable r := by
  obtain ⟨hmem, hslug, hne, -, hfree⟩ := of_mem_renamesOf h
  obtain ⟨hfile, hname⟩ := file_of_mem_installedStems ((List.mem_insertionSort _).mp hmem)
  refine ⟨hname, ?_, hslug, hfree, hfile⟩
  refine recipeName?_eq_some_iff.mpr ⟨rfl, (recipeName?_eq_some_iff.mp hname).2.1, hne, ?_⟩
  rw [hslug]
  exact head?_slugOf_ne_dot

theorem pairwise_renames :
    d.renames.Pairwise fun r r' ↦ r.slug ≠ r'.slug ∧ r.stem ≠ r'.stem := by
  refine pairwise_renamesOf ?_
  have hperm := (List.perm_insertionSort (fun a b : Text × Text ↦ a.1 ≤ b.1) d.installedStems)
  exact (hperm.map Prod.fst).nodup_iff.mpr (nodup_firstOfEach _)

/-- What a move leaves under a name. -/
theorem lookup_moveFile {content : Text} (hfile : d.files.lookup r.file = some content) :
    (d.moveFile r).lookup name =
      if name = r.target then some content
      else if name = r.file then none else d.files.lookup name := by
  rw [moveFile, hfile]
  split_ifs with htarget hname
  · rw [htarget, AList.lookup_insert]
  · rw [AList.lookup_insert_ne htarget, hname, AList.lookup_erase]
  · rw [AList.lookup_insert_ne htarget, AList.lookup_erase_ne hname]

/-- The sidecars of other stems stay as they are. -/
theorem lookup_sidecars_applyRename {stem : Text} (hstem : stem ≠ r.stem) (hslug : stem ≠ r.slug) :
    (d.applyRename r).sidecars.lookup stem = d.sidecars.lookup stem := by
  have hmove : (d.moveSidecar r).lookup stem = d.sidecars.lookup stem := by
    rw [moveSidecar]
    split
    · split_ifs
      · rfl
      · rw [AList.lookup_insert_ne hslug, AList.lookup_erase_ne hstem]
    · rfl
  simp only [applyRename]
  split
  · rw [AList.lookup_insert_ne hslug, hmove]
  · exact hmove

/-- The sidecar of the stem moves away or stays as it is. -/
theorem lookup_stem_applyRename (hne : r.slug ≠ r.stem) :
    (d.applyRename r).sidecars.lookup r.stem = none ∨
      (d.applyRename r).sidecars.lookup r.stem = d.sidecars.lookup r.stem := by
  have hinsert : (d.applyRename r).sidecars.lookup r.stem = (d.moveSidecar r).lookup r.stem := by
    simp only [applyRename]
    split
    · rw [AList.lookup_insert_ne hne.symm]
    · rfl
  rw [hinsert, moveSidecar]
  split
  · split_ifs
    · exact .inr rfl
    · rw [AList.lookup_insert_ne hne.symm, AList.lookup_erase]
      exact .inl rfl
  · exact .inr rfl

/-- A file that is renamed has its own sidecar afterwards, unless another was left at the slug. -/
theorem lookup_slug_applyRename :
    (d.applyRename r).sidecars.lookup r.slug =
      ((d.sidecars.lookup r.slug).or (d.sidecars.lookup r.stem)).map
        (recordPreviousName r.stem) := by
  have hmove : (d.moveSidecar r).lookup r.slug =
      (d.sidecars.lookup r.slug).or (d.sidecars.lookup r.stem) := by
    rw [moveSidecar]
    cases hstem : d.sidecars.lookup r.stem with
    | none => rw [Option.or_none]
    | some file =>
      cases hslug : d.sidecars.lookup r.slug with
      | some file' =>
        have hmem : r.slug ∈ d.sidecars := AList.lookup_isSome.mp (by rw [hslug]; rfl)
        rw [Option.some_or]
        simp only [if_pos hmem, hslug]
      | none =>
        have hmem : r.slug ∉ d.sidecars := AList.lookup_eq_none.mp hslug
        rw [Option.none_or]
        simp only [if_neg hmem, AList.lookup_insert]
  simp only [applyRename]
  rw [hmove]
  split <;> rename_i h
  · rw [h, AList.lookup_insert]
    rfl
  · rw [hmove, h]
    rfl

/-! ## The moves -/

namespace Movable

variable {r' : Rename}

theorem stem_mem (h : d.Movable r) : r.stem ∈ d.stems := mem_stems h.present h.file

theorem slug_ne_stem (h : d.Movable r) : r.slug ≠ r.stem := fun heq ↦ h.free (heq ▸ h.stem_mem)

theorem target_not_mem (h : d.Movable r) : r.target ∉ d.files :=
  fun hmem ↦ h.free (mem_stems hmem h.target)

/-- No file has the sidecar that the renamed file gets. -/
theorem sidecarStem_ne_slug (h : d.Movable r) (hname : name ∈ d.files) :
    sidecarStem name ≠ some r.slug := by
  intro hstem
  obtain ⟨extension, hext, rfl⟩ := exists_extension_of_sidecarStem hstem
  obtain ⟨-, -, hne, hdot⟩ := recipeName?_eq_some_iff.mp h.target
  exact h.free (mem_stems hname (recipeName?_eq_some_iff.mpr ⟨rfl, hext, hne, hdot⟩))

/-- What a rename leaves under a name. -/
theorem lookup_applyRename (h : d.Movable r) :
    (d.applyRename r).files.lookup name =
      if name = r.target then d.files.lookup r.file
      else if name = r.file then none else d.files.lookup name := by
  obtain ⟨content, hcontent⟩ := Option.isSome_iff_exists.mp (AList.lookup_isSome.mpr h.present)
  rw [hcontent]
  exact lookup_moveFile hcontent

/-- One rename leaves the file of another where it is. -/
theorem lookup_file_applyRename (h : d.Movable r) (h' : d.Movable r')
    (hne : r.slug ≠ r'.slug ∧ r.stem ≠ r'.stem) :
    (d.applyRename r).files.lookup r'.file = d.files.lookup r'.file := by
  have hfile : r'.file ≠ r.file := by
    intro heq
    have := h'.file
    rw [heq, h.file, Option.some.injEq, Prod.mk.injEq] at this
    exact hne.2 this.1
  have htarget : r'.file ≠ r.target := fun heq ↦ h.target_not_mem (heq ▸ h'.present)
  rw [h.lookup_applyRename, if_neg htarget, if_neg hfile]

/-- One rename leaves the others of the sweep possible. -/
theorem applyRename (h : d.Movable r) (h' : d.Movable r')
    (hne : r.slug ≠ r'.slug ∧ r.stem ≠ r'.stem) : (d.applyRename r).Movable r' := by
  refine ⟨h'.file, h'.target, h'.slug, fun hmem ↦ ?_, ?_⟩
  · obtain ⟨suffix, hmem, hname⟩ := exists_file_of_mem_stems hmem
    obtain ⟨content, hcontent⟩ := Option.isSome_iff_exists.mp (AList.lookup_isSome.mpr hmem)
    rw [h.lookup_applyRename] at hcontent
    split_ifs at hcontent with heq
    · rw [heq, h.target, Option.some.injEq, Prod.mk.injEq] at hname
      exact hne.1 hname.1
    · refine h'.free (mem_stems ?_ hname)
      exact AList.lookup_isSome.mp (by rw [hcontent]; rfl)
  · rw [← AList.lookup_isSome, h.lookup_file_applyRename h' hne, AList.lookup_isSome]
    exact h'.present

end Movable

section
variable {rs : List Rename}

/-- After several renames each file is at its target, and nothing where it was. -/
theorem lookup_foldl_applyRename (hrs : ∀ r ∈ rs, d.Movable r)
    (hpairwise : rs.Pairwise fun r r' ↦ r.slug ≠ r'.slug ∧ r.stem ≠ r'.stem) :
    (∀ r ∈ rs, (rs.foldl applyRename d).files.lookup r.target = d.files.lookup r.file ∧
      (rs.foldl applyRename d).files.lookup r.file = none) ∧
    ∀ name, (∀ r ∈ rs, name ≠ r.file ∧ name ≠ r.target) →
      (rs.foldl applyRename d).files.lookup name = d.files.lookup name := by
  induction rs generalizing d with
  | nil => exact ⟨fun r hr ↦ (nomatch hr), fun _ _ ↦ rfl⟩
  | cons r rs ih =>
    obtain ⟨hne, hpairwise⟩ := List.pairwise_cons.mp hpairwise
    have hr := hrs r List.mem_cons_self
    have hrs' : ∀ r' ∈ rs, d.Movable r' := fun r' hr' ↦ hrs r' (List.mem_cons_of_mem _ hr')
    obtain ⟨hmoved, hother⟩ :=
      ih (fun r' hr' ↦ hr.applyRename (hrs' r' hr') (hne r' hr')) hpairwise
    -- Where this rename leads from and to, the others do not come.
    have htarget : ∀ r' ∈ rs, r.target ≠ r'.file ∧ r.target ≠ r'.target := by
      refine fun r' hr' ↦ ⟨fun heq ↦ hr.target_not_mem (heq ▸ (hrs' r' hr').present), fun heq ↦ ?_⟩
      have hname := hr.target
      rw [heq, (hrs' r' hr').target, Option.some.injEq, Prod.mk.injEq] at hname
      exact (hne r' hr').1 hname.1.symm
    have hfile : ∀ r' ∈ rs, r.file ≠ r'.file ∧ r.file ≠ r'.target := by
      refine fun r' hr' ↦ ⟨fun heq ↦ ?_, fun heq ↦ ?_⟩
      · have hname := hr.file
        rw [heq, (hrs' r' hr').file, Option.some.injEq, Prod.mk.injEq] at hname
        exact (hne r' hr').2 hname.1.symm
      · exact (hrs' r' hr').target_not_mem (heq ▸ hr.present)
    have hself : r.file ≠ r.target := fun heq ↦ hr.target_not_mem (heq ▸ hr.present)
    constructor
    · intro r' hr'
      rcases List.mem_cons.mp hr' with rfl | hr'
      · constructor
        · rw [List.foldl_cons, hother _ htarget, hr.lookup_applyRename, if_pos rfl]
        · rw [List.foldl_cons, hother _ hfile, hr.lookup_applyRename, if_neg hself, if_pos rfl]
      · refine ⟨(hmoved r' hr').1.trans ?_, (hmoved r' hr').2⟩
        exact hr.lookup_file_applyRename (hrs' r' hr') (hne r' hr')
    · intro name hname
      obtain ⟨hnefile, hnetarget⟩ := hname r List.mem_cons_self
      rw [List.foldl_cons, hother name fun r' hr' ↦ hname r' (List.mem_cons_of_mem _ hr'),
        hr.lookup_applyRename, if_neg hnetarget, if_neg hnefile]

end

/-- A renamed file is at its target after the sweep. -/
theorem lookup_target_normalize (h : r ∈ d.renames) :
    d.normalize.files.lookup r.target = d.files.lookup r.file :=
  ((lookup_foldl_applyRename (fun _ ↦ movable_of_mem_renames) pairwise_renames).1 r h).1

theorem lookup_file_normalize (h : r ∈ d.renames) : d.normalize.files.lookup r.file = none :=
  ((lookup_foldl_applyRename (fun _ ↦ movable_of_mem_renames) pairwise_renames).1 r h).2

/-- Other files are where they were. -/
theorem lookup_normalize (h : ∀ r ∈ d.renames, name ≠ r.file ∧ name ≠ r.target) :
    d.normalize.files.lookup name = d.files.lookup name :=
  (lookup_foldl_applyRename (fun _ ↦ movable_of_mem_renames) pairwise_renames).2 name h

theorem mem_normalize_of_mem_renames (h : r ∈ d.renames) : r.target ∈ d.normalize.files := by
  rw [← AList.lookup_isSome, lookup_target_normalize h, AList.lookup_isSome]
  exact (movable_of_mem_renames h).present

/-- The files after a sweep: those that were moved, and those that were not. -/
theorem mem_normalize_iff :
    name ∈ d.normalize.files ↔
      (∃ r ∈ d.renames, name = r.target) ∨ name ∈ d.files ∧ ∀ r ∈ d.renames, name ≠ r.file := by
  by_cases htarget : ∃ r ∈ d.renames, name = r.target
  · obtain ⟨r, hr, rfl⟩ := htarget
    exact iff_of_true (mem_normalize_of_mem_renames hr) (.inl ⟨r, hr, rfl⟩)
  · by_cases hfile : ∃ r ∈ d.renames, name = r.file
    · obtain ⟨r, hr, rfl⟩ := hfile
      refine iff_of_false ?_ (not_or.mpr ⟨htarget, fun h ↦ h.2 r hr rfl⟩)
      rw [← AList.lookup_isSome, lookup_file_normalize hr]
      exact Bool.false_ne_true
    · push Not at htarget hfile
      rw [← AList.lookup_isSome, lookup_normalize fun r hr ↦ ⟨hfile r hr, htarget r hr⟩,
        AList.lookup_isSome]
      exact ⟨fun h ↦ .inr ⟨h, hfile⟩, fun h ↦ h.elim
        (fun ⟨r, hr, heq⟩ ↦ (htarget r hr heq).elim) And.left⟩

/-! ## One sweep is enough -/

/-- The slugs of the stems are their own slugs. -/
def Settles (d : Directory) : Prop := ∀ stem ∈ d.stems, recipeSlug (recipeSlug stem) = recipeSlug stem

instance : Decidable d.Settles := inferInstanceAs (Decidable (∀ stem ∈ d.stems, _))

theorem mem_stems_normalize_of_mem_renames (h : r ∈ d.renames) : r.slug ∈ d.normalize.stems :=
  mem_stems (mem_normalize_of_mem_renames h) (movable_of_mem_renames h).target

/-- A stem that is its own slug stays. -/
theorem mem_stems_normalize_of_fixed {stem : Text} (h : stem ∈ d.stems)
    (hfixed : recipeSlug stem = stem) : stem ∈ d.normalize.stems := by
  obtain ⟨suffix, hmem, hname⟩ := exists_file_of_mem_stems h
  refine mem_stems (mem_normalize_iff.mpr (.inr ⟨hmem, fun r hr heq ↦ ?_⟩)) hname
  have hr := movable_of_mem_renames hr
  rw [heq, hr.file, Option.some.injEq, Prod.mk.injEq] at hname
  exact hr.slug_ne_stem (by rw [hr.slug, hname.1, hfixed])

theorem of_not_mem_renames {stem : Text} (hstem : stem ∈ d.stems)
    (h : ∀ r ∈ d.renames, r.stem ≠ stem) :
    recipeSlug stem = [] ∨ recipeSlug stem = stem ∨ recipeSlug stem ∈ d.stems ∨
      ∃ r ∈ d.renames, r.slug = recipeSlug stem := by
  obtain ⟨e, he, rfl⟩ := List.mem_map.mp hstem
  have he : e ∈ d.installedStems.insertionSort fun a b ↦ a.1 ≤ b.1 :=
    (List.mem_insertionSort _).mpr he
  exact of_not_renamed he h

/-- A second sweep finds nothing to rename. -/
theorem renames_normalize (h : d.Settles) : d.normalize.renames = [] := by
  refine renamesOf_eq_nil fun ⟨stem, suffix⟩ he ↦ ?_
  obtain ⟨hmem, hname⟩ := file_of_mem_installedStems ((List.mem_insertionSort _).mp he)
  simp only
  rcases mem_normalize_iff.mp hmem with ⟨r, hr, htarget⟩ | ⟨hmem, hunmoved⟩
  · -- The target of a rename is a slug already.
    have hr' := movable_of_mem_renames hr
    rw [htarget, hr'.target, Option.some.injEq, Prod.mk.injEq] at hname
    have hfixed := h r.stem hr'.stem_mem
    rw [← hr'.slug, hname.1] at hfixed
    exact .inr (.inl hfixed)
  · have hstem := mem_stems hmem hname
    by_cases hrenamed : ∃ r ∈ d.renames, r.stem = stem
    · obtain ⟨r, hr, rfl⟩ := hrenamed
      rw [← (movable_of_mem_renames hr).slug]
      exact .inr (.inr (mem_stems_normalize_of_mem_renames hr))
    · push Not at hrenamed
      rcases of_not_mem_renames hstem hrenamed with hnil | hself | hdisk | ⟨r, hr, hslug⟩
      · exact .inl hnil
      · exact .inr (.inl hself)
      · exact .inr (.inr (mem_stems_normalize_of_fixed hdisk (h _ hstem)))
      · exact .inr (.inr (hslug ▸ mem_stems_normalize_of_mem_renames hr))

theorem normalize_normalize (h : d.Settles) : d.normalize.normalize = d.normalize := by
  rw [normalize, renames_normalize h, List.foldl_nil]

/-! ## The first file of a stem -/

end Directory

section
variable {α : Type} [LinearOrder α] {p : α → Bool} {l : List α} {a : α}

/-- What is found first in a sorted list is the least there is. -/
theorem least_of_find?_insertionSort (h : (l.insertionSort (· ≤ ·)).find? p = some a) :
    a ∈ l ∧ p a ∧ ∀ b ∈ l, p b → a ≤ b := by
  refine ⟨(List.mem_insertionSort _).mp (List.mem_of_find?_eq_some h), List.find?_some h,
    fun b hb hpb ↦ ?_⟩
  have hsorted := List.pairwise_insertionSort (· ≤ ·) l
  obtain ⟨-, as, bs, hsplit, has⟩ := List.find?_eq_some_iff_append.mp h
  rw [← List.mem_insertionSort (· ≤ ·), hsplit, List.mem_append, List.mem_cons] at hb
  rw [hsplit, List.pairwise_append, List.pairwise_cons] at hsorted
  rcases hb with hb | rfl | hb
  · exact absurd (has b hb) (by simp [hpb])
  · exact le_refl _
  · exact hsorted.2.1.1 b hb

theorem find?_insertionSort_iff :
    (l.insertionSort (· ≤ ·)).find? p = some a ↔ a ∈ l ∧ p a ∧ ∀ b ∈ l, p b → a ≤ b := by
  refine ⟨least_of_find?_insertionSort, fun ⟨ha, hpa, hleast⟩ ↦ ?_⟩
  cases hfind : (l.insertionSort (· ≤ ·)).find? p with
  | none => exact absurd hpa (List.find?_eq_none.mp hfind a ((List.mem_insertionSort _).mpr ha))
  | some b =>
    obtain ⟨hb, hpb, hleast'⟩ := least_of_find?_insertionSort hfind
    rw [le_antisymm (hleast' a ha hpa) (hleast b hb hpb)]

end

end SparkPulse.Recipes
