import SparkPulse.Recipes.Slugs
import SparkPulse.Recipes.Sweep

/-!
# When a sweep leaves everything in order

The sweep of the names loses no file. A recipe comes out without its own sidecar when another one
was left at its new name, or when it shared its sidecar with a file that moved; and a second sweep
has something to do when a slug is no slug, or when a name came free that another recipe was waiting
for.
-/

namespace SparkPulse.Recipes

namespace Directory

variable (d : Directory)

/-! ## What is kept -/

/-- The name of a file after the sweep. -/
def nameAfter (name : Text) : Text :=
  ((d.renames.find? fun r ↦ r.file = name).map Rename.target).getD name

/-- The sidecar of a file, with the name it had if it has another now. -/
def sidecarAfter (stem stem' : Text) : Option SidecarFile :=
  (d.sidecars.lookup stem).map fun file ↦
    if stem' = stem then file else recordPreviousName stem file

/-- The sweep keeps every file, each with its own sidecar, and a second one renames nothing. -/
structure SweptWell : Prop where
  injOn : Set.InjOn d.nameAfter {name | name ∈ d.files}
  content : ∀ name ∈ d.files, d.normalize.files.lookup (d.nameAfter name) = d.files.lookup name
  sidecar : ∀ name ∈ d.files, ∀ stem suffix, recipeName? name = some (stem, suffix) →
    ∃ stem', recipeName? (d.nameAfter name) = some (stem', suffix) ∧
      d.normalize.sidecars.lookup stem' = d.sidecarAfter stem stem'
  settled : d.normalize.renames = []

/-! ## When it is -/

/-- A stem with a slug that no recipe has. -/
def Unslugged (stem : Text) : Prop :=
  stem ∈ d.stems ∧ recipeSlug stem ≠ [] ∧ recipeSlug stem ∉ d.stems

/-- The first of the stems with such a slug. -/
def Moves (stem : Text) : Prop :=
  d.Unslugged stem ∧ ∀ stem' ∈ d.stems, recipeSlug stem' = recipeSlug stem → stem ≤ stem'

/-- Two files have this stem. -/
def Shared (stem : Text) : Prop :=
  ∃ name ∈ d.files, ∃ name' ∈ d.files, name ≠ name' ∧
    (recipeName? name).map Prod.fst = some stem ∧ (recipeName? name').map Prod.fst = some stem

/-- The only file with this stem moves. -/
def Leaves (stem : Text) : Prop := d.Moves stem ∧ ¬d.Shared stem

/-- A stem that stays, or one that is given. -/
def Found (stem : Text) : Prop :=
  (stem ∈ d.stems ∧ ¬d.Leaves stem) ∨ ∃ stem', d.Unslugged stem' ∧ recipeSlug stem' = stem

/-- Nothing gets into the way of a sweep. -/
structure Orderly : Prop where
  /-- No other sidecar was left at a slug. -/
  unstrayed : ∀ stem, d.Moves stem → ∀ file ∈ d.sidecars.lookup (recipeSlug stem),
    ∃ own ∈ d.sidecars.lookup stem, recordPreviousName stem file = recordPreviousName stem own
  /-- No sidecar moves that another file shares. -/
  unshared : ∀ stem, d.Moves stem → d.Shared stem →
    d.sidecars.lookup stem = none ∨ d.sidecars.lookup (recipeSlug stem) ≠ none
  /-- A slug that is given is a slug, or its own slug is there. -/
  slugged : ∀ stem, d.Unslugged stem → EndsAsRecipe (recipeStem stem) →
    d.Found (recipeSlug (recipeSlug stem))
  /-- No name comes free that a stem waits for. -/
  staying : ∀ stem ∈ d.stems, ¬d.Leaves stem → ¬d.Leaves (recipeSlug stem)

variable {d} {r : Rename} {stem name : Text}

/-! ## Which stems move -/

theorem le_of_mem_renamesOf {es : List (Text × Text)} {onDisk : List Text}
    (hes : es.Pairwise fun a b ↦ a.1 ≤ b.1) (h : r ∈ renamesOf es onDisk) {e : Text × Text}
    (he : e ∈ es) (hslug : recipeSlug e.1 = r.slug) (hne : e.1 ≠ r.slug) : r.stem ≤ e.1 := by
  induction es generalizing onDisk with
  | nil => cases he
  | cons a es ih =>
    obtain ⟨stem, suffix⟩ := a
    obtain ⟨hle, hes⟩ := List.pairwise_cons.mp hes
    obtain ⟨-, -, hnil, -, hfree⟩ := of_mem_renamesOf h
    rw [renamesOf] at h
    split_ifs at h with hskip
    · rcases List.mem_cons.mp he with rfl | he
      · rcases hskip with hskip | hskip | hskip
        · exact absurd (hslug.symm.trans hskip) hnil
        · exact absurd (hskip.symm.trans hslug) hne
        · exact absurd (hslug ▸ hskip) hfree
      · exact ih hes h he
    · rcases List.mem_cons.mp h with rfl | h
      · rcases List.mem_cons.mp he with rfl | he
        · exact le_rfl
        · exact hle e he
      · rcases List.mem_cons.mp he with rfl | he
        · have hfree' := (of_mem_renamesOf h).2.2.2.2
          exact absurd (hslug ▸ List.mem_cons_self) hfree'
        · exact ih hes h he

theorem unslugged_of_mem_renames (h : r ∈ d.renames) :
    d.Unslugged r.stem ∧ r.slug = recipeSlug r.stem := by
  obtain ⟨hmem, hslug, hne, -, hfree⟩ := of_mem_renamesOf h
  exact ⟨⟨(movable_of_mem_renames h).stem_mem, hslug ▸ hne, hslug ▸ hfree⟩, hslug⟩

theorem le_of_mem_renames (h : r ∈ d.renames) (hstem : stem ∈ d.stems)
    (hslug : recipeSlug stem = r.slug) : r.stem ≤ stem := by
  obtain ⟨e, he, rfl⟩ := List.mem_map.mp hstem
  have hsorted : (d.installedStems.insertionSort fun a b ↦ a.1 ≤ b.1).Pairwise
      fun a b ↦ a.1 ≤ b.1 :=
    have : Std.Total fun a b : Text × Text ↦ a.1 ≤ b.1 := ⟨fun a b ↦ le_total a.1 b.1⟩
    have : IsTrans (Text × Text) fun a b ↦ a.1 ≤ b.1 := ⟨fun _ _ _ h h' ↦ le_trans h h'⟩
    List.pairwise_insertionSort _ _
  refine le_of_mem_renamesOf hsorted h ((List.mem_insertionSort _).mpr he) hslug fun heq ↦ ?_
  exact (movable_of_mem_renames h).free (heq ▸ hstem)

/-- **Which stems move.** -/
theorem exists_mem_renames_iff : (∃ r ∈ d.renames, r.stem = stem) ↔ d.Moves stem := by
  constructor
  · rintro ⟨r, hr, rfl⟩
    obtain ⟨hunslugged, hslug⟩ := unslugged_of_mem_renames hr
    exact ⟨hunslugged, fun stem' hstem' hsame ↦
      le_of_mem_renames hr hstem' (hsame.trans hslug.symm)⟩
  · rintro ⟨⟨hstem, hne, hfree⟩, hleast⟩
    by_contra hnone
    push Not at hnone
    rcases of_not_mem_renames hstem hnone with hnil | hself | htaken | ⟨r, hr, hslug⟩
    · exact hne hnil
    · exact hfree (hself.symm ▸ hstem)
    · exact hfree htaken
    · obtain ⟨⟨hstem', -, -⟩, hslug'⟩ := unslugged_of_mem_renames hr
      have hle := hleast r.stem hstem' (hslug'.symm.trans hslug)
      exact hnone r hr (le_antisymm (le_of_mem_renames hr hstem hslug.symm) hle)

/-! ## Files -/

/-- The renames of a sweep are known by their stems, and by their slugs. -/
theorem eq_of_mem_renames {r' : Rename} (h : r ∈ d.renames) (h' : r' ∈ d.renames)
    (hsame : r.stem = r'.stem ∨ r.slug = r'.slug) : r = r' := by
  have : Std.Symm fun r r' : Rename ↦ r.slug ≠ r'.slug ∧ r.stem ≠ r'.stem :=
    ⟨fun _ _ hne ↦ ⟨hne.1.symm, hne.2.symm⟩⟩
  by_contra hne
  have hpair := pairwise_renames.forall h h' hne
  exact hsame.elim hpair.2 hpair.1

theorem stem_of_file_eq {r' : Rename} (h : r ∈ d.renames) (h' : r' ∈ d.renames)
    (hfile : r.file = r'.file) : r.stem = r'.stem := by
  have hname := (movable_of_mem_renames h).file
  rw [hfile, (movable_of_mem_renames h').file] at hname
  exact (Prod.mk.inj (Option.some.inj hname)).1.symm

theorem nameAfter_of_mem_renames (h : r ∈ d.renames) : d.nameAfter r.file = r.target := by
  have hsome : (d.renames.find? fun r' ↦ r'.file = r.file).isSome = true :=
    List.find?_isSome.mpr ⟨r, h, decide_eq_true rfl⟩
  obtain ⟨r', hfind⟩ := Option.isSome_iff_exists.mp hsome
  have hr' := List.mem_of_find?_eq_some hfind
  have hfile : r'.file = r.file := by simpa using List.find?_some hfind
  rw [nameAfter, hfind, eq_of_mem_renames hr' h (Or.inl (stem_of_file_eq hr' h hfile))]
  rfl

theorem nameAfter_of_not_renamed (h : ∀ r ∈ d.renames, r.file ≠ name) :
    d.nameAfter name = name := by
  have hfind : d.renames.find? (fun r' ↦ r'.file = name) = none :=
    List.find?_eq_none.mpr fun r hr ↦ by simpa using h r hr
  rw [nameAfter, hfind]
  rfl

theorem content_nameAfter (hname : name ∈ d.files) :
    d.normalize.files.lookup (d.nameAfter name) = d.files.lookup name := by
  by_cases hmoved : ∃ r ∈ d.renames, r.file = name
  · obtain ⟨r, hr, rfl⟩ := hmoved
    rw [nameAfter_of_mem_renames hr, lookup_target_normalize hr]
  · push Not at hmoved
    rw [nameAfter_of_not_renamed hmoved]
    refine lookup_normalize fun r hr ↦ ⟨(hmoved r hr).symm, fun heq ↦ ?_⟩
    exact (movable_of_mem_renames hr).target_not_mem (heq ▸ hname)

theorem injOn_nameAfter : Set.InjOn d.nameAfter {name | name ∈ d.files} := by
  have htarget : ∀ r ∈ d.renames, ∀ name ∈ d.files, (∀ r ∈ d.renames, r.file ≠ name) →
      r.target ≠ d.nameAfter name := by
    intro r hr name hname hstays heq
    rw [nameAfter_of_not_renamed hstays] at heq
    exact (movable_of_mem_renames hr).target_not_mem (heq ▸ hname)
  intro name hname name' hname' heq
  by_cases hmoved : ∃ r ∈ d.renames, r.file = name
  · obtain ⟨r, hr, rfl⟩ := hmoved
    rw [nameAfter_of_mem_renames hr] at heq
    by_cases hmoved' : ∃ r ∈ d.renames, r.file = name'
    · obtain ⟨r', hr', rfl⟩ := hmoved'
      rw [nameAfter_of_mem_renames hr'] at heq
      have hslug := (movable_of_mem_renames hr).target
      rw [heq, (movable_of_mem_renames hr').target] at hslug
      have hsame := (Prod.mk.inj (Option.some.inj hslug)).1.symm
      rw [eq_of_mem_renames hr hr' (Or.inr hsame)]
    · push Not at hmoved'
      exact absurd heq (htarget r hr name' hname' hmoved')
  · push Not at hmoved
    by_cases hmoved' : ∃ r ∈ d.renames, r.file = name'
    · obtain ⟨r', hr', rfl⟩ := hmoved'
      rw [nameAfter_of_mem_renames hr'] at heq
      exact absurd heq.symm (htarget r' hr' name hname hmoved)
    · push Not at hmoved'
      rwa [nameAfter_of_not_renamed hmoved, nameAfter_of_not_renamed hmoved'] at heq

/-! ## Sidecars -/

/-- The sidecar of the stem moves away, unless another one is at the slug. -/
theorem lookup_stem_applyRename_eq (hne : r.slug ≠ r.stem) :
    (d.applyRename r).sidecars.lookup r.stem =
      if r.slug ∈ d.sidecars then d.sidecars.lookup r.stem else none := by
  have hinsert : (d.applyRename r).sidecars.lookup r.stem = (d.moveSidecar r).lookup r.stem := by
    simp only [applyRename]
    split
    · rw [AList.lookup_insert_ne hne.symm]
    · rfl
  rw [hinsert, moveSidecar]
  split
  next file hfile =>
    split_ifs
    · rfl
    · rw [AList.lookup_insert_ne hne.symm, AList.lookup_erase]
  next hnone =>
    rw [hnone]
    split_ifs <;> rfl

/-- What several renames do to the sidecars. -/
theorem lookup_sidecars_foldl {rs : List Rename}
    (hapart : ∀ r ∈ rs, ∀ r' ∈ rs, r.slug ≠ r'.stem)
    (hpairwise : rs.Pairwise fun r r' ↦ r.slug ≠ r'.slug ∧ r.stem ≠ r'.stem) :
    (∀ r ∈ rs,
      (rs.foldl applyRename d).sidecars.lookup r.slug =
        ((d.sidecars.lookup r.slug).or (d.sidecars.lookup r.stem)).map
          (recordPreviousName r.stem) ∧
      (rs.foldl applyRename d).sidecars.lookup r.stem =
        if r.slug ∈ d.sidecars then d.sidecars.lookup r.stem else none) ∧
    ∀ stem, (∀ r ∈ rs, stem ≠ r.stem ∧ stem ≠ r.slug) →
      (rs.foldl applyRename d).sidecars.lookup stem = d.sidecars.lookup stem := by
  induction rs generalizing d with
  | nil => exact ⟨fun r hr ↦ (nomatch hr), fun _ _ ↦ rfl⟩
  | cons r rs ih =>
    obtain ⟨hne, hpairwise⟩ := List.pairwise_cons.mp hpairwise
    obtain ⟨hmoved, hother⟩ := ih (d := d.applyRename r)
      (fun r hr r' hr' ↦ hapart r (List.mem_cons_of_mem _ hr) r' (List.mem_cons_of_mem _ hr'))
      hpairwise
    have hself := hapart r List.mem_cons_self r List.mem_cons_self
    constructor
    · intro r' hr'
      rcases List.mem_cons.mp hr' with rfl | hr'
      · have hslug := hother r'.slug fun r hr ↦
          ⟨hapart r' List.mem_cons_self r (List.mem_cons_of_mem _ hr), (hne r hr).1⟩
        have hstem := hother r'.stem fun r hr ↦
          ⟨(hne r hr).2, (hapart r (List.mem_cons_of_mem _ hr) r' List.mem_cons_self).symm⟩
        rw [List.foldl_cons, hslug, hstem]
        exact ⟨lookup_slug_applyRename, lookup_stem_applyRename_eq hself⟩
      · have hslug : (d.applyRename r).sidecars.lookup r'.slug = d.sidecars.lookup r'.slug :=
          lookup_sidecars_applyRename (hapart r' (List.mem_cons_of_mem _ hr') r List.mem_cons_self)
            (hne r' hr').1.symm
        have hstem : (d.applyRename r).sidecars.lookup r'.stem = d.sidecars.lookup r'.stem :=
          lookup_sidecars_applyRename (hne r' hr').2.symm
            (hapart r List.mem_cons_self r' (List.mem_cons_of_mem _ hr')).symm
        have hmem : r'.slug ∈ (d.applyRename r).sidecars ↔ r'.slug ∈ d.sidecars := by
          rw [← AList.lookup_isSome, hslug, AList.lookup_isSome]
        have hr := hmoved r' hr'
        rw [hslug, hstem] at hr
        simpa only [List.foldl_cons, hmem] using hr
    · intro stem hstem
      obtain ⟨hnestem, hneslug⟩ := hstem r List.mem_cons_self
      rw [List.foldl_cons, hother stem fun r hr ↦ hstem r (List.mem_cons_of_mem _ hr),
        lookup_sidecars_applyRename hnestem hneslug]

theorem slug_ne_stem_of_mem_renames {r' : Rename} (h : r ∈ d.renames) (h' : r' ∈ d.renames) :
    r.slug ≠ r'.stem := fun heq ↦
  (movable_of_mem_renames h).free (heq ▸ (movable_of_mem_renames h').stem_mem)

theorem lookup_slug_normalize (h : r ∈ d.renames) : d.normalize.sidecars.lookup r.slug =
    ((d.sidecars.lookup r.slug).or (d.sidecars.lookup r.stem)).map (recordPreviousName r.stem) :=
  ((lookup_sidecars_foldl (fun _ h _ h' ↦ slug_ne_stem_of_mem_renames h h')
    pairwise_renames).1 r h).1

theorem lookup_stem_normalize (h : r ∈ d.renames) : d.normalize.sidecars.lookup r.stem =
    if r.slug ∈ d.sidecars then d.sidecars.lookup r.stem else none :=
  ((lookup_sidecars_foldl (fun _ h _ h' ↦ slug_ne_stem_of_mem_renames h h')
    pairwise_renames).1 r h).2

theorem lookup_sidecars_normalize (h : ∀ r ∈ d.renames, stem ≠ r.stem ∧ stem ≠ r.slug) :
    d.normalize.sidecars.lookup stem = d.sidecars.lookup stem :=
  (lookup_sidecars_foldl (fun _ h _ h' ↦ slug_ne_stem_of_mem_renames h h')
    pairwise_renames).2 stem h

/-! ## Stems afterwards -/

theorem shared_iff_of_mem_renames (h : r ∈ d.renames) : d.Shared r.stem ↔
    ∃ name ∈ d.files, name ≠ r.file ∧ (recipeName? name).map Prod.fst = some r.stem := by
  have hmovable := movable_of_mem_renames h
  constructor
  · rintro ⟨name, hname, name', hname', hne, hstem, hstem'⟩
    by_cases hfile : name = r.file
    · exact ⟨name', hname', fun heq ↦ hne (hfile.trans heq.symm), hstem'⟩
    · exact ⟨name, hname, hfile, hstem⟩
  · rintro ⟨name, hname, hne, hstem⟩
    exact ⟨name, hname, r.file, hmovable.present, hne, hstem, by rw [hmovable.file]; rfl⟩

/-- **The stems after a sweep.** -/
theorem mem_stems_normalize_iff : stem ∈ d.normalize.stems ↔ d.Found stem := by
  constructor
  · intro h
    obtain ⟨suffix, hmem, hname⟩ := exists_file_of_mem_stems h
    rcases mem_normalize_iff.mp hmem with ⟨r, hr, heq⟩ | ⟨hmem, hstays⟩
    · rw [heq, (movable_of_mem_renames hr).target] at hname
      obtain ⟨hunslugged, hslug⟩ := unslugged_of_mem_renames hr
      exact Or.inr ⟨r.stem, hunslugged, hslug.symm.trans (Prod.mk.inj (Option.some.inj hname)).1⟩
    · refine Or.inl ⟨mem_stems hmem hname, ?_⟩
      rintro ⟨hmoves, hshared⟩
      obtain ⟨r, hr, rfl⟩ := exists_mem_renames_iff.mpr hmoves
      refine hshared ((shared_iff_of_mem_renames hr).mpr ⟨_, hmem, hstays r hr, ?_⟩)
      rw [hname]
      rfl
  · rintro (⟨hstem, hstays⟩ | ⟨stem', hunslugged, rfl⟩)
    · by_cases hmoves : d.Moves stem
      · obtain ⟨r, hr, rfl⟩ := exists_mem_renames_iff.mpr hmoves
        have hshared : d.Shared r.stem := by
          by_contra hnot
          exact hstays ⟨hmoves, hnot⟩
        obtain ⟨name, hname, hne, hfirst⟩ := (shared_iff_of_mem_renames hr).mp hshared
        obtain ⟨⟨stem, suffix⟩, hrecipe, rfl : stem = r.stem⟩ := Option.map_eq_some_iff.mp hfirst
        refine mem_stems (mem_normalize_iff.mpr (Or.inr ⟨hname, fun r' hr' heq ↦ ?_⟩)) hrecipe
        rw [heq, (movable_of_mem_renames hr').file] at hrecipe
        have hsame := (Prod.mk.inj (Option.some.inj hrecipe)).1
        exact hne (heq.trans (by rw [eq_of_mem_renames hr' hr (Or.inl hsame)]))
      · obtain ⟨suffix, hmem, hname⟩ := exists_file_of_mem_stems hstem
        refine mem_stems (mem_normalize_iff.mpr (Or.inr ⟨hmem, fun r hr heq ↦ ?_⟩)) hname
        rw [heq, (movable_of_mem_renames hr).file] at hname
        have hsame := (Prod.mk.inj (Option.some.inj hname)).1
        exact hmoves (exists_mem_renames_iff.mp ⟨r, hr, hsame⟩)
    · obtain ⟨hstem, hne, hfree⟩ := hunslugged
      obtain ⟨r, hr, hslug⟩ : ∃ r ∈ d.renames, r.slug = recipeSlug stem' := by
        by_cases hmoves : d.Moves stem'
        · obtain ⟨r, hr, rfl⟩ := exists_mem_renames_iff.mpr hmoves
          exact ⟨r, hr, (unslugged_of_mem_renames hr).2⟩
        · have hnone : ∀ r ∈ d.renames, r.stem ≠ stem' := fun r hr heq ↦
            hmoves (exists_mem_renames_iff.mp ⟨r, hr, heq⟩)
          rcases of_not_mem_renames hstem hnone with hnil | hself | htaken | hslug
          · exact absurd hnil hne
          · exact absurd (hself.symm ▸ hstem) hfree
          · exact absurd htaken hfree
          · exact hslug
      exact hslug ▸ mem_stems_normalize_of_mem_renames hr

/-- A sweep has nothing to do when every stem has no slug, is its slug or finds it taken. -/
theorem renames_eq_nil_iff : d.renames = [] ↔ ∀ stem ∈ d.stems,
    recipeSlug stem = [] ∨ recipeSlug stem = stem ∨ recipeSlug stem ∈ d.stems := by
  constructor
  · intro hnil stem hstem
    have hnone : ∀ r ∈ d.renames, r.stem ≠ stem := by simp [hnil]
    rcases of_not_mem_renames hstem hnone with h | h | h | ⟨r, hr, -⟩
    · exact Or.inl h
    · exact Or.inr (Or.inl h)
    · exact Or.inr (Or.inr h)
    · simp [hnil] at hr
  · exact fun h ↦ renamesOf_eq_nil fun e he ↦
      h e.1 (List.mem_map_of_mem ((List.mem_insertionSort _).mp he))

/-! ## The conditions -/

/-- What a sweep does to the sidecar of a file that it moves. -/
theorem sidecar_of_moved_iff (h : r ∈ d.renames) :
    d.normalize.sidecars.lookup r.slug = d.sidecarAfter r.stem r.slug ↔
      ∀ file ∈ d.sidecars.lookup r.slug, ∃ own ∈ d.sidecars.lookup r.stem,
        recordPreviousName r.stem file = recordPreviousName r.stem own := by
  have hne := slug_ne_stem_of_mem_renames h h
  rw [lookup_slug_normalize h, sidecarAfter]
  simp only [if_neg hne]
  rcases d.sidecars.lookup r.slug with _ | file
  · simp
  · rcases d.sidecars.lookup r.stem with _ | own
    · simp
    · simp

/-- What a sweep does to the sidecar of a file that stays. -/
theorem sidecar_of_stays_iff (hname : name ∈ d.files)
    (hstem : (recipeName? name).map Prod.fst = some stem) :
    d.normalize.sidecars.lookup stem = d.sidecarAfter stem stem ↔
      (d.Moves stem → d.sidecars.lookup stem = none ∨
        d.sidecars.lookup (recipeSlug stem) ≠ none) := by
  have hself : d.sidecarAfter stem stem = d.sidecars.lookup stem := by
    simp [sidecarAfter]
  rw [hself]
  by_cases hmoves : d.Moves stem
  · obtain ⟨r, hr, rfl⟩ := exists_mem_renames_iff.mpr hmoves
    rw [lookup_stem_normalize hr, ← (unslugged_of_mem_renames hr).2]
    have hmem : r.slug ∈ d.sidecars ↔ d.sidecars.lookup r.slug ≠ none := by
      rw [← AList.lookup_isSome, Option.isSome_iff_ne_none]
    split_ifs with hslug
    · exact iff_of_true rfl fun _ ↦ Or.inr (hmem.mp hslug)
    · refine ⟨fun h _ ↦ Or.inl h.symm, fun h ↦ ?_⟩
      exact ((h hmoves).resolve_right fun hne ↦ hslug (hmem.mpr hne)).symm
  · refine iff_of_true (lookup_sidecars_normalize fun r hr ↦ ⟨?_, ?_⟩) fun h ↦ absurd h hmoves
    · exact fun heq ↦ hmoves (exists_mem_renames_iff.mp ⟨r, hr, heq.symm⟩)
    · rintro rfl
      obtain ⟨⟨stem', suffix⟩, hrecipe, hfirst⟩ := Option.map_eq_some_iff.mp hstem
      exact (movable_of_mem_renames hr).free (hfirst ▸ mem_stems hname hrecipe)

/-- When the second sweep has nothing to do. -/
theorem settled_iff : d.normalize.renames = [] ↔
    (∀ stem, d.Unslugged stem → EndsAsRecipe (recipeStem stem) →
      d.Found (recipeSlug (recipeSlug stem))) ∧
    ∀ stem ∈ d.stems, ¬d.Leaves stem → ¬d.Leaves (recipeSlug stem) := by
  simp only [renames_eq_nil_iff, mem_stems_normalize_iff]
  constructor
  · refine fun h ↦ ⟨fun stem hstem hends ↦ ?_, fun stem hstem hstays hleaves ↦ ?_⟩
    · rcases h (recipeSlug stem) (Or.inr ⟨stem, hstem, rfl⟩) with hnil | hself | hfound
      · exact absurd hnil (recipeSlug_recipeSlug_ne_nil hstem.2.1)
      · exact absurd hends (recipeSlug_recipeSlug_iff.mp hself)
      · exact hfound
    · rcases h stem (Or.inl ⟨hstem, hstays⟩) with hnil | hself | hfound
      · obtain ⟨hmem, -, -⟩ := hleaves.1.1
        obtain ⟨suffix, hfile, hrecipe⟩ := exists_file_of_mem_stems hmem
        exact (recipeName?_eq_some_iff.mp hrecipe).2.2.1 hnil
      · exact hstays (hself ▸ hleaves)
      · rcases hfound with ⟨-, hstays'⟩ | ⟨stem', hunslugged, hsame⟩
        · exact hstays' hleaves
        · exact hunslugged.2.2 (hsame ▸ hleaves.1.1.1)
  · rintro ⟨hslugged, hstaying⟩ stem (⟨hstem, hstays⟩ | ⟨stem, hunslugged, rfl⟩)
    · by_cases hnil : recipeSlug stem = []
      · exact Or.inl hnil
      · refine Or.inr (Or.inr ?_)
        by_cases hslug : recipeSlug stem ∈ d.stems
        · exact Or.inl ⟨hslug, hstaying stem hstem hstays⟩
        · exact Or.inr ⟨stem, ⟨hstem, hnil, hslug⟩, rfl⟩
    · by_cases hends : EndsAsRecipe (recipeStem stem)
      · exact Or.inr (Or.inr (hslugged stem hunslugged hends))
      · exact Or.inr (Or.inl (recipeSlug_recipeSlug_iff.mpr hends))

/-- **The sweep.** It leaves everything in order exactly when nothing gets into its way. -/
theorem sweptWell_iff : d.SweptWell ↔ d.Orderly := by
  constructor
  · intro h
    obtain ⟨hslugged, hstaying⟩ := settled_iff.mp h.settled
    refine ⟨fun stem hmoves ↦ ?_, fun stem hmoves hshared ↦ ?_, hslugged, hstaying⟩
    · obtain ⟨r, hr, rfl⟩ := exists_mem_renames_iff.mpr hmoves
      have hmovable := movable_of_mem_renames hr
      obtain ⟨stem', hname, hsidecar⟩ := h.sidecar _ hmovable.present _ _ hmovable.file
      rw [nameAfter_of_mem_renames hr, hmovable.target] at hname
      obtain ⟨rfl, -⟩ := Prod.mk.inj (Option.some.inj hname)
      rw [← (unslugged_of_mem_renames hr).2]
      exact (sidecar_of_moved_iff hr).mp hsidecar
    · obtain ⟨r, hr, rfl⟩ := exists_mem_renames_iff.mpr hmoves
      obtain ⟨name, hname, hne, hstem⟩ := (shared_iff_of_mem_renames hr).mp hshared
      obtain ⟨⟨stem, suffix⟩, hrecipe, rfl : stem = r.stem⟩ := Option.map_eq_some_iff.mp hstem
      have hstays : ∀ r' ∈ d.renames, r'.file ≠ name := by
        rintro r' hr' rfl
        rw [(movable_of_mem_renames hr').file] at hrecipe
        have hsame := (Prod.mk.inj (Option.some.inj hrecipe)).1
        exact hne (by rw [eq_of_mem_renames hr' hr (Or.inl hsame)])
      obtain ⟨stem', hafter, hsidecar⟩ := h.sidecar name hname _ _ hrecipe
      rw [nameAfter_of_not_renamed hstays, hrecipe] at hafter
      obtain ⟨rfl, -⟩ := Prod.mk.inj (Option.some.inj hafter)
      exact (sidecar_of_stays_iff hname hstem).mp hsidecar hmoves
  · intro h
    refine ⟨injOn_nameAfter, fun name ↦ content_nameAfter, fun name hname stem suffix hrecipe ↦ ?_,
      settled_iff.mpr ⟨h.slugged, h.staying⟩⟩
    by_cases hmoved : ∃ r ∈ d.renames, r.file = name
    · obtain ⟨r, hr, rfl⟩ := hmoved
      have hmovable := movable_of_mem_renames hr
      rw [hmovable.file] at hrecipe
      obtain ⟨rfl, rfl⟩ := Prod.mk.inj (Option.some.inj hrecipe)
      refine ⟨r.slug, by rw [nameAfter_of_mem_renames hr, hmovable.target], ?_⟩
      refine (sidecar_of_moved_iff hr).mpr ?_
      rw [(unslugged_of_mem_renames hr).2]
      exact h.unstrayed r.stem (exists_mem_renames_iff.mp ⟨r, hr, rfl⟩)
    · push Not at hmoved
      have hstem : (recipeName? name).map Prod.fst = some stem := by rw [hrecipe]; rfl
      refine ⟨stem, by rw [nameAfter_of_not_renamed hmoved, hrecipe], ?_⟩
      refine (sidecar_of_stays_iff hname hstem).mpr fun hmoves ↦ ?_
      obtain ⟨r, hr, rfl⟩ := exists_mem_renames_iff.mpr hmoves
      exact h.unshared r.stem hmoves
        ((shared_iff_of_mem_renames hr).mpr ⟨name, hname, (hmoved r hr).symm, hstem⟩)

end Directory

/-- **Slugs and sweeps.** The slug of a name is its own slug, and the sweep of a directory keeps
every file with its own sidecar and leaves nothing to rename, exactly when the stem of the name does
not end as a recipe file and nothing gets into the way of the sweep. -/
theorem slugs_and_sweeps_iff (name : Text) (d : Directory) :
    recipeSlug (recipeSlug name) = recipeSlug name ∧ d.SweptWell ↔
      ¬EndsAsRecipe (recipeStem name) ∧ d.Orderly :=
  and_congr recipeSlug_recipeSlug_iff Directory.sweptWell_iff

/-! ## A slug, and a sidecar that was left -/

/-- A recipe that has no slug for a name, and a sidecar that another one has left. -/
private def oneLeftSidecar : Directory where
  files := [(⟨"A.yaml".toList, []⟩ : Sigma fun _ : Text ↦ Text)].toAList
  sidecars := [(⟨"a".toList, .mapping { displayName := "B".toList }⟩ :
    Sigma fun _ : Text ↦ SidecarFile)].toAList

/-- A slug may be no slug, and a recipe may be given the sidecar of another. -/
theorem slugs_and_sweeps_fail :
    (¬∀ name : Text, recipeSlug (recipeSlug name) = recipeSlug name) ∧
      ¬∀ d : Directory, d.SweptWell := by
  constructor
  · exact fun h ↦ absurd (h "A.YAML".toList) (by decide +kernel)
  · intro h
    have hmoves : oneLeftSidecar.Moves "A".toList :=
      ⟨⟨by decide +kernel, by decide +kernel, by decide +kernel⟩, by decide +kernel⟩
    obtain ⟨own, hown, -⟩ := (Directory.sweptWell_iff.mp (h oneLeftSidecar)).unstrayed _ hmoves
      (.mapping { displayName := "B".toList }) (by decide +kernel)
    have hnone : oneLeftSidecar.sidecars.lookup "A".toList = none := by decide +kernel
    rw [hnone] at hown
    cases hown

end SparkPulse.Recipes
