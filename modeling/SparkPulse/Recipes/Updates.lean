import SparkPulse.Recipes.LocalEdits

/-!
# Runs of updates

An automatic update and `apply_updates` write over every file that the new version ships, from the
registry they are given and not from the recorded one. `apply_collection_recipes` looks at the digest
of a file, but not at what the file was installed from. So a run of them keeps local edits as long as
what each of its calls would write over is recorded as installed from where the call takes it and, for
the first two, is as it was installed.
-/

namespace SparkPulse.Recipes

/-! ## Installs -/

/-- The registry lists this tag as a version of the collection. -/
def Env.Lists (env : Env) (reg : Registry) (collection tag : Text) : Prop :=
  reg ∈ env.registries ∧ ∃ i ∈ env.indexes reg, i.collection = collection ∧ i.tag = tag

/-- A recipe of the collection, in some version that the registry lists, has this content. -/
def Env.Ships (env : Env) (source collection content : Text) : Prop :=
  ∃ reg tag, reg.name = source ∧ env.Lists reg collection tag ∧
    ∃ files, (env.layout reg collection tag = .ok files ∨
      env.indexLayout reg collection tag = .ok files) ∧ content ∈ files.map Prod.snd

/-- An install that succeeds in pulling a version pulls one that the registry lists for the
collection, and goes over clean stems only, once the names of the files are normalised. -/
def InstallAllowed (py : Python) (env : Env) (u : Update) (d : Directory) : Prop :=
  ∀ pulled ∈ (pullCollection py env u.collection u.targetVersion u.registry).toOption,
    SweepsClean py d ∧ env.Lists pulled.1 u.collection u.targetVersion ∧
      ∀ r ∈ pulled.2,
        StemClean py d.normalize pulled.1.name u.collection (installedName r.filename)

instance (py : Python) (d : Directory) : Decidable (SweepsClean py d) :=
  inferInstanceAs (Decidable (∀ r ∈ d.renames, _))

instance (py : Python) (d : Directory) (source collection stem : Text) :
    Decidable (StemClean py d source collection stem) :=
  inferInstanceAs (Decidable (∀ name ∈ d.files.keys, _))

instance (env : Env) (reg : Registry) (collection tag : Text) :
    Decidable (env.Lists reg collection tag) := inferInstanceAs (Decidable (_ ∧ _))

instance (py : Python) (env : Env) (u : Update) (d : Directory) :
    Decidable (InstallAllowed py env u d) :=
  inferInstanceAs (Decidable (∀ pulled ∈ Except.toOption _, _))

section
variable {py : Python} {env : Env} {d : Directory}

theorem mem_of_getDefaultRegistry {reg : Registry} (h : getDefaultRegistry env = some reg) :
    reg ∈ env.registries := by
  rw [getDefaultRegistry] at h
  cases hdefault : env.registries.find? (·.isDefault) with
  | some reg' =>
    rw [hdefault] at h
    obtain rfl : reg' = reg := Option.some.inj h
    exact List.mem_of_find?_eq_some hdefault
  | none =>
    cases henabled : env.registries.find? (·.enabled) with
    | some reg' =>
      rw [hdefault, henabled] at h
      obtain rfl : reg' = reg := Option.some.inj h
      exact List.mem_of_find?_eq_some henabled
    | none =>
      rw [hdefault, henabled] at h
      exact List.mem_of_head? h

theorem content_mem_of_mem_extractRecipes {files : List (Text × Text)} {r : PulledRecipe}
    (h : r ∈ extractRecipes py files) : r.content ∈ files.map Prod.snd := by
  obtain ⟨f, hf, rfl⟩ := List.mem_map.mp h
  obtain ⟨suffix, -, hf⟩ := List.mem_flatMap.mp hf
  have hf := List.mem_of_mem_filter ((List.mem_insertionSort _).mp hf)
  exact List.mem_map.mpr ⟨f, hf, rfl⟩

/-- What comes of one computation after another. -/
theorem exists_of_bind_eq_ok {α β : Type} {x : Except Text α} {f : α → Except Text β} {b : β}
    (h : x >>= f = .ok b) : ∃ a, x = .ok a ∧ f a = .ok b := by
  cases x with
  | error e => cases h
  | ok a => exact ⟨a, rfl, h⟩

theorem mem_of_installRegistry {registryName : Option Text} {reg : Registry}
    (h : installRegistry env registryName = .ok reg) : reg ∈ env.registries := by
  rw [installRegistry] at h
  split at h
  · split at h
    · rename_i hreg
      obtain rfl := Except.ok.inj h
      exact List.mem_of_find?_eq_some hreg
    · cases h
  · split at h
    · rename_i hreg
      obtain rfl := Except.ok.inj h
      exact mem_of_getDefaultRegistry hreg
    · cases h

/-- What `pullCollection` gives was looked up, listed and pulled. -/
theorem pullCollection_eq_ok {name version : Text} {registryName : Option Text} {reg : Registry}
    {recipes : List PulledRecipe}
    (h : pullCollection py env name version registryName = .ok (reg, recipes)) :
    reg ∈ env.registries ∧
      (∃ collections, listCollections py env (some reg.name) = .ok collections ∧
        ∃ c ∈ collections, c.name = name ∧ c.version = version) ∧
      ∃ files, env.layout reg name version = .ok files ∧ recipes = extractRecipes py files := by
  rw [pullCollection] at h
  obtain ⟨reg', hreg, h⟩ := exists_of_bind_eq_ok h
  obtain ⟨collections, hcollections, h⟩ := exists_of_bind_eq_ok h
  split_ifs at h with hlisted
  obtain ⟨files, hfiles, h⟩ := exists_of_bind_eq_ok h
  split_ifs at h with hempty
  obtain ⟨rfl, rfl⟩ := Prod.mk.inj (Except.ok.inj h)
  have hlayout : env.layout reg' name version = .ok files := by
    cases hpull : env.layout reg' name version with
    | error e =>
      rw [hpull] at hfiles
      cases hfiles
    | ok files' =>
      rw [hpull] at hfiles
      exact hfiles
  exact ⟨mem_of_installRegistry hreg, ⟨collections, hcollections, hlisted⟩, files,
    hlayout, rfl⟩

/-- Where the names of registries are distinct and not empty, the check of an install is enough for
the version to be one that the registry lists. -/
theorem lists_of_pullCollection {name version : Text} {registryName : Option Text} {reg : Registry}
    {recipes : List PulledRecipe}
    (hnames : ∀ reg ∈ env.registries, ∀ reg' ∈ env.registries, reg.name = reg'.name → reg = reg')
    (hname : reg.name ≠ [])
    (h : pullCollection py env name version registryName = .ok (reg, recipes)) :
    env.Lists reg name version := by
  obtain ⟨hreg, ⟨collections, hcollections, c, hc, rfl, rfl⟩, -⟩ := pullCollection_eq_ok h
  refine ⟨hreg, ?_⟩
  have hgiven : given (some reg.name) = some reg.name := by simp [given, hname]
  rw [listCollections, hgiven] at hcollections
  simp only at hcollections
  split_ifs at hcollections
  rw [← Except.ok.inj hcollections, latestOfEach] at hc
  obtain ⟨key, -, hmax⟩ := List.mem_filterMap.mp hc
  have hfound := List.mem_of_mem_filter (List.argmax_mem hmax)
  obtain ⟨reg', hmem, hpublished⟩ := List.mem_flatMap.mp hfound
  obtain ⟨hreg', hsame⟩ := List.mem_filter.mp hmem
  obtain rfl : reg' = reg := hnames reg' hreg' reg hreg (by simpa using hsame)
  rw [published] at hpublished
  split_ifs at hpublished
  · obtain ⟨i, hi, rfl⟩ := List.mem_map.mp hpublished
    exact ⟨i, hi, rfl, rfl⟩
  · cases hpublished

/-- An allowed install keeps every file. -/
theorem kept_installCollection {u : Update} (h : InstallAllowed py env u d) :
    Kept py env.Ships d
      (installCollection py env u.collection u.targetVersion u.registry d).1 := by
  rw [installCollection]
  cases hpull : pullCollection py env u.collection u.targetVersion u.registry with
  | error e => exact .refl
  | ok pulled =>
    obtain ⟨reg, recipes⟩ := pulled
    obtain ⟨hsweep, hlists, hclean⟩ := h (reg, recipes) (by rw [hpull]; rfl)
    obtain ⟨-, -, files, hfiles, rfl⟩ := pullCollection_eq_ok hpull
    have hwritten := written_installRecipes env u.targetVersion (.refl _) hclean
      fun r hr ↦ content_mem_of_mem_extractRecipes hr
    refine (kept_normalize hsweep).trans (hwritten.kept fun content hcontent ↦ ?_)
    exact ⟨reg, u.targetVersion, rfl, hlists, files, .inl hfiles, hcontent⟩

end

/-! ## Calls -/

/-- A call that may update recipes, with local edits not to be overwritten. -/
inductive Op
  | autoUpdate (enabled : Bool)
  | applyUpdates (updates : List Update)
  | applyCollectionRecipes (collection : Text) (recipes : List Text)
      (version registry : Option Text)

section
variable (py : Python) (env : Env)

/-- The directory that a call leaves. -/
def perform : Op → Directory → Directory
  | .autoUpdate enabled, d => (runAutoUpdate py env enabled false d).1
  | .applyUpdates updates, d => (applyUpdates py env updates false d).1
  | .applyCollectionRecipes collection recipes version registry, d =>
    (applyCollectionRecipes py env collection recipes version registry false d).1

/-- Each install of a list of updates is allowed where it finds the directory. -/
def UpdatesAllowed : List Update → Directory → Prop
  | [], _ => True
  | u :: us, d =>
    InstallAllowed py env u d ∧
      UpdatesAllowed us (installCollection py env u.collection u.targetVersion u.registry d).1

def Op.Allowed (d : Directory) : Op → Prop
  | .autoUpdate enabled =>
    enabled = true → SweepsClean py d ∧
      ∀ updates ∈ (checkUpdates py env none none d).2.toOption,
        UpdatesAllowed py env (updateParams false updates) d.normalize
  | .applyUpdates updates => UpdatesAllowed py env updates d
  | .applyCollectionRecipes collection recipes version registry =>
    ∀ pulled ∈ (pullVersion py env collection version registry).toOption,
      SweepsClean py d ∧ env.Lists pulled.1 collection pulled.2.1 ∧
        ∀ recipe ∈ recipes, ∀ r ∈ findInLayout py pulled.2.2 recipe,
          RecipeAllowed py d.normalize pulled.1.name collection r

/-- The directory that a run leaves; each call finds a world of its own. -/
def performAll : List (Env × Op) → Directory → Directory
  | [], d => d
  | (env, op) :: run, d => performAll run (perform py env op d)

/-- Every call of a run is allowed where it finds the directory. -/
def RunAllowed : List (Env × Op) → Directory → Prop
  | [], _ => True
  | (env, op) :: run, d => op.Allowed py env d ∧ RunAllowed run (perform py env op d)

end

section
variable {py : Python} {env : Env} {d : Directory}

theorem kept_applyUpdates {updates : List Update} (h : UpdatesAllowed py env updates d) :
    Kept py env.Ships d (applyUpdates py env updates false d).1 := by
  induction updates generalizing d with
  | nil => exact .refl
  | cons u updates ih => exact (kept_installCollection h.1).trans (ih h.2)

theorem kept_runAutoUpdate {enabled : Bool} (h : (Op.autoUpdate enabled).Allowed py env d) :
    Kept py env.Ships d (runAutoUpdate py env enabled false d).1 := by
  rw [runAutoUpdate]
  split_ifs with henabled
  · obtain ⟨hsweep, hupdates⟩ := h henabled
    have hd : (checkUpdates py env none none d).1 = d.normalize := rfl
    split
    · rename_i d' e hcheck
      rw [hcheck] at hd
      exact hd ▸ kept_normalize hsweep
    · rename_i d' updates hcheck
      rw [hcheck] at hd hupdates
      obtain rfl : d' = d.normalize := hd
      exact (kept_normalize hsweep).trans (kept_applyUpdates (hupdates updates rfl))
  · exact .refl

/-- The loop over the recipes of one version. -/
theorem written_applyRecipes (env : Env) (tag : Text) {reg : Registry} {collection : Text}
    {pulled : List PulledRecipe} {shipped : Text → Prop} {recipes : List Text} {d' : Directory}
    (h : Written py reg.name collection shipped d d')
    (hallowed : ∀ recipe ∈ recipes, ∀ r ∈ findInLayout py pulled recipe,
      RecipeAllowed py d reg.name collection r)
    (hshipped : ∀ r ∈ pulled, shipped r.content) :
    Written py reg.name collection shipped d
      (applyRecipes py env reg collection tag pulled false recipes d').1 := by
  induction recipes generalizing d' with
  | nil => exact h
  | cons recipe recipes ih =>
    exact ih (h.applyRecipe (fun r hr ↦ hallowed recipe List.mem_cons_self r hr) hshipped)
      fun recipe' hrecipe ↦ hallowed recipe' (List.mem_cons_of_mem _ hrecipe)

theorem kept_applyCollectionRecipes {collection : Text} {recipes : List Text}
    {version registry : Option Text}
    (h : (Op.applyCollectionRecipes collection recipes version registry).Allowed py env d) :
    Kept py env.Ships d
      (applyCollectionRecipes py env collection recipes version registry false d).1 := by
  rw [applyCollectionRecipes]
  cases hpull : pullVersion py env collection version registry with
  | error e => exact .refl
  | ok pulled =>
    obtain ⟨reg, tag, pulled⟩ := pulled
    obtain ⟨hsweep, hlists, hallowed⟩ := h (reg, tag, pulled) (by rw [hpull]; rfl)
    rw [pullVersion] at hpull
    obtain ⟨⟨reg', tag'⟩, -, hpull⟩ := exists_of_bind_eq_ok hpull
    obtain ⟨files, hfiles, hpull⟩ := exists_of_bind_eq_ok hpull
    obtain ⟨rfl, hrest⟩ := Prod.mk.inj (Except.ok.inj hpull)
    obtain ⟨rfl, rfl⟩ := Prod.mk.inj hrest
    have hwritten := written_applyRecipes env tag' (.refl _) hallowed
      fun r hr ↦ content_mem_of_mem_extractRecipes hr
    refine (kept_normalize hsweep).trans (hwritten.kept fun content hcontent ↦ ?_)
    exact ⟨reg', tag', rfl, hlists, files, .inr hfiles, hcontent⟩

theorem kept_perform {op : Op} (h : op.Allowed py env d) :
    Kept py env.Ships d (perform py env op d) := by
  cases op with
  | autoUpdate enabled => exact kept_runAutoUpdate h
  | applyUpdates updates => exact kept_applyUpdates h
  | applyCollectionRecipes => exact kept_applyCollectionRecipes h

/-- A run keeps the files: each is there at the end, unchanged or with what one of the calls found
its collection to ship in its registry. -/
theorem kept_performAll {run : List (Env × Op)} (h : RunAllowed py run d) :
    Kept py (fun source collection content ↦
      ∃ call ∈ run, call.1.Ships source collection content) d (performAll py run d) := by
  induction run generalizing d with
  | nil => exact .refl
  | cons call run ih =>
    obtain ⟨env, op⟩ := call
    refine (kept_perform h.1).mono (fun _ _ _ hships ↦ ?_) |>.trans
      ((ih h.2).mono fun _ _ _ ⟨call, hcall, hships⟩ ↦ ?_)
    · exact ⟨_, List.mem_cons_self, hships⟩
    · exact ⟨call, List.mem_cons_of_mem _ hcall, hships⟩

theorem performAll_append {run run' : List (Env × Op)} :
    performAll py (run ++ run') d = performAll py run' (performAll py run d) := by
  induction run generalizing d with
  | nil => rfl
  | cons call run ih => exact ih

theorem runAllowed_append {run run' : List (Env × Op)} :
    RunAllowed py (run ++ run') d ↔ RunAllowed py run d ∧ RunAllowed py run' (performAll py run d) := by
  induction run generalizing d with
  | nil => exact ⟨fun h ↦ ⟨trivial, h⟩, fun h ↦ h.2⟩
  | cons call run ih =>
    rw [List.cons_append, RunAllowed, RunAllowed, ih, and_assoc]
    rfl

/-- **Local edits survive.** From any state of an allowed run to any later one, every file is kept:
if its recorded installation did not write what it holds, it holds that still, and what takes the
place of a recipe recorded as installed from a collection of a registry is shipped by this collection
in this registry. -/
theorem local_edits_survive {before during : List (Env × Op)}
    (h : RunAllowed py (before ++ during) d) :
    Kept py (fun source collection content ↦
      ∃ call ∈ during, call.1.Ships source collection content)
      (performAll py before d) (performAll py (before ++ during) d) := by
  rw [performAll_append]
  exact kept_performAll (runAllowed_append.mp h).2

end

/-! ## One update -/

/-- The functions of Python, on what the directories below hold. -/
private def somePython : Python where
  sha256 t :=
    if t = "model: a-1\n".toList then
      "0a81d3506cf7161a0d362527de3e3657d88c12897592f0960e638dc607f8fe18".toList
    else if t = "model: a-2\n".toList then
      "82a68ad0cb2649a5e3e4de97554db3b01a392aeced099ed4427414db75261a1b".toList
    else "1584130952f56e4187f3921d16ee10d97d927133b04c68dcb618fea389a8a1dc".toList
  yamlName _ := none
  int t := if t = "1".toList then some 1 else if t = "0".toList then some 0 else none

/-- A registry that lists version 1.1.0 of a collection of one recipe. -/
private def oneRegistry : Env where
  now := "2026-01-01T00:00:00+00:00".toList
  registries := [{ name := "main".toList, url := "ghcr.io/lab/recipes".toList }]
  indexes _ := [{ tag := "1.1.0".toList, collection := "base".toList, digest := "sha256:d".toList }]
  layout _ _ _ := .ok [("A.yaml".toList, "model: a-2\n".toList)]
  indexLayout _ _ _ := .ok [("A.yaml".toList, "model: a-2\n".toList)]

private def toNewest : Update where
  collection := "base".toList
  targetVersion := "1.1.0".toList
  registry := some "main".toList

/-- The recipe at some content, with the record of version 1.0.0, and a file of the operator's own. -/
private def installedAs (content : Text) : Directory where
  files := ((∅ : AList fun _ : Text ↦ Text).insert "a.yaml".toList content).insert
    "Mine.yaml".toList "model: mine\n".toList
  sidecars := (∅ : AList fun _ : Text ↦ SidecarFile).insert "a".toList <| .mapping
    { source := "main".toList
      collection := "base".toList
      version := "1.0.0".toList
      digest := "sha256:".toList ++ somePython.sha256 "model: a-1\n".toList }

/-- A recipe that is as it was installed is updated, and the file beside it is kept. -/
theorem local_edits_survive_beside_update :
    let d := installedAs "model: a-1\n".toList
    let run := [(oneRegistry, Op.applyUpdates [toNewest])]
    (performAll somePython run d).files.lookup "a.yaml".toList = some "model: a-2\n".toList ∧
      Kept somePython (fun source collection content ↦
        ∃ call ∈ run, call.1.Ships source collection content)
        (performAll somePython [] d) (performAll somePython ([] ++ run) d) := by
  intro d run
  have hallowed : RunAllowed somePython ([] ++ run) d :=
    ⟨⟨by decide +kernel, trivial⟩, trivial⟩
  exact ⟨by decide +kernel, local_edits_survive hallowed⟩

/-- An update that is not to overwrite local edits overwrites one. -/
theorem update_overwrites_edit :
    ¬Kept somePython oneRegistry.Ships (installedAs "model: edited\n".toList)
      (perform somePython oneRegistry (.applyUpdates [toNewest])
        (installedAs "model: edited\n".toList)) := by
  rintro ⟨moved, -, hkept⟩
  have hedited : (installedAs "model: edited\n".toList).Edited somePython.sha256 "a.yaml".toList
      "model: edited\n".toList := by
    constructor
    · decide +kernel
    · decide +kernel
  have hmem : "a.yaml".toList ∈ (installedAs "model: edited\n".toList).files :=
    AList.lookup_isSome.mp (by rw [hedited.1]; rfl)
  have hgone : ∀ e ∈ (perform somePython oneRegistry (.applyUpdates [toNewest])
      (installedAs "model: edited\n".toList)).files.entries, e.2 ≠ "model: edited\n".toList := by
    decide +kernel
  have hstill := ((hkept _ hmem).2.edited _ hedited).1
  exact hgone _ (AList.mem_lookup_iff.mp hstill) rfl

end SparkPulse.Recipes
