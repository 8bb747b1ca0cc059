import SparkPulse.Recipes.Collections

/-!
# Which updates are reported

`list_collections` keeps the version of a collection with the greatest `_version_key`, which does
not read a `v`, and `check_updates` compares it with the version of the first installed recipe only.
Both agree with `_version_sort_key` as long as the two keys have their greatest version in common,
and the first recipe tells whether any recipe is older.
-/

namespace SparkPulse.Recipes

variable (py : Python) (env : Env)

/-- The versions that `list_collections` chooses from. -/
def pool (registryName : Option Text) : List CollectionInfo :=
  match given registryName with
  | none => env.registries.flatMap (published env)
  | some name => (env.registries.filter (·.name = name)).flatMap (published env)

/-- The first of the versions of a collection in a registry with the greatest `_version_key`. -/
def latestIn (results : List CollectionInfo) (key : Text × Text) : Option CollectionInfo :=
  (results.filter fun c ↦ (c.name, c.registry) = key).argmax fun c ↦ versionKey py c.version

/-- What `check_updates` compares with: the first of the latest versions of a collection, with the
greatest text when there are several registries. -/
def offered (collection source : Text) : Option CollectionInfo :=
  (((latestOfEach py (pool env (some source))).filter (·.name = collection)).insertionSort
    fun a b ↦ b.version ≤ a.version).head?

/-- The recipes that were installed from the same collection of the same registry. -/
def groupOf (metas : List RecipeMeta) (m : RecipeMeta) : List RecipeMeta :=
  metas.filter fun m' ↦ m'.collection = m.collection ∧ m'.source = m.source

/-- What `check_updates` reports for the group of a recipe. -/
def reportOf (metas : List RecipeMeta) (m : RecipeMeta) : Option UpdateInfo :=
  updateOf py env (groupOf metas m) m.collection m.source

/-! ## Going forward -/

/-- Updates only go forward, when these recipes are installed. -/
structure GoesForward (metas : List RecipeMeta) : Prop where
  /-- What is listed is the greatest version there is. -/
  greatest : ∀ registryName collections, listCollections py env registryName = .ok collections →
    ∀ c ∈ collections, ∀ c' ∈ pool env registryName, c'.name = c.name → c'.registry = c.registry →
      versionSortKey py c'.version ≤ versionSortKey py c.version
  /-- What is reported is newer than something that is installed. -/
  newer : ∀ m ∈ metas, ∀ u ∈ reportOf py env metas m,
    ∃ m' ∈ groupOf metas m, versionSortKey py m'.version < versionSortKey py u.latestVersion
  /-- What is newer is reported. -/
  reported : ∀ m ∈ metas, ∀ c ∈ pool env (some m.source), c.name = m.collection →
    (∃ m' ∈ groupOf metas m, versionSortKey py m'.version < versionSortKey py c.version) →
      (reportOf py env metas m).isSome = true

/-- The two keys agree on what is greatest, and the first recipe tells whether one is older. -/
structure KeysAgree (metas : List RecipeMeta) : Prop where
  greatest : ∀ registryName, ∀ c ∈ pool env registryName,
    c ∈ latestIn py (pool env registryName) (c.name, c.registry) →
      ∀ c' ∈ pool env registryName, c'.name = c.name → c'.registry = c.registry →
        versionSortKey py c'.version ≤ versionSortKey py c.version
  /-- When the first recipe has another version than the one offered, one is older than that. -/
  different : ∀ m ∈ metas, ∀ first ∈ (groupOf metas m).head?,
    ∀ c ∈ offered py env m.collection m.source, first.version ≠ c.version →
      ∃ m' ∈ groupOf metas m, versionSortKey py m'.version < versionSortKey py c.version
  /-- When it has the version offered, none is older than any that is published. -/
  same : ∀ m ∈ metas, ∀ first ∈ (groupOf metas m).head?,
    ∀ c ∈ offered py env m.collection m.source, first.version = c.version →
      ∀ c' ∈ pool env (some m.source), c'.name = m.collection → ∀ m' ∈ groupOf metas m,
        versionSortKey py c'.version ≤ versionSortKey py m'.version

section
variable {py env} {registryName collection registry : Option Text} {results : List CollectionInfo}
  {collections : List CollectionInfo} {c : CollectionInfo} {metas : List RecipeMeta}
  {m : RecipeMeta} {d : Directory} {u : UpdateInfo}

theorem mem_latestOfEach_iff :
    c ∈ latestOfEach py results ↔ c ∈ latestIn py results (c.name, c.registry) := by
  rw [latestOfEach, List.mem_filterMap]
  constructor
  · rintro ⟨key, -, hc⟩
    have hkey : (c.name, c.registry) = key := by
      simpa using (List.mem_filter.mp (List.argmax_mem hc)).2
    rw [hkey]
    exact hc
  · intro hc
    refine ⟨(c.name, c.registry), ?_, hc⟩
    rw [List.mem_eraseDups, List.mem_map]
    exact ⟨c, List.mem_of_mem_filter (List.argmax_mem hc), rfl⟩

theorem mem_of_mem_latestOfEach (h : c ∈ latestOfEach py results) : c ∈ results :=
  List.mem_of_mem_filter (List.argmax_mem (mem_latestOfEach_iff.mp h))

/-- Where something is published, some version of it is the latest. -/
theorem exists_mem_latestOfEach (py : Python) (h : c ∈ results) :
    ∃ c' ∈ latestOfEach py results, c'.name = c.name ∧ c'.registry = c.registry := by
  have hne : latestIn py results (c.name, c.registry) ≠ none := by
    rw [latestIn, Ne, List.argmax_eq_none]
    exact List.ne_nil_of_mem (List.mem_filter.mpr ⟨h, by simp⟩)
  obtain ⟨c', hc'⟩ := Option.ne_none_iff_exists'.mp hne
  have hkey : (c'.name, c'.registry) = (c.name, c.registry) := by
    simpa using (List.mem_filter.mp (List.argmax_mem hc')).2
  refine ⟨c', mem_latestOfEach_iff.mpr (hkey ▸ hc'), (Prod.mk.inj hkey).1, (Prod.mk.inj hkey).2⟩

/-- What is listed are the latest versions of the pool, which is empty when nothing is listed. -/
theorem listCollections_cases (py : Python) (env : Env) (registryName : Option Text) :
    listCollections py env registryName = .ok (latestOfEach py (pool env registryName)) ∨
      (∃ e, listCollections py env registryName = .error e) ∧ pool env registryName = [] := by
  rw [listCollections, pool]
  rcases given registryName with _ | name
  · exact Or.inl rfl
  · by_cases hany : env.registries.any (·.name = name) = true
    · exact Or.inl (if_pos hany)
    · refine Or.inr ⟨⟨_, if_neg hany⟩, ?_⟩
      have hnone : env.registries.filter (·.name = name) = [] := by
        rw [List.filter_eq_nil_iff]
        intro reg hreg hname
        exact hany (List.any_eq_true.mpr ⟨reg, hreg, hname⟩)
      change (env.registries.filter (·.name = name)).flatMap (published env) = []
      rw [hnone]
      rfl

/-- **What is reported for a group.** -/
theorem reportOf_eq_some_iff : reportOf py env metas m = some u ↔
    ∃ c ∈ offered py env m.collection m.source, ∃ first ∈ (groupOf metas m).head?,
      first.version ≠ c.version ∧ u =
        { collection := m.collection
          currentVersion := first.version
          latestVersion := c.version
          currentDigest := first.digest
          latestDigest := c.digest
          localChanges := (groupOf metas m).any (·.localChanges) } := by
  rw [reportOf, updateOf, offered]
  rcases listCollections_cases py env (some m.source) with hok | ⟨⟨e, herror⟩, hnone⟩
  · rw [hok]
    dsimp only
    split
    next c rest first others hc hfirst =>
      simp only [hc, hfirst, List.head?_cons, Option.mem_def, Option.some.injEq, exists_eq_left']
      by_cases hsame : first.version = c.version
      · simp [hsame]
      · simp [hsame, eq_comm]
    next hnone =>
      refine iff_of_false (by simp) ?_
      rintro ⟨c, hc, first, hfirst, -⟩
      obtain ⟨rest, hrest⟩ := List.head?_eq_some_iff.mp hc
      obtain ⟨others, hothers⟩ := List.head?_eq_some_iff.mp hfirst
      exact hnone _ _ _ _ hrest hothers
  · rw [herror, hnone]
    simp [latestOfEach]

theorem not_any_ne_iff {asked : Option Text} {t : Text} :
    ¬asked.any (· ≠ t) = true ↔ ∀ name ∈ asked, name = t := by
  rcases asked with _ | name <;> simp

/-- What `check_updates` returns is what it reports for the groups that are asked for. -/
theorem mem_checkUpdates_iff (hmetas : (listOciRecipes py d).2 = .ok metas)
    {updates : List UpdateInfo}
    (h : (checkUpdates py env collection registry d).2 = .ok updates) : u ∈ updates ↔
      ∃ m ∈ metas, (∀ name ∈ given collection, name = m.collection) ∧
        (∀ name ∈ given registry, name = m.source) ∧ reportOf py env metas m = some u := by
  simp only [checkUpdates, hmetas, Except.map] at h
  obtain rfl := Except.ok.inj h
  rw [List.mem_filterMap]
  constructor
  · rintro ⟨⟨coll, reg⟩, hkey, hu⟩
    rw [List.mem_eraseDups, List.mem_map] at hkey
    obtain ⟨m, hm, hkey⟩ := hkey
    obtain ⟨rfl, rfl⟩ := Prod.mk.inj hkey
    dsimp only at hu
    split_ifs at hu with hskip
    obtain ⟨hcoll, hreg⟩ := not_or.mp hskip
    exact ⟨m, hm, not_any_ne_iff.mp hcoll, not_any_ne_iff.mp hreg, hu⟩
  · rintro ⟨m, hm, hcoll, hreg, hu⟩
    refine ⟨(m.collection, m.source), List.mem_eraseDups.mpr (List.mem_map.mpr ⟨m, hm, rfl⟩), ?_⟩
    exact (if_neg (not_or.mpr ⟨not_any_ne_iff.mpr hcoll, not_any_ne_iff.mpr hreg⟩)).trans hu

theorem exists_mem_offered (py : Python) {source : Text} (h : c ∈ pool env (some source)) :
    ∃ c', c' ∈ offered py env c.name source := by
  obtain ⟨c', hc', hname, -⟩ := exists_mem_latestOfEach py h
  refine Option.isSome_iff_exists.mp (List.isSome_head?.mpr fun hnil ↦ ?_)
  have hmem : c' ∈ (latestOfEach py (pool env (some source))).filter (·.name = c.name) :=
    List.mem_filter.mpr ⟨hc', by simpa using hname⟩
  rw [← List.mem_insertionSort fun a b : CollectionInfo ↦ b.version ≤ a.version, hnil] at hmem
  cases hmem

/-- What is offered is published. -/
theorem mem_pool_of_mem_offered {coll source : Text} (h : c ∈ offered py env coll source) :
    c ∈ pool env (some source) ∧ c.name = coll := by
  have hmem := (List.mem_insertionSort _).mp (List.mem_of_head? h)
  obtain ⟨hlatest, hname⟩ := List.mem_filter.mp hmem
  exact ⟨mem_of_mem_latestOfEach hlatest, by simpa using hname⟩

theorem mem_groupOf_self (h : m ∈ metas) : m ∈ groupOf metas m :=
  List.mem_filter.mpr ⟨h, by simp⟩

/-- **Updates only go forward**, exactly when the two keys agree on what is greatest and the first
recipe of each group tells whether one of them is older. -/
theorem goesForward_iff : GoesForward py env metas ↔ KeysAgree py env metas := by
  constructor
  · intro h
    refine ⟨fun registryName c hc hlatest c' hc' ↦ ?_, fun m hm first hfirst c hc hne ↦ ?_,
      fun m hm first hfirst c hc hsame c' hc' hname m' hm' ↦ ?_⟩
    · rcases listCollections_cases py env registryName with hok | ⟨-, hnone⟩
      · exact h.greatest registryName _ hok c (mem_latestOfEach_iff.mpr hlatest) c' hc'
      · rw [hnone] at hc
        cases hc
    · exact h.newer m hm _ (reportOf_eq_some_iff.mpr ⟨c, hc, first, hfirst, hne, rfl⟩)
    · by_contra hlt
      have hsome := h.reported m hm c' hc' hname ⟨m', hm', not_le.mp hlt⟩
      obtain ⟨u, hu⟩ := Option.isSome_iff_exists.mp hsome
      obtain ⟨c'', hc'', first', hfirst', hne, -⟩ := reportOf_eq_some_iff.mp hu
      obtain rfl := Option.some.inj (hc.symm.trans hc'')
      obtain rfl := Option.some.inj (hfirst.symm.trans hfirst')
      exact hne hsame
  · intro h
    refine ⟨fun registryName collections hok c hc c' hc' ↦ ?_, fun m hm u hu ↦ ?_,
      fun m hm c' hc' hname hnewer ↦ ?_⟩
    · rcases listCollections_cases py env registryName with hok' | ⟨⟨e, herror⟩, -⟩
      · obtain rfl := Except.ok.inj (hok.symm.trans hok')
        exact h.greatest registryName c (mem_of_mem_latestOfEach hc) (mem_latestOfEach_iff.mp hc)
          c' hc'
      · rw [herror] at hok
        cases hok
    · obtain ⟨c, hc, first, hfirst, hne, rfl⟩ := reportOf_eq_some_iff.mp hu
      exact h.different m hm first hfirst c hc hne
    · obtain ⟨c, hc⟩ := exists_mem_offered py hc'
      rw [hname] at hc
      obtain ⟨first, hfirst⟩ := Option.isSome_iff_exists.mp
        (List.isSome_head?.mpr (List.ne_nil_of_mem (mem_groupOf_self hm)))
      obtain ⟨m', hm', hlt⟩ := hnewer
      have hne : first.version ≠ c.version := fun hsame ↦
        absurd (h.same m hm first hfirst c hc hsame c' hc' hname m' hm') (not_le.mpr hlt)
      rw [reportOf_eq_some_iff.mpr ⟨c, hc, first, hfirst, hne, rfl⟩]
      rfl

end

/-- Numbers that are written in one digit. -/
private def oneDigit (t : Text) : Option ℤ :=
  match t with
  | [c] => if c.isDigit then some (c.toNat - '0'.toNat) else none
  | _ => none

private def oneDigitPython : Python := ⟨id, fun _ ↦ none, oneDigit⟩

/-- A registry that has tagged one collection first as `1` and then as `v2`. -/
private def taggedTwice : Env where
  now := []
  registries := [{ name := "r".toList, url := "ghcr.io/r".toList }]
  indexes _ := [⟨"1".toList, "c".toList, "d".toList⟩, ⟨"v2".toList, "c".toList, "e".toList⟩]
  layout _ _ _ := .error []
  indexLayout _ _ _ := .error []

/-- Version `1` of the collection is installed. -/
private def oneInstalled : Directory where
  files := [(⟨"a.yaml".toList, []⟩ : Sigma fun _ : Text ↦ Text)].toAList
  sidecars := [(⟨"a".toList, .mapping
    { source := "r".toList, collection := "c".toList, version := "1".toList }⟩ :
      Sigma fun _ : Text ↦ SidecarFile)].toAList

private def installedMeta : RecipeMeta where
  name := "a.yaml".toList
  source := "r".toList
  collection := "c".toList
  version := "1".toList
  digest := []
  installedAt := []
  updatedAt := []
  localChanges := true
  displayName := []
  previousNames := []

end SparkPulse.Recipes
