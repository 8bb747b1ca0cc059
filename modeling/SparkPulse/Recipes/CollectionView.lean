import SparkPulse.Data.FirstCome
import SparkPulse.Recipes.Collections
import SparkPulse.Recipes.Slugs

/-!
# The view of a collection

`match_installed` and `recipe_states`: what is installed of the recipes that a collection lists. A
recipe is recognised by its stem, by the name it displayed, or by a name it had, in three passes,
each of which asks for the first recipe that fits, be it taken or not.
-/

open FirstCome (Given)

namespace SparkPulse.Recipes

/-! ## Matching -/

/-- The stem of an installed recipe. -/
def RecipeMeta.stem (m : RecipeMeta) : Text := recipeStem m.name

/-- The installed recipes that are given to listed names. -/
abbrev Matching := Given Text RecipeMeta.stem

section
variable (metas : List RecipeMeta) (fileStems : AList fun _ : Text ↦ Text)

/-- `file_stems.get(name, "")` -/
def fileStem (name : Text) : Text := (fileStems.lookup name).getD []

/-- `by_stem.get(stem)`; of several recipes with one stem, the last one. -/
def byStem (stem : Text) : Option RecipeMeta := metas.reverse.find? fun m ↦ m.stem = stem

/-- The claims by slug and by file stem. -/
def claimsByStem (name : Text) : List (Text × RecipeMeta) :=
  ([recipeSlug name, fileStem fileStems name].filter (· ≠ [])).filterMap fun stem ↦
    (byStem metas stem).map fun m ↦ (name, m)

/-- The claim by the recorded display name. -/
def claimByDisplayName (name : Text) : Option (Text × RecipeMeta) :=
  (metas.find? fun m ↦ m.displayName = name).map fun m ↦ (name, m)

/-- The claim by a previous name. -/
def claimByPreviousName (name : Text) : Option (Text × RecipeMeta) :=
  (metas.find? fun m ↦ name ∈ m.previousNames).map fun m ↦ (name, m)

/-- The first pass. -/
def matchedByStem (listed : List Text) : Matching :=
  Given.empty.askAll (listed.flatMap (claimsByStem metas fileStems))

/-- The second pass. -/
def matchedByDisplayName (listed : List Text) : Matching :=
  (matchedByStem metas fileStems listed).askAll (listed.filterMap (claimByDisplayName metas))

/-- `match_installed` -/
def matchInstalled (listed : List Text) : Matching :=
  (matchedByDisplayName metas fileStems listed).askAll
    (listed.filterMap (claimByPreviousName metas))

end

/-! ## States -/

structure CollectionRecipe where
  name : Text
  description : Text
  model : Text
  container : Text
  soloOnly : Bool := false
  clusterOnly : Bool := false
  serves : Text := "chat".toList
  deriving DecidableEq

/-- `RECIPE_STATES` -/
inductive RecipeState
  | notInstalled
  | installed
  | update
  | localEdits
  | removed
  deriving DecidableEq

/-- A row of the view, and the installed recipe that it shows. -/
structure RecipeRow where
  recipe : Option RecipeMeta
  name : Text
  recipeId : Text
  description : Text
  model : Text
  container : Text
  soloOnly : Bool
  clusterOnly : Bool
  serves : Text
  state : RecipeState
  installedVersion : Text
  updateAvailable : Bool
  localChanges : Bool
  deriving DecidableEq

section
variable (latestDigests : Option (AList fun _ : Text ↦ Text))
  (fileStems : AList fun _ : Text ↦ Text)

/-- `(latest_digests or {}).get(name, "")` -/
def latestDigest (name : Text) : Text :=
  (latestDigests.bind fun digests ↦ digests.lookup name).getD []

/-- `update_available` -/
def updateAvailable (name : Text) (m : RecipeMeta) : Bool :=
  latestDigest latestDigests name ≠ [] ∧ latestDigest latestDigests name ≠ m.digest

/-- The row of a listed recipe. -/
def listedRow (r : CollectionRecipe) (recipe : Option RecipeMeta) : RecipeRow where
  recipe := recipe
  name := r.name
  recipeId := installedRecipeId <|
    match recipe with
    | some m => m.stem
    | none => if fileStem fileStems r.name ≠ [] then fileStem fileStems r.name
      else recipeSlug r.name
  description := r.description
  model := r.model
  container := r.container
  soloOnly := r.soloOnly
  clusterOnly := r.clusterOnly
  serves := r.serves
  state :=
    match recipe with
    | none => .notInstalled
    | some m =>
      if m.localChanges then .localEdits
      else if updateAvailable latestDigests r.name m then .update
      else .installed
  installedVersion := (recipe.map RecipeMeta.version).getD []
  updateAvailable := recipe.any (updateAvailable latestDigests r.name)
  localChanges := recipe.any RecipeMeta.localChanges

/-- The row of a recipe that is not listed any more. -/
def removedRow (m : RecipeMeta) : RecipeRow where
  recipe := some m
  name := if m.displayName ≠ [] then m.displayName else m.stem
  recipeId := installedRecipeId m.stem
  description := []
  model := []
  container := []
  soloOnly := false
  clusterOnly := false
  serves := "chat".toList
  state := .removed
  installedVersion := m.version
  updateAvailable := false
  localChanges := m.localChanges

/-- `recipe_states` -/
def recipeStates (listed : List CollectionRecipe) (metas : List RecipeMeta) : List RecipeRow :=
  let matched := matchInstalled metas fileStems (listed.map CollectionRecipe.name)
  listed.map (fun r ↦ listedRow latestDigests fileStems r (matched.gift r.name)) ++
    (metas.filter fun m ↦ m.stem ∉ matched.taken).map removedRow

end

/-! ## What the view should be -/

/-- What a listed name can have in common with an installed recipe, the strongest first. -/
inductive Evidence
  | stem
  | displayName
  | previousName
  deriving DecidableEq

def Evidence.rank : Evidence → ℕ
  | stem => 0
  | displayName => 1
  | previousName => 2

/-- A listed name matches an installed recipe. -/
def Matches (fileStems : AList fun _ : Text ↦ Text) (name : Text) (m : RecipeMeta) :
    Evidence → Prop
  | .stem => m.stem ≠ [] ∧ (m.stem = recipeSlug name ∨ m.stem = fileStem fileStems name)
  | .displayName => m.displayName = name
  | .previousName => name ∈ m.previousNames

/-- The view accounts for every recipe. -/
structure Accounted (listed : List CollectionRecipe) (metas : List RecipeMeta)
    (latestDigests : Option (AList fun _ : Text ↦ Text)) (fileStems : AList fun _ : Text ↦ Text) :
    Prop where
  /-- No installed recipe is given to two listed names. -/
  once : ∀ p ∈ (matchInstalled metas fileStems (listed.map CollectionRecipe.name)).pairs,
    ∀ q ∈ (matchInstalled metas fileStems (listed.map CollectionRecipe.name)).pairs,
      p.2.stem = q.2.stem → p.1 = q.1
  /-- There is evidence for what is given to a listed name. -/
  founded : ∀ p ∈ (matchInstalled metas fileStems (listed.map CollectionRecipe.name)).pairs,
    p.1 ∈ listed.map CollectionRecipe.name ∧ p.2 ∈ metas ∧
      ∃ evidence, Matches fileStems p.1 p.2 evidence
  /-- There is none that is stronger for a recipe that was not given to others before. -/
  strongest : ∀ before p after,
    (matchInstalled metas fileStems (listed.map CollectionRecipe.name)).pairs =
      before ++ p :: after →
    ∀ m ∈ metas, m.stem ∉ before.map (fun q ↦ q.2.stem) →
      ∀ evidence, Matches fileStems p.1 m evidence →
        ∃ e, Matches fileStems p.1 p.2 e ∧ e.rank ≤ evidence.rank
  /-- Every listed entry has one row. -/
  entries : ((recipeStates latestDigests fileStems listed metas).filter fun row ↦
    row.state ≠ .removed).map RecipeRow.name = listed.map CollectionRecipe.name
  /-- An installed recipe is shown in the row of what it is given to, or as removed. -/
  shown : ∀ row ∈ recipeStates latestDigests fileStems listed metas, ∀ m, row.recipe = some m →
    row.state = .removed ∨
      (row.name, m) ∈ (matchInstalled metas fileStems (listed.map CollectionRecipe.name)).pairs
  /-- It is shown in one row. -/
  single : ∀ m ∈ metas, ((recipeStates latestDigests fileStems listed metas).filter fun row ↦
    row.recipe.map RecipeMeta.stem = some m.stem).length = 1

/-- Installed recipes that no view confuses: their stems are different; and where the first recipe
of several with one display name can be given to another name, the others are found by the slug of
that name, or it is no previous name that would be found instead. -/
structure Distinguished (metas : List RecipeMeta) : Prop where
  stems_nodup : (metas.map RecipeMeta.stem).Nodup
  found : ∀ name first second third,
    (metas.find? fun m ↦ m.displayName = name) = some first →
    second ∈ metas → second.displayName = name → second ≠ first →
    (metas.find? fun m ↦ name ∈ m.previousNames) = some third → third.displayName ≠ name →
      first.stem = [] ∨ recipeSlug name ≠ [] ∧
        (recipeSlug name = second.stem ∨ recipeSlug name = third.stem)

/-! ## Claims -/

section
variable {metas : List RecipeMeta} {fileStems : AList fun _ : Text ↦ Text} {listed : List Text}
  {name : Text} {m : RecipeMeta} {p : Text × RecipeMeta}

theorem mem_of_find? {P : RecipeMeta → Prop} [DecidablePred P]
    (h : metas.find? (fun m ↦ P m) = some m) : m ∈ metas ∧ P m := by
  have hm := List.find?_some h
  exact ⟨List.mem_of_find?_eq_some h, of_decide_eq_true hm⟩

theorem exists_find? {P : RecipeMeta → Prop} [DecidablePred P] (hm : m ∈ metas) (h : P m) :
    ∃ first, metas.find? (fun m ↦ P m) = some first := by
  refine Option.isSome_iff_exists.mp ?_
  rw [List.find?_isSome]
  exact ⟨m, hm, decide_eq_true h⟩

theorem byStem_eq_some {stem : Text} (h : byStem metas stem = some m) :
    m ∈ metas ∧ m.stem = stem :=
  (mem_of_find? h).imp_left List.mem_reverse.mp

theorem exists_byStem (hm : m ∈ metas) : ∃ m', byStem metas m.stem = some m' :=
  exists_find? (List.mem_reverse.mpr hm) rfl

theorem mem_claimsByStem (h : p ∈ listed.flatMap (claimsByStem metas fileStems)) :
    p.1 ∈ listed ∧ p.2 ∈ metas ∧ Matches fileStems p.1 p.2 .stem := by
  obtain ⟨name, hname, h⟩ := List.mem_flatMap.mp h
  obtain ⟨stem, hstem, h⟩ := List.mem_filterMap.mp h
  obtain ⟨m, hm, rfl⟩ := Option.map_eq_some_iff.mp h
  obtain ⟨hmem, rfl⟩ := byStem_eq_some hm
  obtain ⟨hstem, hne⟩ := List.mem_filter.mp hstem
  refine ⟨hname, hmem, of_decide_eq_true hne, ?_⟩
  simpa using hstem

theorem mem_claimByDisplayName (h : p ∈ listed.filterMap (claimByDisplayName metas)) :
    p.1 ∈ listed ∧ metas.find? (fun m ↦ m.displayName = p.1) = some p.2 := by
  obtain ⟨name, hname, h⟩ := List.mem_filterMap.mp h
  obtain ⟨m, hm, rfl⟩ := Option.map_eq_some_iff.mp h
  exact ⟨hname, hm⟩

theorem mem_claimByPreviousName (h : p ∈ listed.filterMap (claimByPreviousName metas)) :
    p.1 ∈ listed ∧ metas.find? (fun m ↦ p.1 ∈ m.previousNames) = some p.2 := by
  obtain ⟨name, hname, h⟩ := List.mem_filterMap.mp h
  obtain ⟨m, hm, rfl⟩ := Option.map_eq_some_iff.mp h
  exact ⟨hname, hm⟩

/-- After the first pass, a listed name has a recipe, or those of its stems are gone. -/
theorem not_open_matchedByStem (hname : name ∈ listed) (hm : m ∈ metas)
    (h : Matches fileStems name m .stem) :
    ¬(matchedByStem metas fileStems listed).Open (name, m) := by
  obtain ⟨hne, hstem⟩ := h
  obtain ⟨m', hm'⟩ := exists_byStem hm
  have hclaim : (name, m') ∈ listed.flatMap (claimsByStem metas fileStems) := by
    refine List.mem_flatMap.mpr ⟨name, hname, List.mem_filterMap.mpr ⟨m.stem, ?_, ?_⟩⟩
    · exact List.mem_filter.mpr ⟨by simpa using hstem, decide_eq_true hne⟩
    · rw [hm', Option.map_some]
  have hstem' := (byStem_eq_some hm').2
  refine fun hopen ↦ Given.not_open_askAll hclaim ⟨hopen.1, ?_⟩
  rw [hstem']
  exact hopen.2

/-- After the second pass, a listed name has a recipe, or the first that displayed it is gone. -/
theorem not_open_matchedByDisplayName (hname : name ∈ listed)
    (hm : metas.find? (fun m ↦ m.displayName = name) = some m) :
    ¬(matchedByDisplayName metas fileStems listed).Open (name, m) := by
  refine Given.not_open_askAll (List.mem_filterMap.mpr ⟨name, hname, ?_⟩)
  rw [claimByDisplayName, hm, Option.map_some]

/-- What the first two passes give has a stem, or displays the name it is given to. -/
theorem mem_matchedByDisplayName
    (h : p ∈ (matchedByDisplayName metas fileStems listed).pairs) :
    p.2.stem ≠ [] ∨ p.2 ∈ metas ∧ p.2.displayName = p.1 := by
  rcases Given.mem_askAll h with h | h
  · rcases Given.mem_askAll h with h | h
    · cases h
    · exact .inl (mem_claimsByStem h).2.2.1
  · exact .inr (mem_of_find? (mem_claimByDisplayName h).2)

theorem founded_matchInstalled (h : p ∈ (matchInstalled metas fileStems listed).pairs) :
    p.1 ∈ listed ∧ p.2 ∈ metas ∧ ∃ evidence, Matches fileStems p.1 p.2 evidence := by
  rcases Given.mem_askAll h with h | h
  · rcases Given.mem_askAll h with h | h
    · rcases Given.mem_askAll h with h | h
      · cases h
      · obtain ⟨hname, hmem, hmatches⟩ := mem_claimsByStem h
        exact ⟨hname, hmem, .stem, hmatches⟩
    · obtain ⟨hname, hfind⟩ := mem_claimByDisplayName h
      obtain ⟨hmem, hdisplay⟩ := mem_of_find? hfind
      exact ⟨hname, hmem, .displayName, hdisplay⟩
  · obtain ⟨hname, hfind⟩ := mem_claimByPreviousName h
    obtain ⟨hmem, hprevious⟩ := mem_of_find? hfind
    exact ⟨hname, hmem, .previousName, hprevious⟩

/-- **The strongest evidence decides**, where no view confuses the recipes. -/
theorem strongest_matchInstalled (hmetas : Distinguished metas)
    {before after : List (Text × RecipeMeta)}
    (hsplit : (matchInstalled metas fileStems listed).pairs = before ++ p :: after)
    (hm : m ∈ metas) (hfree : m.stem ∉ before.map fun q ↦ q.2.stem) {evidence : Evidence}
    (hevidence : Matches fileStems p.1 m evidence) :
    ∃ e, Matches fileStems p.1 p.2 e ∧ e.rank ≤ evidence.rank := by
  have hp : p ∈ (matchInstalled metas fileStems listed).pairs :=
    hsplit ▸ List.mem_append_right _ List.mem_cons_self
  have hname := (founded_matchInstalled hp).1
  have hfirst := (Given.not_mem_of_split hsplit).1
  -- a recipe that the name's stems find was asked for in the first pass
  have hstem : (matchedByStem metas fileStems listed).pairs <+: before →
      ¬Matches fileStems p.1 m .stem := fun hearly hmatches ↦
    not_open_matchedByStem hname hm hmatches (Given.open_of_isPrefix hearly hfirst hfree)
  rcases Given.split_askAll hsplit with ⟨rest, hsplit⟩ | ⟨hclaim, hearly⟩
  · rcases Given.split_askAll hsplit with ⟨rest, hsplit⟩ | ⟨hclaim, hearly⟩
    · have hmem : p ∈ (matchedByStem metas fileStems listed).pairs :=
        hsplit ▸ List.mem_append_right _ List.mem_cons_self
      rcases Given.mem_askAll hmem with hmem | hmem
      · cases hmem
      · exact ⟨.stem, (mem_claimsByStem hmem).2.2, Nat.zero_le _⟩
    · refine ⟨.displayName, (mem_of_find? (mem_claimByDisplayName hclaim).2).2, ?_⟩
      rcases evidence with _ | _ | _
      · exact absurd hevidence (hstem hearly)
      · exact le_rfl
      · exact Nat.le_succ _
  · have hthird := (mem_claimByPreviousName hclaim).2
    have hearlier := List.IsPrefix.trans Given.prefix_askAll hearly
    rcases evidence with _ | _ | _
    · exact absurd hevidence (hstem hearlier)
    · by_cases hdisplay : p.2.displayName = p.1
      · exact ⟨.displayName, hdisplay, le_rfl⟩
      -- the first recipe that displayed the name was given to another one
      obtain ⟨first, hfind⟩ : ∃ first, metas.find? (fun m ↦ m.displayName = p.1) = some first :=
        exists_find? hm hevidence
      have hgone : ¬(matchedByDisplayName metas fileStems listed).Open (p.1, first) :=
        not_open_matchedByDisplayName hname hfind
      have hne : m ≠ first := by
        rintro rfl
        exact hgone (Given.open_of_isPrefix hearly hfirst hfree)
      rcases hmetas.found p.1 first m p.2 hfind hm hevidence hne hthird hdisplay with
        hnil | ⟨hslug, hslug' | hslug'⟩
      · have htaker : p.1 ∉ (matchedByDisplayName metas fileStems listed).takers :=
          fun h ↦ hfirst ((hearly.map _).subset h)
        obtain ⟨q, hq, hstems⟩ := List.mem_map.mp
          (not_not.mp fun h ↦ hgone ⟨htaker, h⟩)
        rcases mem_matchedByDisplayName hq with hne | ⟨hmem, hdisplay⟩
        · exact absurd (hstems.trans hnil) hne
        · obtain ⟨hmem', hdisplay'⟩ := mem_of_find? hfind
          have hsame := List.inj_on_of_nodup_map hmetas.stems_nodup hmem hmem' hstems
          rw [hsame, hdisplay'] at hdisplay
          exact absurd (hdisplay ▸ List.mem_map_of_mem hq) htaker
      · exact absurd ⟨hslug' ▸ hslug, .inl hslug'.symm⟩ (hstem hearlier)
      · exact ⟨.stem, ⟨hslug' ▸ hslug, .inl hslug'.symm⟩, Nat.zero_le _⟩
    · exact ⟨.previousName, (mem_of_find? hthird).2, le_rfl⟩

end

/-! ## Rows -/

section
variable {metas : List RecipeMeta} {fileStems : AList fun _ : Text ↦ Text}
  {latestDigests : Option (AList fun _ : Text ↦ Text)} {listed : List CollectionRecipe}
  {m : RecipeMeta}

theorem entries_recipeStates :
    ((recipeStates latestDigests fileStems listed metas).filter fun row ↦
      row.state ≠ .removed).map RecipeRow.name = listed.map CollectionRecipe.name := by
  have hlisted : ∀ (r : CollectionRecipe) (recipe : Option RecipeMeta),
      (listedRow latestDigests fileStems r recipe).state ≠ .removed := by
    intro r recipe
    unfold listedRow
    rcases recipe with _ | m
    · exact nofun
    · dsimp only
      split_ifs <;> exact nofun
  rw [recipeStates, List.filter_append, List.filter_eq_self.mpr, List.filter_eq_nil_iff.mpr,
    List.append_nil, List.map_map]
  · rfl
  · intro row hrow
    obtain ⟨m, -, rfl⟩ := List.mem_map.mp hrow
    simp [removedRow]
  · intro row hrow
    obtain ⟨r, -, rfl⟩ := List.mem_map.mp hrow
    exact decide_eq_true (hlisted r _)

theorem shown_recipeStates {row : RecipeRow}
    (hrow : row ∈ recipeStates latestDigests fileStems listed metas) (hm : row.recipe = some m) :
    row.state = .removed ∨ (row.name, m) ∈
      (matchInstalled metas fileStems (listed.map CollectionRecipe.name)).pairs := by
  rcases List.mem_append.mp hrow with hrow | hrow
  · obtain ⟨r, -, rfl⟩ := List.mem_map.mp hrow
    exact .inr (Given.gift_eq_some_iff.mp hm)
  · obtain ⟨m, -, rfl⟩ := List.mem_map.mp hrow
    exact .inl rfl

theorem count_map_eq {α β : Type} [BEq β] [LawfulBEq β] [DecidableEq β] (f : α → β) (l : List α)
    (b : β) : (l.map f).count b = (l.filter fun a ↦ f a = b).length := by
  rw [List.count, List.countP_map, List.countP_eq_length_filter]
  exact congrArg List.length (List.filter_congr fun a _ ↦ beq_eq_decide (f a) b)

theorem length_filter_eq_one {α β : Type} [DecidableEq β] {f : α → β} {l : List α} {a : α}
    (hl : (l.map f).Nodup) (ha : a ∈ l) : (l.filter fun b ↦ f b = f a).length = 1 := by
  rw [← count_map_eq]
  exact List.count_eq_one_of_mem hl (List.mem_map_of_mem ha)

/-- The rows that show a recipe: those of the listed names it is given to, or those of the removed
recipes of its stem. -/
theorem length_shown (m : RecipeMeta) :
    ((recipeStates latestDigests fileStems listed metas).filter fun row ↦
      row.recipe.map RecipeMeta.stem = some m.stem).length =
    (listed.filter fun r ↦
      ((matchInstalled metas fileStems (listed.map CollectionRecipe.name)).gift r.name).map
        RecipeMeta.stem = some m.stem).length +
    (metas.filter fun m' ↦ m'.stem = m.stem ∧ m'.stem ∉
      (matchInstalled metas fileStems (listed.map CollectionRecipe.name)).taken).length := by
  rw [recipeStates, List.filter_append, List.length_append, List.filter_map, List.filter_map,
    List.length_map, List.length_map, List.filter_filter]
  refine congrArg₂ (· + ·) rfl (congrArg List.length (List.filter_congr fun m' _ ↦ ?_))
  simp [removedRow]

/-- **Every recipe is shown once**, where stems are different and names are listed once. -/
theorem single_recipeStates (hmetas : (metas.map RecipeMeta.stem).Nodup)
    (hlisted : (listed.map CollectionRecipe.name).Nodup) (hm : m ∈ metas) :
    ((recipeStates latestDigests fileStems listed metas).filter fun row ↦
      row.recipe.map RecipeMeta.stem = some m.stem).length = 1 := by
  rw [length_shown]
  by_cases htaken :
      m.stem ∈ (matchInstalled metas fileStems (listed.map CollectionRecipe.name)).taken
  · obtain ⟨p, hp, hstem⟩ := List.mem_map.mp htaken
    obtain ⟨r, hr, hname⟩ := List.mem_map.mp (founded_matchInstalled hp).1
    -- the names that the recipe is given to are the one of this pair
    have hgiven : ∀ r' : CollectionRecipe,
        ((matchInstalled metas fileStems (listed.map CollectionRecipe.name)).gift r'.name).map
          RecipeMeta.stem = some m.stem ↔ r'.name = r.name := by
      intro r'
      constructor
      · intro h
        obtain ⟨m', hm', heq⟩ := Option.map_eq_some_iff.mp h
        have hsame := List.inj_on_of_nodup_map (Given.taken_nodup _) (Given.gift_eq_some_iff.mp hm')
          hp (heq.trans hstem.symm)
        rw [hname, ← hsame]
      · intro h
        rw [h, hname, Given.gift_eq_some_iff.mpr hp, Option.map_some, hstem]
    have hnone : (metas.filter fun m' ↦ m'.stem = m.stem ∧ m'.stem ∉
        (matchInstalled metas fileStems (listed.map CollectionRecipe.name)).taken) = [] := by
      refine List.filter_eq_nil_iff.mpr fun m' _ h ↦ ?_
      obtain ⟨hsame, hfree⟩ := of_decide_eq_true h
      exact hfree (hsame ▸ htaken)
    simp only [hgiven, hnone, List.length_nil, add_zero]
    exact length_filter_eq_one hlisted hr
  · have hnone : (listed.filter fun r ↦
        ((matchInstalled metas fileStems (listed.map CollectionRecipe.name)).gift r.name).map
          RecipeMeta.stem = some m.stem) = [] := by
      refine List.filter_eq_nil_iff.mpr fun r _ h ↦ htaken ?_
      obtain ⟨m', hm', heq⟩ := Option.map_eq_some_iff.mp (of_decide_eq_true h)
      exact List.mem_map.mpr ⟨_, Given.gift_eq_some_iff.mp hm', heq⟩
    have hfree : ∀ m' : RecipeMeta, (m'.stem = m.stem ∧ m'.stem ∉
        (matchInstalled metas fileStems (listed.map CollectionRecipe.name)).taken) ↔
          m'.stem = m.stem :=
      fun m' ↦ and_iff_left_of_imp fun h ↦ h ▸ htaken
    simp only [hnone, hfree, List.length_nil, zero_add]
    exact length_filter_eq_one hmetas hm

/-- A view of recipes that no view confuses accounts for them, when names are listed once. -/
theorem accounted_of_distinguished (hmetas : Distinguished metas)
    (hlisted : (listed.map CollectionRecipe.name).Nodup) :
    Accounted listed metas latestDigests fileStems where
  once _ hp _ hq h := congrArg Prod.fst (List.inj_on_of_nodup_map (Given.taken_nodup _) hp hq h)
  founded _ hp := founded_matchInstalled hp
  strongest _ _ _ hsplit _ hm hfree _ hevidence :=
    strongest_matchInstalled hmetas hsplit hm hfree hevidence
  entries := entries_recipeStates
  shown _ hrow _ hm := shown_recipeStates hrow hm
  single _ hm := single_recipeStates hmetas.stems_nodup hlisted hm

end

/-! ## Confusion -/

/-- Names that no slug is made of. -/
def dashes (n : ℕ) : Text := List.replicate n '-'

theorem recipeSlug_dashes (n : ℕ) : recipeSlug (dashes n) = [] := by
  refine slugOf_eq_nil_of_subset (slugOf_eq_nil_iff.mpr fun c hc _ ↦ ?_) recipeStem_subset
  obtain ⟨d, hd, hc⟩ := List.mem_flatMap.mp hc
  obtain rfl := List.eq_of_mem_replicate hd
  obtain rfl : c = '-' := by
    have hlower : lowerChar '-' = ['-'] := by decide
    rw [hlower] at hc
    exact List.mem_singleton.mp hc
  decide

theorem exists_dashes_not_mem (l : List Text) : ∃ n, ∀ k, n ≤ k → dashes k ∉ l := by
  induction l with
  | nil => exact ⟨0, fun _ _ ↦ List.not_mem_nil⟩
  | cons t l ih =>
    obtain ⟨n, hn⟩ := ih
    refine ⟨n + t.length + 1, fun k hk h ↦ ?_⟩
    rcases List.mem_cons.mp h with rfl | h
    · rw [dashes, List.length_replicate] at hk
      omega
    · exact hn k (by omega) h

section
variable {metas : List RecipeMeta} {fileStems : AList fun _ : Text ↦ Text} {name : Text}
  {m first second third : RecipeMeta}

/-- No recipe displayed a name, or had it. -/
def Fresh (metas : List RecipeMeta) (name : Text) : Prop :=
  ∀ m ∈ metas, m.displayName ≠ name ∧ name ∉ m.previousNames

theorem claimByDisplayName_of_fresh (h : Fresh metas name) :
    claimByDisplayName metas name = none := by
  rw [claimByDisplayName, List.find?_eq_none.mpr, Option.map_none]
  exact fun m hm hname ↦ (h m hm).1 (of_decide_eq_true hname)

theorem claimByPreviousName_of_fresh (h : Fresh metas name) :
    claimByPreviousName metas name = none := by
  rw [claimByPreviousName, List.find?_eq_none.mpr, Option.map_none]
  exact fun m hm hname ↦ (h m hm).2 (of_decide_eq_true hname)

theorem mem_claimsByStem_iff {p : Text × RecipeMeta} :
    p ∈ claimsByStem metas fileStems name ↔ p.1 = name ∧ byStem metas p.2.stem = some p.2 ∧
      Matches fileStems name p.2 .stem := by
  rw [claimsByStem, List.mem_filterMap]
  constructor
  · rintro ⟨stem, hstem, h⟩
    obtain ⟨m, hm, rfl⟩ := Option.map_eq_some_iff.mp h
    obtain ⟨hstem, hne⟩ := List.mem_filter.mp hstem
    obtain ⟨-, rfl⟩ := byStem_eq_some hm
    exact ⟨rfl, hm, of_decide_eq_true hne, by simpa using hstem⟩
  · rintro ⟨rfl, hm, hne, hstem⟩
    refine ⟨p.2.stem, List.mem_filter.mpr ⟨by simpa using hstem, decide_eq_true hne⟩, ?_⟩
    rw [hm, Option.map_some]

/-- What two names without slugs take by their file stems. -/
theorem mem_of_twoClaims {one two : Text} (hslug₁ : recipeSlug one = [])
    (hslug₂ : recipeSlug two = []) {p : Text × RecipeMeta} (hp : p ∈ (Given.empty.askAll
      (claimsByStem metas fileStems one ++ claimsByStem metas fileStems two) : Matching).pairs) :
    p.1 ∈ [one, two] ∧ p.2.stem ≠ [] ∧ p.2.stem = fileStem fileStems p.1 := by
  rcases Given.mem_askAll hp with hp | hp
  · cases hp
  rcases List.mem_append.mp hp with hp | hp
  · obtain ⟨rfl, -, hne, h⟩ := mem_claimsByStem_iff.mp hp
    exact ⟨List.mem_cons_self, hne, h.resolve_left fun h ↦ hne (h.trans hslug₁)⟩
  · obtain ⟨rfl, -, hne, h⟩ := mem_claimsByStem_iff.mp hp
    exact ⟨List.mem_cons_of_mem _ (List.mem_singleton_self _), hne,
      h.resolve_left fun h ↦ hne (h.trans hslug₂)⟩

theorem mem_taken_of_twoClaims {one two taker : Text} (hslug₁ : recipeSlug one = [])
    (hslug₂ : recipeSlug two = []) (htaker : taker ∈ [one, two]) (hm : m ∈ metas)
    (hne : m.stem ≠ []) (hfile : m.stem = fileStem fileStems taker) :
    m.stem ∈ (Given.empty.askAll
      (claimsByStem metas fileStems one ++ claimsByStem metas fileStems two) : Matching).taken := by
  obtain ⟨m', hm'⟩ := exists_byStem hm
  obtain ⟨-, hsame⟩ := byStem_eq_some hm'
  have hclaim : (taker, m') ∈ claimsByStem metas fileStems taker := by
    rw [← hsame] at hm' hne hfile
    exact mem_claimsByStem_iff.mpr ⟨rfl, hm', hne, .inr hfile⟩
  have hmem : (taker, m') ∈
      claimsByStem metas fileStems one ++ claimsByStem metas fileStems two := by
    rcases List.mem_cons.mp htaker with rfl | h
    · exact List.mem_append_left _ hclaim
    · obtain rfl := List.mem_singleton.mp h
      exact List.mem_append_right _ hclaim
  by_contra htaken
  refine Given.not_open_askAll hmem ⟨fun h ↦ htaken ?_, fun h ↦ htaken (hsame ▸ h)⟩
  -- the taker has a recipe, and that has the stem
  obtain ⟨p, hp, heq⟩ := List.mem_map.mp h
  refine List.mem_map.mpr ⟨p, hp, ?_⟩
  rw [(mem_of_twoClaims hslug₁ hslug₂ hp).2.2, hfile]
  exact congrArg _ heq

/-- Two names that no recipe had take the first of two recipes with a display name, and what the
slug of that name finds. -/
theorem matchInstalled_confused {one two : Text} (hmetas : (metas.map RecipeMeta.stem).Nodup)
    (hfirst : (metas.find? fun m ↦ m.displayName = name) = some first)
    (hthird : (metas.find? fun m ↦ name ∈ m.previousNames) = some third)
    (hother : third.displayName ≠ name) (hstem : first.stem ≠ [])
    (hslug : recipeSlug name ≠ [] → recipeSlug name ≠ third.stem)
    (hone : Fresh metas one) (htwo : Fresh metas two) (hname : name ∉ [one, two])
    (hslug₁ : recipeSlug one = []) (hslug₂ : recipeSlug two = [])
    (hstem₁ : fileStem fileStems one = first.stem)
    (hstem₂ : fileStem fileStems two = recipeSlug name) (hstem₃ : fileStem fileStems name = []) :
    ∃ before, (matchInstalled metas fileStems [one, two, name]).pairs = before ++ [(name, third)] ∧
      ∀ p ∈ before, p.2.stem = first.stem ∨ recipeSlug name ≠ [] ∧ p.2.stem = recipeSlug name := by
  obtain ⟨hfirstmem, hfirstname⟩ := mem_of_find? hfirst
  obtain ⟨hthirdmem, -⟩ := mem_of_find? hthird
  obtain ⟨given, hgiven⟩ : ∃ given : Matching, Given.empty.askAll
    (claimsByStem metas fileStems one ++ claimsByStem metas fileStems two) = given := ⟨_, rfl⟩
  have hstems : ∀ p ∈ given.pairs,
      p.2.stem = first.stem ∨ recipeSlug name ≠ [] ∧ p.2.stem = recipeSlug name := by
    intro p hp
    obtain ⟨htaker, hne, hfile⟩ := mem_of_twoClaims hslug₁ hslug₂ (hgiven ▸ hp)
    rcases List.mem_cons.mp htaker with h | h
    · exact .inl (hfile.trans (h ▸ hstem₁))
    · rw [List.mem_singleton.mp h, hstem₂] at hfile
      exact .inr ⟨hfile ▸ hne, hfile⟩
  have hfree : name ∉ given.takers := by
    intro h
    obtain ⟨p, hp, rfl⟩ := List.mem_map.mp h
    exact hname (mem_of_twoClaims hslug₁ hslug₂ (hgiven ▸ hp)).1
  have hgone : ∀ taker ∈ [one, two], ∀ m ∈ metas, m.stem ≠ [] →
      m.stem = fileStem fileStems taker → m.stem ∈ given.taken := fun taker htaker m hm hne hfile ↦
    hgiven ▸ mem_taken_of_twoClaims hslug₁ hslug₂ htaker hm hne hfile
  have hbyStem : matchedByStem metas fileStems [one, two, name] = given := by
    have hclaims : [one, two, name].flatMap (claimsByStem metas fileStems) =
        (claimsByStem metas fileStems one ++ claimsByStem metas fileStems two) ++
          claimsByStem metas fileStems name := by
      rw [List.flatMap_cons, List.flatMap_cons, List.flatMap_singleton, List.append_assoc]
    rw [matchedByStem, hclaims, Given.askAll_append, hgiven]
    refine Given.askAll_of_not_open fun p hp hopen ↦ hopen.2 ?_
    obtain ⟨-, hm, hne, h | h⟩ := mem_claimsByStem_iff.mp hp
    · exact hgone two (List.mem_cons_of_mem _ (List.mem_singleton_self _)) p.2
        (byStem_eq_some hm).1 hne (h.trans hstem₂.symm)
    · exact absurd (h.trans hstem₃) hne
  have hbyDisplayName : matchedByDisplayName metas fileStems [one, two, name] = given := by
    have hclaim : claimByDisplayName metas name = some (name, first) := by
      rw [claimByDisplayName, hfirst, Option.map_some]
    rw [matchedByDisplayName, hbyStem,
      List.filterMap_cons_none (claimByDisplayName_of_fresh hone),
      List.filterMap_cons_none (claimByDisplayName_of_fresh htwo),
      List.filterMap_cons_some hclaim, List.filterMap_nil]
    refine Given.askAll_of_not_open fun p hp hopen ↦ hopen.2 ?_
    obtain rfl := List.mem_singleton.mp hp
    exact hgone one List.mem_cons_self first hfirstmem hstem hstem₁.symm
  have hclaim : claimByPreviousName metas name = some (name, third) := by
    rw [claimByPreviousName, hthird, Option.map_some]
  refine ⟨given.pairs, ?_, hstems⟩
  rw [matchInstalled, hbyDisplayName,
    List.filterMap_cons_none (claimByPreviousName_of_fresh hone),
    List.filterMap_cons_none (claimByPreviousName_of_fresh htwo),
    List.filterMap_cons_some hclaim, List.filterMap_nil]
  refine Given.pairs_ask_of_open ⟨hfree, fun h ↦ ?_⟩
  obtain ⟨p, hp, hsame⟩ := List.mem_map.mp h
  rcases hstems p hp with h | ⟨hne, h⟩
  · have heq := List.inj_on_of_nodup_map hmetas hfirstmem hthirdmem (h.symm.trans hsame)
    exact hother (heq ▸ hfirstname)
  · exact hslug hne (h.symm.trans hsame)

/-- **Two recipes with one display name.** When the first one is given to another name, the second
one is not found, and a third one is given for a previous name. -/
theorem not_accounted_of_confused (hmetas : (metas.map RecipeMeta.stem).Nodup)
    (hfirst : (metas.find? fun m ↦ m.displayName = name) = some first) (hsecond : second ∈ metas)
    (hdisplay : second.displayName = name) (hne : second ≠ first)
    (hthird : (metas.find? fun m ↦ name ∈ m.previousNames) = some third)
    (hother : third.displayName ≠ name) (hstem : first.stem ≠ [])
    (hslug : recipeSlug name ≠ [] →
      recipeSlug name ≠ second.stem ∧ recipeSlug name ≠ third.stem) :
    ∃ listed fileStems, (listed.map CollectionRecipe.name).Nodup ∧
      ¬Accounted listed metas none fileStems := by
  obtain ⟨n, hfresh⟩ := exists_dashes_not_mem
    (name :: metas.flatMap fun m ↦ m.displayName :: m.previousNames)
  obtain ⟨hfirstmem, -⟩ := mem_of_find? hfirst
  have hfresh₁ := hfresh n le_rfl
  have hfresh₂ := hfresh (n + 1) (Nat.le_succ n)
  have hdashes : dashes n ≠ dashes (n + 1) := by
    intro h
    have hlength := congrArg List.length h
    rw [dashes, dashes, List.length_replicate, List.length_replicate] at hlength
    omega
  have hname₁ : dashes n ≠ name := fun h ↦ hfresh₁ (h ▸ List.mem_cons_self)
  have hname₂ : dashes (n + 1) ≠ name := fun h ↦ hfresh₂ (h ▸ List.mem_cons_self)
  let fileStems : AList fun _ : Text ↦ Text :=
    ((∅ : AList fun _ : Text ↦ Text).insert (dashes (n + 1)) (recipeSlug name)).insert (dashes n)
      first.stem
  have hstem₁ : fileStem fileStems (dashes n) = first.stem := by
    rw [fileStem, AList.lookup_insert, Option.getD_some]
  have hstem₂ : fileStem fileStems (dashes (n + 1)) = recipeSlug name := by
    rw [fileStem, AList.lookup_insert_ne (Ne.symm hdashes), AList.lookup_insert, Option.getD_some]
  have hstem₃ : fileStem fileStems name = [] := by
    rw [fileStem, AList.lookup_insert_ne (Ne.symm hname₁),
      AList.lookup_insert_ne (Ne.symm hname₂), AList.lookup_empty, Option.getD_none]
  have hunknown : ∀ k, n ≤ k → Fresh metas (dashes k) := by
    refine fun k hk m hm ↦ ⟨fun h ↦ hfresh k hk ?_, fun h ↦ hfresh k hk ?_⟩
    · exact List.mem_cons_of_mem _ (List.mem_flatMap.mpr ⟨m, hm, h ▸ List.mem_cons_self⟩)
    · exact List.mem_cons_of_mem _ (List.mem_flatMap.mpr ⟨m, hm, List.mem_cons_of_mem _ h⟩)
  obtain ⟨before, hpairs, hbefore⟩ := matchInstalled_confused hmetas hfirst hthird hother hstem
    (fun h ↦ (hslug h).2) (hunknown n le_rfl) (hunknown (n + 1) (Nat.le_succ n))
    (by simp [Ne.symm hname₁, Ne.symm hname₂]) (recipeSlug_dashes n) (recipeSlug_dashes (n + 1))
    hstem₁ hstem₂ hstem₃
  refine ⟨[⟨dashes n, [], [], [], false, false, []⟩, ⟨dashes (n + 1), [], [], [], false, false, []⟩,
    ⟨name, [], [], [], false, false, []⟩], fileStems, ?_, fun haccounted ↦ ?_⟩
  · simp [hdashes, hname₁, hname₂]
  have hfree : second.stem ∉ before.map fun q ↦ q.2.stem := by
    intro h
    obtain ⟨p, hp, hsame⟩ := List.mem_map.mp h
    rcases hbefore p hp with h | ⟨hne', h⟩
    · exact hne (List.inj_on_of_nodup_map hmetas hsecond hfirstmem (hsame.symm.trans h))
    · exact (hslug hne').1 (h.symm.trans hsame)
  obtain ⟨e, hmatches, hrank⟩ := haccounted.strongest before (name, third) [] hpairs second hsecond
    hfree .displayName hdisplay
  rcases e with _ | _ | _
  · obtain ⟨hne', h | h⟩ := hmatches
    · exact (hslug (h ▸ hne')).2 h.symm
    · exact hne' (h.trans hstem₃)
  · exact hother hmatches
  · exact absurd hrank (by decide)

/-- Where nothing is listed, a stem of two recipes is shown twice. -/
theorem stems_nodup_of_accounted (h : Accounted [] metas none fileStems) :
    (metas.map RecipeMeta.stem).Nodup := by
  refine List.nodup_iff_count_le_one.mpr fun stem ↦ ?_
  by_cases hstem : stem ∈ metas.map RecipeMeta.stem
  · obtain ⟨m, hm, rfl⟩ := List.mem_map.mp hstem
    have hsingle := h.single m hm
    have hfree : ∀ m' : RecipeMeta, (m'.stem = m.stem ∧ m'.stem ∉
        (matchInstalled metas fileStems (([] : List CollectionRecipe).map
          CollectionRecipe.name)).taken) ↔ m'.stem = m.stem :=
      fun m' ↦ and_iff_left List.not_mem_nil
    rw [length_shown] at hsingle
    simp only [hfree, List.filter_nil, List.length_nil, zero_add] at hsingle
    rw [count_map_eq]
    exact hsingle.le
  · exact (List.count_eq_zero.mpr hstem).le.trans (Nat.zero_le _)

theorem distinguished_of_accounted
    (h : ∀ listed latestDigests fileStems, (listed.map CollectionRecipe.name).Nodup →
      Accounted listed metas latestDigests fileStems) : Distinguished metas := by
  have hmetas := stems_nodup_of_accounted (h [] none ∅ List.nodup_nil)
  refine ⟨hmetas, fun name first second third hfirst hsecond hdisplay hne hthird hother ↦ ?_⟩
  by_contra hnot
  obtain ⟨hstem, hslug⟩ := not_or.mp hnot
  obtain ⟨listed, fileStems, hlisted, hfails⟩ := not_accounted_of_confused hmetas hfirst hsecond
    hdisplay hne hthird hother hstem fun hne ↦ not_or.mp fun h ↦ hslug ⟨hne, h⟩
  exact hfails (h listed none fileStems hlisted)

end

/-- A recipe that is recognised by its display name only. -/
def shownAs (name : Text) : RecipeMeta where
  name := []
  source := []
  collection := []
  version := []
  digest := []
  installedAt := []
  updatedAt := []
  localChanges := false
  displayName := name
  previousNames := []

theorem stem_shownAs (name : Text) : (shownAs name).stem = [] :=
  List.eq_nil_of_subset_nil recipeStem_subset

theorem distinguished_shownAs (name : Text) : Distinguished [shownAs name] := by
  refine ⟨List.nodup_singleton _, fun n first second third hfirst hsecond _ hne _ _ ↦ ?_⟩
  have hfirst := List.mem_singleton.mp (mem_of_find? hfirst).1
  exact absurd ((List.mem_singleton.mp hsecond).trans hfirst.symm) hne

theorem mem_matchInstalled_shownAs {name : Text} {fileStems : AList fun _ : Text ↦ Text}
    {listed : List Text} (hname : name ∈ listed) :
    (name, shownAs name) ∈ (matchInstalled [shownAs name] fileStems listed).pairs := by
  have hfind : ([shownAs name].find? fun m ↦ m.displayName = name) = some (shownAs name) :=
    List.find?_cons_of_pos (decide_eq_true rfl)
  -- only the second pass gives anything, and only to this name
  have hpairs : ∀ p ∈ (matchedByDisplayName [shownAs name] fileStems listed).pairs,
      p = (name, shownAs name) := by
    intro p hp
    have hrecipe : p.2 = shownAs name := by
      rcases Given.mem_askAll hp with h | h
      · rcases Given.mem_askAll h with h | h
        · cases h
        · exact List.mem_singleton.mp (mem_claimsByStem h).2.1
      · exact List.mem_singleton.mp (mem_of_find? (mem_claimByDisplayName h).2).1
    rcases mem_matchedByDisplayName hp with h | ⟨-, h⟩
    · exact absurd (hrecipe ▸ stem_shownAs name) h
    · exact Prod.ext ((hrecipe ▸ h).symm) hrecipe
  refine Given.prefix_askAll.subset ?_
  by_contra hmem
  have hgone : ¬(matchedByDisplayName [shownAs name] fileStems listed).Open (name, shownAs name) :=
    not_open_matchedByDisplayName hname hfind
  refine hgone ⟨fun h ↦ hmem ?_, fun h ↦ hmem ?_⟩
  · obtain ⟨p, hp, -⟩ := List.mem_map.mp h
    exact hpairs p hp ▸ hp
  · obtain ⟨p, hp, -⟩ := List.mem_map.mp h
    exact hpairs p hp ▸ hp

theorem names_nodup_of_accounted {listed : List CollectionRecipe}
    (h : ∀ metas latestDigests fileStems, Distinguished metas →
      Accounted listed metas latestDigests fileStems) :
    (listed.map CollectionRecipe.name).Nodup := by
  refine List.nodup_iff_count_le_one.mpr fun name ↦ ?_
  by_cases hname : name ∈ listed.map CollectionRecipe.name
  · have hsingle := (h _ none ∅ (distinguished_shownAs name)).single _ (List.mem_singleton_self _)
    rw [length_shown] at hsingle
    have hle : (listed.map CollectionRecipe.name).count name ≤ (listed.filter fun r ↦
        ((matchInstalled [shownAs name] ∅ (listed.map CollectionRecipe.name)).gift r.name).map
          RecipeMeta.stem = some (shownAs name).stem).length := by
      rw [count_map_eq, ← List.countP_eq_length_filter, ← List.countP_eq_length_filter]
      refine List.countP_mono_left fun r _ hr ↦ decide_eq_true ?_
      obtain rfl : r.name = name := of_decide_eq_true hr
      rw [Given.gift_eq_some_iff.mpr (mem_matchInstalled_shownAs hname), Option.map_some]
    omega
  · exact (List.count_eq_zero.mpr hname).le.trans (Nat.zero_le _)

private def displaysModel (stem : String) : RecipeMeta :=
  { shownAs "Model".toList with name := stem.toList }

private def wasModel : RecipeMeta :=
  { shownAs "Other".toList with name := "c".toList, previousNames := ["Model".toList] }

private def threeRecipes : List RecipeMeta := [displaysModel "a", displaysModel "b", wasModel]

private def listedAs (name : String) : CollectionRecipe :=
  ⟨name.toList, [], [], [], false, false, []⟩

private theorem matched_threeRecipes :
    (matchInstalled threeRecipes ∅ ["A".toList, "Model".toList]).pairs =
      [("A".toList, displaysModel "a")] ++ ("Model".toList, wasModel) :: [] := by decide +kernel

end SparkPulse.Recipes
