import Mathlib.Algebra.Order.Ring.Int
import Mathlib.Data.List.MinMax
import SparkPulse.Recipes.Directory

/-!
# Installing and updating collections

What `tools/oci_registry.py` does with the directory of installed recipes. The registries, what
their tags and indexes say and what pulling a version leaves in its layout directory are parameters;
one call sees them unchanged. Every function gives the directory it leaves, also when it raises. The log
of an automatic update is left out, and so are the fields of a collection that only listings show.
-/

open SparkPulse.Runtime (isSpace)

namespace SparkPulse.Recipes

/-! ## Data -/

structure Registry where
  name : Text
  url : Text
  enabled : Bool := true
  /-- `default` -/
  isDefault : Bool := false
  deriving DecidableEq

/-- A tag, the collection that its index names, and the digest of the index. -/
structure Index where
  tag : Text
  collection : Text
  digest : Text
  deriving DecidableEq

structure CollectionInfo where
  name : Text
  version : Text
  digest : Text
  registry : Text
  deriving DecidableEq

/-- A recipe file of a pulled collection. -/
structure PulledRecipe where
  filename : Text
  content : Text
  digest : Text
  deriving DecidableEq

structure RecipeMeta where
  name : Text
  source : Text
  collection : Text
  version : Text
  digest : Text
  installedAt : Text
  updatedAt : Text
  localChanges : Bool
  displayName : Text
  previousNames : List Text
  deriving DecidableEq

structure UpdateInfo where
  collection : Text
  currentVersion : Text
  latestVersion : Text
  currentDigest : Text
  latestDigest : Text
  localChanges : Bool
  deriving DecidableEq

/-- An update to apply. -/
structure Update where
  collection : Text
  targetVersion : Text
  registry : Option Text
  deriving DecidableEq

inductive Action
  | installed
  | upToDate
  | skippedLocalEdits
  | updated
  deriving DecidableEq

/-- What came of one recipe of a bulk action. -/
structure RecipeResult where
  recipe : Text
  recipeId : Text := []
  outcome : Except Text Action

/-- What came of an automatic update. -/
inductive AutoUpdate
  | skipped
  | updated (recipes : ℕ)
  | failed (error : Text)

/-- The functions of Python and its libraries that the code calls. -/
structure Python where
  /-- The hexadecimal digest of a text. -/
  sha256 : Text → Text
  /-- The `name:` of a YAML mapping. -/
  yamlName : Text → Option Text
  int : Text → Option ℤ

/-- The world outside the directory, during one call. -/
structure Env where
  now : Text
  registries : List Registry
  /-- The tags of a registry whose indexes can be read. -/
  indexes : Registry → List Index
  /-- The files in the layout directory of a collection's version, once it is pulled. -/
  layout : Registry → Text → Text → Except Text (List (Text × Text))
  /-- The files in the layout directory that is named for the index. -/
  indexLayout : Registry → Text → Text → Except Text (List (Text × Text))

/-- A text that is not empty, as Python tests it. -/
def given (t : Option Text) : Option Text := t.filter (· ≠ [])

/-- What Python raises for a value without the attribute `get`. -/
def noGet (type : Text) : Text := "'".toList ++ type ++ "' object has no attribute 'get'".toList

/-! ## Sidecars -/

/-- The recorded digest without its algorithm. -/
def Sidecar.hash (m : Sidecar) : Text := m.digest.rtakeWhile (· ≠ ':')

/-- The recorded installation wrote this content. -/
def Sidecar.Wrote (sha256 : Text → Text) (m : Sidecar) (content : Text) : Prop :=
  m.hash ≠ [] ∧ sha256 content = m.hash

instance (sha256 : Text → Text) (m : Sidecar) (content : Text) :
    Decidable (m.Wrote sha256 content) := inferInstanceAs (Decidable (_ ∧ _))

def installedRecipeId (filename : Text) : Text := "oci-".toList ++ recipeStem filename

section
variable (py : Python) (env : Env)

/-- `_declared_name` -/
def declaredName (content : Text) : Text := ((py.yamlName content).map (trim isSpace)).getD []

/-- `_read_recipe_meta` -/
def readRecipeMeta (d : Directory) (filename : Text) : Except Text (Option RecipeMeta) :=
  match d.sidecars.lookup (d.installedStem filename) with
  | none | some .unreadable => .ok none
  | some (.other type) => .error (noGet type)
  | some (.mapping m) =>
    .ok <| some
      { name := d.installedStem filename ++ yaml
        source := m.source
        collection := m.collection
        version := m.version
        digest := m.digest
        installedAt := m.installedAt.getD []
        updatedAt := m.updatedAt
        localChanges :=
          match d.files.lookup (d.recipePath filename) with
          | some content => !decide (m.Wrote py.sha256 content)
          | none => false
        displayName := m.displayName
        previousNames := m.previousNames }

/-- `_write_recipe_meta` -/
def writeRecipeMeta (filename source collection version digest displayName : Text)
    (d : Directory) : Directory × Except Text Unit :=
  let stem := d.installedStem filename
  let write (existing : Sidecar) : Directory × Except Text Unit :=
    ({ d with
        sidecars := d.sidecars.insert stem <| .mapping
          { source
            collection
            version
            digest
            installedAt := some (existing.installedAt.getD env.now)
            updatedAt := env.now
            localChanges := existing.localChanges
            displayName := if displayName = [] then existing.displayName else displayName
            previousNames := existing.previousNames } },
      .ok ())
  match d.sidecars.lookup stem with
  | none | some .unreadable => write {}
  | some (.other type) => (d, .error (noGet type))
  | some (.mapping m) => write m

/-- `list_oci_recipes` -/
def listOciRecipes (d : Directory) : Directory × Except Text (List RecipeMeta) :=
  let d := d.normalize
  let stems := d.sidecars.keys.insertionSort fun a b ↦ a ++ yaml ≤ b ++ yaml
  (d, (stems.mapM fun stem ↦ readRecipeMeta py d (stem ++ yaml)).map List.reduceOption)

/-! ## Registries and collections -/

def getRegistry (name : Text) : Option Registry := env.registries.find? (·.name = name)

def getDefaultRegistry : Option Registry :=
  env.registries.find? (·.isDefault) <|> env.registries.find? (·.enabled) <|> env.registries.head?

/-- `_version_key`, and what stands for it at the tag `latest`. -/
def versionKey (version : Text) : List ℤ :=
  if version = "latest".toList then [0, 0, 0]
  else ((version.splitOn '.').mapM py.int).getD [0]

/-- What a registry lists, before all but the latest version of each collection go. -/
def published (reg : Registry) : List CollectionInfo :=
  if reg.enabled ∧ reg.url ≠ [] then
    (env.indexes reg).map fun i ↦
      { name := i.collection, version := i.tag, digest := i.digest, registry := reg.name }
  else []

/-- The latest version of every collection in every registry. -/
def latestOfEach (results : List CollectionInfo) : List CollectionInfo :=
  (results.map fun c ↦ (c.name, c.registry)).eraseDups.filterMap fun key ↦
    (results.filter fun c ↦ (c.name, c.registry) = key).argmax fun c ↦ versionKey py c.version

def listCollections (registryName : Option Text) : Except Text (List CollectionInfo) :=
  match given registryName with
  | none => .ok (latestOfEach py (env.registries.flatMap (published env)))
  | some name =>
    if env.registries.any (·.name = name) then
      .ok (latestOfEach py ((env.registries.filter (·.name = name)).flatMap (published env)))
    else .error ("Registry '".toList ++ name ++ "' not found".toList)

/-- `_version_sort_key` -/
def versionSortKey (version : Text) : WithBot (List ℤ) :=
  match ((version.dropWhile (· = 'v')).splitOn '.').mapM py.int with
  | some numbers => numbers
  | none => ⊥

/-- `_latest_collection` -/
def latestCollection (name : Text) (registryName : Option Text) : Except Text CollectionInfo := do
  let collections ← listCollections py env registryName
  match (collections.filter (·.name = name)).argmax fun c ↦ versionSortKey py c.version with
  | none => throw ("Collection '".toList ++ name ++ "' not found".toList)
  | some c => return c

/-- `_extract_recipes_from_layout`: the `.yaml` files by name, and then the `.yml` files. -/
def extractRecipes (files : List (Text × Text)) : List PulledRecipe :=
  ([yaml, yml].flatMap fun suffix ↦
    (files.filter fun f ↦ suffix <:+ f.1).insertionSort fun a b ↦ a.1 ≤ b.1).map fun f ↦
      { filename := f.1, content := f.2, digest := "sha256:".toList ++ py.sha256 f.2 }

/-- `_find_in_layout` -/
def findInLayout (recipes : List PulledRecipe) (recipeName : Text) : Option PulledRecipe :=
  let wanted := recipeSlug recipeName
  if wanted = [] then none
  else
    recipes.find? (fun r ↦ recipeSlug r.filename = wanted) <|>
      recipes.find? fun r ↦ recipeSlug (declaredName py r.content) = wanted

/-! ## Installing a collection -/

/-- The registry of a name, or else the default one. -/
def installRegistry (registryName : Option Text) : Except Text Registry :=
  match given registryName with
  | some n =>
    match getRegistry env n with
    | some reg => .ok reg
    | none => .error ("Registry '".toList ++ n ++ "' not found".toList)
  | none =>
    match getDefaultRegistry env with
    | some reg => .ok reg
    | none => .error "No registries configured".toList

/-- What `install_collection` does before it touches the directory. -/
def pullCollection (name version : Text) (registryName : Option Text) :
    Except Text (Registry × List PulledRecipe) := do
  let reg ← installRegistry env registryName
  let collections ← listCollections py env (some reg.name)
  if ¬∃ c ∈ collections, c.name = name ∧ c.version = version then
    .error ("Collection '".toList ++ name ++ ":".toList ++ version ++
      "' not found in registry '".toList ++ reg.name ++ "'".toList)
  else
    let files ← (env.layout reg name version).mapError ("Failed to pull OCI image: ".toList ++ ·)
    if extractRecipes py files = [] then .error "No recipe files found in collection".toList
    else .ok (reg, extractRecipes py files)

/-- Write a recipe file, whatever is there, and then its sidecar. -/
def writeRecipe (reg : Registry) (collection version displayName : Text) (r : PulledRecipe)
    (d : Directory) : Directory × Except Text Unit :=
  let filename := installedFilename r.filename
  writeRecipeMeta env filename reg.name collection version r.digest displayName
    { d with files := d.files.insert filename r.content }

/-- The loop of `install_collection`. -/
def installRecipes (reg : Registry) (name version : Text) :
    List PulledRecipe → Directory → Directory × Except Text (List Text)
  | [], d => (d, .ok [])
  | r :: rs, d =>
    match writeRecipe env reg name version (declaredName py r.content) r d with
    | (d, .error e) => (d, .error e)
    | (d, .ok ()) =>
      let (d, rest) := installRecipes reg name version rs d
      (d, rest.map (installedFilename r.filename :: ·))

def installCollection (name version : Text) (registryName : Option Text) (d : Directory) :
    Directory × Except Text (List Text) :=
  match pullCollection py env name version registryName with
  | .error e => (d, .error e)
  | .ok (reg, recipes) => installRecipes py env reg name version recipes d.normalize

/-! ## Updating -/

def applyUpdates (updates : List Update) (_overwriteLocal : Bool) (d : Directory) :
    Directory × List (Text × Except Text (List Text)) :=
  match updates with
  | [] => (d, [])
  | u :: us =>
    let (d, result) := installCollection py env u.collection u.targetVersion u.registry d
    let (d, results) := applyUpdates us _overwriteLocal d
    (d, (u.collection, result) :: results)

/-- What is to be said of one group of recipes, from one collection of one registry. -/
def updateOf (metas : List RecipeMeta) (collection source : Text) : Option UpdateInfo :=
  match listCollections py env (some source) with
  | .error _ => none
  | .ok collections =>
    let latest := (collections.filter (·.name = collection)).insertionSort
      fun a b ↦ b.version ≤ a.version
    match latest, metas with
    | c :: _, m :: _ =>
      if m.version = c.version then none
      else some
        { collection
          currentVersion := m.version
          latestVersion := c.version
          currentDigest := m.digest
          latestDigest := c.digest
          localChanges := metas.any (·.localChanges) }
    | _, _ => none

def checkUpdates (collection registry : Option Text) (d : Directory) :
    Directory × Except Text (List UpdateInfo) :=
  let (d, metas) := listOciRecipes py d
  (d, metas.map fun metas ↦
    (metas.map fun m ↦ (m.collection, m.source)).eraseDups.filterMap fun (coll, reg) ↦
      if (given collection).any (· ≠ coll) ∨ (given registry).any (· ≠ reg) then none
      else updateOf py env (metas.filter fun m ↦ m.collection = coll ∧ m.source = reg) coll reg)

/-- The updates that `run_auto_update` goes on to apply, from the default registry. -/
def updateParams (overwrite : Bool) (updates : List UpdateInfo) : List Update :=
  (updates.filter fun u ↦ ¬(u.localChanges ∧ ¬overwrite)).map fun u ↦
    { collection := u.collection, targetVersion := u.latestVersion, registry := none }

def runAutoUpdate (enabled overwrite : Bool) (d : Directory) : Directory × AutoUpdate :=
  if ¬enabled then (d, .skipped)
  else
    match checkUpdates py env none none d with
    | (d, .error e) => (d, .failed e)
    | (d, .ok updates) =>
      let (d, results) := applyUpdates py env (updateParams overwrite updates) overwrite d
      (d, .updated (results.map fun r ↦ r.2.toOption.elim 0 List.length).sum)

/-! ## Recipes of one collection -/

/-- The version that `apply_collection_recipes` takes recipes from, and the registry. -/
def collectionVersion (collectionName : Text) (version registryName : Option Text) :
    Except Text (Registry × Text) :=
  match given version with
  | some tag =>
    let reg := match given registryName with
      | some name => getRegistry env name
      | none => getDefaultRegistry env
    match reg with
    | some reg => .ok (reg, tag)
    | none =>
      .error ("Registry '".toList ++ registryName.getD "None".toList ++ "' not found".toList)
  | none => do
    let latest ← latestCollection py env collectionName registryName
    return ((getRegistry env latest.registry).getD { name := latest.registry, url := [] },
      latest.version)

/-- One recipe of the loop of `apply_collection_recipes`. -/
def applyRecipe (reg : Registry) (collectionName tag : Text) (pulled : List PulledRecipe)
    (overwriteLocal : Bool) (recipeName : Text) (d : Directory) : Directory × RecipeResult :=
  match findInLayout py pulled recipeName with
  | none =>
    (d, { recipe := recipeName
          outcome := .error ("Recipe '".toList ++ recipeName ++ "' is not in ".toList ++
            collectionName ++ ":".toList ++ tag) })
  | some target =>
    let filename := installedFilename target.filename
    let displayName :=
      if declaredName py target.content = [] then recipeName else declaredName py target.content
    let result (outcome : Except Text Action) : RecipeResult :=
      { recipe := recipeName, recipeId := installedRecipeId filename, outcome }
    let write (action : Action) : Directory × RecipeResult :=
      let (d, written) := writeRecipe env reg collectionName tag displayName target d
      (d, result (written.map fun _ ↦ action))
    match d.files.lookup filename with
    | none => write .installed
    | some content =>
      if content = target.content then (d, result (.ok .upToDate))
      else
        match readRecipeMeta py d filename with
        | .error e => (d, result (.error e))
        | .ok found =>
          -- A file with no sidecar was put there by hand.
          if found.all (·.localChanges) ∧ ¬overwriteLocal then
            (d, result (.ok .skippedLocalEdits))
          else write .updated

/-- The loop of `apply_collection_recipes`. -/
def applyRecipes (reg : Registry) (collectionName tag : Text) (pulled : List PulledRecipe)
    (overwriteLocal : Bool) : List Text → Directory → Directory × List RecipeResult
  | [], d => (d, [])
  | recipeName :: rest, d =>
    let (d, result) := applyRecipe py env reg collectionName tag pulled overwriteLocal recipeName d
    let (d, results) := applyRecipes reg collectionName tag pulled overwriteLocal rest d
    (d, result :: results)

/-- What `apply_collection_recipes` does before it touches the directory. -/
def pullVersion (collectionName : Text) (version registryName : Option Text) :
    Except Text (Registry × Text × List PulledRecipe) := do
  let (reg, tag) ← collectionVersion py env collectionName version registryName
  let files ← env.indexLayout reg collectionName tag
  return (reg, tag, extractRecipes py files)

def applyCollectionRecipes (collectionName : Text) (recipeNames : List Text)
    (version registryName : Option Text) (overwriteLocal : Bool) (d : Directory) :
    Directory × Except Text (Text × List RecipeResult) :=
  match pullVersion py env collectionName version registryName with
  | .error e => (d, .error e)
  | .ok (reg, tag, pulled) =>
    let (d, results) :=
      applyRecipes py env reg collectionName tag pulled overwriteLocal recipeNames d.normalize
    (d, .ok (tag, results))

end

end SparkPulse.Recipes
