import SparkPulse.Recipes.Directory

/-!
# Recipe sources

The listing of recipes and the resolution of recipe ids in `tools/recipe_sources.py`. The bundled
recipes are a tree of directories, and an id of theirs is a path in it; a custom or an installed
recipe is a file of one flat directory, and its id is made of the stem. What a path leads to when it
leaves the tree, by `..` or because it is absolute, is a parameter. Of a parsed recipe only its name
is looked at; the fields that a payload takes from it are the recipe itself.
-/

namespace SparkPulse.Recipes

/-! ## Data -/

/-- What the recipe schema makes of a file. -/
structure Format (ρ : Type) where
  parse : Text → Option ρ
  name : ρ → Text

inductive Node
  | file (content : Text)
  | directory
  deriving DecidableEq

/-- A name in a directory. -/
def IsPart (part : Text) : Prop :=
  part ≠ [] ∧ part ≠ ".".toList ∧ part ≠ "..".toList ∧ '/' ∉ part

instance : DecidablePred IsPart := fun _ ↦ inferInstanceAs (Decidable (_ ∧ _))

/-- The files that recipes are looked for in. -/
structure Disk where
  /-- What the package's directory holds, by the path in it. -/
  bundled : AList fun _ : List Text ↦ Node := ∅
  bundled_parts : ∀ path ∈ bundled.keys, path ≠ [] ∧ ∀ part ∈ path, IsPart part := by simp
  custom : AList fun _ : Text ↦ Text := ∅
  recipes : Directory := {}
  /-- The file that a path joined to the package's directory leads to outside it. -/
  outside : Text → Option Text := fun _ ↦ none

/-- Where a file is. -/
inductive File
  | bundled (path : List Text)
  | outside (path : Text)
  | custom (name : Text)
  | installed (name : Text)
  deriving DecidableEq

/-- The label of the source that an id came from. -/
inductive Source
  | bundled
  | custom
  | oci
  | unknown
  deriving DecidableEq

/-- A recipe as the API serves it, and the file it was read from. -/
structure Payload (ρ : Type) where
  id : Text
  name : Text
  source : Source
  recipe : ρ
  file : File

/-! ## Ids -/

def bundledPrefix : Text := "bundled/".toList

def customPrefix : Text := "custom-".toList

def ociPrefix : Text := "oci-".toList

def sourceOf (recipeId : Text) : Source :=
  if bundledPrefix <+: recipeId then .bundled
  else if customPrefix <+: recipeId.rtakeWhile (· ≠ '/') then .custom
  else if ociPrefix <+: recipeId.rtakeWhile (· ≠ '/') then .oci
  else .unknown

/-- `PurePath.as_posix`, of a relative path. -/
def asPosix (path : List Text) : Text := ['/'].intercalate path

/-- `Path.with_suffix("")` -/
def withoutSuffix (path : List Text) : List Text :=
  path.dropLast ++ [(splitSuffix (path.getLastD [])).1]

/-- `_bundled_recipe_id` -/
def bundledRecipeId (path : List Text) : Text := bundledPrefix ++ asPosix (withoutSuffix path)

/-- The name that the file is called by, whatever the directory. -/
def File.baseName : File → Text
  | .bundled path => path.getLastD []
  | .outside path => path.rtakeWhile (· ≠ '/')
  | .custom name => name
  | .installed name => name

namespace Disk

variable (disk : Disk)

def read : File → Option Text
  | .bundled path =>
    match disk.bundled.lookup path with
    | some (.file content) => some content
    | _ => none
  | .outside path => disk.outside path
  | .custom name => disk.custom.lookup name
  | .installed name => disk.recipes.files.lookup name

/-! ## Listing -/

/-- `_settle_oci_names` -/
def settle : Disk := { disk with recipes := disk.recipes.normalize }

/-- `iter_bundled_recipe_files`, which takes directories for files. -/
def bundledRecipeFiles : List (List Text) :=
  (disk.bundled.keys.filter fun path ↦
    yaml <:+ path.getLastD [] ∨ yml <:+ path.getLastD []).insertionSort (· ≤ ·)

/-- `_flat_dir_files` -/
def flatDirFiles (idPrefix : Text) (names : List Text) (file : Text → File) :
    List (Text × File) :=
  (names.insertionSort (· ≤ ·)).filterMap fun name ↦
    (recipeName? name).map fun e ↦ (idPrefix ++ e.1, file name)

def customFiles : List (Text × File) := flatDirFiles customPrefix disk.custom.keys .custom

def ociFiles : List (Text × File) := flatDirFiles ociPrefix disk.recipes.files.keys .installed

/-- The files of every source in listing order, each with its id. -/
def sourceFiles : List (Text × File) :=
  disk.bundledRecipeFiles.map (fun path ↦ (bundledRecipeId path, .bundled path)) ++
    disk.customFiles ++ disk.ociFiles

/-- `candidate_files`, of names that are settled: the first file that claims an id keeps it. -/
def candidateFiles : List (Text × File) := firstOfEach disk.sourceFiles

end Disk

section
variable {ρ : Type} (fmt : Format ρ)

/-- `parse_file` -/
def parseFile (disk : Disk) (file : File) : Option ρ := (disk.read file).bind fmt.parse

def toPayload (recipe : ρ) (recipeId : Text) (file : File) : Payload ρ where
  id := recipeId
  name := if fmt.name recipe = [] then (splitSuffix file.baseName).1 else fmt.name recipe
  source := sourceOf recipeId
  recipe := recipe
  file := file

/-- The recipes that are listed, where names are settled. -/
def payloads (disk : Disk) : List (Payload ρ) :=
  disk.candidateFiles.filterMap fun c ↦
    (parseFile fmt disk c.2).map fun recipe ↦ toPayload fmt recipe c.1 c.2

def iterRecipePayloads (disk : Disk) : List (Payload ρ) := payloads fmt disk.settle

/-! ## Resolving -/

/-- `_is_the_same_recipe` -/
def isTheSameRecipe (recipeId candidateId : Text) (recipe : ρ) : Bool :=
  if fmt.name recipe = recipeId then true
  else if ¬(ociPrefix <+: recipeId ∧ ociPrefix <+: candidateId) then false
  else
    let wanted := recipeId.drop ociPrefix.length
    if fmt.name recipe = wanted then true
    else wanted ≠ [] ∧ recipeSlug wanted = candidateId.drop ociPrefix.length

/-- The file that a path joined to the package's directory names. -/
def joined (disk : Disk) (path : Text) : Option File :=
  let parts := (path.splitOn '/').filter fun part ↦ part ≠ [] ∧ part ≠ ".".toList
  if path.head? = some '/' ∨ "..".toList ∈ parts then
    (disk.outside path).map fun _ ↦ .outside path
  else (disk.read (.bundled parts)).map fun _ ↦ .bundled parts

/-- The file that an id names by its path or in the listing of its directory. -/
def named (disk : Disk) (recipeId : Text) : Option File :=
  if bundledPrefix <+: recipeId then
    let rel := recipeId.drop bundledPrefix.length
    joined disk (rel ++ yaml) <|> joined disk (rel ++ yml)
  else
    ((if customPrefix <+: recipeId then disk.customFiles else []) ++
      (if ociPrefix <+: recipeId then disk.ociFiles else [])).find? (·.1 = recipeId) |>.map Prod.snd

/-- The recipe of the first candidate that the id names. -/
def firstNamed (disk : Disk) (recipeId : Text) : List (Text × File) → Option (Payload ρ)
  | [] => none
  | (candidateId, file) :: rest =>
    match parseFile fmt disk file with
    | none => firstNamed disk recipeId rest
    | some recipe =>
      if candidateId ≠ recipeId ∧ ¬isTheSameRecipe fmt recipeId candidateId recipe then
        firstNamed disk recipeId rest
      else some (toPayload fmt recipe candidateId file)

def resolveRecipe (disk : Disk) (recipeId : Text) : Option (Payload ρ) :=
  match named disk.settle recipeId with
  | some file => firstNamed fmt disk.settle recipeId [(recipeId, file)]
  | none =>
    if recipeId = [] then none
    -- `candidate_files` settles the names once more.
    else firstNamed fmt disk.settle.settle recipeId disk.settle.settle.candidateFiles

end

end SparkPulse.Recipes
