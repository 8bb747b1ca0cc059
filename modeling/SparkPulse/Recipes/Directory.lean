import Mathlib.Data.Char
import Mathlib.Data.List.AList
import Mathlib.Data.List.Lex
import Mathlib.Data.List.Sort
import SparkPulse.Recipes.Names

/-!
# The directory of installed recipes

`RECIPES_DIR` of `tools/oci_registry.py`: the recipe files by name, and beside them the sidecars that
record what was installed, by the stem in `<stem>.yaml.meta`. Files hold text as Python reads it, and
the file system tells names apart by case. The sweep `normalize_installed_recipe_names` decides every
rename from the names alone, so the decisions and the moves are kept apart.
-/

open SparkPulse.Runtime (isSpace)

namespace SparkPulse.Recipes

/-! ## Data -/

/-- What a sidecar records of the installation of a recipe. -/
structure Sidecar where
  /-- The registry. -/
  source : Text := []
  collection : Text := []
  version : Text := []
  digest : Text := []
  installedAt : Option Text := none
  updatedAt : Text := []
  localChanges : Bool := false
  displayName : Text := []
  previousNames : List Text := []
  deriving DecidableEq

/-- What reading a sidecar file gives. -/
inductive SidecarFile
  | unreadable
  /-- Something other than a mapping, of a type. -/
  | other (type : Text)
  | mapping (m : Sidecar)
  deriving DecidableEq

structure Directory where
  files : AList fun _ : Text ↦ Text := ∅
  sidecars : AList fun _ : Text ↦ SidecarFile := ∅

/-! ## Stems on disk -/

/-- The first entry of each key. -/
def firstOfEach {β : Type} : List (Text × β) → List (Text × β)
  | [] => []
  | e :: rest => e :: (firstOfEach rest).filter fun e' ↦ e'.1 ≠ e.1

namespace Directory

variable (d : Directory)

/-- `_installed_stems` -/
def installedStems : List (Text × Text) :=
  firstOfEach ((d.files.keys.insertionSort (· ≤ ·)).filterMap recipeName?)

def stems : List Text := d.installedStems.map Prod.fst

/-- `_sidecar_stems`: the sidecars that hold a mapping, in the order of their file names. -/
def sidecarStems : List (Text × Sidecar) :=
  (d.sidecars.keys.insertionSort fun a b ↦ a ++ yaml ≤ b ++ yaml).filterMap fun stem ↦
    match d.sidecars.lookup stem with
    | some (.mapping m) => some (recipeStem (stem ++ yaml), m)
    | _ => none

/-- `_installed_stem`: the stem the named recipe actually has on disk. -/
def installedStem (name : Text) : Text :=
  let stem := recipeStem name
  match [stem, recipeSlug stem].find? fun c ↦ c ≠ [] ∧ c ∈ d.stems with
  | some c => c
  | none =>
    let wanted := recipeSlug stem
    if wanted = [] then stem
    else
      ((d.sidecarStems.find? fun e ↦
        (e.2.displayName :: e.2.previousNames).any fun n ↦ n ≠ [] ∧ recipeSlug n = wanted).map
          Prod.fst).getD wanted

/-- `_recipe_path` -/
def recipePath (name : Text) : Text :=
  let stem := d.installedStem name
  if stem ++ yaml ∈ d.files then stem ++ yaml
  else if stem ++ yml ∈ d.files then stem ++ yml
  else stem ++ yaml

end Directory

/-! ### Facts about stems -/

section
variable {β : Type} {e : Text × β} {es : List (Text × β)}

/-- What is kept is what looking its key up finds. -/
theorem mem_firstOfEach_iff : e ∈ firstOfEach es ↔ es.find? (fun a ↦ a.1 = e.1) = some e := by
  induction es with
  | nil => simp [firstOfEach]
  | cons a es ih =>
    rw [firstOfEach, List.mem_cons]
    by_cases hkey : a.1 = e.1
    · rw [List.find?_cons_of_pos (by simpa using hkey), Option.some.injEq]
      constructor
      · rintro (rfl | h)
        · rfl
        · simp [hkey] at h
      · exact fun h ↦ .inl h.symm
    · rw [List.find?_cons_of_neg (by simpa using hkey), ← ih, List.mem_filter]
      constructor
      · rintro (rfl | h)
        · exact (hkey rfl).elim
        · exact h.1
      · exact fun h ↦ .inr ⟨h, by simpa using Ne.symm hkey⟩

theorem mem_of_mem_firstOfEach (h : e ∈ firstOfEach es) : e ∈ es :=
  List.mem_of_find?_eq_some (mem_firstOfEach_iff.mp h)

/-- Every key has its first entry. -/
theorem exists_mem_firstOfEach (h : e ∈ es) : ∃ e' ∈ firstOfEach es, e'.1 = e.1 := by
  obtain ⟨e', he'⟩ : ∃ e', es.find? (fun a ↦ a.1 = e.1) = some e' := by
    rw [← Option.isSome_iff_exists, List.find?_isSome]
    exact ⟨e, h, by simp⟩
  have hkey : e'.1 = e.1 := by simpa using List.find?_some he'
  exact ⟨e', mem_firstOfEach_iff.mpr (hkey ▸ he'), hkey⟩

theorem nodup_firstOfEach (es : List (Text × β)) : ((firstOfEach es).map Prod.fst).Nodup := by
  induction es with
  | nil => exact List.nodup_nil
  | cons a es ih =>
    rw [firstOfEach, List.map_cons, List.nodup_cons]
    constructor
    · intro h
      obtain ⟨e, he, hkey⟩ := List.mem_map.mp h
      simp [hkey] at he
    · exact ih.sublist (List.filter_sublist.map _)

end

namespace Directory

variable {d : Directory} {stem suffix name : Text}

theorem file_of_mem_installedStems (h : (stem, suffix) ∈ d.installedStems) :
    stem ++ suffix ∈ d.files ∧ recipeName? (stem ++ suffix) = some (stem, suffix) := by
  obtain ⟨name, hname, hsplit⟩ := List.mem_filterMap.mp (mem_of_mem_firstOfEach h)
  obtain ⟨rfl, -⟩ := recipeName?_eq_some_iff.mp hsplit
  exact ⟨AList.mem_keys.mpr ((List.mem_insertionSort _).mp hname), hsplit⟩

/-- The stem of every recipe file is on disk. -/
theorem mem_stems (hname : name ∈ d.files) (h : recipeName? name = some (stem, suffix)) :
    stem ∈ d.stems := by
  have hmem : (stem, suffix) ∈ (d.files.keys.insertionSort (· ≤ ·)).filterMap recipeName? :=
    List.mem_filterMap.mpr ⟨name, (List.mem_insertionSort _).mpr (AList.mem_keys.mp hname), h⟩
  obtain ⟨e, he, hkey⟩ := exists_mem_firstOfEach hmem
  exact List.mem_map.mpr ⟨e, he, hkey⟩

theorem exists_file_of_mem_stems (h : stem ∈ d.stems) :
    ∃ suffix, stem ++ suffix ∈ d.files ∧ recipeName? (stem ++ suffix) = some (stem, suffix) := by
  obtain ⟨⟨stem, suffix⟩, he, rfl⟩ := List.mem_map.mp h
  exact ⟨suffix, file_of_mem_installedStems he⟩

/-- A file an install wrote resolves to the name that it was installed under. -/
theorem installedStem_installedFilename (h : installedFilename name ∈ d.files) :
    d.installedStem (installedFilename name) = installedName name := by
  rw [installedStem, recipeStem_installedFilename]
  by_cases hhidden : installedName name = [] ∨ (installedName name).head? = some '.'
  · -- Only a name without a slug is empty or hidden, and then nothing else is tried.
    have hslug : recipeSlug name = [] := by
      by_contra hslug
      rw [installedName, if_neg hslug] at hhidden
      exact hhidden.elim hslug head?_slugOf_ne_dot
    have hnone : [installedName name, recipeSlug (installedName name)].find?
        (fun c ↦ c ≠ [] ∧ c ∈ d.stems) = none := by
      rw [recipeSlug_installedName hslug, List.find?_eq_none]
      intro c hc
      rcases List.mem_pair.mp hc with rfl | rfl
      · simp only [decide_eq_true_eq, not_and]
        intro hne hmem
        obtain ⟨suffix, -, hname⟩ := exists_file_of_mem_stems hmem
        exact (recipeName?_eq_some_iff.mp hname).2.2.2 (hhidden.resolve_left hne)
      · simp
    rw [hnone, recipeSlug_installedName hslug]
    simp
  · obtain ⟨hne, hdot⟩ := not_or.mp hhidden
    have hstem : installedName name ∈ d.stems :=
      mem_stems h (recipeName?_eq_some_iff.mpr ⟨rfl, isExtension_installedSuffix, hne, hdot⟩)
    rw [List.find?_cons_of_pos (by simpa using ⟨hne, hstem⟩)]

end Directory

/-! ## The rename sweep -/

/-- A rename of the sweep. -/
structure Rename where
  stem : Text
  suffix : Text
  slug : Text
  deriving DecidableEq

namespace Rename

def file (r : Rename) : Text := r.stem ++ r.suffix

def target (r : Rename) : Text := r.slug ++ r.suffix

end Rename

/-- The renames of the stems that are not slugs, as far as their slugs are not taken. -/
def renamesOf : List (Text × Text) → List Text → List Rename
  | [], _ => []
  | (stem, suffix) :: rest, onDisk =>
    if recipeSlug stem = [] ∨ recipeSlug stem = stem ∨ recipeSlug stem ∈ onDisk then
      renamesOf rest onDisk
    else ⟨stem, suffix, recipeSlug stem⟩ :: renamesOf rest (recipeSlug stem :: onDisk)

/-- `_record_previous_name` -/
def recordPreviousName (stem : Text) : SidecarFile → SidecarFile
  | .mapping m =>
    .mapping (if stem ∈ m.previousNames then m
      else { m with previousNames := m.previousNames ++ [stem] })
  | file => file

namespace Directory

variable (d : Directory)

def renames : List Rename :=
  renamesOf (d.installedStems.insertionSort fun a b ↦ a.1 ≤ b.1) d.stems

/-- `path.rename(target)` -/
def moveFile (r : Rename) : AList fun _ : Text ↦ Text :=
  match d.files.lookup r.file with
  | some content => (d.files.erase r.file).insert r.target content
  | none => d.files

/-- The sidecar goes along, unless one is already there. -/
def moveSidecar (r : Rename) : AList fun _ : Text ↦ SidecarFile :=
  match d.sidecars.lookup r.stem with
  | some file =>
    if r.slug ∈ d.sidecars then d.sidecars else (d.sidecars.erase r.stem).insert r.slug file
  | none => d.sidecars

def applyRename (r : Rename) : Directory :=
  let sidecars := d.moveSidecar r
  { files := d.moveFile r
    sidecars :=
      match sidecars.lookup r.slug with
      | some file => sidecars.insert r.slug (recordPreviousName r.stem file)
      | none => sidecars }

/-- `normalize_installed_recipe_names` -/
def normalize : Directory := d.renames.foldl applyRename d

end Directory

end SparkPulse.Recipes
