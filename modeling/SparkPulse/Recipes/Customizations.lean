import SparkPulse.Recipes.Identity
import SparkPulse.Transition.System

/-!
# Customizations

The overrides an operator saves for a recipe, by `tools/custom_recipes.py`, and how `get_recipe`
finds them again. A row is stored under an id. A recipe is asked for under every id it has had: its
own, and those `legacy_ids` makes of its name and of what its sidecar remembers. Saving and deleting
know the one id that they are called with.

A recipe is its installed file here, and is followed from name to name as sweeps rename it. What was
saved for it and not deleted since is kept beside the rows, by the file, and not by any id. The two
agree as long as the first id of a recipe that has a row is the one its row is under.
-/

open SparkPulse.Runtime (isSpace)

namespace SparkPulse.Recipes

/-! ## Rows -/

section
variable {ν : Type}

/-- Overrides by field. -/
abbrev Overrides (ν : Type) := AList fun _ : Text ↦ ν

/-- The table of customizations, by recipe id. -/
abbrev Rows (ν : Type) := AList fun _ : Text ↦ Overrides ν

/-- `CUSTOMIZABLE_FIELDS` -/
def customizableFields : List Text :=
  ["command", "defaults", "env", "build_args", "container", "model", "mods"].map String.toList

/-- What of a customization is stored. -/
def accepted (customization : AList fun _ : Text ↦ Option ν) : Overrides ν :=
  (customization.entries.filterMap fun e ↦
    if e.1 ∈ customizableFields then e.2.map (Sigma.mk e.1) else none).toAList

/-- The fields of a later save come over those of an earlier one. -/
def merge (stored later : Overrides ν) : Overrides ν := later ∪ stored

/-- `save_customization`: the rows it leaves, and what it returns. -/
def saveCustomization (rows : Rows ν) (recipeId : Text)
    (customization : AList fun _ : Text ↦ Option ν) : Rows ν × Overrides ν :=
  let merged := merge ((rows.lookup recipeId).getD ∅) (accepted customization)
  (if merged.keys = [] then rows.erase recipeId else rows.insert recipeId merged, merged)

/-- `delete_customization` -/
def deleteCustomization (rows : Rows ν) (recipeId : Text) : Rows ν × Bool :=
  (rows.erase recipeId, recipeId ∈ rows)

end

/-! ## The ids of a recipe -/

/-- `former_stems` -/
def Directory.formerStems (d : Directory) (name : Text) : List Text :=
  let stem := d.installedStem name
  match d.sidecars.lookup stem with
  | some (.mapping m) =>
    (((m.displayName :: m.previousNames).map (trim isSpace)).filter fun n ↦
      n ≠ [] ∧ n ≠ stem).eraseDups
  | _ => []

section
variable {ρ ν : Type}

/-- `legacy_ids` -/
def legacyIds (d : Directory) (p : Payload ρ) : List Text :=
  if p.source ≠ .oci then []
  else
    let stem := if ociPrefix <+: p.id then p.id.drop ociPrefix.length else []
    let names := p.name :: if stem = [] then [] else d.formerStems stem
    (((names.filter (· ≠ [])).map (ociPrefix ++ ·)).filter (· ≠ p.id)).eraseDups

/-- Every id that a recipe is asked for under, in order. -/
def idsOf (d : Directory) (p : Payload ρ) : List Text := p.id :: legacyIds d p

/-- `get_customization_for` -/
def getCustomizationFor (rows : Rows ν) (d : Directory) (p : Payload ρ) : Option (Overrides ν) :=
  (idsOf d p).findSome? rows.lookup

end

/-! ## Files and their recipes -/

/-- The file that a file of the swept directory was before the sweep. -/
def Directory.cameFrom (d : Directory) (name : Text) : Text :=
  ((d.renames.find? (·.target = name)).map Rename.file).getD name

section
variable {ρ : Type} (fmt : Format ρ) (disk : Disk)

/-- The recipe that is listed for an installed file. -/
def recipeAt (name : Text) : Option (Payload ρ) :=
  (payloads fmt disk).find? (·.file = .installed name)

/-- The ids of the recipe that is listed for a file. -/
def idsAt (name : Text) : List Text :=
  ((recipeAt fmt disk name).map (idsOf disk.recipes)).getD []

end

/-- The recipes and the rows, and what was saved for each file. -/
structure Library (ν : Type) where
  disk : Disk := {}
  rows : Rows ν := ∅
  /-- The fields saved for the recipe of a file and not deleted since. -/
  saved : Text → Overrides ν := fun _ ↦ ∅
  /-- The file that `get_recipe` just read and the overrides that it applied. -/
  applied : Option (Text × Overrides ν) := none

namespace Library

/-- What happens to recipes and rows. -/
inductive Act (ν : Type)
  /-- Something lists the recipes, which renames files. -/
  | list
  | get (recipeId : Text)
  /-- A call that is meant for the recipe of a file, under an id. -/
  | save (name recipeId : Text) (customization : AList fun _ : Text ↦ Option ν)
  | delete (name recipeId : Text)

section
variable {ρ ν : Type} (fmt : Format ρ) (s : Library ν)

/-- The overrides that are found for the recipe of a file. -/
def found (name : Text) : Overrides ν :=
  ((recipeAt fmt s.disk name).bind (getCustomizationFor s.rows s.disk.recipes)).getD ∅

/-- The id that these are stored under. -/
def rowAt (name : Text) : Option Text := (idsAt fmt s.disk name).find? (· ∈ s.rows)

def sweep : Library ν :=
  { s with
    disk := s.disk.settle
    saved := fun name ↦ s.saved (s.disk.recipes.cameFrom name)
    applied := none }

/-- The recipes as they are once an id has been looked for. -/
def searched (recipeId : Text) : Library ν :=
  if named s.disk.settle recipeId = none ∧ recipeId ≠ [] then s.sweep.sweep else s.sweep

/-- The file and the overrides of a payload that was read from an installed file. -/
def appliedTo (p : Payload ρ) : Option (Text × Overrides ν) :=
  match p.file with
  | .installed name => some (name, (getCustomizationFor s.rows s.disk.recipes p).getD ∅)
  | _ => none

/-- `get_recipe` -/
def getRecipe (recipeId : Text) : Library ν :=
  { s.searched recipeId with
    applied := (resolveRecipe fmt s.disk recipeId).bind (s.searched recipeId).appliedTo }

/-- A call of `save_customization`. -/
def save (name recipeId : Text) (customization : AList fun _ : Text ↦ Option ν) : Library ν :=
  { s with
    rows := (saveCustomization s.rows recipeId customization).1
    saved := Function.update s.saved name (merge (s.saved name) (accepted customization))
    applied := none }

/-- A call of `delete_customization`. -/
def delete (name recipeId : Text) : Library ν :=
  { s with
    rows := (deleteCustomization s.rows recipeId).1
    saved := Function.update s.saved name ∅
    applied := none }

def next : Act ν → Option (Library ν)
  | .list => some s.sweep
  | .get recipeId => some (s.getRecipe fmt recipeId)
  | .save name recipeId customization =>
    if (recipeAt fmt s.disk name).isSome then some (s.save name recipeId customization) else none
  | .delete name recipeId =>
    if (recipeAt fmt s.disk name).isSome then some (s.delete name recipeId) else none

/-- Nothing is customized at first. -/
def system : Transition.System (Library ν) (Act ν) where
  init s := ∃ disk, s = { disk }
  next := next fmt

/-- What `get_recipe` applied is what was saved for the recipe. -/
def Followed : Prop := ∀ name fields, s.applied = some (name, fields) → fields = s.saved name

/-! ## When the first row is the right one -/

/-- Every file has its row under the id it was under before the sweep. -/
def SweepKeeps : Prop :=
  ∀ name ∈ s.disk.settle.recipes.files.keys,
    s.sweep.rowAt fmt name = s.rowAt fmt (s.disk.recipes.cameFrom name)

/-- The recipe of no other file comes to an id before it comes to a row of its own. -/
def Spares (name recipeId : Text) : Prop :=
  ∀ name' ∈ s.disk.recipes.files.keys, name' ≠ name →
    (idsAt fmt s.disk name').find? (fun id ↦ id = recipeId ∨ id ∈ s.rows) ≠ some recipeId

/-- A save is under the id that the recipe's row is under, or is the recipe's first. A delete leaves
no other row that is the recipe's. Neither is under an id that leads another recipe there, and a
rename leaves each recipe where its row is found. -/
def Apart : Act ν → Prop
  | .list => s.SweepKeeps fmt
  | .get recipeId =>
    s.SweepKeeps fmt ∧
      (named s.disk.settle recipeId = none ∧ recipeId ≠ [] → s.sweep.SweepKeeps fmt)
  | .save name recipeId customization =>
    (accepted customization).keys = [] ∨
      (s.rowAt fmt name = some recipeId ∨
        s.rowAt fmt name = none ∧ recipeId ∈ idsAt fmt s.disk name) ∧ s.Spares fmt name recipeId
  | .delete name recipeId =>
    (∀ id ∈ idsAt fmt s.disk name, id ∈ s.rows → id = recipeId) ∧
      (recipeId ∈ s.rows → s.Spares fmt name recipeId)

end

end Library

/-! ## The first of several ids -/

section
variable {ν : Type} {rows : Rows ν} {ids : List Text} {recipeId : Text}

/-- What is found under some ids is what is stored under the first that has a row. -/
theorem findSome?_lookup :
    ids.findSome? rows.lookup = (ids.find? (· ∈ rows)).bind rows.lookup := by
  induction ids with
  | nil => rfl
  | cons id ids ih =>
    by_cases hmem : id ∈ rows
    · obtain ⟨row, hrow⟩ := Option.isSome_iff_exists.mp (AList.lookup_isSome.mpr hmem)
      rw [List.find?_cons_of_pos (by simpa using hmem), List.findSome?_cons, hrow,
        Option.bind_some, hrow]
    · rw [List.find?_cons_of_neg (by simpa using hmem), List.findSome?_cons,
        AList.lookup_eq_none.mpr hmem, ih]

/-- A new row under an id is passed over where the id is not come to first. -/
theorem find?_insert_of_ne (row : Overrides ν)
    (h : ids.find? (fun id ↦ id = recipeId ∨ id ∈ rows) ≠ some recipeId) :
    ids.find? (· ∈ rows.insert recipeId row) = ids.find? (· ∈ rows) ∧
      ids.find? (· ∈ rows) ≠ some recipeId := by
  induction ids with
  | nil => exact ⟨rfl, fun h ↦ by cases h⟩
  | cons id ids ih =>
    have hne : id ≠ recipeId := by
      rintro rfl
      exact h (List.find?_cons_of_pos (by simp))
    by_cases hmem : id ∈ rows
    · rw [List.find?_cons_of_pos (by simp [hmem]), List.find?_cons_of_pos (by simpa using hmem)]
      exact ⟨rfl, fun heq ↦ hne (Option.some.inj heq)⟩
    · rw [List.find?_cons_of_neg (by simp [hmem, hne])] at h
      rw [List.find?_cons_of_neg (by simp [hmem, hne]),
        List.find?_cons_of_neg (by simpa using hmem)]
      exact ih h

/-- A new row under an id is come to where no row was come to before. -/
theorem find?_insert_self {row : Overrides ν}
    (h : ids.find? (· ∈ rows) = some recipeId ∨
      ids.find? (· ∈ rows) = none ∧ recipeId ∈ ids) :
    ids.find? (· ∈ rows.insert recipeId row) = some recipeId := by
  induction ids with
  | nil => simp at h
  | cons id ids ih =>
    by_cases hid : id = recipeId
    · rw [List.find?_cons_of_pos (by simp [hid]), hid]
    · have hmem : id ∉ rows := by
        intro hmem
        rw [List.find?_cons_of_pos (by simpa using hmem)] at h
        rcases h with h | ⟨h, -⟩
        · exact hid (Option.some.inj h)
        · cases h
      rw [List.find?_cons_of_neg (by simpa using hmem), List.mem_cons] at h
      rw [List.find?_cons_of_neg (by simp [hmem, hid])]
      exact ih (h.imp_right fun h ↦ ⟨h.1, h.2.resolve_left fun heq ↦ hid heq.symm⟩)

theorem find?_erase_of_ne (h : ids.find? (· ∈ rows) ≠ some recipeId) :
    ids.find? (· ∈ rows.erase recipeId) = ids.find? (· ∈ rows) := by
  induction ids with
  | nil => rfl
  | cons id ids ih =>
    by_cases hmem : id ∈ rows
    · have hne : id ≠ recipeId := by
        rintro rfl
        exact h (List.find?_cons_of_pos (by simpa using hmem))
      have herase : id ∈ rows.erase recipeId := AList.mem_erase.mpr ⟨hne, hmem⟩
      rw [List.find?_cons_of_pos (by simpa only [decide_eq_true_eq] using herase),
        List.find?_cons_of_pos (by simpa using hmem)]
    · have herase : id ∉ rows.erase recipeId := fun h ↦ hmem (AList.mem_erase.mp h).2
      rw [List.find?_cons_of_neg (by simpa using hmem)] at h
      rw [List.find?_cons_of_neg (by simpa only [decide_eq_true_eq] using herase),
        List.find?_cons_of_neg (by simpa using hmem), ih h]

end

namespace Library

section
variable {ρ ν : Type} {fmt : Format ρ} {s t : Library ν} {name recipeId : Text} {p : Payload ρ}

@[simp] theorem save_disk {customization : AList fun _ : Text ↦ Option ν} :
    (s.save name recipeId customization).disk = s.disk := rfl

theorem save_saved {customization : AList fun _ : Text ↦ Option ν} :
    (s.save name recipeId customization).saved =
      Function.update s.saved name (merge (s.saved name) (accepted customization)) := rfl

@[simp] theorem delete_disk : (s.delete name recipeId).disk = s.disk := rfl

@[simp] theorem delete_rows : (s.delete name recipeId).rows = s.rows.erase recipeId := rfl

theorem delete_saved : (s.delete name recipeId).saved = Function.update s.saved name ∅ := rfl

theorem found_eq : s.found fmt name = ((s.rowAt fmt name).bind s.rows.lookup).getD ∅ := by
  rw [found, rowAt, idsAt]
  rcases recipeAt fmt s.disk name with _ | p
  · rfl
  · rw [Option.bind_some, getCustomizationFor, findSome?_lookup]
    rfl

theorem found_of_rowAt_eq_none (h : s.rowAt fmt name = none) : s.found fmt name = ∅ := by
  rw [found_eq, h]
  rfl

theorem found_of_rowAt (h : s.rowAt fmt name = some recipeId) :
    s.found fmt name = (s.rows.lookup recipeId).getD ∅ := by
  rw [found_eq, h]
  rfl

/-! ## Runs -/

/-- What is found for every file is what was saved for it, and a row is never empty. -/
structure Kept (fmt : Format ρ) (s : Library ν) : Prop where
  found : ∀ name ∈ s.disk.recipes.files.keys, s.found fmt name = s.saved name
  filled : ∀ id row, s.rows.lookup id = some row → row.keys ≠ []

/-- A file of the swept directory was there before. -/
theorem cameFrom_mem {d : Directory} (h : name ∈ d.normalize.files) : d.cameFrom name ∈ d.files := by
  rcases hfind : d.renames.find? (·.target = name) with _ | r
  · have hname : d.cameFrom name = name := by rw [Directory.cameFrom, hfind]; rfl
    rcases Directory.mem_normalize_iff.mp h with ⟨r, hr, rfl⟩ | ⟨hmem, -⟩
    · exact absurd (decide_eq_true rfl) (List.find?_eq_none.mp hfind r hr)
    · rwa [hname]
  · have hname : d.cameFrom name = r.file := by rw [Directory.cameFrom, hfind]; rfl
    rw [hname]
    exact (Directory.movable_of_mem_renames (List.mem_of_find?_eq_some hfind)).present

/-- What is found depends on what is stored under each id. -/
theorem found_congr (hdisk : t.disk = s.disk) (hrows : ∀ id, t.rows.lookup id = s.rows.lookup id) :
    t.found fmt name = s.found fmt name := by
  have heq : getCustomizationFor (ρ := ρ) t.rows = getCustomizationFor s.rows := by
    funext d p
    rw [getCustomizationFor, getCustomizationFor, funext hrows]
  rw [found, found, hdisk, heq]

theorem keys_eq_nil_iff {m : Overrides ν} : m.keys = [] ↔ m = ∅ := by
  constructor
  · intro h
    exact AList.ext (List.map_eq_nil_iff.mp h)
  · rintro rfl
    rfl

/-- Of fields that are merged nothing is left only where there was nothing. -/
theorem keys_merge_ne_nil (stored : Overrides ν) {later : Overrides ν} (h : later.keys ≠ []) :
    (merge stored later).keys ≠ [] := by
  obtain ⟨field, hfield⟩ := List.exists_mem_of_ne_nil _ h
  have hmem : field ∈ merge stored later := AList.mem_union.mpr (.inl (AList.mem_keys.mpr hfield))
  exact List.ne_nil_of_mem (AList.mem_keys.mp hmem)

namespace Kept

theorem sweep (hs : s.Kept fmt) (hkeeps : s.SweepKeeps fmt) : s.sweep.Kept fmt where
  found name hname := by
    have hmem := cameFrom_mem (AList.mem_keys.mpr hname)
    refine Eq.trans ?_ (hs.found _ (AList.mem_keys.mp hmem))
    rw [found_eq, found_eq, hkeeps name hname]
    rfl
  filled := hs.filled

theorem searched (hs : s.Kept fmt) (hkeeps : s.SweepKeeps fmt)
    (hagain : named s.disk.settle recipeId = none ∧ recipeId ≠ [] → s.sweep.SweepKeeps fmt) :
    (s.searched recipeId).Kept fmt := by
  rw [Library.searched]
  split_ifs with h
  · exact (hs.sweep hkeeps).sweep (hagain h)
  · exact hs.sweep hkeeps

/-- A save of no fields changes nothing that is looked up. -/
theorem lookup_saveCustomization_nil (hs : s.Kept fmt)
    {customization : AList fun _ : Text ↦ Option ν} (h : (accepted customization).keys = [])
    (recipeId id : Text) :
    (saveCustomization s.rows recipeId customization).1.lookup id = s.rows.lookup id := by
  rw [saveCustomization, merge, keys_eq_nil_iff.mp h, AList.empty_union]
  rcases hrow : s.rows.lookup recipeId with _ | row
  · rw [Option.getD_none, if_pos AList.keys_empty]
    by_cases hid : id = recipeId
    · rw [hid, AList.lookup_erase, hrow]
    · rw [AList.lookup_erase_ne hid]
  · rw [Option.getD_some, if_neg (hs.filled _ _ hrow)]
    by_cases hid : id = recipeId
    · rw [hid, AList.lookup_insert, hrow]
    · rw [AList.lookup_insert_ne hid]

theorem save (hs : s.Kept fmt) {customization : AList fun _ : Text ↦ Option ν}
    (hapart : s.Apart fmt (.save name recipeId customization)) :
    (s.save name recipeId customization).Kept fmt := by
  by_cases hnil : (accepted customization).keys = []
  · have hlookup := hs.lookup_saveCustomization_nil hnil recipeId
    have hsaved : (s.save name recipeId customization).saved = s.saved := by
      rw [save_saved, merge, keys_eq_nil_iff.mp hnil, AList.empty_union, Function.update_eq_self]
    constructor
    · intro name' hname'
      rw [hsaved, ← hs.found name' hname']
      exact found_congr rfl hlookup
    · intro id row hrow
      exact hs.filled id row ((hlookup id).symm.trans hrow)
  · obtain ⟨hown, hspares⟩ := hapart.resolve_left hnil
    have hmerged := keys_merge_ne_nil ((s.rows.lookup recipeId).getD ∅) hnil
    have hrows : (s.save name recipeId customization).rows = s.rows.insert recipeId
        (merge ((s.rows.lookup recipeId).getD ∅) (accepted customization)) := by
      rw [Library.save, saveCustomization, if_neg hmerged]
    constructor
    · intro name' hname'
      rw [found_eq, rowAt, hrows, save_disk, save_saved]
      by_cases heq : name' = name
      · subst heq
        -- The row that is merged into holds what was found before.
        have hstored : (s.rows.lookup recipeId).getD ∅ = s.saved name' := by
          rw [← hs.found name' hname']
          rcases hown with hrow | ⟨hnone, hid⟩
          · exact (found_of_rowAt hrow).symm
          · have hfree : recipeId ∉ s.rows := by
              simpa using List.find?_eq_none.mp hnone recipeId hid
            rw [found_of_rowAt_eq_none hnone, AList.lookup_eq_none.mpr hfree]
            rfl
        rw [find?_insert_self hown, Option.bind_some, AList.lookup_insert, hstored,
          Function.update_self, Option.getD_some]
      · obtain ⟨hfind, hne⟩ := find?_insert_of_ne
          (merge ((s.rows.lookup recipeId).getD ∅) (accepted customization)) (hspares name' hname' heq)
        rw [Function.update_of_ne heq, ← hs.found name' hname', found_eq, hfind, rowAt]
        rcases hrow : (idsAt fmt s.disk name').find? (· ∈ s.rows) with _ | id
        · rfl
        · rw [hrow] at hne
          rw [Option.bind_some, Option.bind_some,
            AList.lookup_insert_ne fun h ↦ hne (congrArg some h)]
    · intro id row hrow
      rw [hrows] at hrow
      by_cases hid : id = recipeId
      · rw [hid, AList.lookup_insert, Option.some.injEq] at hrow
        exact hrow ▸ hmerged
      · rw [AList.lookup_insert_ne hid] at hrow
        exact hs.filled id row hrow

theorem delete (hs : s.Kept fmt) (hapart : s.Apart fmt (.delete name recipeId)) :
    (s.delete name recipeId).Kept fmt := by
  obtain ⟨hown, hspares⟩ := hapart
  constructor
  · intro name' hname'
    rw [found_eq, rowAt, delete_disk, delete_rows, delete_saved]
    by_cases heq : name' = name
    · subst heq
      have hnone : (idsAt fmt s.disk name').find? (· ∈ s.rows.erase recipeId) = none := by
        refine List.find?_eq_none.mpr fun id hid hmem ↦ ?_
        obtain ⟨hne, hmem⟩ := AList.mem_erase.mp (of_decide_eq_true hmem)
        exact hne (hown id hid hmem)
      rw [Function.update_self, hnone]
      rfl
    · have hne : (idsAt fmt s.disk name').find? (· ∈ s.rows) ≠ some recipeId := by
        intro hrow
        have hmem : recipeId ∈ s.rows := by simpa using List.find?_some hrow
        have hsame : (fun id ↦ decide (id = recipeId ∨ id ∈ s.rows)) =
            fun id ↦ decide (id ∈ s.rows) := by
          funext id
          exact decide_eq_decide.mpr (or_iff_right_of_imp fun h ↦ h ▸ hmem)
        exact hspares hmem name' hname' heq (hsame ▸ hrow)
      rw [Function.update_of_ne heq, ← hs.found name' hname', found_eq, rowAt,
        find?_erase_of_ne hne]
      rcases hrow : (idsAt fmt s.disk name').find? (· ∈ s.rows) with _ | id
      · rfl
      · rw [hrow] at hne
        rw [Option.bind_some, Option.bind_some,
          AList.lookup_erase_ne fun h ↦ hne (congrArg some h)]
  · intro id row hrow
    rw [delete_rows] at hrow
    by_cases hid : id = recipeId
    · rw [hid, AList.lookup_erase] at hrow
      cases hrow
    · rw [AList.lookup_erase_ne hid] at hrow
      exact hs.filled id row hrow

end Kept

/-! ## What is read -/

theorem exists_hasStem_of_mem_candidateFiles {disk : Disk}
    (h : (recipeId, File.installed name) ∈ disk.candidateFiles) : ∃ stem, HasStem name stem := by
  rcases List.mem_append.mp (mem_of_mem_firstOfEach h) with h | h
  · rcases List.mem_append.mp h with h | h
    · obtain ⟨path, -, heq⟩ := List.mem_map.mp h
      cases heq
    · obtain ⟨name', -, stem, -, heq⟩ := mem_flatDirFiles_iff.mp h
      cases heq
  · obtain ⟨name', -, stem, hstem, heq⟩ := mem_flatDirFiles_iff.mp h
    rw [File.installed.inj (Prod.mk.inj heq).2]
    exact ⟨stem, hstem⟩

/-- One recipe is listed for an installed file. -/
theorem eq_of_mem_payloads {disk : Disk} {p' : Payload ρ} (hp : p ∈ payloads fmt disk)
    (hp' : p' ∈ payloads fmt disk) (hfile : p.file = .installed name)
    (hfile' : p'.file = .installed name) : p = p' := by
  obtain ⟨hmem, hparse, heq⟩ := of_mem_payloads hp
  obtain ⟨hmem', hparse', heq'⟩ := of_mem_payloads hp'
  obtain ⟨stem, hstem⟩ := exists_hasStem_of_mem_candidateFiles (hfile ▸ hmem)
  have hid : p.id = p'.id :=
    (id_of_mem_candidateFiles_installed hmem hfile hstem).trans
      (id_of_mem_candidateFiles_installed hmem' hfile' hstem).symm
  rw [hfile] at hparse
  rw [hfile', hparse] at hparse'
  rw [heq, heq', hid, hfile, hfile', Option.some.inj hparse']

theorem recipeAt_of_mem_payloads {disk : Disk} (hp : p ∈ payloads fmt disk)
    (hfile : p.file = .installed name) : recipeAt fmt disk name = some p := by
  rcases hfind : recipeAt fmt disk name with _ | p'
  · exact absurd (decide_eq_true hfile) (List.find?_eq_none.mp hfind p hp)
  · have hfile' : p'.file = .installed name := by simpa using List.find?_some hfind
    rw [eq_of_mem_payloads hp (List.mem_of_find?_eq_some hfind) hfile hfile']

/-- What an id leads to among the installed recipes is listed where it was looked for. -/
theorem recipeAt_searched (hp : resolveRecipe fmt s.disk recipeId = some p)
    (hfile : p.file = .installed name) :
    recipeAt fmt (s.searched recipeId).disk name = some p := by
  refine recipeAt_of_mem_payloads ?_ hfile
  rcases hnamed : named s.disk.settle recipeId with _ | file
  · rw [resolveRecipe, hnamed] at hp
    simp only at hp
    have hne : recipeId ≠ [] := by
      rintro rfl
      cases hp
    rw [if_neg hne, firstNamed_eq] at hp
    obtain ⟨c, hc, hp⟩ := Option.bind_eq_some_iff.mp hp
    rw [searched, if_pos ⟨hnamed, hne⟩]
    exact mem_payloads_iff.mpr ⟨c, List.mem_of_find?_eq_some hc, hp⟩
  · rw [resolveRecipe_of_named hnamed] at hp
    obtain ⟨recipe, hparse, rfl⟩ := payloadOf_eq_some_iff.mp hp
    have hbundled : ¬bundledPrefix <+: recipeId :=
      fun h ↦ ne_installed_of_named h hnamed name hfile
    have hmem : (recipeId, file) ∈ s.disk.settle.candidateFiles :=
      (mem_candidateFiles_of_not_bundled hbundled).mpr hnamed
    rw [searched, if_neg fun h ↦ by rw [hnamed] at h; cases h.1]
    exact mem_payloads_of_mem hmem hparse

/-- The file that a listed recipe was read from is in the directory. -/
theorem mem_files_of_recipeAt {disk : Disk} (h : recipeAt fmt disk name = some p) :
    name ∈ disk.recipes.files.keys := by
  have hfile : p.file = .installed name := by simpa using List.find?_some h
  obtain ⟨-, hparse, -⟩ := of_mem_payloads (List.mem_of_find?_eq_some h)
  rw [hfile] at hparse
  obtain ⟨content, hread, -⟩ := Option.bind_eq_some_iff.mp hparse
  exact AList.mem_keys.mp (AList.lookup_isSome.mp (Option.isSome_of_mem hread))

theorem Kept.getRecipe (hs : s.Kept fmt) (hapart : s.Apart fmt (.get recipeId)) :
    (s.getRecipe fmt recipeId).Kept fmt ∧ (s.getRecipe fmt recipeId).Followed := by
  have ht := hs.searched hapart.1 hapart.2
  refine ⟨⟨ht.found, ht.filled⟩, fun name fields happlied ↦ ?_⟩
  obtain ⟨p, hp, happlied⟩ := Option.bind_eq_some_iff.mp happlied
  rw [appliedTo] at happlied
  rcases hfile : p.file with _ | _ | _ | name' <;> rw [hfile] at happlied
  case installed =>
    obtain ⟨rfl, rfl⟩ := Prod.mk.inj (Option.some.inj happlied)
    have hlisted := recipeAt_searched hp hfile
    have hfound := ht.found name' (mem_files_of_recipeAt hlisted)
    rw [Library.found, hlisted] at hfound
    exact hfound
  all_goals cases happlied

theorem kept_of_init (h : (system fmt).init s) : s.Kept fmt ∧ s.Followed := by
  obtain ⟨disk, rfl⟩ := h
  refine ⟨⟨fun name _ ↦ found_of_rowAt_eq_none ?_, fun id row hrow ↦ ?_⟩, fun _ _ h ↦ by cases h⟩
  · exact List.find?_eq_none.mpr fun id _ h ↦ AList.notMem_empty id (of_decide_eq_true h)
  · exact absurd ((AList.lookup_empty id).symm.trans hrow) fun h ↦ by cases h

theorem kept_of_next {a : Act ν} (hs : s.Kept fmt ∧ s.Followed) (hapart : s.Apart fmt a)
    (h : (system fmt).next s a = some t) : t.Kept fmt ∧ t.Followed := by
  rcases a with _ | recipeId | ⟨name, recipeId, customization⟩ | ⟨name, recipeId⟩
  case list =>
    obtain rfl := Option.some.inj h
    exact ⟨hs.1.sweep hapart, fun _ _ h ↦ by cases h⟩
  case get =>
    obtain rfl := Option.some.inj h
    exact hs.1.getRecipe hapart
  case save =>
    obtain ⟨-, h⟩ := Option.ite_none_right_eq_some.mp h
    obtain rfl := Option.some.inj h
    exact ⟨hs.1.save hapart, fun _ _ h ↦ by cases h⟩
  case delete =>
    obtain ⟨-, h⟩ := Option.ite_none_right_eq_some.mp h
    obtain rfl := Option.some.inj h
    exact ⟨hs.1.delete hapart, fun _ _ h ↦ by cases h⟩

instance (fmt : Format ρ) (s : Library ν) (a : Act ν) : Decidable (s.Apart fmt a) :=
  match a with
  | .list => inferInstanceAs (Decidable (∀ name ∈ _, _ = _))
  | .get _ =>
    inferInstanceAs (Decidable ((∀ name ∈ _, _ = _) ∧ (_ ∧ _ → ∀ name ∈ _, _ = _)))
  | .save .. => inferInstanceAs (Decidable (_ ∨ _ ∧ ∀ name' ∈ _, _ → _))
  | .delete .. => inferInstanceAs (Decidable ((∀ id ∈ _, _ → _) ∧ (_ → ∀ name' ∈ _, _ → _)))

end

/-! ## One recipe that is renamed -/

/-- Every text is a recipe of that name. -/
private def calledByText : Format Text where
  parse := some
  name := id

private theorem nothingBundled : ∀ path ∈ (∅ : AList fun _ : List Text ↦ Node).keys,
    path ≠ [] ∧ ∀ part ∈ path, IsPart part := by simp

/-- An installed recipe with a sidecar, which the sweep renames. -/
private def oneWithSidecar : Library ℕ where
  disk.bundled_parts := nothingBundled
  disk.recipes :=
    { files := [(⟨"My Model.yaml".toList, "mine".toList⟩ : Sigma fun _ : Text ↦ Text)].toAList
      sidecars := [(⟨"My Model".toList, .mapping { displayName := "My Model".toList }⟩ :
        Sigma fun _ : Text ↦ SidecarFile)].toAList }

private def oneField (field : String) (value : ℕ) : AList fun _ : Text ↦ Option ℕ :=
  AList.singleton field.toList (some value)

/-- A command is saved before the recipe is renamed, and the environment after that, under an id. -/
private def saveTwice (recipeId : String) : List (Act ℕ) :=
  [.save "My Model.yaml".toList "oci-My Model".toList (oneField "command" 1), .list,
    .save "my-model.yaml".toList recipeId.toList (oneField "env" 2), .get "oci-my-model".toList]

/-- What of the command is applied, to which file, and what of it was saved for that. -/
private def commandOf (s : Library ℕ) : Option Text × Option ℕ × Option ℕ :=
  (s.applied.map Prod.fst, s.applied.bind fun a ↦ a.2.lookup "command".toList,
    (s.saved "my-model.yaml".toList).lookup "command".toList)

end Library

end SparkPulse.Recipes
