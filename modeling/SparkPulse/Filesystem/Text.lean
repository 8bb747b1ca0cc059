import SparkPulse.Filesystem.Resolve

/-!
# Paths as they are written

A text is a path: it is cut at its slashes, and a component that says nothing stands for the
directory it is met in. Two paths are compared by their components, without those that say nothing.
-/

namespace Filesystem.Path

variable {ν : Type} [DecidableEq ν]

def component (text : List Char) : Component String :=
  if text = [] ∨ text = ['.'] then .here
  else if text = ['.', '.'] then .up
  else .name (String.ofList text)

def ofText (text : String) : Path String :=
  if text = "" then ⟨false, []⟩
  else ⟨text.toList.head? = some '/', (text.toList.splitOn '/').map component⟩

/-- The text of a path after that of another one: an absolute one replaces it. -/
def joinText (base other : String) : String :=
  if other.toList.head? = some '/' then other
  else if base = "" ∨ base.toList.getLast? = some '/' then base ++ other
  else base ++ "/" ++ other

/-- The text of an absolute path. -/
def shown (path : Path String) : String :=
  String.join (path.parts.map fun
    | .here => "/."
    | .up => "/.."
    | .name n => "/" ++ n)

/-- The components that say something, and a first `.` of a relative path. -/
def components (path : Path ν) : List (Component ν) :=
  match path.isAbsolute, path.parts with
  | false, .here :: ps => .here :: ps.filter (· ≠ .here)
  | _, ps => ps.filter (· ≠ .here)

/-- Two paths are equal when their components are. -/
def same (path other : Path ν) : Prop :=
  path.isAbsolute = other.isAbsolute ∧ path.components = other.components

instance (path other : Path ν) : Decidable (path.same other) := by
  unfold same
  infer_instance

def startsWith (path base : Path ν) : Prop :=
  if base.isAbsolute = path.isAbsolute then base.components <+: path.components
  else base.isAbsolute = false ∧ base.components = []

instance (path base : Path ν) : Decidable (path.startsWith base) := by
  unfold startsWith
  infer_instance

/-- A path after another: an absolute one replaces it. -/
def join (path other : Path ν) : Path ν :=
  if other.isAbsolute then other else ⟨path.isAbsolute, path.parts ++ other.parts⟩

variable {path : Path ν} {p q : Loc ν}

theorem filter_map_name (p : Loc ν) :
    (p.map (Component.name : ν → Component ν)).filter (· ≠ .here) = p.map .name := by
  rw [List.filter_eq_self]
  intro c hc
  obtain ⟨n, -, rfl⟩ := List.mem_map.mp hc
  rfl

theorem components_of_isAbsolute (h : path.isAbsolute = true) :
    path.components = path.parts.filter (· ≠ .here) := by
  rw [components, h]

@[simp] theorem components_ofLoc : (ofLoc p).components = p.map .name :=
  (components_of_isAbsolute rfl).trans (filter_map_name p)

theorem same_ofLoc_iff : (ofLoc p).same (ofLoc q) ↔ p = q := by
  have hname : Function.Injective (Component.name : ν → Component ν) := fun _ _ ↦ Component.name.inj
  rw [same, components_ofLoc, components_ofLoc, (List.map_injective_iff.mpr hname).eq_iff]
  exact and_iff_right rfl

theorem startsWith_ofLoc_iff : (ofLoc p).startsWith (ofLoc q) ↔ q <+: p := by
  have habsolute : (ofLoc q).isAbsolute = (ofLoc p).isAbsolute := rfl
  rw [startsWith, if_pos habsolute, components_ofLoc, components_ofLoc]
  exact List.prefix_map_iff_of_injective fun _ _ ↦ Component.name.inj

/-- What is cut off of the components of a path is its own components. -/
theorem components_of_cut {cs : List (Component ν)} (h : cs <+: path.components) :
    (⟨path.isAbsolute, cs⟩ : Path ν).components = cs := by
  have hfilter {cs ps : List (Component ν)} (h : cs <+: ps.filter (· ≠ .here)) :
      cs.filter (· ≠ .here) = cs := by
    rw [List.filter_eq_self]
    exact fun c hc ↦ (List.mem_filter.mp (h.subset hc)).2
  rcases path with ⟨_ | _, ps⟩
  · rcases cs with _ | ⟨c, cs⟩
    · rfl
    · rcases ps with _ | ⟨_ | _ | n, ps⟩
      · exact absurd (List.prefix_nil.mp h) (List.cons_ne_nil c cs)
      · obtain ⟨rfl, hcs⟩ := List.cons_prefix_cons.mp h
        exact congrArg (List.cons .here) (hfilter hcs)
      -- a first component that says something is what the rest begins with
      · have hself := hfilter (show c :: cs <+: (Component.up :: ps).filter (· ≠ .here) from h)
        obtain ⟨rfl, -⟩ := List.cons_prefix_cons.mp h
        exact hself
      · have hself := hfilter (show c :: cs <+: (Component.name n :: ps).filter (· ≠ .here) from h)
        obtain ⟨rfl, -⟩ := List.cons_prefix_cons.mp h
        exact hself
  · rw [components_of_isAbsolute rfl]
    exact hfilter h

theorem parts_ne_nil_of_ofText {text : String} (h : text ≠ "") : (ofText text).parts ≠ [] := by
  rw [ofText, if_neg h]
  exact fun hnil ↦ List.splitOn_ne_nil _ _ (List.map_eq_nil_iff.mp hnil)

theorem components_ne_nil (h : path.isAbsolute = false) (hparts : path.parts ≠ []) :
    path.components ≠ [] := by
  obtain ⟨c, cs, hcs⟩ := List.exists_cons_of_ne_nil hparts
  rw [components, h, hcs]
  cases c
  all_goals exact List.cons_ne_nil _ _

end Filesystem.Path
