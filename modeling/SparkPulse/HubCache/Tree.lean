import Mathlib.Data.List.Basic

/-!
# The directories of a hub cache entry

A snapshot is a tree of directories whose files are normally links into `blobs/`. What matters of a
link is what it leads to: a file, a directory, or nothing. A directory is a sequence of named
entries, and a path in it is what joining names with `/` spells.

Both walks of a snapshot are here: Python's `os.walk`, which lists a link to a directory and does
not enter it, and the agent's, which asks of every entry whether it is a directory and follows links
to find out.
-/

namespace SparkPulse.HubCache

/-! ## Paths -/

/-- The components of a relative path. -/
def splitPath (path : String) : List String := (path.toList.splitOn '/').map String.ofList

def joinPath (names : List String) : String :=
  String.ofList (['/'].intercalate (names.map String.toList))

/-- A name that a directory can have an entry by. -/
def IsName (name : String) : Prop :=
  name ≠ "" ∧ name ≠ "." ∧ name ≠ ".." ∧ '/' ∉ name.toList

instance (name : String) : Decidable (IsName name) := inferInstanceAs (Decidable (_ ∧ _ ∧ _ ∧ _))

/-- A path spelled by names alone: it is relative and stays below where it starts. -/
def Plain (path : String) : Prop := ∀ name ∈ splitPath path, IsName name

instance (path : String) : Decidable (Plain path) :=
  inferInstanceAs (Decidable (∀ name ∈ splitPath path, IsName name))

@[simp] theorem joinPath_splitPath (path : String) : joinPath (splitPath path) = path := by
  have hmap : (splitPath path).map String.toList = path.toList.splitOn '/' := by
    rw [splitPath, List.map_map]
    exact (List.map_congr_left fun name _ ↦ String.toList_ofList).trans (List.map_id _)
  rw [joinPath, hmap, List.intercalate_splitOn, String.ofList_toList]

theorem splitPath_joinPath {names : List String} (hne : names ≠ [])
    (h : ∀ name ∈ names, IsName name) : splitPath (joinPath names) = names := by
  have hslash : ∀ cs ∈ names.map String.toList, '/' ∉ cs := by
    intro cs hcs
    obtain ⟨name, hname, rfl⟩ := List.mem_map.mp hcs
    exact (h name hname).2.2.2
  rw [splitPath, joinPath, String.toList_ofList,
    List.splitOn_intercalate '/' hslash (by simpa using hne), List.map_map]
  exact (List.map_congr_left fun name _ ↦ String.ofList_toList).trans (List.map_id _)

/-! ## Trees -/

/-- The entries of a directory, in some order. A `linked` entry is a link to what it says it is;
the contents of files are of type `β`. -/
inductive Tree (β : Type)
  | nil
  | file (name : String) (linked : Bool) (content : β) (rest : Tree β)
  /-- A link that leads nowhere. -/
  | dangling (name : String) (rest : Tree β)
  /-- A directory, of the size its own inode has. -/
  | dir (name : String) (linked : Bool) (size : Nat) (children rest : Tree β)

/-- What a path leads to. -/
inductive Found (β : Type)
  | file (content : β)
  | dangling
  | directory (size : Nat)
  deriving DecidableEq, Repr

namespace Tree

variable {β : Type}

/-- The names of the entries of a directory. -/
def names : Tree β → List String
  | nil => []
  | file name _ _ rest => name :: rest.names
  | dangling name rest => name :: rest.names
  | dir name _ _ _ rest => name :: rest.names

/-- The entries of every directory have names, and different ones. -/
def Wf : Tree β → Prop
  | nil => True
  | file name _ _ rest => IsName name ∧ name ∉ rest.names ∧ rest.Wf
  | dangling name rest => IsName name ∧ name ∉ rest.names ∧ rest.Wf
  | dir name _ _ children rest => IsName name ∧ name ∉ rest.names ∧ children.Wf ∧ rest.Wf

/-- What the path with these components leads to, through links. -/
def find : Tree β → List String → Option (Found β)
  | _, [] => none
  | nil, _ => none
  | file name _ content rest, n :: ns =>
    if n = name then (if ns = [] then some (.file content) else none) else rest.find (n :: ns)
  | dangling name rest, n :: ns =>
    if n = name then (if ns = [] then some .dangling else none) else rest.find (n :: ns)
  | dir name _ size children rest, n :: ns =>
    if n = name then (if ns = [] then some (.directory size) else children.find ns)
    else rest.find (n :: ns)

/-- No link in the tree leads to a directory. -/
def NoLinkedDirs : Tree β → Prop
  | nil => True
  | file _ _ _ rest => rest.NoLinkedDirs
  | dangling _ rest => rest.NoLinkedDirs
  | dir _ linked _ children rest => linked = false ∧ children.NoLinkedDirs ∧ rest.NoLinkedDirs

theorem find_ne_nil {t : Tree β} {ns : List String} {found : Found β}
    (h : t.find ns = some found) : ns ≠ [] := by
  rintro rfl
  cases t <;> cases h

/-- What is found is found below a name of the directory. -/
theorem mem_names_of_find {t : Tree β} {n : String} {ns : List String} {found : Found β}
    (h : t.find (n :: ns) = some found) : n ∈ t.names := by
  induction t with
  | nil => cases h
  | file name linked content rest ih | dangling name rest ih =>
    rw [find] at h
    split_ifs at h with hn hns
    · exact hn ▸ List.mem_cons_self
    · exact List.mem_cons_of_mem _ (ih h)
  | dir name linked size children rest ihc ih =>
    rw [find] at h
    split_ifs at h with hn hns
    · exact hn ▸ List.mem_cons_self
    · exact hn ▸ List.mem_cons_self
    · exact List.mem_cons_of_mem _ (ih h)

/-- What is found in a directory without an entry is found by a path that starts elsewhere. -/
theorem ne_of_find {t : Tree β} {name : String} (hname : name ∉ t.names) {ns : List String}
    {found : Found β} (h : t.find ns = some found) : ∃ n ns', ns = n :: ns' ∧ n ≠ name := by
  cases ns with
  | nil => exact absurd rfl (find_ne_nil h)
  | cons n ns => exact ⟨n, ns, rfl, fun hn ↦ hname (hn ▸ mem_names_of_find h)⟩

/-- A path on which something is found is spelled by names. -/
theorem isName_of_find {t : Tree β} (ht : t.Wf) {ns : List String} {found : Found β}
    (h : t.find ns = some found) : ∀ name ∈ ns, IsName name := by
  induction t generalizing ns with
  | nil => cases ns <;> cases h
  | file name linked content rest ih | dangling name rest ih =>
    cases ns with
    | nil => cases h
    | cons n ns =>
      rw [find] at h
      split_ifs at h with hn hns
      · rw [hn, hns]
        exact fun m hm ↦ List.mem_singleton.mp hm ▸ ht.1
      · exact ih ht.2.2 h
  | dir name linked size children rest ihc ih =>
    cases ns with
    | nil => cases h
    | cons n ns =>
      rw [find] at h
      split_ifs at h with hn hns
      · rw [hn, hns]
        exact fun m hm ↦ List.mem_singleton.mp hm ▸ ht.1
      · intro m hm
        rcases List.mem_cons.mp hm with rfl | hm
        · exact hn ▸ ht.1
        · exact ihc ht.2.2.1 h m hm
      · exact ih ht.2.2.2 h

end Tree

end SparkPulse.HubCache
