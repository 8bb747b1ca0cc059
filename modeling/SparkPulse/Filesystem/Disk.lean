import Mathlib.Data.List.Infix
import SparkPulse.Data.Dict

/-!
# What is on a disk

A disk is a finite map from locations to what is there. A location is the list of names that leads
to it from the root by directories alone, so that an entry has one location however many links lead
to it. The map is closed: what has an entry below it is a directory.

Removing an entry takes everything below it, except what a removal fails on or does not come to,
and the directories that still hold such things.
-/

namespace Filesystem

/-! ## Paths and entries -/

/-- A component of a path as it is written. -/
inductive Component (ν : Type)
  | here
  | up
  | name (n : ν)
  deriving DecidableEq

structure Path (ν : Type) where
  isAbsolute : Bool
  parts : List (Component ν)
  deriving DecidableEq

/-- The names that lead to an entry from the root. -/
abbrev Loc (ν : Type) := List ν

inductive Kind (ν : Type)
  /-- A regular file. Entries of one identity are names of one file. -/
  | file (id bytes : ℕ)
  | link (target : Path ν)
  /-- A directory, and the device it is on. -/
  | dir (device : ℕ)
  deriving DecidableEq

namespace Kind

variable {ν : Type}

def isDir : Kind ν → Bool
  | .dir .. => true
  | _ => false

def isLink : Kind ν → Bool
  | .link _ => true
  | _ => false

theorem isLink_of_isDir {k : Kind ν} (h : k.isDir) : k.isLink = false := by
  cases k
  case dir => rfl
  all_goals cases h

end Kind

/-- What goes wrong: what is not removed, or not come to by a removal that failed, and which
directories cannot be read. -/
structure Faults (ν : Type) where
  stays : Loc ν → Bool
  unreadable : Loc ν → Bool
  /-- What the system says. -/
  reason : Loc ν → String

/-- Removing something leaves an entry: entries of a directory are not found where it cannot be
read. -/
def Faults.keeps {ν : Type} [DecidableEq ν] (faults : Faults ν) (target p : Loc ν) : Bool :=
  faults.stays p || (p ≠ target && faults.unreadable p.dropLast)

/-- Nothing goes wrong. -/
def Faults.none {ν : Type} : Faults ν := ⟨fun _ ↦ false, fun _ ↦ false, fun _ ↦ ""⟩

theorem Faults.keeps_none {ν : Type} [DecidableEq ν] (target : Loc ν) :
    Faults.none.keeps target = fun _ ↦ false := by
  funext p
  simp [Faults.keeps, Faults.none]

/-- The path of a location. -/
def Path.ofLoc {ν : Type} (p : Loc ν) : Path ν := ⟨true, p.map .name⟩

/-! ## Disks -/

structure Disk (ν : Type) [DecidableEq ν] where
  entries : AList fun _ : Loc ν ↦ Kind ν
  root : ∃ k, entries.lookup [] = some k ∧ k.isDir
  closed : ∀ p n k, entries.lookup (p ++ [n]) = some k →
    ∃ k', entries.lookup p = some k' ∧ k'.isDir

namespace Disk

variable {ν : Type} [DecidableEq ν] (D : Disk ν)

def look (p : Loc ν) : Option (Kind ν) := D.entries.lookup p

def IsDir (p : Loc ν) : Prop := ∃ k, D.look p = some k ∧ k.isDir

instance (p : Loc ν) : Decidable (D.IsDir p) :=
  match h : D.look p with
  | none => .isFalse fun ⟨_, hk, _⟩ ↦ by rw [h] at hk; cases hk
  | some k =>
    if hdir : k.isDir then .isTrue ⟨k, h, hdir⟩
    else .isFalse fun ⟨k', hk, hdir'⟩ ↦ hdir (by rw [h] at hk; cases hk; exact hdir')

/-- The name of an entry of a directory. -/
def nameIn (d p : Loc ν) : Option ν := if p.dropLast = d then p.getLast? else none

/-- The entries of a directory, in the order in which it is read. -/
def names (d : Loc ν) : List ν := D.entries.keys.filterMap (nameIn d)

variable {D} {p q d : Loc ν} {n : ν} {k : Kind ν}

theorem isDir_root : D.IsDir [] := D.root

theorem isDir_of_look (h : D.look (p ++ [n]) = some k) : D.IsDir p := D.closed p n k h

/-- What leads to an entry is a directory. -/
theorem isDir_above (h : D.look q = some k) (hpq : p <+: q) (hne : p ≠ q) : D.IsDir p := by
  obtain ⟨r, rfl⟩ := hpq
  induction r using List.reverseRecOn generalizing k with
  | nil => exact absurd (List.append_nil p).symm hne
  | append_singleton r n ih =>
    rw [← List.append_assoc] at h
    have hdir := isDir_of_look h
    rcases r with _ | ⟨m, r⟩
    · rwa [List.append_nil] at hdir
    · obtain ⟨k', hk', -⟩ := hdir
      exact ih hk' (by simp)

theorem isDir_dropLast (h : D.IsDir p) : D.IsDir p.dropLast := by
  rcases List.eq_nil_or_concat p with rfl | ⟨q, n, rfl⟩
  · exact h
  · obtain ⟨k, hk, -⟩ := h
    rw [List.concat_eq_append, List.dropLast_concat]
    exact isDir_of_look (List.concat_eq_append ▸ hk)

theorem nameIn_eq_some_iff : nameIn d p = some n ↔ p = d ++ [n] := by
  rw [nameIn]
  constructor
  · intro h
    obtain ⟨rfl, hlast⟩ := Option.ite_none_right_eq_some.mp h
    exact (List.dropLast_append_getLast? n hlast).symm
  · rintro rfl
    rw [List.dropLast_concat, if_pos rfl, List.getLast?_concat]

theorem mem_names : n ∈ D.names d ↔ ∃ k, D.look (d ++ [n]) = some k := by
  rw [names, List.mem_filterMap]
  constructor
  · rintro ⟨p, hp, h⟩
    rw [nameIn_eq_some_iff] at h
    subst h
    exact Option.isSome_iff_exists.mp (AList.lookup_isSome.mpr hp)
  · rintro ⟨k, hk⟩
    exact ⟨d ++ [n], AList.lookup_isSome.mp (Option.isSome_of_mem hk), nameIn_eq_some_iff.mpr rfl⟩

/-- The disk of some entries, where each of them is in a directory. -/
def ofEntries (entries : AList fun _ : Loc ν ↦ Kind ν) (root : [] ∈ entries.keys)
    (closed : ∀ p ∈ entries.keys, (entries.lookup p.dropLast).any Kind.isDir) : Disk ν where
  entries := entries
  root := (Option.any_eq_true _ _).mp (closed [] root)
  closed := by
    intro p n k h
    have hdir := closed (p ++ [n]) (AList.lookup_isSome.mp (Option.isSome_of_mem h))
    rw [List.dropLast_concat] at hdir
    exact (Option.any_eq_true _ _).mp hdir

/-! ## Removal -/

section
variable (D) (target : Loc ν) (stays : Loc ν → Bool)

/-- An entry is there after a removal that could not remove some entries, or did not come to them.
The root always is. -/
def Survives (p : Loc ν) : Prop :=
  target <+: p → p = [] ∨ ∃ q ∈ D.entries.keys, p <+: q ∧ stays q

instance (p : Loc ν) : Decidable (D.Survives target stays p) := by
  unfold Survives
  infer_instance

theorem survives_root : D.Survives target stays [] := fun _ ↦ .inl rfl

end

theorem survives_of_outside {target : Loc ν} {stays : Loc ν → Bool} (h : ¬target <+: p) :
    D.Survives target stays p := fun h' ↦ absurd h' h

theorem Survives.of_above {target : Loc ν} {stays : Loc ν → Bool} (h : D.Survives target stays q)
    (hpq : p <+: q) : D.Survives target stays p := by
  intro htarget
  rcases h (List.IsPrefix.trans htarget hpq) with rfl | ⟨r, hr, hqr, hstays⟩
  · exact .inl (List.prefix_nil.mp hpq)
  · exact .inr ⟨r, hr, List.IsPrefix.trans hpq hqr, hstays⟩

/-- Remove an entry with all that is below it. -/
def remove (D : Disk ν) (target : Loc ν) (stays : Loc ν → Bool) : Disk ν where
  entries := Dict.keep (D.Survives target stays) D.entries
  root := by
    rw [Dict.lookup_keep, if_pos (survives_root D target stays)]
    exact D.root
  closed := by
    intro p n k h
    rw [Dict.lookup_keep] at h ⊢
    obtain ⟨hsurvives, hk⟩ := Option.ite_none_right_eq_some.mp h
    rw [if_pos (hsurvives.of_above (List.prefix_append p [n]))]
    exact D.closed p n k hk

section
variable {target : Loc ν} {stays : Loc ν → Bool}

theorem look_remove : (D.remove target stays).look p =
    if D.Survives target stays p then D.look p else none :=
  Dict.lookup_keep _ _ p

/-- Outside of what is removed nothing changes. -/
theorem look_remove_of_outside (h : ¬target <+: p) :
    (D.remove target stays).look p = D.look p := by
  rw [look_remove, if_pos (survives_of_outside h)]

theorem look_remove_cases (D : Disk ν) (target : Loc ν) (stays : Loc ν → Bool) (p : Loc ν) :
    (D.remove target stays).look p = D.look p ∨
      (D.remove target stays).look p = none ∧ target <+: p := by
  by_cases h : target <+: p
  · rw [look_remove]
    split_ifs
    · exact .inl rfl
    · exact .inr ⟨rfl, h⟩
  · exact .inl (look_remove_of_outside h)

/-- Where nothing stands in the way all of it goes. -/
theorem look_remove_all (h : target <+: p) (hp : p ≠ []) :
    (D.remove target fun _ ↦ false).look p = none := by
  rw [look_remove, if_neg]
  intro hsurvives
  rcases hsurvives h with rfl | ⟨q, -, -, hfalse⟩
  · exact hp rfl
  · cases hfalse

end

end Disk

end Filesystem
