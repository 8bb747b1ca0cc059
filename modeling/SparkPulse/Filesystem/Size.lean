import Mathlib.Algebra.BigOperators.Group.Finset.Basic
import SparkPulse.Filesystem.Resolve

/-!
# The files of a part of a disk

The regular files that some locations name, each of them once however many of its names are among
them, and what they hold. How long the names are that can be appended to a path and still lead
somewhere is bounded, by how deep the disk is and how many links may be passed.
-/

namespace Filesystem

variable {ν : Type} [DecidableEq ν]

/-- The identity of a regular file, and its size. -/
def Kind.identity {ν : Type} : Kind ν → Option (ℕ × ℕ)
  | .file id bytes => some (id, bytes)
  | _ => none

theorem Kind.identity_eq_some_iff {ν : Type} {k : Kind ν} {x : ℕ × ℕ} :
    k.identity = some x ↔ k = .file x.1 x.2 := by
  cases k
  case file => simp [identity, Prod.ext_iff]
  all_goals exact iff_of_false (fun h ↦ by cases h) (fun h ↦ by cases h)

namespace Disk

/-- The regular files that have a name with a property. -/
def files (D : Disk ν) (P : Loc ν → Prop) [DecidablePred P] : Finset (ℕ × ℕ) :=
  (D.entries.entries.filterMap fun e ↦ if P e.1 then e.2.identity else none).toFinset

/-- What these files hold. -/
def bytes (D : Disk ν) (P : Loc ν → Prop) [DecidablePred P] : ℕ := ∑ x ∈ D.files P, x.2

/-- The length of the longest location. -/
def height (D : Disk ν) : ℕ := (D.entries.keys.map List.length).foldr max 0

section
variable {D D' : Disk ν} {P : Loc ν → Prop} [DecidablePred P] {p d : Loc ν} {x : ℕ × ℕ}

theorem mem_files : x ∈ D.files P ↔ ∃ p, P p ∧ D.look p = some (.file x.1 x.2) := by
  rw [files, List.mem_toFinset, List.mem_filterMap]
  constructor
  · rintro ⟨⟨p, k⟩, he, h⟩
    obtain ⟨hp, h⟩ := Option.ite_none_right_eq_some.mp h
    rw [Kind.identity_eq_some_iff] at h
    exact ⟨p, hp, AList.mem_lookup_iff.mpr (h ▸ he)⟩
  · rintro ⟨p, hp, hk⟩
    refine ⟨⟨p, .file x.1 x.2⟩, AList.mem_lookup_iff.mp hk, ?_⟩
    rw [if_pos hp]
    rfl

/-- What less holds is what all holds without what is gone. -/
theorem bytes_add_sdiff (h : D'.files P ⊆ D.files P) :
    D'.bytes P + ∑ x ∈ D.files P \ D'.files P, x.2 = D.bytes P := by
  rw [bytes, bytes, Nat.add_comm]
  exact Finset.sum_sdiff h

theorem files_subset (h : ∀ p k, D'.look p = some k → D.look p = some k) :
    D'.files P ⊆ D.files P := by
  intro x hx
  obtain ⟨p, hp, hk⟩ := mem_files.mp hx
  exact mem_files.mpr ⟨p, hp, h p _ hk⟩

theorem nodup_names : (D.names d).Nodup := by
  refine D.entries.keys_nodup.filterMap fun p q n hp hq ↦ ?_
  rw [nameIn_eq_some_iff.mp hp, nameIn_eq_some_iff.mp hq]

/-! ## Depth -/

theorem length_le_height {k : Kind ν} (h : D.look p = some k) : p.length ≤ D.height := by
  have hmem : p ∈ D.entries.keys := AList.lookup_isSome.mp (Option.isSome_of_mem h)
  have hmax : ∀ l : List (Loc ν), p ∈ l → p.length ≤ (l.map List.length).foldr max 0 := by
    intro l
    induction l with
    | nil => exact fun h ↦ by cases h
    | cons q l ih =>
      intro hp
      rcases List.mem_cons.mp hp with rfl | hp
      · exact le_max_left _ _
      · exact le_trans (ih hp) (le_max_right _ _)
  exact hmax _ hmem

/-- Between one link and the next there are no more names than the disk is deep. -/
theorem Leads.length_le {names : List ν} {passed : List (Loc ν)} {links : ℕ}
    (h : D.Leads d (names.map .name) p passed links) :
    names.length ≤ links * (D.height + 1) + (D.height - d.length) := by
  induction names generalizing d passed links with
  | nil => exact Nat.zero_le _
  | cons n names ih =>
    rw [List.map_cons] at h
    rcases h with _ | _ | _ | ⟨hk, -, h⟩ | ⟨hk, h⟩
    · have hlength := length_le_height hk
      have hnames := ih h
      rw [List.length_append, List.length_singleton] at hlength hnames
      rw [List.length_cons]
      omega
    · obtain ⟨m, _, _, l₁, l₂, -, h₂, -, rfl⟩ := leads_append_iff.mp h
      have hnames := ih h₂
      rw [List.length_cons]
      have hmul : (l₁ + l₂ + 1) * (D.height + 1) =
          l₁ * (D.height + 1) + l₂ * (D.height + 1) + (D.height + 1) := by
        rw [Nat.add_mul, Nat.add_mul, Nat.one_mul]
      omega

end

end Disk

end Filesystem
