import SparkPulse.Agent.Cache
import SparkPulse.Data.Counted
import SparkPulse.Deletion.Guards
import SparkPulse.Filesystem.Size

/-!
# Removing a snapshot

`remove` of `executor/snapshots.rs`: one revision of a repository, or all of it, is removed from a
node. What is removed is the path of the repository, `snapshots` and the revision, as it comes. The
bytes that are freed are those of every regular file that is come to below it, through links as well.
The control plane adds up what the nodes answer.
-/

namespace SparkPulse.Agent.Snapshots

open Filesystem
open SparkPulse.Agent.Cache (Machine linkLimit trim)

structure RemoveSnapshot where
  repoPath : String
  revision : String

namespace RemoveSnapshot

variable (request : RemoveSnapshot)

def snapshots : String := Path.joinText request.repoPath "snapshots"

def blobs : String := Path.joinText request.repoPath "blobs"

/-- `snapshot_dir`, of a request that names a revision, or else the repository. -/
def target : String :=
  if request.revision = "" then request.repoPath
  else Path.joinText request.snapshots request.revision

end RemoveSnapshot

structure SnapshotRemoval where
  removed : Bool
  freedBytes : ℕ := 0
  paths : List String := []
  deriving DecidableEq

structure OpError where
  type : String
  message : String
  deriving DecidableEq

/-! ## Removal -/

section
variable (faults : Faults String) (M : Machine)

/-- `size_on_disk`: each step goes one name further. -/
def sizeOnDisk : ℕ → Path String → ℕ
  | 0, _ => 0
  | steps + 1, path =>
    match M.canonicalize path with
    | none => 0
    | some p =>
      match M.disk.look p with
      | some (.file _ bytes) => bytes
      | some (.dir _) =>
        if faults.unreadable p then 0
        else ((M.disk.names p).map fun n ↦ sizeOnDisk steps (path.child n)).foldr (· + ·) 0
      | _ => 0

/-- More names than this lead nowhere. -/
def steps : ℕ := (linkLimit + 1) * (M.disk.height + 1)

/-- The entry that a path names, without the slashes it ends with. -/
def entryOf (text : String) : Option (Loc String) :=
  M.disk.entryAt linkLimit M.cwd (.ofText text)

/-- A directory can itself be removed by a path that ends in its name: `.` and `..` are no names, and
a link is none of a directory. -/
def removesItself (text : String) : Bool :=
  let path := Path.ofText (String.ofList (text.toList.rdropWhile (· = '/')))
  match path.parts.getLast? with
  | some (.name _) =>
    ((M.disk.entryAt linkLimit M.cwd path).bind M.disk.look).any Kind.isDir
  | _ => false

/-- `fs::remove_dir_all`, and whether it succeeds. A link is unlinked. -/
def removeDirAll (text : String) : Bool × Disk String :=
  match entryOf M text with
  | none => (false, M.disk)
  | some entry =>
    match M.disk.look entry with
    | some (.link _) =>
      let disk := M.disk.remove entry (faults.keeps entry)
      ((disk.look entry).isNone, disk)
    | some (.dir _) =>
      let disk := M.disk.remove entry fun p ↦
        faults.keeps entry p || (p = entry && !removesItself M text)
      ((disk.look entry).isNone, disk)
    | _ => (false, M.disk)

/-- The removal of what is there. -/
def removeTarget (request : RemoveSnapshot) : Except OpError SnapshotRemoval × Disk String :=
  let target := request.target
  let freed := sizeOnDisk faults M (steps M) (.ofText target)
  let removal := removeDirAll faults M target
  (if removal.1 then .ok { removed := true, freedBytes := freed, paths := [target] }
    else .error ⟨"RuntimeError", s!"could not remove {target}: {faults.reason []}"⟩, removal.2)

def remove (request : RemoveSnapshot) : Except OpError SnapshotRemoval × Disk String :=
  if trim request.repoPath = [] then
    (.error ⟨"ValueError", "repo_path is required"⟩, M.disk)
  else if M.canonicalize (.ofText request.target) = none then (.ok { removed := false }, M.disk)
  else removeTarget faults M request

end

/-! ## The control plane -/

/-- What a node answers. -/
structure Answer where
  node : String
  removed : Bool := false
  freedBytes : ℕ := 0
  error : Option String := none

/-- `_one`: a node that cannot be asked removes nothing. -/
def answer (ask : String → Except String SnapshotRemoval) (node : String) : Answer :=
  match ask node with
  | .ok removal => { node, removed := removal.removed, freedBytes := removal.freedBytes }
  | .error text => { node, error := some (String.ofList (text.toList.take 500)) }

structure Deleted where
  deleted : String
  freedBytes : ℕ
  nodes : List Answer

/-- `delete_model`, with what the nodes answer. -/
def deleteModel (m : Deletion.Machine) (s : Deletion.Cluster) (modelId : String)
    (nodes : List String) (ask : String → Except String SnapshotRemoval) :
    Except String Deleted :=
  (Deletion.deleteModel m s modelId nodes).map fun removals ↦
    let answers := removals.map fun removal ↦ answer ask removal.node
    { deleted := modelId, freedBytes := (answers.map Answer.freedBytes).foldr (· + ·) 0
      nodes := answers }

/-! ## What is measured -/

section
variable (faults : Faults String) (M : Machine)

/-- The names that are put after a path to come to a regular file. -/
def visited : ℕ → Path String → List (List String)
  | 0, _ => []
  | steps + 1, path =>
    match M.canonicalize path with
    | none => []
    | some p =>
      match M.disk.look p with
      | some (.file ..) => [[]]
      | some (.dir _) =>
        if faults.unreadable p then []
        else (M.disk.names p).flatMap fun n ↦ (visited steps (path.child n)).map (n :: ·)
      | _ => []

/-- The regular file that a path leads to. -/
def fileAt (path : Path String) : Option (ℕ × ℕ) :=
  ((M.canonicalize path).bind M.disk.look).bind Kind.identity

end

section
variable {faults : Faults String} {M : Machine} {path : Path String} {p : Loc String}
  {names : List String}

theorem fileAt_eq_some_iff {x : ℕ × ℕ} : fileAt M path = some x ↔
    ∃ p, M.canonicalize path = some p ∧ M.disk.look p = some (.file x.1 x.2) := by
  rw [fileAt, Option.bind_eq_some_iff]
  constructor
  · rintro ⟨k, h, hk⟩
    obtain ⟨p, hp, h⟩ := Option.bind_eq_some_iff.mp h
    exact ⟨p, hp, h.trans (congrArg some (Kind.identity_eq_some_iff.mp hk))⟩
  · rintro ⟨p, hp, hk⟩
    exact ⟨_, Option.bind_eq_some_iff.mpr ⟨p, hp, hk⟩, rfl⟩

theorem foldr_flatMap {α : Type} (f : α → List ℕ) (l : List α) :
    (l.flatMap f).foldr (· + ·) 0 = (l.map fun a ↦ (f a).foldr (· + ·) 0).foldr (· + ·) 0 := by
  induction l with
  | nil => rfl
  | cons a l ih =>
    simp only [← List.sum_eq_foldr] at ih ⊢
    rw [List.flatMap_cons, List.sum_append, ih, List.map_cons, List.sum_cons]

/-- What is measured is the size of each regular file that is come to, each time it is. -/
theorem sizeOnDisk_eq (steps : ℕ) (path : Path String) : sizeOnDisk faults M steps path =
    ((visited faults M steps path).map fun names ↦
      ((fileAt M (path.extend names)).getD (0, 0)).2).foldr (· + ·) 0 := by
  induction steps generalizing path with
  | zero => rfl
  | succ steps ih =>
    rw [sizeOnDisk, visited]
    rcases hp : M.canonicalize path with _ | p
    · rfl
    · dsimp only
      rcases hk : M.disk.look p with _ | ⟨id, bytes⟩ | target | device
      case some.file =>
        have hfile : fileAt M path = some (id, bytes) := fileAt_eq_some_iff.mpr ⟨p, hp, hk⟩
        simp [hfile]
      case some.dir =>
        dsimp only
        split_ifs
        · rfl
        · rw [List.map_flatMap, foldr_flatMap]
          refine congrArg (List.foldr (· + ·) 0) (List.map_congr_left fun n _ ↦ ?_)
          rw [ih, List.map_map]
          refine congrArg (List.foldr (· + ·) 0) (List.map_congr_left fun names _ ↦ ?_)
          rw [Path.extend_child]
          rfl
      all_goals rfl

theorem nodup_visited (steps : ℕ) (path : Path String) : (visited faults M steps path).Nodup := by
  induction steps generalizing path with
  | zero => exact List.nodup_nil
  | succ steps ih =>
    rw [visited]
    rcases M.canonicalize path with _ | p
    · exact List.nodup_nil
    · dsimp only
      rcases M.disk.look p with _ | _ | _ | _
      case some.file => exact List.nodup_singleton []
      case some.dir =>
        dsimp only
        split_ifs
        · exact List.nodup_nil
        · refine List.nodup_flatMap.mpr ⟨fun n _ ↦ (ih _).map List.cons_injective, ?_⟩
          refine Disk.nodup_names.imp fun {n m} hne ↦ ?_
          intro names hn hm
          obtain ⟨_, -, rfl⟩ := List.mem_map.mp hn
          obtain ⟨_, -, heq⟩ := List.mem_map.mp hm
          exact hne (List.cons.inj heq).1.symm
      all_goals exact List.nodup_nil

/-- A path that says something. -/
def Significant (path : Path String) : Prop := ¬(path.isAbsolute = false ∧ path.parts = [])

theorem significant_child (n : String) : Significant (path.child n) := by
  intro h
  have hparts := h.2
  simp [Path.child] at hparts

theorem Significant.of_canonicalize (h : M.canonicalize path = some p) : Significant path :=
  (Disk.canonicalize_eq_some_iff.mp h).1

theorem mem_visited {steps : ℕ} (hpath : Significant path) : names ∈ visited faults M steps path ↔
    names.length < steps ∧ fileAt M (path.extend names) ≠ none ∧
      ∀ ns q, ns <+: names → ns ≠ names → M.canonicalize (path.extend ns) = some q →
        faults.unreadable q = false := by
  induction steps generalizing path names with
  | zero => exact iff_of_false (fun h ↦ by cases h) fun h ↦ absurd h.1 (Nat.not_lt_zero _)
  | succ steps ih =>
    rw [visited]
    rcases names with _ | ⟨n, names⟩
    · rw [Path.extend_nil]
      refine Iff.trans (b := fileAt M path ≠ none) ?_ ?_
      · rcases hp : M.canonicalize path with _ | p
        · exact iff_of_false (fun h ↦ by cases h) fun h ↦ h (by rw [fileAt, hp]; rfl)
        · dsimp only
          rcases hk : M.disk.look p with _ | ⟨id, bytes⟩ | target | device
          case some.file =>
            refine iff_of_true List.mem_cons_self fun h ↦ ?_
            have hfile : fileAt M path = some (id, bytes) := fileAt_eq_some_iff.mpr ⟨p, hp, hk⟩
            rw [hfile] at h
            cases h
          all_goals
            refine iff_of_false (fun h ↦ ?_) fun h ↦ h (by rw [fileAt, hp, Option.bind_some, hk]; rfl)
            dsimp only at h
            try split_ifs at h
            all_goals simp at h
      · refine ⟨fun h ↦ ⟨Nat.succ_pos _, h, fun ns _ hns hne ↦ ?_⟩, fun h ↦ h.2.1⟩
        exact absurd (List.prefix_nil.mp hns) hne
    · constructor
      · intro h
        rcases hp : M.canonicalize path with _ | p <;> rw [hp] at h
        · cases h
        · dsimp only at h
          rcases hk : M.disk.look p with _ | ⟨id, bytes⟩ | target | device <;> rw [hk] at h
          case some.dir =>
            dsimp only at h
            split_ifs at h with hreadable
            · cases h
            · obtain ⟨m, hm, h⟩ := List.mem_flatMap.mp h
              obtain ⟨names', hnames, heq⟩ := List.mem_map.mp h
              obtain ⟨rfl, rfl⟩ := List.cons.inj heq
              obtain ⟨hlength, hfile, hdirs⟩ := (ih (significant_child m)).mp hnames
              rw [Path.extend_child] at hfile
              refine ⟨Nat.succ_lt_succ hlength, hfile, fun ns q hns hne hq ↦ ?_⟩
              rcases ns with _ | ⟨m', ns⟩
              · rw [Path.extend_nil, hp] at hq
                cases hq
                simpa using hreadable
              · obtain ⟨rfl, hns'⟩ := List.cons_prefix_cons.mp hns
                rw [← Path.extend_child] at hq
                exact hdirs ns q hns' (fun heq ↦ hne (congrArg _ heq)) hq
          all_goals simp at h
      · rintro ⟨hlength, hfile, hdirs⟩
        obtain ⟨x, hx⟩ := Option.ne_none_iff_exists'.mp hfile
        obtain ⟨r, hr, hrk⟩ := fileAt_eq_some_iff.mp hx
        obtain ⟨p, passed, links, hp, hleads, -⟩ := Disk.leads_of_extend hr hpath
        have hentry : ∃ k, M.disk.look (p ++ [n]) = some k := by
          rcases hleads with _ | _ | _ | ⟨hk, -⟩ | ⟨hk, -⟩
          · exact ⟨_, hk⟩
          · exact ⟨_, hk⟩
        have hreadable := hdirs [] p List.nil_prefix (List.cons_ne_nil n names).symm
          ((congrArg M.canonicalize (Path.extend_nil path)).trans hp)
        obtain ⟨k, hk⟩ := hentry
        obtain ⟨k', hk', hdir⟩ := Disk.isDir_of_look hk
        have hp' : M.canonicalize path = some p := hp
        rw [hp']
        dsimp only
        rcases k' with _ | _ | device
        case dir =>
          rw [hk']
          dsimp only
          rw [if_neg (by simp [hreadable])]
          refine List.mem_flatMap.mpr ⟨n, Disk.mem_names.mpr ⟨k, hk⟩, List.mem_map.mpr
            ⟨names, (ih (significant_child n)).mpr ⟨Nat.lt_of_succ_lt_succ hlength, ?_, ?_⟩, rfl⟩⟩
          · rwa [Path.extend_child]
          · intro ns q hns hne hq
            rw [Path.extend_child] at hq
            exact hdirs (n :: ns) q (List.cons_prefix_cons.mpr ⟨rfl, hns⟩)
              (fun heq ↦ hne (List.cons.inj heq).2) hq
        all_goals cases hdir

/-- The names that come to a file are no more than are tried. -/
theorem length_lt_steps (hpath : Significant path) (h : M.canonicalize (path.extend names) = some p) :
    names.length < steps M := by
  obtain ⟨m, passed, links, -, hleads, hlinks⟩ := Disk.leads_of_extend h hpath
  have hlength := hleads.length_le
  have hmul : links * (M.disk.height + 1) ≤ linkLimit * (M.disk.height + 1) :=
    Nat.mul_le_mul_right _ hlinks
  have hsteps : steps M = linkLimit * (M.disk.height + 1) + (M.disk.height + 1) := by
    rw [steps, Nat.add_mul, Nat.one_mul]
  omega

end

/-! ## What is removed -/

section
variable {faults : Faults String} {M : Machine} {text : String} {entry p : Loc String}
  {k : Kind String}

/-- A path can remove the entry that it names: a link, or a directory by its name. -/
def Removes (M : Machine) (text : String) (entry : Loc String) (k : Kind String) : Prop :=
  k.isLink ∨ k.isDir ∧ removesItself M text ∧ entry ≠ []

/-- What a removal may take: the entry that the path names, if it can, and what is below it. -/
def Taken (M : Machine) (text : String) (p : Loc String) : Prop :=
  ∃ entry k, entryOf M text = some entry ∧ M.disk.look entry = some k ∧ (k.isLink ∨ k.isDir) ∧
    entry <+: p ∧ M.disk.look p ≠ none ∧ (p = entry → Removes M text entry k)

theorem Taken.look_ne_none (h : Taken M text p) : M.disk.look p ≠ none := by
  obtain ⟨-, -, -, -, -, -, hp, -⟩ := h
  exact hp

/-- The removal of a directory leaves it where its path does not end in its name. -/
def leaves (faults : Faults String) (M : Machine) (text : String) (entry : Loc String)
    (k : Kind String) (p : Loc String) : Bool :=
  faults.keeps entry p || (p = entry && k.isDir && !removesItself M text)

theorem removeDirAll_of_removed (hentry : entryOf M text = some entry)
    (hk : M.disk.look entry = some k) (hkind : k.isLink ∨ k.isDir) :
    removeDirAll faults M text =
      (((M.disk.remove entry (leaves faults M text entry k)).look entry).isNone,
        M.disk.remove entry (leaves faults M text entry k)) := by
  rw [removeDirAll, hentry]
  dsimp only
  rcases k with _ | target | device
  case file => rcases hkind with h | h <;> cases h
  case link =>
    have hleaves : leaves faults M text entry (.link target) = faults.keeps entry := by
      funext p
      simp [leaves, Kind.isDir]
    rw [hk, hleaves]
  case dir =>
    have hleaves : leaves faults M text entry (.dir device) = fun p ↦
        faults.keeps entry p || (p = entry && !removesItself M text) := by
      funext p
      simp [leaves, Kind.isDir]
    rw [hk, hleaves]

theorem removeDirAll_of_not_removed
    (h : ∀ entry k, entryOf M text = some entry → M.disk.look entry = some k →
      ¬(k.isLink ∨ k.isDir)) :
    removeDirAll faults M text = (false, M.disk) := by
  rw [removeDirAll]
  rcases hentry : entryOf M text with _ | entry
  · rfl
  · dsimp only
    rcases hk : M.disk.look entry with _ | _ | target | device
    case some.link => exact absurd (.inl rfl) (h entry _ hentry hk)
    case some.dir => exact absurd (.inr rfl) (h entry _ hentry hk)
    all_goals rfl

/-- Nothing else is taken, whatever goes wrong. -/
theorem taken_of_gone (hp : M.disk.look p ≠ none)
    (hgone : (removeDirAll faults M text).2.look p = none) : Taken M text p := by
  by_cases hremoved : ∃ entry k, entryOf M text = some entry ∧ M.disk.look entry = some k ∧
      (k.isLink ∨ k.isDir)
  · obtain ⟨entry, k, hentry, hk, hkind⟩ := hremoved
    rw [removeDirAll_of_removed hentry hk hkind, Disk.look_remove] at hgone
    split_ifs at hgone with hsurvives
    · exact absurd hgone hp
    · have hle : entry <+: p := by
        by_contra hle
        exact hsurvives (Disk.survives_of_outside hle)
      refine ⟨entry, k, hentry, hk, hkind, hle, hp, ?_⟩
      rintro rfl
      rcases hkind with hlink | hdir
      · exact .inl hlink
      · refine .inr ⟨hdir, ?_, ?_⟩
        · by_contra hself
          refine hsurvives fun _ ↦ .inr ⟨p, AList.lookup_isSome.mp (Option.isSome_of_mem hk),
            List.prefix_refl p, ?_⟩
          simp [leaves, hdir, Bool.eq_false_iff.mpr hself]
        · rintro rfl
          exact hsurvives (Disk.survives_root _ _ _)
  · rw [removeDirAll_of_not_removed fun entry k hentry hk hkind ↦
      hremoved ⟨entry, k, hentry, hk, hkind⟩] at hgone
    exact absurd hgone hp

/-- Where nothing goes wrong all of that is taken. -/
theorem gone_of_taken (h : Taken M text p) : (removeDirAll .none M text).2.look p = none := by
  obtain ⟨entry, k, hentry, hk, hkind, hle, hp, hself⟩ := h
  rw [removeDirAll_of_removed hentry hk hkind, Disk.look_remove, if_neg]
  intro hsurvives
  rcases hsurvives hle with rfl | ⟨q, -, hpq, hleaves⟩
  · have hnil : ([] : Loc String) = entry := (List.prefix_nil.mp hle).symm
    rcases hself hnil with hlink | ⟨-, -, hne⟩
    · obtain ⟨k', hk', hdir⟩ := M.disk.root
      rw [← hnil, Disk.look, hk'] at hk
      cases hk
      rw [Kind.isLink_of_isDir hdir] at hlink
      cases hlink
    · exact hne hnil.symm
  · rw [leaves, Faults.keeps_none, Bool.false_or, Bool.and_eq_true, Bool.and_eq_true,
      decide_eq_true_eq] at hleaves
    obtain ⟨⟨rfl, hdir⟩, hnot⟩ := hleaves
    have heq : p = q := List.IsPrefix.eq_of_length_le hpq hle.length_le
    rcases hself heq with hlink | ⟨-, hremoves, -⟩
    · rw [Kind.isLink_of_isDir hdir] at hlink
      cases hlink
    · rw [hremoves] at hnot
      cases hnot

/-- What is known of a removal that succeeds: everything from the entry on is gone and nothing else,
and each directory that held something could be read. -/
structure Cleared (faults : Faults String) (M : Machine) (text : String) (entry : Loc String)
    (k : Kind String) (D' : Disk String) : Prop where
  named : entryOf M text = some entry
  found : M.disk.look entry = some k
  removes : Removes M text entry k
  look : ∀ p, D'.look p = if entry <+: p then none else M.disk.look p
  readable : ∀ p n, entry <+: p → M.disk.look (p ++ [n]) ≠ none → faults.unreadable p = false

theorem Removes.kind (h : Removes M text entry k) : k.isLink ∨ k.isDir := h.imp_right And.left

theorem cleared_of_ok (h : (removeDirAll faults M text).1 = true) :
    ∃ entry k, Cleared faults M text entry k (removeDirAll faults M text).2 := by
  by_cases hremoved : ∃ entry k, entryOf M text = some entry ∧ M.disk.look entry = some k ∧
      (k.isLink ∨ k.isDir)
  · obtain ⟨entry, k, hentry, hk, hkind⟩ := hremoved
    rw [removeDirAll_of_removed hentry hk hkind] at h ⊢
    have hgone : (M.disk.remove entry (leaves faults M text entry k)).look entry = none :=
      Option.isNone_iff_eq_none.mp h
    have hsurvives : ¬M.disk.Survives entry (leaves faults M text entry k) entry := by
      intro hsurvives
      rw [Disk.look_remove, if_pos hsurvives, hk] at hgone
      cases hgone
    have hnotLeft {q : Loc String} (hle : entry <+: q) (hq : M.disk.look q ≠ none) :
        leaves faults M text entry k q = false := by
      by_contra hleft
      exact hsurvives fun _ ↦ .inr ⟨q, AList.lookup_isSome.mp (Option.isSome_iff_ne_none.mpr hq),
        hle, by simpa using hleft⟩
    refine ⟨entry, k, hentry, hk, ?_, fun p ↦ ?_, fun p n hle hp ↦ ?_⟩
    · refine hkind.imp_right fun hdir ↦ ⟨hdir, ?_, ?_⟩
      · have hself := hnotLeft (List.prefix_refl entry) (by simp [hk])
        simp only [leaves, Bool.or_eq_false_iff, hdir, decide_true, Bool.true_and,
          Bool.not_eq_false'] at hself
        exact hself.2
      · rintro rfl
        exact hsurvives (Disk.survives_root _ _ _)
    · dsimp only
      rw [Disk.look_remove]
      split_ifs with hp hle hle
      · by_contra hlook
        rcases hp hle with rfl | ⟨q, hq, hpq, hleft⟩
        · rw [List.prefix_nil.mp hle] at hsurvives
          exact hsurvives (Disk.survives_root _ _ _)
        · rw [hnotLeft (List.IsPrefix.trans hle hpq)
            (Option.isSome_iff_ne_none.mp (AList.lookup_isSome.mpr hq))] at hleft
          cases hleft
      · rfl
      · rfl
      · exact absurd (Disk.survives_of_outside hle) hp
    · have hleft := hnotLeft (List.IsPrefix.trans hle (List.prefix_append p [n])) hp
      simp only [leaves, Faults.keeps, Bool.or_eq_false_iff, Bool.and_eq_false_iff,
        decide_eq_false_iff_not, not_not, List.dropLast_concat] at hleft
      refine hleft.1.2.resolve_left fun heq ↦ ?_
      have hlength := hle.length_le
      rw [← heq, List.length_append] at hlength
      exact absurd hlength (Nat.not_succ_le_self _)
  · rw [removeDirAll_of_not_removed fun entry k hentry hk hkind ↦
      hremoved ⟨entry, k, hentry, hk, hkind⟩] at h
    cases h

/-- Where nothing goes wrong, what a path can remove is removed. -/
theorem removeDirAll_ok (hentry : entryOf M text = some entry) (hk : M.disk.look entry = some k)
    (hremoves : Removes M text entry k) : (removeDirAll .none M text).1 = true := by
  have hgone : (removeDirAll .none M text).2.look entry = none :=
    gone_of_taken ⟨entry, k, hentry, hk, hremoves.kind, List.prefix_refl entry, by simp [hk],
      fun _ ↦ hremoves⟩
  rw [removeDirAll_of_removed hentry hk hremoves.kind] at hgone ⊢
  exact Option.isNone_iff_eq_none.mpr hgone

end

/-! ## The bytes that are freed -/

variable (M : Machine) (request : RemoveSnapshot)

/-- Below the real directory of the repository. -/
def InRepository (p : Loc String) : Prop :=
  ∃ repo, M.canonicalize (.ofText request.repoPath) = some repo ∧ repo <+: p

instance : DecidablePred (InRepository M request) := fun p ↦
  match h : M.canonicalize (.ofText request.repoPath) with
  | none => .isFalse fun ⟨_, hrepo, _⟩ ↦ by rw [h] at hrepo; cases hrepo
  | some repo =>
    if hle : repo <+: p then .isTrue ⟨repo, h, hle⟩
    else .isFalse fun ⟨_, hrepo, hle'⟩ ↦ hle (by rw [h] at hrepo; cases hrepo; exact hle')

/-- Every file with something in it that names after the path come to is there by these names, past no
link, is in the repository and has no other name in it. -/
def Alone (entry : Loc String) : Prop :=
  ∀ names p id bytes, M.canonicalize ((Path.ofText request.target).extend names) = some p →
    M.disk.look p = some (.file id bytes) → 0 < bytes →
    p = entry ++ names ∧ InRepository M request p ∧
      ∀ q, InRepository M request q → M.disk.look q = some (.file id bytes) → q = p

section
variable {M : Machine} {request : RemoveSnapshot} {faults : Faults String} {entry : Loc String}
  {k : Kind String} {D' : Disk String}

/-- A file below the entry is come to by its names. -/
theorem Cleared.comes (h : Cleared faults M request.target entry k D') {p : Loc String}
    {x : ℕ × ℕ} (hle : entry <+: p) (hp : M.disk.look p = some (.file x.1 x.2)) :
    ∃ names ∈ visited faults M (steps M) (.ofText request.target), p = entry ++ names ∧
      M.canonicalize ((Path.ofText request.target).extend names) = some p := by
  obtain ⟨names, rfl⟩ := hle
  -- the entry is no file, so that it is a directory that the path leads to
  have hdir : M.disk.IsDir entry := by
    rcases eq_or_ne names [] with rfl | hnames
    · rw [List.append_nil, h.found] at hp
      cases hp
      rcases h.removes.kind with hkind | hkind <;> cases hkind
    · exact Disk.isDir_above hp (List.prefix_append entry names) (by simpa using hnames)
  obtain ⟨k', hk', hk'dir⟩ := hdir
  have hentry : M.canonicalize (.ofText request.target) = some entry :=
    Disk.canonicalize_of_entryAt h.named hk' (Kind.isLink_of_isDir hk'dir)
  have hcome {ns : List String} {k : Kind String} (hk : M.disk.look (entry ++ ns) = some k)
      (hlink : k.isLink = false) :
      M.canonicalize ((Path.ofText request.target).extend ns) = some (entry ++ ns) :=
    Disk.canonicalize_extend hentry hk hlink
  have hsignificant : Significant (.ofText request.target) := Significant.of_canonicalize hentry
  refine ⟨names, (mem_visited hsignificant).mpr ⟨length_lt_steps hsignificant (hcome hp rfl), ?_, ?_⟩, rfl,
    hcome hp rfl⟩
  · rw [fileAt_eq_some_iff.mpr ⟨_, hcome hp rfl, hp⟩]
    exact Option.some_ne_none x
  · rintro ns q ⟨more, rfl⟩ hne hq
    rcases more with _ | ⟨n, more⟩
    · exact absurd (List.append_nil ns).symm hne
    · have hle : entry ++ ns ++ [n] <+: entry ++ (ns ++ n :: more) := ⟨more, by simp⟩
      obtain ⟨k, hk⟩ : ∃ k, M.disk.look (entry ++ ns ++ [n]) = some k := by
        rcases eq_or_ne (entry ++ ns ++ [n]) (entry ++ (ns ++ n :: more)) with heq | hne
        · exact ⟨_, heq ▸ hp⟩
        · obtain ⟨k, hk, -⟩ := Disk.isDir_above hp hle hne
          exact ⟨k, hk⟩
      obtain ⟨k', hk', hdir⟩ := Disk.isDir_of_look hk
      rw [hcome hk' (Kind.isLink_of_isDir hdir)] at hq
      cases hq
      exact h.readable _ n (List.prefix_append entry ns) (hk ▸ Option.some_ne_none k)

/-- **The figure is right exactly when every file is counted once.** -/
theorem Cleared.freed_iff (h : Cleared faults M request.target entry k D')
    (hsignificant : Significant (.ofText request.target)) :
    sizeOnDisk faults M (steps M) (.ofText request.target) + D'.bytes (InRepository M request) =
        M.disk.bytes (InRepository M request) ↔
      ∀ names ∈ visited faults M (steps M) (.ofText request.target), ∀ p id bytes,
        M.canonicalize ((Path.ofText request.target).extend names) = some p →
        M.disk.look p = some (.file id bytes) → 0 < bytes →
        p = entry ++ names ∧ InRepository M request p ∧
          ∀ q, InRepository M request q → M.disk.look q = some (.file id bytes) → q = p := by
  set path := Path.ofText request.target
  set ways := (Snapshots.visited faults M (steps M) path).toFinset
  let key (names : List String) : ℕ × ℕ := (fileAt M (path.extend names)).getD (0, 0)
  have hsub : D'.files (InRepository M request) ⊆ M.disk.files (InRepository M request) := by
    refine Disk.files_subset fun p k hk ↦ ?_
    rw [h.look p] at hk
    exact (Option.ite_none_left_eq_some.mp hk).2
  -- a file that is gone from the repository was in it by a name below the entry
  have hgone {x : ℕ × ℕ} : x ∈ M.disk.files (InRepository M request) \ D'.files (InRepository M request) ↔
      (∃ p, InRepository M request p ∧ M.disk.look p = some (.file x.1 x.2)) ∧
        ∀ p, InRepository M request p → M.disk.look p = some (.file x.1 x.2) → entry <+: p := by
    rw [Finset.mem_sdiff, Disk.mem_files, Disk.mem_files]
    refine and_congr_right fun _ ↦ ⟨fun hnot p hrepo hp ↦ ?_, ?_⟩
    · by_contra hle
      exact hnot ⟨p, hrepo, by rw [h.look p, if_neg hle, hp]⟩
    · rintro hall ⟨p, hrepo, hp⟩
      rw [h.look p] at hp
      obtain ⟨hle, hp⟩ := Option.ite_none_left_eq_some.mp hp
      exact hle (hall p hrepo hp)
  have hkey {names : List String} {p : Loc String} {id bytes : ℕ}
      (hp : M.canonicalize (path.extend names) = some p)
      (hfile : M.disk.look p = some (.file id bytes)) : key names = (id, bytes) := by
    have hat : fileAt M (path.extend names) = some (id, bytes) :=
      fileAt_eq_some_iff.mpr ⟨p, hp, hfile⟩
    simp [key, hat]
  have honce : ∀ x ∈ M.disk.files (InRepository M request) \ D'.files (InRepository M request),
      ∃ names ∈ ways, key names = x := by
    intro x hx
    obtain ⟨⟨p, hrepo, hp⟩, hall⟩ := hgone.mp hx
    obtain ⟨names, hmem, -, hcome⟩ := h.comes (hall p hrepo hp) hp
    exact ⟨names, List.mem_toFinset.mpr hmem, hkey hcome hp⟩
  have hsize : sizeOnDisk faults M (steps M) path = ∑ names ∈ ways, (key names).2 := by
    rw [sizeOnDisk_eq, ← List.sum_eq_foldr, List.sum_toFinset _ (nodup_visited _ _)]
  have hsum := Disk.bytes_add_sdiff hsub
  rw [show sizeOnDisk faults M (steps M) path + D'.bytes (InRepository M request) =
      M.disk.bytes (InRepository M request) ↔ ∑ names ∈ ways, (key names).2 =
        ∑ x ∈ M.disk.files (InRepository M request) \ D'.files (InRepository M request), x.2 by
    rw [hsize]; omega]
  rw [Counted.sum_eq_sum_iff key Prod.snd honce]
  constructor
  · intro hall names hmem p id bytes hp hfile hpos
    have hnames := hkey hp hfile
    obtain ⟨hkeyMem, hunique⟩ := hall names (List.mem_toFinset.mpr hmem) (by rw [hnames]; exact hpos)
    rw [hnames] at hkeyMem hunique
    obtain ⟨⟨q, hrepo, hq⟩, hbelow⟩ := hgone.mp hkeyMem
    have honly {q : Loc String} (hrepo : InRepository M request q)
        (hq : M.disk.look q = some (.file id bytes)) : q = p ∧ q = entry ++ names := by
      obtain ⟨names', hmem', heq, hcome⟩ := h.comes (x := (id, bytes)) (hbelow q hrepo hq) hq
      have hsame := hunique names' (List.mem_toFinset.mpr hmem') (hkey hcome hq)
      subst hsame
      exact ⟨Option.some.inj (hcome.symm.trans hp), heq⟩
    obtain ⟨rfl, heq⟩ := honly hrepo hq
    exact ⟨heq, hrepo, fun q' hrepo' hq' ↦ (honly hrepo' hq').1⟩
  · intro hall names hmem hpos
    have hmem := List.mem_toFinset.mp hmem
    obtain ⟨-, hfile, -⟩ := (mem_visited hsignificant).mp hmem
    obtain ⟨x, hx⟩ := Option.ne_none_iff_exists'.mp hfile
    obtain ⟨p, hp, hlook⟩ := fileAt_eq_some_iff.mp hx
    have hnames : key names = x := hkey hp hlook
    rw [hnames] at hpos ⊢
    obtain ⟨heq, hrepo, honly⟩ := hall names hmem p x.1 x.2 hp hlook hpos
    refine ⟨hgone.mpr ⟨⟨p, hrepo, hlook⟩, fun q hrepo' hq ↦ ?_⟩, fun names' hmem' hkey' ↦ ?_⟩
    · rw [honly q hrepo' hq, heq]
      exact List.prefix_append entry names
    · have hmem' := List.mem_toFinset.mp hmem'
      obtain ⟨-, hfile', -⟩ := (mem_visited hsignificant).mp hmem'
      obtain ⟨y, hy⟩ := Option.ne_none_iff_exists'.mp hfile'
      obtain ⟨p', hp', hlook'⟩ := fileAt_eq_some_iff.mp hy
      have hyx : y = x := (hkey hp' hlook').symm.trans hkey'
      subst hyx
      obtain ⟨heq', hrepo', -⟩ := hall names' hmem' p' y.1 y.2 hp' hlook' hpos
      have hsame := honly p' hrepo' hlook'
      rw [heq', heq] at hsame
      exact List.append_cancel_left hsame

end

/-! ## A removal and its figure -/

variable (M : Machine) (request : RemoveSnapshot)

/-- An entry is there no more. -/
def Gone (D' : Disk String) (p : Loc String) : Prop := M.disk.look p ≠ none ∧ D'.look p = none

/-- Of a revision everything that is gone was in one directory of the real `snapshots`, and no blob.
What is reported as freed is what the files of the repository hold less than before. -/
structure Faithful (outcome : Except OpError SnapshotRemoval × Disk String) : Prop where
  inside : request.revision ≠ "" → ∃ n, ∀ p, Gone M outcome.2 p →
    ∃ d, M.canonicalize (.ofText request.snapshots) = some d ∧ d ++ [n] <+: p
  noBlob : request.revision ≠ "" → ∀ p, Gone M outcome.2 p →
    ∀ d, M.canonicalize (.ofText request.blobs) = some d → ¬(d <+: p ∧ d ≠ p)
  freed : ∀ removal, outcome.1 = .ok removal →
    removal.freedBytes + outcome.2.bytes (InRepository M request) =
      M.disk.bytes (InRepository M request)

/-- What the target names, with all that is below it, lies in one directory of `snapshots` and is no
blob; and where it can be removed, its files are counted once. -/
structure Fits : Prop where
  inside : request.revision ≠ "" → ∃ n, ∀ p, Taken M request.target p →
    ∃ d, M.canonicalize (.ofText request.snapshots) = some d ∧ d ++ [n] <+: p
  noBlob : request.revision ≠ "" → ∀ p, Taken M request.target p →
    ∀ d, M.canonicalize (.ofText request.blobs) = some d → ¬(d <+: p ∧ d ≠ p)
  alone : ∀ entry k, entryOf M request.target = some entry → M.disk.look entry = some k →
    Removes M request.target entry k → Alone M request entry

/-- The figure of a node, which is nothing if it cannot be asked. -/
def figure : Except String SnapshotRemoval → ℕ
  | .ok removal => removal.freedBytes
  | .error _ => 0

section
variable {M : Machine} {request : RemoveSnapshot} {faults : Faults String}

theorem faithful_self (result : Except OpError SnapshotRemoval)
    (h : ∀ removal, result = .ok removal → removal.freedBytes = 0) :
    Faithful M request (result, M.disk) where
  inside _ := ⟨"", fun _ hp ↦ absurd hp.2 hp.1⟩
  noBlob _ _ hp := absurd hp.2 hp.1
  freed removal hremoval := by
    rw [h removal hremoval, Nat.zero_add]

theorem faithful_of_fits (hfits : Fits M request) (hsignificant : Significant (.ofText request.target)) :
    Faithful M request (removeTarget faults M request) where
  inside hrevision := by
    obtain ⟨n, h⟩ := hfits.inside hrevision
    exact ⟨n, fun p hp ↦ h p (taken_of_gone hp.1 hp.2)⟩
  noBlob hrevision p hp := hfits.noBlob hrevision p (taken_of_gone hp.1 hp.2)
  freed removal hremoval := by
    obtain ⟨hok, hremoval⟩ | ⟨-, hremoval⟩ := ite_eq_iff.mp hremoval
    · cases hremoval
      obtain ⟨entry, k, hcleared⟩ := cleared_of_ok hok
      refine (hcleared.freed_iff hsignificant).mpr fun names _ p id bytes hp hfile hpos ↦ ?_
      exact hfits.alone entry k hcleared.named hcleared.found hcleared.removes names p id bytes hp
        hfile hpos
    · cases hremoval

theorem fits_of_faithful (hsignificant : Significant (.ofText request.target))
    (h : Faithful M request (removeTarget .none M request)) : Fits M request where
  inside hrevision := by
    obtain ⟨n, h⟩ := h.inside hrevision
    exact ⟨n, fun p hp ↦ h p ⟨hp.look_ne_none, gone_of_taken hp⟩⟩
  noBlob hrevision p hp := h.noBlob hrevision p ⟨hp.look_ne_none, gone_of_taken hp⟩
  alone entry k hentry hk hremoves names p id bytes hp hfile hpos := by
    have hok := removeDirAll_ok hentry hk hremoves
    obtain ⟨entry', k', hcleared⟩ := cleared_of_ok hok
    obtain rfl : entry' = entry := Option.some.inj (hcleared.named.symm.trans hentry)
    have hfreed := (hcleared.freed_iff hsignificant).mp (h.freed _ (if_pos hok))
    refine hfreed names ((mem_visited hsignificant).mpr ⟨length_lt_steps hsignificant hp, ?_, ?_⟩) p id bytes hp
      hfile hpos
    · have hat : fileAt M ((Path.ofText request.target).extend names) = some (id, bytes) :=
        fileAt_eq_some_iff.mpr ⟨p, hp, hfile⟩
      simp [hat]
    · exact fun _ _ _ _ _ ↦ rfl

end

/-- **A removal is faithful**, whatever goes wrong, if and only if what it names fits: of a request
that names a repository, and something that is there. The control plane adds up the figures. -/
theorem faithful_iff (M : Machine) (request : RemoveSnapshot) (m : Deletion.Machine)
    (s : Deletion.Cluster) (modelId : String) (nodes : List String)
    (ask : String → Except String SnapshotRemoval) :
    ((∀ faults, Faithful M request (remove faults M request)) ↔
      (trim request.repoPath ≠ [] → M.canonicalize (.ofText request.target) ≠ none →
        Fits M request)) ∧
    (deleteModel m s modelId nodes ask).map Deleted.freedBytes =
      (Deletion.deleteModel m s modelId nodes).map fun removals ↦
        (removals.map fun removal ↦ figure (ask removal.node)).foldr (· + ·) 0 := by
  refine ⟨⟨fun h hrepo hthere ↦ ?_, fun h faults ↦ ?_⟩, ?_⟩
  · obtain ⟨p, hp⟩ := Option.ne_none_iff_exists'.mp hthere
    have hfaithful := h .none
    rw [remove, if_neg hrepo, if_neg hthere] at hfaithful
    exact fits_of_faithful (Significant.of_canonicalize hp) hfaithful
  · rw [remove]
    split_ifs with hrepo hthere
    · exact faithful_self _ fun _ h ↦ by cases h
    · refine faithful_self _ fun _ h ↦ ?_
      cases h
      rfl
    · obtain ⟨p, hp⟩ := Option.ne_none_iff_exists'.mp hthere
      exact faithful_of_fits (h hrepo hthere) (Significant.of_canonicalize hp)
  · rw [deleteModel]
    rcases Deletion.deleteModel m s modelId nodes with text | removals
    · rfl
    · refine congrArg Except.ok ?_
      dsimp only
      rw [List.map_map]
      refine congrArg (List.foldr (· + ·) 0) (List.map_congr_left fun removal _ ↦ ?_)
      rw [Function.comp_apply, answer, figure.eq_def]
      rcases ask removal.node with text | found <;> rfl

/-- A repository with one blob, which is linked to in its only revision. -/
private def oneRevision : Machine where
  disk := .ofEntries
    (AList.insert ["r", "snapshots", "v", "m"] (.link (.ofText "../../blobs/b")) <|
      AList.insert ["r", "snapshots", "v"] (.dir 0) <|
      AList.insert ["r", "snapshots"] (.dir 0) <|
      AList.insert ["r", "blobs", "b"] (.file 1 7) <|
      AList.insert ["r", "blobs"] (.dir 0) <|
      AList.insert ["r"] (.dir 0) <| AList.singleton [] (.dir 0))
    (by decide) (by decide)
  cwd := []

/-- The blob of a revision is reported as freed, and stays; and what the revision `..` removes is the
repository. -/
theorem oneRevision_not_faithful :
    ¬Faithful oneRevision ⟨"/r", "v"⟩ (remove .none oneRevision ⟨"/r", "v"⟩) ∧
      ¬Faithful oneRevision ⟨"/r", ".."⟩ (remove .none oneRevision ⟨"/r", ".."⟩) := by
  constructor
  · intro h
    have hremoval : (remove .none oneRevision ⟨"/r", "v"⟩).1 =
        .ok ⟨true, 7, ["/r/snapshots/v"]⟩ := by
      decide +kernel
    have hafter : (remove .none oneRevision ⟨"/r", "v"⟩).2.bytes
        (InRepository oneRevision ⟨"/r", "v"⟩) = 7 := by
      decide +kernel
    have hbefore : oneRevision.disk.bytes (InRepository oneRevision ⟨"/r", "v"⟩) = 7 := by
      decide +kernel
    have hfreed := h.freed _ hremoval
    rw [hafter, hbefore] at hfreed
    cases hfreed
  · intro h
    have hblob : oneRevision.disk.look ["r", "blobs", "b"] ≠ none := by decide +kernel
    have hgone : (remove .none oneRevision ⟨"/r", ".."⟩).2.look ["r", "blobs", "b"] = none := by
      decide +kernel
    refine h.noBlob (by decide) ["r", "blobs", "b"] ⟨hblob, hgone⟩ ["r", "blobs"] ?_ (by decide)
    decide +kernel

end SparkPulse.Agent.Snapshots
