import Mathlib.Data.List.DropRight
import SparkPulse.Filesystem.Text

/-!
# Emptying a cache

`clean` of `executor/cache.rs`: a directory below the home of the agent's user is emptied entry by
entry. The path that was asked for is resolved before it is judged, and so is the home; the hub
cache is refused, unless it is asked for. A link in the directory is unlinked, and nothing that is
removed is reached through one.

What an entry of a directory is, the code asks anew for each of them, by its path. What cannot be
removed, and what a removal that failed did not come to, stays.
-/

namespace SparkPulse.Agent.Cache

open Filesystem

/-! ## Paths -/

/-- The links that a path may pass. -/
def linkLimit : ℕ := 40

def hubRelative : Loc String := [".cache", "huggingface", "hub"]

/-- `char::is_whitespace` -/
def isWhitespace (c : Char) : Bool :=
  let n := c.toNat
  (9 ≤ n && n ≤ 13) || n = 32 || n = 0x85 || n = 0xA0 || n = 0x1680 || (0x2000 ≤ n && n ≤ 0x200A) ||
    n = 0x2028 || n = 0x2029 || n = 0x202F || n = 0x205F || n = 0x3000

def trim (text : String) : List Char :=
  (text.toList.dropWhile isWhitespace).rdropWhile isWhitespace

/-- `home_dir`, of what the environment says. -/
def homeDir (HOME : Option String) : Option String := HOME.filter (· ≠ "")

def expand (raw : String) (home : Option String) : Except String String :=
  match trim raw with
  | [] => .error "empty path"
  | '~' :: rest =>
    match home with
    | none => .error s!"cannot expand {String.ofList (trim raw)}: the agent has no $HOME"
    | some home =>
      match rest.dropWhile (· = '/') with
      | [] => .ok home
      | rest => .ok (Path.joinText home (String.ofList rest))
  | text => .ok (String.ofList text)

/-- The machine, as far as paths are concerned: its disk, and where relative paths start. -/
structure Machine where
  disk : Disk String
  cwd : Loc String

namespace Machine

variable (M : Machine)

def canonicalize (path : Path String) : Option (Loc String) :=
  M.disk.canonicalize linkLimit M.cwd path

/-- The walk of `resolve` up a path, whose components are given last first. -/
def resolveFrom (path : Path String) : Path String → List (Component String) → Loc String → Path String
  | current, last, suffix =>
    match M.canonicalize current with
    | some found => .ofLoc (found ++ suffix)
    | none =>
      match last with
      | .name n :: last =>
        if path.isAbsolute = false ∧ last = [] then path
        else resolveFrom path ⟨path.isAbsolute, last.reverse⟩ last (n :: suffix)
      | _ => path

/-- `resolve` -/
def resolve (path : Path String) : Path String :=
  M.resolveFrom path path path.components.reverse []

end Machine

/-! ## Measuring -/

def fileCeiling : ℕ := 1000000

structure Walk where
  rootDev : ℕ
  bytes : ℕ := 0
  files : ℕ := 0
  truncated : Bool := false
  error : String := ""

namespace Walk

def count (w : Walk) (bytes : ℕ) : Walk :=
  if fileCeiling ≤ w.files then { w with truncated := true }
  else { w with files := w.files + 1, bytes := w.bytes + bytes }

/-- The entries of a directory: what is counted, and the directories to walk next. -/
def scan (D : Disk String) (dir : Loc String) :
    List String → List (Loc String) × Walk → List (Loc String) × Walk
  | [], s => s
  | n :: names, (stack, w) =>
    let s :=
      match D.look (dir ++ [n]) with
      | none => (stack, w)
      | some (.link _) => (stack, w.count 0)
      | some (.dir device) =>
        (if device = w.rootDev then (dir ++ [n]) :: stack else stack, w)
      | some (.file _ bytes) => (stack, w.count bytes)
    if s.2.truncated then s else scan D dir names s

/-- Walk the directories of a stack. Each is walked once, so that there are no more steps than
entries. -/
def run (D : Disk String) (faults : Faults String) : ℕ → List (Loc String) → Walk → Walk
  | 0, _, w | _, [], w => w
  | steps + 1, dir :: stack, w =>
    if w.truncated then w
    else if faults.unreadable dir then
      let error := s!"{(Path.ofLoc dir).shown}: {faults.reason dir}"
      run D faults steps stack (if w.error = "" then { w with error } else w)
    else
      let (stack, w) := scan D dir (D.names dir) (stack, w)
      run D faults steps stack w

end Walk

/-! ## Cleaning -/

structure CacheDirResult where
  path : String := ""
  removed : Bool := false
  freedBytes : ℕ := 0
  error : String := ""
  deriving DecidableEq

def refused (path error : String) : CacheDirResult := { path, error }

/-- Where the removal of the entries has come to. -/
structure Cleaning where
  disk : Disk String
  freed : ℕ := 0
  removed : Bool := false
  failure : String := ""

variable (faults : Faults String) (M : Machine)

/-- Remove one entry of the directory. -/
def cleanEntry (resolved : Path String) (rootDev : ℕ) (s : Cleaning) (name : String) : Cleaning :=
  match s.disk.entryAt linkLimit M.cwd (resolved.child name) with
  | none => s
  | some p =>
    let size :=
      match s.disk.look p with
      | some (.dir _) =>
        (Walk.run s.disk faults s.disk.entries.keys.length [p] { rootDev }).bytes
      | some (.file _ bytes) => bytes
      | _ => 0
    let disk := s.disk.remove p (faults.keeps p)
    if disk.look p = none then { s with disk, freed := s.freed + size, removed := true }
    else
      { s with
        disk
        failure :=
          if s.failure = "" then s!"{(resolved.child name).shown}: {faults.reason p}"
          else s.failure }

/-- What is said against emptying a directory. -/
def objection (home resolved : Path String) (includeHub : Bool) : Option String :=
  if resolved.isAbsolute = false ∨ resolved.same home ∨ ¬resolved.startsWith home ∨
      .up ∈ resolved.components then
    some "refused: a cache to empty must be under the agent user's home"
  else if includeHub = false ∧ resolved.startsWith (home.join ⟨false, hubRelative.map .name⟩) then
    some <| "refused: the hub cache holds downloaded models, which the " ++
      "Models section removes"
  else none

def cleanOne (raw : String) (home : Option String) (includeHub : Bool) :
    CacheDirResult × Disk String :=
  match expand raw home with
  | .error error => (refused raw error, M.disk)
  | .ok shown =>
    match home with
    | none => (refused shown "the agent has no $HOME, so nothing is under it", M.disk)
    | some home =>
      let home := M.resolve (.ofText home)
      let resolved := M.resolve (.ofText shown)
      match objection home resolved includeHub with
      | some error => (refused shown error, M.disk)
      | none =>
        match M.canonicalize resolved with
        | none => ({ path := shown }, M.disk)
        | some dir =>
          match M.disk.look dir with
          | some (.dir device) =>
            if faults.unreadable dir then
              (refused shown s!"could not open it: {faults.reason dir}", M.disk)
            else
              let s := (M.disk.names dir).foldl (cleanEntry faults M resolved device)
                { disk := M.disk }
              ({ path := shown, removed := s.removed, freedBytes := s.freed, error := s.failure },
                s.disk)
          | _ => (refused shown "not a directory", M.disk)

/-- `clean`: one path after the other. -/
def clean (HOME : Option String) (includeHub : Bool) :
    List String → Machine → List CacheDirResult × Machine
  | [], M => ([], M)
  | raw :: raws, M =>
    let (result, disk) := cleanOne faults M raw (homeDir HOME) includeHub
    let (results, M) := clean HOME includeHub raws { M with disk }
    (result :: results, M)

/-! ## Resolved paths -/

section
variable {M : Machine} {path current : Path String} {d : Loc String}

theorem resolveFrom_of_some {last : List (Component String)} (suffix : Loc String)
    (h : M.canonicalize current = some d) :
    M.resolveFrom path current last suffix = .ofLoc (d ++ suffix) := by
  rw [Machine.resolveFrom.eq_def]
  simp only [h]

theorem resolveFrom_of_none {n : String} {last : List (Component String)} {suffix : Loc String}
    (h : M.canonicalize current = none) :
    M.resolveFrom path current (.name n :: last) suffix =
      if path.isAbsolute = false ∧ last = [] then path
      else M.resolveFrom path ⟨path.isAbsolute, last.reverse⟩ last (n :: suffix) := by
  rw [Machine.resolveFrom.eq_def]
  simp only [h]

theorem resolveFrom_of_not_name {c : Component String} {last : List (Component String)} {suffix : Loc String}
    (h : M.canonicalize current = none) (hc : ∀ n, c ≠ .name n) :
    M.resolveFrom path current (c :: last) suffix = path := by
  rw [Machine.resolveFrom.eq_def]
  rcases c with _ | _ | n
  case name => exact absurd rfl (hc n)
  all_goals simp only [h]

theorem resolve_of_canonicalize (h : M.canonicalize path = some d) : M.resolve path = .ofLoc d :=
  (resolveFrom_of_some [] h).trans (congrArg Path.ofLoc (List.append_nil d))

/-- A path that leads to a directory without the components that say nothing leads there. -/
theorem canonicalize_of_components {h : Loc String} (hne : current.components ≠ [] ∨
    current.isAbsolute = true) (hdir : M.disk.IsDir h)
    (hlead : M.canonicalize ⟨current.isAbsolute, current.components⟩ = some h) :
    M.canonicalize current = some h := by
  obtain ⟨-, passed, links, hleads, hlinks⟩ := Disk.canonicalize_eq_some_iff.mp hlead
  refine Disk.canonicalize_eq_some_iff.mpr ⟨?_, passed, links, ?_, hlinks⟩
  · rintro ⟨habsolute, hparts⟩
    rcases hne with hne | hne
    · rw [Path.components, habsolute, hparts] at hne
      exact hne rfl
    · rw [habsolute] at hne
      cases hne
  · rcases current with ⟨_ | _, _ | ⟨_ | _ | n, ps⟩⟩
    case false.cons.here =>
      rcases hleads with _ | ⟨hstart, hleads⟩
      exact .here hstart (hleads.of_filter hdir)
    all_goals exact Disk.Leads.of_filter hleads hdir

/-- Where what is resolved leads to a real directory, nothing of the path was put back unresolved. -/
theorem canonicalize_of_resolveFrom (hdir : M.disk.IsDir d) {last : List (Component String)}
    {suffix : Loc String} (habsolute : current.isAbsolute = path.isAbsolute)
    (hcurrent : current.components = last.reverse)
    (hpath : path.components = last.reverse ++ suffix.map .name)
    (hne : path.isAbsolute = true ∨ last ≠ [])
    (h : (Path.ofLoc d).startsWith (M.resolveFrom path current last suffix)) :
    ∃ found, M.canonicalize current = some found ∧
      M.resolveFrom path current last suffix = .ofLoc (found ++ suffix) := by
  have hcomponents : path.components ≠ [] ∨ path.isAbsolute = true := by
    refine hne.symm.imp_left fun hlast hnil ↦ hlast ?_
    rw [hpath] at hnil
    exact List.reverse_eq_nil_iff.mp (List.append_eq_nil_iff.mp hnil).1
  -- a path that came back as it was is no beginning of a location
  have hraw (h : (Path.ofLoc d).startsWith path) :
      path.isAbsolute = true ∧ ∀ c ∈ path.components, ∃ n, c = .name n := by
    rcases hisAbsolute : path.isAbsolute with _ | _
    · rw [Path.startsWith, if_neg (by rw [hisAbsolute]; exact Bool.false_ne_true)] at h
      rcases hcomponents with hcomponents | hcomponents
      · exact absurd h.2 hcomponents
      · rw [hisAbsolute] at hcomponents
        cases hcomponents
    · have habsolute : path.isAbsolute = (Path.ofLoc d).isAbsolute := hisAbsolute
      refine ⟨rfl, fun c hc ↦ ?_⟩
      rw [Path.startsWith, if_pos habsolute, Path.components_ofLoc] at h
      obtain ⟨n, -, hn⟩ := List.mem_map.mp (h.subset hc)
      exact ⟨n, hn.symm⟩
  induction last generalizing current suffix with
  | nil =>
    rcases hfound : M.canonicalize current with _ | found
    · -- the root is always found
      have hisAbsolute : current.isAbsolute = true := by
        rw [habsolute]
        exact hne.resolve_right fun h ↦ h rfl
      have hroot : M.canonicalize ⟨current.isAbsolute, current.components⟩ = some [] := by
        rw [hcurrent, hisAbsolute]
        exact Disk.canonicalize_ofLoc (p := []) M.disk.root.choose_spec.1
          (Kind.isLink_of_isDir M.disk.root.choose_spec.2)
      rw [canonicalize_of_components (.inr hisAbsolute) Disk.isDir_root hroot] at hfound
      cases hfound
    · exact ⟨found, rfl, resolveFrom_of_some suffix hfound⟩
  | cons c last ih =>
    rcases hfound : M.canonicalize current with _ | found
    swap
    · exact ⟨found, rfl, resolveFrom_of_some suffix hfound⟩
    have hc : c ∈ path.components := by
      rw [hpath]
      exact List.mem_append_left _ (List.mem_reverse.mpr List.mem_cons_self)
    by_cases hname : ∃ n, c = .name n
    · obtain ⟨n, rfl⟩ := hname
      rw [resolveFrom_of_none hfound] at h ⊢
      split_ifs at h ⊢ with hlast
      · rw [hlast.1] at hraw
        cases (hraw h).1
      · -- the parent is found, and what is put back after it is a directory in it
        rw [List.reverse_cons] at hcurrent hpath
        have hparent : (⟨current.isAbsolute, last.reverse⟩ : Path String).components =
            last.reverse := Path.components_of_cut (hcurrent ▸ List.prefix_append _ _)
        rw [habsolute] at hparent
        have hmore : path.isAbsolute = true ∨ last ≠ [] := by
          rcases hisAbsolute : path.isAbsolute with _ | _
          · exact .inr fun hnil ↦ hlast ⟨hisAbsolute, hnil⟩
          · exact .inl rfl
        obtain ⟨found, hfound', hresolve⟩ :=
          @ih ⟨path.isAbsolute, last.reverse⟩ (n :: suffix) rfl hparent
            (by rw [hpath, List.append_assoc]; rfl) hmore h
        rw [hresolve, Path.startsWith_ofLoc_iff, List.append_cons] at h
        have hle : found ++ [n] <+: d := List.IsPrefix.trans (List.prefix_append _ _) h
        have hsub : M.disk.IsDir (found ++ [n]) := by
          obtain ⟨k, hk, hk'⟩ := hdir
          rcases eq_or_ne (found ++ [n]) d with rfl | hne
          · exact ⟨k, hk, hk'⟩
          · exact Disk.isDir_above hk hle hne
        obtain ⟨k, hk, hk'⟩ := hsub
        obtain ⟨-, passed, links, hleads, hlinks⟩ := Disk.canonicalize_eq_some_iff.mp hfound'
        have hchild : M.canonicalize ⟨current.isAbsolute, current.components⟩ =
            some (found ++ [n]) := by
          refine Disk.canonicalize_eq_some_iff.mpr ⟨fun hempty ↦ ?_, passed ++ [found ++ [n]],
            links + 0, ?_, hlinks⟩
          · have hnil := hempty.2
            simp [hcurrent] at hnil
          · rw [habsolute]
            simp only [hcurrent]
            exact Disk.leads_append_iff.mpr ⟨found, passed, [found ++ [n]], links, 0, hleads,
              .enter hk (Kind.isLink_of_isDir hk') (.nil _), rfl, rfl⟩
        rw [canonicalize_of_components (.inl (by simp [hcurrent])) ⟨k, hk, hk'⟩ hchild] at hfound
        cases hfound
    · rw [resolveFrom_of_not_name hfound fun n hn ↦ hname ⟨n, hn⟩] at h
      exact absurd ((hraw h).2 c hc) hname

/-- What a real directory is found below of is itself resolved as far as it goes. -/
theorem canonicalize_of_resolve (hdir : M.disk.IsDir d) (hne : path.parts ≠ [])
    (h : (Path.ofLoc d).startsWith (M.resolve path)) :
    ∃ found, M.canonicalize path = some found ∧ M.resolve path = .ofLoc found := by
  have hcomponents : path.isAbsolute = true ∨ path.components.reverse ≠ [] := by
    rcases hisAbsolute : path.isAbsolute with _ | _
    · exact .inr fun hnil ↦
        Path.components_ne_nil hisAbsolute hne (List.reverse_eq_nil_iff.mp hnil)
    · exact .inl rfl
  have hpath : path.components = path.components.reverse.reverse ++ ([] : Loc String).map .name := by
    simp
  obtain ⟨found, hfound, hresolve⟩ := canonicalize_of_resolveFrom hdir rfl
    (List.reverse_reverse _).symm hpath hcomponents h
  exact ⟨found, hfound, hresolve.trans (congrArg Path.ofLoc (List.append_nil found))⟩

end

/-! ## What is removed -/

/-- One disk is another, of which some entries below a directory are gone. -/
def Emptied (D D' : Disk String) (d : Loc String) : Prop :=
  ∀ p, D'.look p = D.look p ∨ D'.look p = none ∧ d <+: p ∧ d ≠ p

section
variable {faults : Faults String} {M : Machine} {D D' : Disk String} {d p : Loc String}
  {resolved : Path String} {device : ℕ} {s : Cleaning} {n : String} {names : List String}

theorem Emptied.refl : Emptied D D d := fun _ ↦ .inl rfl

theorem Emptied.look_of_not_below (h : Emptied D D' d) (hp : ¬(d <+: p ∧ d ≠ p)) :
    D'.look p = D.look p := (h p).resolve_right fun h' ↦ hp h'.2

theorem Emptied.isDir (h : Emptied D D' d) (hd : D.IsDir d) : D'.IsDir d := by
  obtain ⟨k, hk, hdir⟩ := hd
  exact ⟨k, (h.look_of_not_below fun h' ↦ h'.2 rfl).trans hk, hdir⟩

theorem canonicalize_of_isDir (hd : D.IsDir d) :
    D.canonicalize linkLimit M.cwd (.ofLoc d) = some d := by
  obtain ⟨k, hk, hdir⟩ := hd
  exact Disk.canonicalize_ofLoc hk (Kind.isLink_of_isDir hdir)

theorem disk_cleanEntry_of_some (h : s.disk.entryAt linkLimit M.cwd (resolved.child n) = some p) :
    (cleanEntry faults M resolved device s n).disk = s.disk.remove p (faults.keeps p) := by
  rw [cleanEntry, h]
  dsimp only
  split_ifs <;> rfl

theorem disk_cleanEntry_of_none (h : s.disk.entryAt linkLimit M.cwd (resolved.child n) = none) :
    (cleanEntry faults M resolved device s n).disk = s.disk := by
  rw [cleanEntry, h]

/-- What is gone stays gone. -/
theorem look_foldl_eq_none (h : s.disk.look p = none) :
    (names.foldl (cleanEntry faults M resolved device) s).disk.look p = none := by
  induction names generalizing s with
  | nil => exact h
  | cons n names ih =>
    refine ih ?_
    rcases hentry : s.disk.entryAt linkLimit M.cwd (resolved.child n) with _ | q
    · rw [disk_cleanEntry_of_none hentry]
      exact h
    · rw [disk_cleanEntry_of_some hentry]
      rcases Disk.look_remove_cases _ _ _ p with hsame | ⟨hnone, -⟩
      · exact hsame.trans h
      · exact hnone

/-- Where the path of the directory leads to it, the entry of that name is removed. -/
theorem disk_cleanEntry (h : s.disk.canonicalize linkLimit M.cwd resolved = some d) (n : String) :
    (cleanEntry faults M resolved device s n).disk =
      if (s.disk.look (d ++ [n])).isSome then s.disk.remove (d ++ [n]) (faults.keeps (d ++ [n]))
      else s.disk := by
  have hentry := Disk.entryAt_child h n
  split_ifs at hentry ⊢
  · exact disk_cleanEntry_of_some hentry
  · exact disk_cleanEntry_of_none hentry

theorem Emptied.cleanEntry (h : Emptied D s.disk d)
    (hd : s.disk.canonicalize linkLimit M.cwd resolved = some d) :
    Emptied D (cleanEntry faults M resolved device s n).disk d := by
  intro p
  rw [disk_cleanEntry hd]
  split_ifs
  · rcases Disk.look_remove_cases _ _ _ p with hsame | ⟨hnone, hle⟩
    · rw [hsame]
      exact h p
    · refine .inr ⟨hnone, List.IsPrefix.trans (List.prefix_append d [n]) hle, ?_⟩
      rintro rfl
      have hlength := hle.length_le
      rw [List.length_append] at hlength
      exact absurd hlength (Nat.not_succ_le_self _)
  · exact h p

theorem Emptied.foldl (h : Emptied D s.disk d) (hd : D.IsDir d) :
    Emptied D (names.foldl (Cache.cleanEntry faults M (.ofLoc d) device) s).disk d := by
  induction names generalizing s with
  | nil => exact h
  | cons n names ih => exact ih (h.cleanEntry (canonicalize_of_isDir (h.isDir hd)))

/-- Where nothing stands in the way, everything below the directory goes. -/
theorem look_foldl_of_mem (hnames : n ∈ names) (hfaults : faults = .none)
    (h : Emptied D s.disk d) (hd : D.IsDir d) (hp : d ++ [n] <+: p) :
    (names.foldl (Cache.cleanEntry faults M (.ofLoc d) device) s).disk.look p = none := by
  induction names generalizing s with
  | nil => cases hnames
  | cons m names ih =>
    have hcanonicalize := canonicalize_of_isDir (M := M) (h.isDir hd)
    rcases List.mem_cons.mp hnames with rfl | hnames
    · rw [List.foldl_cons]
      refine look_foldl_eq_none ?_
      have hne : p ≠ [] := by
        rintro rfl
        simpa using hp.length_le
      rw [disk_cleanEntry hcanonicalize, hfaults, Faults.keeps_none]
      split_ifs with hsome
      · exact Disk.look_remove_all hp hne
      · by_contra hlook
        obtain ⟨k, hk⟩ := Option.ne_none_iff_exists'.mp hlook
        rcases eq_or_ne (d ++ [n]) p with rfl | hne
        · exact hsome (Option.isSome_of_mem hk)
        · obtain ⟨k', hk', -⟩ := Disk.isDir_above hk hp hne
          exact hsome (Option.isSome_of_mem hk')
    · exact ih hnames (h.cleanEntry hcanonicalize)

end

/-! ## Its bounds -/

variable (M : Machine) (raw : String) (home : Option String) (includeHub : Bool)

/-- What is removed from a disk lies below the real directory that was asked for, which lies below
the real home, and directories alone lead to it. Every file that a path below the hub cache leads to
is found there as before, unless the hub is asked for. -/
structure Bounded (D' : Disk String) : Prop where
  inside : ∀ p k, M.disk.look p = some k → D'.look p = none →
    ∃ home' shown h d, home = some home' ∧ expand raw home = .ok shown ∧
      M.canonicalize (.ofText home') = some h ∧ M.canonicalize (.ofText shown) = some d ∧
      (h <+: d ∧ h ≠ d) ∧ (d <+: p ∧ d ≠ p) ∧ ∀ q, d <+: q → q <+: p → q ≠ p → M.disk.IsDir q
  hub : includeHub = false → ∀ home' h, home = some home' →
    M.canonicalize (.ofText home') = some h → ∀ names p id bytes,
      M.canonicalize (.ofLoc (h ++ hubRelative ++ names)) = some p →
      M.disk.look p = some (.file id bytes) →
      D'.canonicalize linkLimit M.cwd (.ofLoc (h ++ hubRelative ++ names)) = some p ∧
        D'.look p = some (.file id bytes)

/-- The directory that is emptied, where nothing is said against that, and its device. -/
def opened : Option (Path String × Loc String × ℕ) :=
  match expand raw home with
  | .error _ => none
  | .ok shown =>
    match home with
    | none => none
    | some home =>
      let resolved := M.resolve (.ofText shown)
      match objection (M.resolve (.ofText home)) resolved includeHub with
      | some _ => none
      | none =>
        match M.canonicalize resolved with
        | none => none
        | some dir =>
          match M.disk.look dir with
          | some (.dir device) => some (resolved, dir, device)
          | _ => none

/-- The request is refused, or there is nothing in what it names; or the path that was asked for can
itself be followed, and nothing that a path to a file of the hub passes lies below it, unless the hub
is asked for. -/
def Spares : Prop :=
  ∀ resolved d device, opened M raw home includeHub = some (resolved, d, device) →
    M.disk.names d ≠ [] →
      (∃ shown, expand raw home = .ok shown ∧ M.canonicalize (.ofText shown) ≠ none) ∧
      (includeHub = false → ∀ home' h, home = some home' →
        M.canonicalize (.ofText home') = some h → ∀ names p id bytes passed links,
          M.disk.Leads [] ((h ++ hubRelative ++ names).map .name) p passed links →
          links ≤ linkLimit → M.disk.look p = some (.file id bytes) →
          ∀ q ∈ passed, ¬(d <+: q ∧ d ≠ q))

section
variable {faults : Faults String} {M : Machine} {raw : String} {home : Option String} {includeHub : Bool}
  {resolved : Path String} {d : Loc String} {device : ℕ}

theorem disk_cleanOne : (cleanOne faults M raw home includeHub).2 =
    match opened M raw home includeHub with
    | none => M.disk
    | some (resolved, dir, device) =>
      if faults.unreadable dir then M.disk
      else
        ((M.disk.names dir).foldl (cleanEntry faults M resolved device) { disk := M.disk }).disk := by
  rw [cleanOne, opened]
  rcases expand raw home with error | shown
  · rfl
  · rcases home with _ | home
    · rfl
    · dsimp only
      rcases objection (M.resolve (.ofText home)) (M.resolve (.ofText shown)) includeHub with _ | error
      · dsimp only
        rcases M.canonicalize (M.resolve (.ofText shown)) with _ | dir
        · rfl
        · dsimp only
          rcases M.disk.look dir with _ | ⟨_ | _ | device⟩
          case some.dir =>
            dsimp only
            split_ifs <;> rfl
          all_goals rfl
      · rfl

/-- What is known of the directory that is emptied. -/
theorem of_opened (h : opened M raw home includeHub = some (resolved, d, device)) :
    ∃ home' shown, home = some home' ∧ expand raw home = .ok shown ∧
      resolved = M.resolve (.ofText shown) ∧ M.canonicalize resolved = some d ∧ M.disk.IsDir d ∧
      objection (M.resolve (.ofText home')) resolved includeHub = none := by
  rw [opened] at h
  rcases hshown : expand raw home with error | shown <;> rw [hshown] at h
  · cases h
  · rcases home with _ | home
    · cases h
    · dsimp only at h
      rcases hobjection : objection (M.resolve (.ofText home)) (M.resolve (.ofText shown)) includeHub
        with _ | error <;> rw [hobjection] at h
      · dsimp only at h
        rcases hdir : M.canonicalize (M.resolve (.ofText shown)) with _ | dir <;> rw [hdir] at h
        · cases h
        · dsimp only at h
          rcases hlook : M.disk.look dir with _ | ⟨_ | _ | device'⟩ <;> rw [hlook] at h <;> cases h
          exact ⟨home, shown, rfl, rfl, rfl, hdir, ⟨_, hlook, rfl⟩, hobjection⟩
      · cases h

/-- Where the path that was asked for can be followed, what is emptied is where it leads. -/
theorem resolved_eq {shown : String} {d' : Loc String}
    (hd : M.canonicalize (M.resolve (.ofText shown)) = some d)
    (hshown : M.canonicalize (.ofText shown) = some d') :
    d' = d ∧ M.resolve (.ofText shown) = .ofLoc d := by
  have hresolve := resolve_of_canonicalize hshown
  obtain ⟨k, hk, hlink⟩ := Disk.real_of_canonicalize hshown
  rw [hresolve] at hd
  have heq : d' = d := Option.some.inj ((Disk.canonicalize_ofLoc hk hlink).symm.trans hd)
  exact ⟨heq, heq ▸ hresolve⟩

/-- What nothing is said against lies below the real home. -/
theorem home_of_objection {home : String} (hne : home ≠ "") (hdir : M.disk.IsDir d)
    (h : objection (M.resolve (.ofText home)) (.ofLoc d) includeHub = none) :
    ∃ h, M.canonicalize (.ofText home) = some h ∧ h <+: d ∧ h ≠ d := by
  rw [objection] at h
  split_ifs at h with hrefused
  push Not at hrefused
  obtain ⟨-, hsame, hstarts, -⟩ := hrefused
  obtain ⟨found, hfound, hresolve⟩ :=
    canonicalize_of_resolve hdir (Path.parts_ne_nil_of_ofText hne) hstarts
  rw [hresolve] at hsame hstarts
  exact ⟨found, hfound, Path.startsWith_ofLoc_iff.mp hstarts, fun heq ↦
    hsame (Path.same_ofLoc_iff.mpr heq.symm)⟩

theorem bounded_self : Bounded M raw home includeHub M.disk where
  inside p k hk hnone := by
    rw [hk] at hnone
    cases hnone
  hub _ _ _ _ _ _ _ _ _ hcanonicalize hfile := ⟨hcanonicalize, hfile⟩

/-- What is emptied below a home is all that changes. -/
theorem bounded_of_emptied {home' shown : String} {D' : Disk String} (hhome' : home' ≠ "")
    (hhome : home = some home') (hexpand : expand raw home = .ok shown) (hdir : M.disk.IsDir d)
    (hshown : M.canonicalize (.ofText shown) = some d)
    (hobjection : objection (M.resolve (.ofText home')) (.ofLoc d) includeHub = none)
    (he : Emptied M.disk D' d)
    (hhub : includeHub = false → ∀ home' h, home = some home' →
      M.canonicalize (.ofText home') = some h → ∀ names p id bytes passed links,
        M.disk.Leads [] ((h ++ hubRelative ++ names).map .name) p passed links →
        links ≤ linkLimit → M.disk.look p = some (.file id bytes) →
        ∀ q ∈ passed, ¬(d <+: q ∧ d ≠ q)) :
    Bounded M raw home includeHub D' where
  inside p k hk hnone := by
    have hbelow : d <+: p ∧ d ≠ p := by
      rcases he p with hsame | ⟨-, hbelow⟩
      · rw [hnone, hk] at hsame
        cases hsame
      · exact hbelow
    obtain ⟨h, hh, hle, hne⟩ := home_of_objection hhome' hdir hobjection
    exact ⟨home', shown, h, d, hhome, hexpand, hh, hshown, ⟨hle, hne⟩, hbelow,
      fun q _ hq hqne ↦ Disk.isDir_above hk hq hqne⟩
  hub hinclude home' h hhome hh names p id bytes hcanonicalize hfile := by
    obtain ⟨hne, passed, links, hleads, hlinks⟩ := Disk.canonicalize_eq_some_iff.mp hcanonicalize
    have hkept : ∀ q ∈ passed, D'.look q = M.disk.look q := fun q hq ↦
      he.look_of_not_below (hhub hinclude home' h hhome hh names p id bytes passed links hleads
        hlinks hfile q hq)
    have hcanonicalize' : D'.canonicalize linkLimit M.cwd (.ofLoc (h ++ hubRelative ++ names)) =
        some p := Disk.canonicalize_eq_some_iff.mpr
      ⟨hne, passed, links, hleads.of_kept Disk.isDir_root hkept, hlinks⟩
    obtain ⟨k, hk, -⟩ := Disk.real_of_canonicalize hcanonicalize'
    refine ⟨hcanonicalize', ?_⟩
    rcases he p with hsame | ⟨hnone, -⟩
    · exact hsame.trans hfile
    · rw [hk] at hnone
      cases hnone

theorem emptied_cleaned (hdir : M.disk.IsDir d) (names : List String) :
    Emptied M.disk (names.foldl (cleanEntry faults M (.ofLoc d) device) { disk := M.disk }).disk d :=
  Emptied.foldl Emptied.refl hdir

/-- Where nothing stands in the way, nothing below the directory is left. -/
theorem look_foldl_eq_none_of_below {p : Loc String} (hdir : M.disk.IsDir d)
    (hlook : M.disk.look p ≠ none) (hp : d <+: p ∧ d ≠ p) (hfaults : faults = .none) :
    ((M.disk.names d).foldl (cleanEntry faults M (.ofLoc d) device)
      { disk := M.disk }).disk.look p = none := by
  obtain ⟨⟨r, rfl⟩, hne⟩ := hp
  rcases r with _ | ⟨n, r⟩
  · exact absurd (List.append_nil d).symm hne
  · obtain ⟨k, hk⟩ := Option.ne_none_iff_exists'.mp hlook
    have hle : d ++ [n] <+: d ++ n :: r := ⟨r, (List.append_cons d n r).symm⟩
    refine look_foldl_of_mem ?_ hfaults Emptied.refl hdir hle
    rw [Disk.mem_names]
    rcases eq_or_ne (d ++ [n]) (d ++ n :: r) with heq | hne'
    · exact ⟨k, heq ▸ hk⟩
    · obtain ⟨k', hk', -⟩ := Disk.isDir_above hk hle hne'
      exact ⟨k', hk'⟩

end

/-- **A cleaning stays within its bounds**, whatever goes wrong, if and only if it spares the hub. -/
theorem bounded_iff (M : Machine) (raw : String) (HOME : Option String) (includeHub : Bool) :
    (∀ faults, Bounded M raw (homeDir HOME) includeHub
      (cleanOne faults M raw (homeDir HOME) includeHub).2) ↔
      Spares M raw (homeDir HOME) includeHub := by
  constructor
  · intro hall resolved d device hopened hnames
    obtain ⟨home', shown, hhome, hexpand, rfl, hd, hdir, hobjection⟩ := of_opened hopened
    have hbounded := hall .none
    rw [disk_cleanOne, hopened] at hbounded
    change Bounded M raw _ includeHub ((M.disk.names d).foldl (cleanEntry .none M
      (M.resolve (.ofText shown)) device) { disk := M.disk }).disk at hbounded
    obtain ⟨n, names, hcons⟩ := List.exists_cons_of_ne_nil hnames
    obtain ⟨k, hk⟩ := Disk.mem_names.mp (hcons ▸ List.mem_cons_self : n ∈ M.disk.names d)
    -- the first entry goes, wherever it is
    have hfirst : ((M.disk.names d).foldl (cleanEntry .none M
        (M.resolve (.ofText shown)) device) { disk := M.disk }).disk.look (d ++ [n]) = none := by
      rw [hcons, List.foldl_cons]
      refine look_foldl_eq_none ?_
      have hentry : ({ disk := M.disk } : Cleaning).disk.canonicalize linkLimit M.cwd
          (M.resolve (.ofText shown)) = some d := hd
      rw [disk_cleanEntry hentry, if_pos (Option.isSome_of_mem hk), Faults.keeps_none]
      exact Disk.look_remove_all (List.prefix_refl _) (by simp)
    obtain ⟨-, shown', -, d', -, hexpand', -, hshown, -⟩ := hbounded.inside _ k hk hfirst
    rw [hexpand] at hexpand'
    cases hexpand'
    refine ⟨⟨shown, hexpand, by simp [hshown]⟩, ?_⟩
    intro hinclude home'' h hhome'' hh names' p id bytes passed links hleads hlinks hfile q hq hbelow
    obtain ⟨rfl, hresolve⟩ := resolved_eq hd hshown
    have hcanonicalize : M.canonicalize (.ofLoc (h ++ hubRelative ++ names')) = some p :=
      Disk.canonicalize_eq_some_iff.mpr
        ⟨fun hempty ↦ Bool.noConfusion hempty.1, passed, links, hleads, hlinks⟩
    obtain ⟨hafter, -⟩ :=
      hbounded.hub hinclude home'' h hhome'' hh names' p id bytes hcanonicalize hfile
    obtain ⟨-, passed', links', hleads', -⟩ := Disk.canonicalize_eq_some_iff.mp hafter
    rw [hresolve] at hleads'
    -- the path that is left is the path that was, and passes what is gone
    have hsub (r : Loc String) (k : Kind String)
        (h : ((M.disk.names d').foldl (cleanEntry .none M (.ofLoc d') device)
          { disk := M.disk }).disk.look r = some k) : M.disk.look r = some k := by
      rcases emptied_cleaned hdir _ r with hsame | ⟨hnone, -⟩
      · exact hsame.symm.trans h
      · rw [h] at hnone
        cases hnone
    obtain ⟨-, rfl, -⟩ := hleads.unique (hleads'.mono hsub)
    exact hleads'.look_ne_none hq
      (look_foldl_eq_none_of_below hdir (hleads.look_ne_none hq) hbelow rfl)
  · intro hspares faults
    rw [disk_cleanOne]
    rcases hopened : opened M raw (homeDir HOME) includeHub with _ | ⟨resolved, d, device⟩
    · exact bounded_self
    · dsimp only
      split_ifs
      · exact bounded_self
      by_cases hnames : M.disk.names d = []
      · rw [hnames]
        exact bounded_self
      · obtain ⟨⟨shown, hexpand, hshown⟩, hhub⟩ := hspares resolved d device hopened hnames
        obtain ⟨home', shown', hhome, hexpand', rfl, hd, hdir, hobjection⟩ := of_opened hopened
        rw [hexpand] at hexpand'
        cases hexpand'
        obtain ⟨d', hd'⟩ := Option.ne_none_iff_exists'.mp hshown
        obtain ⟨rfl, hresolve⟩ := resolved_eq hd hd'
        rw [hresolve] at hobjection ⊢
        have hne : home' ≠ "" := by
          have hfilter := Option.mem_filter_iff.mp (Option.mem_def.mpr hhome)
          simpa using hfilter.2
        exact bounded_of_emptied hne hhome hexpand hdir hd' hobjection
          (emptied_cleaned hdir _) hhub

/-- A home whose cache holds the hub, which holds one model. -/
private def oneModel : Machine where
  disk := .ofEntries
    (AList.insert ["home", "u", ".cache", "huggingface", "hub", "m"] (.file 1 7) <|
      AList.insert ["home", "u", ".cache", "huggingface", "hub"] (.dir 0) <|
      AList.insert ["home", "u", ".cache", "huggingface"] (.dir 0) <|
      AList.insert ["home", "u", ".cache"] (.dir 0) <|
      AList.insert ["home", "u"] (.dir 0) <|
      AList.insert ["home"] (.dir 0) <| AList.singleton [] (.dir 0))
    (by decide) (by decide)
  cwd := []

/-- Emptying what the hub lies in empties the hub. -/
theorem not_bounded_above_hub :
    ¬Bounded oneModel "~/.cache" (homeDir (some "/home/u")) false
      (cleanOne .none oneModel "~/.cache" (homeDir (some "/home/u")) false).2 := by
  intro h
  have hfile := (h.hub rfl "/home/u" ["home", "u"] rfl (by decide +kernel) ["m"]
    ["home", "u", ".cache", "huggingface", "hub", "m"] 1 7 (by decide +kernel)
    (by decide +kernel)).2
  have hgone : (cleanOne .none oneModel "~/.cache" (homeDir (some "/home/u")) false).2.look
      ["home", "u", ".cache", "huggingface", "hub", "m"] = none := by
    decide +kernel
  rw [hgone] at hfile
  cases hfile

end SparkPulse.Agent.Cache
