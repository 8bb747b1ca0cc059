import Mathlib.Algebra.Order.Ring.Int
import Mathlib.Data.List.AList
import SparkPulse.HubCache.Tree

/-!
# The two snapshot verifiers

`verify_snapshot` and `verify_listing` of `tools/hub_cache.py`, and the listing the agent makes of a
snapshot in `agent/src/executor/snapshots.rs`. Both verifiers decide over the same manifest, one
from the tree itself and one from the listing.

The manifest of a commit is what `trees/<commit>.json` holds. Hash functions and Python's `fnmatch`
are parameters; every file can be read. Of a report, only the time of the check is left out.
-/

namespace SparkPulse.HubCache

/-! ## Data -/

/-- What is asked of the bytes of a file. -/
structure Hashes (β : Type) where
  size : β → Nat
  /-- The SHA-256 of the bytes, in lower-case hexadecimal digits. -/
  sha256 : β → String
  /-- The SHA-1 that git names a blob of these bytes by. -/
  gitSha1 : β → String
  sha256_lower : ∀ b, (sha256 b).toLower = sha256 b
  sha256_ne_empty : ∀ b, sha256 b ≠ ""

structure ManifestEntry where
  size : Option Int := none
  lfsSha256 : Option String := none
  blobId : Option String := none
  deriving DecidableEq, Repr

/-- The items of the dictionary from repo-relative paths to entries. -/
abbrev Manifest := List (String × ManifestEntry)

inductive Algorithm
  | sha256
  | gitSha1
  deriving DecidableEq, Repr

def Algorithm.value : Algorithm → String
  | .sha256 => "sha256"
  | .gitSha1 => "git-sha1"

/-- A string that is there and not empty. -/
def truthy (s : Option String) : Option String := s.filter fun s ↦ s ≠ ""

/-- The algorithm and digest the hub published for an entry. -/
def ManifestEntry.expectedHash (e : ManifestEntry) : Option (Algorithm × String) :=
  match truthy e.lfsSha256 with
  | some lfs => some (.sha256, lfs.toLower)
  | none => (truthy e.blobId).map fun blobId ↦ (.gitSha1, blobId.toLower)

def ManifestEntry.expectedSize (e : ManifestEntry) : Int := e.size.getD 0

/-- Why a manifest that is there cannot be read, as `manifest_unreadable` reports it. -/
structure Unreadable where
  path : String
  owner : Option Int
  remedy : Option String
  reason : String
  deriving DecidableEq, Repr

/-- What is at `trees/<commit>.json`. -/
inductive TreesFile
  | absent
  | unreadable (why : Unreadable)
  /-- Not JSON of the format version and shape that is known. -/
  | invalid
  | files (manifest : Manifest)

/-- A completion marker. -/
structure Marker where
  revision : Option String := none
  allowPatterns : Option (List String) := none
  verifiedAt : Option String := none
  deriving DecidableEq, Repr

/-- The directory of one snapshot. -/
structure Snapshot (β : Type) where
  tree : Tree β
  wf : tree.Wf
  /-- What a path from here leads to that is not spelled by names. -/
  elsewhere : String → Option (Found β)

/-- A cache entry that is a directory. -/
structure Repo (β : Type) where
  /-- The texts of the files below `refs/`. -/
  refs : AList fun _ : String ↦ String
  /-- The directories in `snapshots/`. -/
  snapshots : AList fun _ : String ↦ Snapshot β
  named : ∀ name ∈ snapshots.keys, IsName name
  /-- The names in `blobs/`. -/
  blobs : List String
  trees : String → TreesFile
  marker : Option Marker

/-- What a relative path leads to. -/
def Snapshot.probe {β : Type} (s : Snapshot β) (path : String) : Option (Found β) :=
  if Plain path then s.tree.find (splitPath path) else s.elsewhere path

inductive State
  | absent
  | partially
  | verified
  deriving DecidableEq, Repr

def State.value : State → String
  | .absent => "absent"
  | .partially => "partial"
  | .verified => "verified"

inductive Evidence
  | none
  | layout
  | manifest
  | hashes
  deriving DecidableEq, Repr

def Evidence.value : Evidence → String
  | .none => "none"
  | .layout => "structure"
  | .manifest => "manifest"
  | .hashes => "hashes"

inductive Mismatch
  | size (path : String) (expected : Int) (actual : Nat)
  | hash (path : String) (kind : Algorithm) (expected actual : String)
  deriving DecidableEq, Repr

structure Report where
  state : State
  reason : String
  revision : Option String
  evidence : Evidence := .none
  filesExpected : Nat := 0
  filesPresent : Nat := 0
  bytesExpected : Int := 0
  bytesPresent : Nat := 0
  missing : List String := []
  missingCount : Nat := 0
  mismatched : List Mismatch := []
  mismatchedCount : Nat := 0
  dangling : List String := []
  danglingCount : Nat := 0
  marker : Option Marker := none
  filtered : Bool := false
  allowPatterns : Option (List String) := none
  filesExcluded : Nat := 0
  remedy : Option String := none
  verifiedAt : Option String := none
  manifestUnreadable : Option String := none
  manifestPath : Option String := none
  manifestOwner : Option Int := none
  deriving DecidableEq, Repr

/-- `MAX_REPORTED_PATHS` -/
def maxReportedPaths : Nat := 20

/-! ## Revisions -/

/-- `str.strip`, and the `trim` of the agent. -/
def strip (s : String) : String :=
  String.ofList (((s.toList.dropWhile Char.isWhitespace).reverse.dropWhile
    Char.isWhitespace).reverse)

/-- Whether this looks like a 40-character git commit hash. -/
def isCommitHash (value : String) : Bool :=
  value.length = 40 ∧ value.toLower.toList.all fun c ↦ c ∈ "0123456789abcdef".toList

variable {β : Type}

/-- The commit a ref names, if its file is there and not blank. -/
def Repo.readRef (repo : Repo β) (name : String) : Option String :=
  truthy ((repo.refs.lookup name).map strip)

/-- The only directory in `snapshots/`, if there is just one. -/
def Repo.onlySnapshot (repo : Repo β) : Option String :=
  match repo.snapshots.keys with
  | [name] => some name
  | _ => none

def resolveCommit (repo : Repo β) (revision : Option String) : Option String :=
  match truthy revision with
  | some revision =>
    if isCommitHash revision then some revision.toLower else repo.readRef revision
  | none =>
    match repo.readRef "main" with
    | some resolved => some resolved
    | none => repo.onlySnapshot

/-- The manifest of a commit, when there is one that can be read. -/
def Repo.readManifest (repo : Repo β) (commit : String) : Option Manifest :=
  match repo.trees commit with
  | .files manifest => some manifest
  | _ => none

def Repo.manifestUnreadable (repo : Repo β) (commit : String) : Option Unreadable :=
  match repo.trees commit with
  | .unreadable why => some why
  | _ => none

/-- The patterns a marker records for a commit. -/
def markerPatterns (marker : Option Marker) (commit : String) : Option (List String) := do
  let marker ← marker
  let patterns ← marker.allowPatterns
  if patterns = [] then none
  else
    match truthy marker.revision with
    | some revision => if commit ≠ "" ∧ revision ≠ commit then none else some patterns
    | none => some patterns

/-! ## What both verifiers share -/

section
variable (fnmatch : String → String → Bool)

def filterManifest (manifest : Manifest) (patterns : List String) : Manifest :=
  manifest.filter fun item ↦ patterns.any fun pattern ↦ fnmatch item.1 pattern

/-- Narrow the manifest to the download's own file set, and say so. -/
def applyFilter (manifest : Manifest) (allowPatterns : Option (List String)) (report : Report) :
    Manifest × Report :=
  match allowPatterns.filter (· ≠ []) with
  | none => (manifest, report)
  | some patterns =>
    let narrowed := filterManifest fnmatch manifest patterns
    if narrowed = [] then (manifest, report)
    else (narrowed, { report with
      filtered := true
      allowPatterns := some patterns
      filesExcluded := manifest.length - narrowed.length })

end

/-- What is found of one file of the manifest. -/
inductive Finding
  | missing
  | dangling
  | present (size : Nat) (mismatch : Option Mismatch)
  deriving DecidableEq, Repr

/-- The accumulators of the loop over the manifest. -/
structure Tally where
  missing : List String := []
  dangling : List String := []
  mismatched : List Mismatch := []
  present : Nat := 0
  bytesPresent : Nat := 0
  deriving DecidableEq, Repr

def Tally.add (path : String) (t : Tally) : Finding → Tally
  | .missing => { t with missing := t.missing ++ [path] }
  | .dangling => { t with dangling := t.dangling ++ [path] }
  | .present size mismatch => { t with
      present := t.present + 1
      bytesPresent := t.bytesPresent + size
      mismatched := t.mismatched ++ mismatch.toList }

/-- Nothing is wrong. -/
def Tally.clean (t : Tally) : Bool := t.missing.isEmpty ∧ t.dangling.isEmpty ∧ t.mismatched.isEmpty

/-- `sorted(manifest)` -/
def sorted (manifest : Manifest) : Manifest := manifest.mergeSort fun a b ↦ decide (a.1 ≤ b.1)

def manifestBytes (manifest : Manifest) : Int := (manifest.map fun item ↦ item.2.expectedSize).sum

def describe (missing dangling mismatched : Nat) : String :=
  ", ".intercalate (
    (if missing = 0 then [] else [s!"{missing} file(s) missing"]) ++
    (if dangling = 0 then [] else [s!"{dangling} symlink(s) with no blob"]) ++
    (if mismatched = 0 then [] else [s!"{mismatched} file(s) do not match"]))

def verifiedReason (files : Nat) (commit : Option String) (report : Report) : String :=
  let commit := commit.getD "None"
  if report.filtered then
    s!"{files} file(s) match the manifest for {commit}, filtered to " ++
      ", ".intercalate (report.allowPatterns.getD [])
  else s!"{files} files match the manifest for {commit}"

/-- The report of a tally: the update and the verdict at the end of both verifiers. -/
def conclude (manifest : Manifest) (commit : Option String) (deep : Bool) (t : Tally)
    (report : Report) : Report :=
  let report := { report with
    evidence := if deep then .hashes else .manifest
    filesExpected := manifest.length
    filesPresent := t.present
    bytesExpected := manifestBytes manifest
    bytesPresent := t.bytesPresent
    missing := t.missing.take maxReportedPaths
    missingCount := t.missing.length
    dangling := t.dangling.take maxReportedPaths
    danglingCount := t.dangling.length
    mismatched := t.mismatched.take maxReportedPaths
    mismatchedCount := t.mismatched.length }
  if t.clean then
    { report with state := .verified, reason := verifiedReason manifest.length commit report }
  else
    { report with
      state := .partially
      reason := describe t.missing.length t.dangling.length t.mismatched.length }

/-! ## On the tree -/

/-- What is raised when the verifier opens a directory to hash it. -/
def isADirectory : String := "IsADirectoryError"

/-- One file of the manifest, on the tree. -/
def inspect (H : Hashes β) (snapshot : Snapshot β) (deep : Bool) (path : String)
    (entry : ManifestEntry) : Except String Finding :=
  match snapshot.probe path with
  | none => .ok .missing
  | some .dangling => .ok .dangling
  | some (.directory size) =>
    if (size : Int) ≠ entry.expectedSize then
      .ok (.present size (some (.size path entry.expectedSize size)))
    else if deep ∧ entry.expectedHash.isSome then .error isADirectory
    else .ok (.present size none)
  | some (.file content) =>
    let size := H.size content
    if (size : Int) ≠ entry.expectedSize then
      .ok (.present size (some (.size path entry.expectedSize size)))
    else if deep then
      match entry.expectedHash with
      | none => .ok (.present size none)
      | some (algorithm, expected) =>
        let actual := match algorithm with
          | .sha256 => H.sha256 content
          | .gitSha1 => H.gitSha1 content
        .ok (.present size
          (if actual ≠ expected then some (.hash path algorithm expected actual) else none))
    else .ok (.present size none)

/-- The loop over the manifest. -/
def inspectAll (H : Hashes β) (snapshot : Snapshot β) (deep : Bool) (manifest : Manifest) :
    Except String Tally :=
  (sorted manifest).foldlM
    (fun t item ↦ (inspect H snapshot deep item.1 item.2).map (t.add item.1)) {}

def verifyAgainstManifest (fnmatch : String → String → Bool) (H : Hashes β) (manifest : Manifest)
    (snapshot : Snapshot β) (commit : String) (deep : Bool) (allowPatterns : Option (List String))
    (report : Report) : Except String Report := do
  let (manifest, report) := applyFilter fnmatch manifest allowPatterns report
  let report := conclude manifest (some commit) deep
    (← inspectAll H snapshot deep manifest) report
  return { report with
    verifiedAt := if report.state = .verified ∧
        (report.marker.bind Marker.revision) = some commit then
      report.marker.bind Marker.verifiedAt else none }

/-- The files `os.walk` lists, with the sizes of those that are there. -/
def Tree.osWalk (H : Hashes β) (above : List String) : Tree β → List (String × Option Nat)
  | nil => []
  | file name _ content rest =>
    (joinPath (above ++ [name]), some (H.size content)) :: rest.osWalk H above
  | dangling name rest => (joinPath (above ++ [name]), none) :: rest.osWalk H above
  | dir name linked _ children rest =>
    (if linked then [] else children.osWalk H (above ++ [name])) ++ rest.osWalk H above

/-- `".incomplete"` files among the blobs. -/
def Repo.incompleteBlobs (repo : Repo β) : List String :=
  (repo.blobs.filter fun name ↦ name.endsWith ".incomplete").mergeSort fun a b ↦ decide (a ≤ b)

/-- The layout alone, when no manifest is available. -/
def verifyStructurally (H : Hashes β) (repo : Repo β) (commit : String) (snapshot : Snapshot β)
    (report : Report) (requireManifest : Bool) : Report :=
  let files := snapshot.tree.osWalk H []
  let dangling := (files.filter fun f ↦ f.2.isNone).map Prod.fst
  let sizes := files.filterMap Prod.snd
  let incomplete := repo.incompleteBlobs
  let report := { report with
    evidence := .layout
    filesExpected := sizes.length + dangling.length
    filesPresent := sizes.length
    bytesExpected := sizes.sum
    bytesPresent := sizes.sum
    dangling := (dangling.dedup.mergeSort fun a b ↦ decide (a ≤ b)).take maxReportedPaths
    danglingCount := dangling.dedup.length }
  if requireManifest then
    { report with
      state := .partially
      reason := s!"no manifest (trees/{commit}.json) to verify against" }
  else if dangling ≠ [] then
    { report with state := .partially, reason := describe 0 dangling.dedup.length 0 }
  else if incomplete ≠ [] then
    { report with
      state := .partially
      reason := s!"{incomplete.length} unfinished blob download(s)"
      missing := incomplete.take maxReportedPaths
      missingCount := incomplete.length }
  else if sizes.length = 0 then
    { report with state := .partially, reason := "snapshot is empty" }
  else
    match repo.manifestUnreadable commit with
    | some unreadable =>
      { report with
        state := .partially
        manifestUnreadable := some unreadable.reason
        manifestPath := some unreadable.path
        manifestOwner := unreadable.owner
        remedy := unreadable.remedy
        reason := unreadable.reason }
    | none =>
      { report with
        state := .verified
        reason := s!"{sizes.length} file(s) resolve, but no manifest to check them" }

/-- Decide whether a cache entry holds a complete, correct revision. -/
def verifySnapshot (fnmatch : String → String → Bool) (H : Hashes β) (repo : Option (Repo β))
    (revision : Option String) (deep requireManifest : Bool) : Except String Report :=
  match repo with
  | none => .ok { state := .absent, reason := "no cache entry", revision := none }
  | some repo =>
    match resolveCommit repo revision with
    | none =>
      let reason := match truthy revision with
        | some revision => s!"no snapshot for revision '{revision}'"
        | none => "no snapshot"
      .ok { state := .absent, reason, revision := none }
    | some commit =>
      let report : Report :=
        { state := .partially, reason := "", revision := some commit, marker := repo.marker }
      match repo.snapshots.lookup commit with
      | none =>
        .ok { report with state := .absent, reason := s!"no snapshot directory for {commit}" }
      | some snapshot =>
        match repo.readManifest commit with
        | none => .ok (verifyStructurally H repo commit snapshot report requireManifest)
        | some manifest =>
          verifyAgainstManifest fnmatch H manifest snapshot commit deep
            (markerPatterns repo.marker commit) report

/-! ## The agent's listing -/

structure SnapshotFile where
  path : String
  sizeBytes : Nat
  sha256 : String
  isSymlink : Bool
  resolved : Bool
  deriving DecidableEq, Repr

structure SnapshotListing where
  revision : String := ""
  present : Bool := false
  files : List SnapshotFile := []
  bytesPresent : Nat := 0
  deriving DecidableEq, Repr

/-- Walk a snapshot, recording each file's relative path and size. -/
def Tree.walk (H : Hashes β) (deep : Bool) (above : List String) : Tree β → List SnapshotFile
  | nil => []
  | file name linked content rest =>
    { path := joinPath (above ++ [name])
      sizeBytes := H.size content
      sha256 := if deep then H.sha256 content else ""
      isSymlink := linked
      resolved := true } :: rest.walk H deep above
  | dangling name rest =>
    { path := joinPath (above ++ [name])
      sizeBytes := 0
      sha256 := ""
      isSymlink := true
      resolved := false } :: rest.walk H deep above
  | dir name _ _ children rest =>
    children.walk H deep (above ++ [name]) ++ rest.walk H deep above

/-- The directory a request names, and its revision. -/
def snapshotDir (repo : Option (Repo β)) (revision : String) :
    Option (Option (Snapshot β) × String) :=
  let revision := if revision = "" then repo.bind fun repo ↦ repo.readRef "main" else some revision
  revision.map fun revision ↦ (repo.bind fun repo ↦ repo.snapshots.lookup revision, revision)

def listSnapshot (H : Hashes β) (repo : Option (Repo β)) (revision : String) (deep : Bool) :
    SnapshotListing :=
  match snapshotDir repo revision with
  | none => {}
  | some (none, revision) => { revision }
  | some (some snapshot, revision) =>
    let files := snapshot.tree.walk H deep []
    { revision
      present := true
      files := files.mergeSort fun a b ↦ decide (a.path ≤ b.path)
      bytesPresent := (files.map SnapshotFile.sizeBytes).sum }

/-! ## On the listing -/

/-- The dictionary from paths to entries. -/
def byPath (files : List SnapshotFile) : AList fun _ : String ↦ SnapshotFile :=
  files.foldl (fun d f ↦ d.insert f.path f) ∅

/-- One file of the manifest, on the listing. -/
def inspectListed (files : AList fun _ : String ↦ SnapshotFile) (deep : Bool) (path : String)
    (entry : ManifestEntry) : Finding :=
  match files.lookup path with
  | none => .missing
  | some actual =>
    if actual.resolved = false then .dangling
    else if (actual.sizeBytes : Int) ≠ entry.expectedSize then
      .present actual.sizeBytes (some (.size path entry.expectedSize actual.sizeBytes))
    else if deep then
      match entry.expectedHash with
      | some (.sha256, expected) =>
        let digest := actual.sha256.toLower
        if actual.sha256 ≠ "" ∧ digest ≠ expected then
          .present actual.sizeBytes (some (.hash path .sha256 expected digest))
        else .present actual.sizeBytes none
      -- a git blob id is not something the node can be compared against
      | _ => .present actual.sizeBytes none
    else .present actual.sizeBytes none

def inspectAllListed (files : AList fun _ : String ↦ SnapshotFile) (deep : Bool)
    (manifest : Manifest) : Tally :=
  (sorted manifest).foldl (fun t item ↦ t.add item.1 (inspectListed files deep item.1 item.2)) {}

def listingStructurally (files : AList fun _ : String ↦ SnapshotFile) (report : Report)
    (requireManifest : Bool) : Report :=
  let entries := files.entries.map Sigma.snd
  let dangling := (files.entries.filter fun e ↦ e.2.resolved = false).map Sigma.fst
  let found := entries.length - dangling.length
  let report := { report with
    evidence := .layout
    filesExpected := entries.length
    filesPresent := found
    bytesPresent := ((entries.filter SnapshotFile.resolved).map SnapshotFile.sizeBytes).sum
    dangling := (dangling.mergeSort fun a b ↦ decide (a ≤ b)).take maxReportedPaths
    danglingCount := dangling.length }
  if dangling ≠ [] then
    { report with state := .partially, reason := describe 0 dangling.length 0 }
  else if entries = [] then
    { report with state := .absent, reason := "the snapshot directory is empty" }
  else if requireManifest then
    { report with state := .partially, reason := "no manifest to check the copy against" }
  else
    { report with
      state := .verified
      reason := s!"{found} file(s) present, with no manifest to check them against" }

/-- Decide the same three states from a listing rather than from disk. -/
def verifyListing (fnmatch : String → String → Bool) (files : List SnapshotFile)
    (commit : Option String) (present : Bool) (manifest : Option Manifest)
    (deep requireManifest : Bool) (allowPatterns : Option (List String)) : Report :=
  if present = false then
    let reason := match truthy commit with
      | some commit => s!"no snapshot for revision {commit}"
      | none => "no snapshot"
    { state := .absent, reason, revision := commit }
  else
    let report : Report := { state := .partially, reason := "", revision := commit }
    match manifest with
    | none => listingStructurally (byPath files) report requireManifest
    | some manifest =>
      let (manifest, report) := applyFilter fnmatch manifest allowPatterns report
      conclude manifest commit deep (inspectAllListed (byPath files) deep manifest) report

/-- The verdict on a cache entry from the listing an agent makes of it: the listing asked for is that
of the commit the revision resolves to, and the manifest and the filter are those of that commit. -/
def verifyListed (fnmatch : String → String → Bool) (H : Hashes β) (repo : Option (Repo β))
    (revision : Option String) (deep requireManifest : Bool) : Report :=
  let commit := repo.bind fun repo ↦ resolveCommit repo revision
  let listing := listSnapshot H repo (commit.getD "") deep
  verifyListing fnmatch listing.files (some listing.revision) listing.present
    (repo.bind fun repo ↦ commit.bind repo.readManifest) deep requireManifest
    (repo.bind fun repo ↦ commit.bind (markerPatterns repo.marker))

end SparkPulse.HubCache
