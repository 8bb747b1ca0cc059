import SparkPulse.HubCache.Agreement

/-!
# What a verified snapshot holds

`read_manifest` keeps the entries of `trees/<commit>.json` that are mappings, and forgets the names
of the others; a path is looked at by its size, which a directory has as well; and a listing is
compared with the digests that the node could compute. Where none of this matters, and only there, a
verdict of both verifiers that a snapshot is verified means that it is complete.
-/

namespace SparkPulse.HubCache

variable {β : Type}

/-! ## The manifest as it is written -/

/-- The items of `files` in `trees/<commit>.json`: an entry, or a value that is no mapping. -/
abbrev Named := List (String × Option ManifestEntry)

/-- What is at `trees/<commit>.json`, as it is written. -/
inductive TreesJson
  | absent
  | unreadable (why : Unreadable)
  | invalid
  | files (named : Named)

/-- The entries of a manifest that are mappings. -/
def entries (named : Named) : Manifest :=
  named.filterMap fun item ↦ item.2.map fun entry ↦ (item.1, entry)

theorem mem_entries {named : Named} {path : String} {entry : ManifestEntry} :
    (path, entry) ∈ entries named ↔ (path, some entry) ∈ named := by
  rw [entries, List.mem_filterMap]
  constructor
  · rintro ⟨⟨path', entry'⟩, hmem, heq⟩
    obtain ⟨e, rfl, hitem⟩ := Option.map_eq_some_iff.mp heq
    cases hitem
    exact hmem
  · exact fun hmem ↦ ⟨_, hmem, rfl⟩

/-- `read_manifest` -/
def TreesJson.read : TreesJson → TreesFile
  | absent => .absent
  | unreadable why => .unreadable why
  | invalid => .invalid
  | files named => .files (entries named)

/-- The manifest of one commit, when there is one that can be read. -/
def TreesJson.manifest? : TreesJson → Option Manifest
  | files named => some (entries named)
  | _ => none

/-- A cache entry whose `trees/` is written like this. -/
def Repo.withTrees (repo : Repo β) (json : String → TreesJson) : Repo β :=
  { repo with trees := fun commit ↦ (json commit).read }

theorem readManifest_withTrees (repo : Repo β) (json : String → TreesJson) (commit : String) :
    (repo.withTrees json).readManifest commit = (json commit).manifest? := by
  have htrees : (repo.withTrees json).trees commit = (json commit).read := rfl
  rw [Repo.readManifest, htrees]
  cases json commit <;> rfl

theorem TreesJson.eq_files {trees : TreesJson} {manifest : Manifest}
    (h : trees.manifest? = some manifest) : ∃ named, trees = files named ∧ entries named = manifest := by
  rcases trees with _ | why | _ | named
  · cases h
  · cases h
  · cases h
  · exact ⟨named, rfl, Option.some.inj h⟩

/-! ## The listing of a node that may not hash every file -/

/-- The files an agent lists of a snapshot, where it could hash these. -/
def Snapshot.listing (H : Hashes β) (hashed : String → Bool) (snapshot : Snapshot β) :
    List SnapshotFile :=
  ((snapshot.tree.walk H true []).map fun f ↦
    { f with sha256 := if hashed f.path then f.sha256 else "" }).mergeSort
      fun a b ↦ decide (a.path ≤ b.path)

theorem walk_eq_map (H : Hashes β) (deep : Bool) (t : Tree β) (above : List String) :
    t.walk H deep above = (t.walk H true above).map fun f ↦
      { f with sha256 := if deep then f.sha256 else "" } := by
  induction t generalizing above with
  | nil => rfl
  | file name linked content rest ih =>
    rw [Tree.walk, Tree.walk, List.map_cons, ← ih]
    rfl
  | dangling name rest ih =>
    rw [Tree.walk, Tree.walk, List.map_cons, ← ih]
    cases deep <;> rfl
  | dir name linked size children rest ihc ih =>
    rw [Tree.walk, Tree.walk, List.map_append, ← ihc, ← ih]

/-- When every file can be read, the listing is that of the request's depth. -/
theorem listing_of_readable (H : Hashes β) (deep : Bool) (snapshot : Snapshot β) :
    snapshot.listing H (fun _ ↦ deep) =
      (snapshot.tree.walk H deep []).mergeSort fun a b ↦ decide (a.path ≤ b.path) := by
  rw [Snapshot.listing, walk_eq_map H deep]

/-! ## Completeness -/

section

variable (fnmatch : String → String → Bool)

/-- The filter admits a path; one that admits no entry is not applied. -/
def Admits (allowPatterns : Option (List String)) (manifest : Manifest) (path : String) : Prop :=
  ∀ patterns ∈ allowPatterns.filter (· ≠ []), filterManifest fnmatch manifest patterns ≠ [] →
    patterns.any (fnmatch path) = true

theorem mem_admitted {manifest : Manifest} {allowPatterns : Option (List String)}
    {item : String × ManifestEntry} :
    item ∈ admitted fnmatch manifest allowPatterns ↔
      item ∈ manifest ∧ Admits fnmatch allowPatterns manifest item.1 := by
  rw [admitted, Admits]
  rcases allowPatterns.filter (· ≠ []) with _ | patterns
  · exact (and_iff_left fun _ h ↦ by cases h).symm
  · dsimp only
    split_ifs with hempty
    · refine (and_iff_left fun patterns' h hne ↦ ?_).symm
      obtain rfl := Option.some.inj h
      exact absurd hempty hne
    · rw [filterManifest, List.mem_filter]
      refine and_congr_right fun _ ↦ ⟨fun h patterns' heq _ ↦ ?_, fun h ↦ h patterns rfl hempty⟩
      obtain rfl := Option.some.inj heq
      exact h

variable (H : Hashes β) (snapshot : Snapshot β) (hashed : String → Bool)

/-- A file is there in full: its path from the snapshot leads to bytes, of the size of the manifest,
and as evidence of hashes their digest is the published one, where the hub published one. -/
def Whole (evidence : Evidence) (path : String) (entry : Option ManifestEntry) : Prop :=
  ∃ content, snapshot.probe path = some (.file content) ∧ ∀ e ∈ entry,
    (H.size content : Int) = e.expectedSize ∧
      (evidence = .hashes → ∀ digest, truthy e.lfsSha256 = some digest →
        hashed path = true ∧ H.sha256 content = digest.toLower)

/-- Every file that the manifest names and the filter admits is there in full. -/
def Complete (evidence : Evidence) (named : Named) (allowPatterns : Option (List String)) : Prop :=
  ∀ item ∈ named, Admits fnmatch allowPatterns (entries named) item.1 →
    Whole H snapshot hashed evidence item.1 item.2

/-- What a verifier needs to be told, of the names that the filter admits. -/
structure Checkable (deep : Bool) (named : Named) (allowPatterns : Option (List String)) : Prop where
  /-- One whose entry is no mapping is that of a file all the same. -/
  mapped : ∀ path, (path, none) ∈ named → Admits fnmatch allowPatterns (entries named) path →
    ∃ content, snapshot.probe path = some (.file content)
  /-- No other leads to a directory of just the expected size. -/
  noDirectory : ∀ path entry, (path, some entry) ∈ named →
    Admits fnmatch allowPatterns (entries named) path →
      ∀ size, snapshot.probe path = some (.directory size) → (size : Int) ≠ entry.expectedSize
  /-- At full depth, those with an LFS digest could be hashed. -/
  digests : deep = true → ∀ path entry, (path, some entry) ∈ named →
    Admits fnmatch allowPatterns (entries named) path →
      ∀ digest, truthy entry.lfsSha256 = some digest → hashed path = true

/-- What a look at an entry that found nothing wrong has seen: bytes of its size, and of its SHA-256
where there was one to compare, or a directory of that size. -/
def Passed (deep : Bool) (path : String) (entry : ManifestEntry) : Prop :=
  (∃ content, snapshot.probe path = some (.file content) ∧
    (H.size content : Int) = entry.expectedSize ∧ (deep = true → ∀ expected,
      entry.expectedHash = some (.sha256, expected) → hashed path = true →
        H.sha256 content = expected)) ∨
  ∃ size : Nat, snapshot.probe path = some (.directory size) ∧ (size : Int) = entry.expectedSize

end

section

variable {fnmatch : String → String → Bool} {H : Hashes β} {snapshot : Snapshot β}
  {hashed : String → Bool} {deep : Bool} {path : String} {entry : ManifestEntry}

theorem expectedHash_of_lfs {digest : String} (h : truthy entry.lfsSha256 = some digest) :
    entry.expectedHash = some (.sha256, digest.toLower) := by
  rw [ManifestEntry.expectedHash, h]

/-- Once every entry has passed, completeness is what the verifier was not told. -/
theorem complete_iff_of_passed {named : Named} {allowPatterns : Option (List String)}
    {evidence : Evidence} (hdeep : evidence = .hashes ↔ deep = true)
    (h : ∀ item ∈ admitted fnmatch (entries named) allowPatterns,
      Passed H snapshot hashed deep item.1 item.2) :
    Complete fnmatch H snapshot hashed evidence named allowPatterns ↔
      Checkable fnmatch snapshot hashed deep named allowPatterns := by
  constructor
  · intro hcomplete
    refine ⟨fun path hmem hadmits ↦ ?_, fun path entry hmem hadmits size hsize _ ↦ ?_,
      fun hd path entry hmem hadmits digest hdigest ↦ ?_⟩
    · obtain ⟨content, hfile, -⟩ := hcomplete _ hmem hadmits
      exact ⟨content, hfile⟩
    · obtain ⟨content, hfile, -⟩ := hcomplete _ hmem hadmits
      cases hfile.symm.trans hsize
    · obtain ⟨content, -, hentry⟩ := hcomplete _ hmem hadmits
      exact ((hentry entry rfl).2 (hdeep.mpr hd) digest hdigest).1
  · rintro hcheckable ⟨path, _ | entry⟩ hmem hadmits
    · obtain ⟨content, hfile⟩ := hcheckable.mapped path hmem hadmits
      exact ⟨content, hfile, nofun⟩
    · rcases h (path, entry) ((mem_admitted fnmatch).mpr ⟨mem_entries.mpr hmem, hadmits⟩) with
        ⟨content, hfile, hsize, hhash⟩ | ⟨size, hfile, hsize⟩
      · refine ⟨content, hfile, fun e he ↦ ?_⟩
        obtain rfl := Option.some.inj he
        refine ⟨hsize, fun hevidence digest hdigest ↦ ?_⟩
        have hhashed := hcheckable.digests (hdeep.mp hevidence) path entry hmem hadmits digest hdigest
        exact ⟨hhashed,
          hhash (hdeep.mp hevidence) _ (expectedHash_of_lfs hdigest) hhashed⟩
      · exact absurd hsize (hcheckable.noDirectory path entry hmem hadmits size hfile)

/-! ## What the verifiers look at -/

theorem passed_of_inspect {finding : Finding}
    (h : inspect H snapshot deep path entry = .ok finding) (hclean : finding.clean = true) :
    Passed H snapshot (fun _ ↦ true) deep path entry := by
  rcases hprobe : snapshot.probe path with _ | content | _ | size
  · rw [inspect, hprobe] at h
    cases h
    cases hclean
  · obtain ⟨finding', hfinding, hiff⟩ := inspect_file H deep entry hprobe
    cases hfinding.symm.trans h
    obtain ⟨hsize, hhash⟩ := hiff.mp hclean
    exact .inl ⟨content, hprobe, hsize, fun hdeep expected heq _ ↦ hhash hdeep .sha256 expected heq⟩
  · rw [inspect, hprobe] at h
    cases h
    cases hclean
  · refine .inr ⟨size, hprobe, ?_⟩
    rw [inspect, hprobe] at h
    dsimp only at h
    by_contra hsize
    rw [if_pos hsize] at h
    cases h
    cases hclean

/-- What the dictionary of a listing has at a path is what the path leads to. -/
theorem find_of_listing {f : SnapshotFile}
    (h : (byPath (snapshot.listing H hashed)).lookup path = some f) :
    ∃ found, snapshot.probe path = some found ∧ ∃ g : SnapshotFile, g.Shows H true found ∧
      f = { g with sha256 := if hashed path then g.sha256 else "" } := by
  obtain ⟨hmem, rfl⟩ := mem_of_lookup_byPath h
  obtain ⟨g, hg, rfl⟩ := List.mem_map.mp (List.mem_mergeSort.mp hmem)
  obtain ⟨ns, found, hfind, hpath, hshows⟩ := Tree.find_of_mem_walk snapshot.wf hg
  have hnames := Tree.isName_of_find snapshot.wf hfind
  have hsplit : splitPath g.path = ns := by
    rw [hpath, List.nil_append, splitPath_joinPath (Tree.find_ne_nil hfind) hnames]
  refine ⟨found, ?_, g, hshows, rfl⟩
  have hplain : Plain g.path := by rwa [Plain, hsplit]
  rw [Snapshot.probe, if_pos hplain, hsplit, hfind]

theorem passed_of_inspectListed
    (h : (inspectListed (byPath (snapshot.listing H hashed)) deep path entry).clean = true) :
    Passed H snapshot hashed deep path entry := by
  rcases hlookup : (byPath (snapshot.listing H hashed)).lookup path with _ | f
  · rw [inspectListed, hlookup] at h
    cases h
  have hresolved : f.resolved = true := by
    by_contra hnot
    rw [inspectListed, hlookup] at h
    dsimp only at h
    rw [if_pos (Bool.eq_false_iff.mpr hnot)] at h
    cases h
  obtain ⟨hsize, hhash⟩ := (inspectListed_file entry hlookup hresolved).mp h
  obtain ⟨content | _ | size, hprobe, g, hshows, rfl⟩ := find_of_listing hlookup
  · obtain ⟨-, hgsize, hsha⟩ := hshows
    rw [if_pos rfl] at hsha
    refine .inl ⟨content, hprobe, hgsize ▸ hsize, fun hdeep expected heq hhashed ↦ ?_⟩
    have hdigest := hhash hdeep expected heq
    dsimp only at hdigest
    rw [if_pos hhashed, hsha, H.sha256_lower] at hdigest
    exact hdigest (H.sha256_ne_empty content)
  · have hdangling : g.resolved = false := hshows
    rw [hdangling] at hresolved
    cases hresolved
  · exact hshows.elim

/-! ## The loops -/

theorem foldl_add_clean (f : String × ManifestEntry → Finding) (items : Manifest) (t : Tally) :
    (items.foldl (fun t item ↦ t.add item.1 (f item)) t).clean =
      (t.clean && items.all fun item ↦ (f item).clean) := by
  induction items generalizing t with
  | nil => rw [List.foldl_nil, List.all_nil, Bool.and_true]
  | cons item items ih => rw [List.foldl_cons, ih, clean_add, List.all_cons, Bool.and_assoc]

theorem clean_of_foldlM (f : String × ManifestEntry → Except String Finding) {items : Manifest}
    {t t' : Tally} (h : items.foldlM (fun t item ↦ (f item).map (t.add item.1)) t = .ok t')
    (hclean : t'.clean = true) :
    t.clean = true ∧ ∀ item ∈ items, ∃ finding, f item = .ok finding ∧ finding.clean = true := by
  induction items generalizing t with
  | nil =>
    cases h
    exact ⟨hclean, nofun⟩
  | cons item items ih =>
    rw [List.foldlM_cons] at h
    rcases hitem : f item with e | finding
    · rw [hitem] at h
      cases h
    · rw [hitem] at h
      obtain ⟨hadd, hitems⟩ := ih h
      rw [clean_add, Bool.and_eq_true] at hadd
      refine ⟨hadd.1, fun item' hmem ↦ ?_⟩
      rcases List.mem_cons.mp hmem with rfl | hmem
      · exact ⟨finding, hitem, hadd.2⟩
      · exact hitems item' hmem

theorem passed_of_inspectAll {manifest : Manifest} {t : Tally}
    (h : inspectAll H snapshot deep manifest = .ok t) (hclean : t.clean = true) :
    ∀ item ∈ manifest, Passed H snapshot (fun _ ↦ true) deep item.1 item.2 := by
  intro item hmem
  obtain ⟨finding, hfinding, hfinding'⟩ :=
    (clean_of_foldlM _ h hclean).2 item (List.mem_mergeSort.mpr hmem)
  exact passed_of_inspect hfinding hfinding'

theorem passed_of_inspectAllListed {manifest : Manifest}
    (h : (inspectAllListed (byPath (snapshot.listing H hashed)) deep manifest).clean = true) :
    ∀ item ∈ manifest, Passed H snapshot hashed deep item.1 item.2 := by
  intro item hmem
  rw [inspectAllListed, foldl_add_clean, Bool.and_eq_true, List.all_eq_true] at h
  exact passed_of_inspectListed (h.2 item (List.mem_mergeSort.mpr hmem))

theorem clean_of_conclude {manifest : Manifest} {commit : Option String} {t : Tally}
    {report : Report} (h : (conclude manifest commit deep t report).state = .verified) :
    t.clean = true := by
  rw [conclude_state] at h
  by_contra hnot
  rw [if_neg hnot] at h
  cases h

theorem conclude_kept (manifest : Manifest) (commit : Option String) (deep : Bool) (t : Tally)
    (report : Report) :
    (conclude manifest commit deep t report).revision = report.revision ∧
      ((conclude manifest commit deep t report).evidence = .hashes ↔ deep = true) := by
  rcases deep <;> rcases hclean : t.clean <;> simp [conclude, hclean]

theorem applyFilter_revision (manifest : Manifest) (allowPatterns : Option (List String))
    (report : Report) :
    (applyFilter fnmatch manifest allowPatterns report).2.revision = report.revision := by
  rw [applyFilter]
  rcases allowPatterns.filter (· ≠ []) with _ | patterns
  · rfl
  · dsimp only
    split_ifs <;> rfl

theorem passed_of_verifyAgainstManifest {manifest : Manifest} {commit : String}
    {allowPatterns : Option (List String)} {report verdict : Report}
    (h : verifyAgainstManifest fnmatch H manifest snapshot commit deep allowPatterns report =
      .ok verdict) (hverified : verdict.state = .verified) :
    verdict.revision = report.revision ∧ (verdict.evidence = .hashes ↔ deep = true) ∧
      ∀ item ∈ admitted fnmatch manifest allowPatterns,
        Passed H snapshot (fun _ ↦ true) deep item.1 item.2 := by
  rw [verifyAgainstManifest] at h
  dsimp only at h
  rw [applyFilter_fst] at h
  rcases hall : inspectAll H snapshot deep (admitted fnmatch manifest allowPatterns) with e | t
  · rw [hall] at h
    cases h
  rw [hall] at h
  obtain rfl := Except.ok.inj h
  obtain ⟨hrevision, hevidence⟩ := conclude_kept (admitted fnmatch manifest allowPatterns)
    (some commit) deep t (applyFilter fnmatch manifest allowPatterns report).2
  exact ⟨hrevision.trans (applyFilter_revision ..), hevidence,
    passed_of_inspectAll hall (clean_of_conclude hverified)⟩

/-! ## The verdicts -/

/-- A snapshot verified on the tree. -/
theorem complete_of_verifySnapshot {repo : Repo β} {json : String → TreesJson}
    {revision : Option String} {report : Report}
    (h : verifySnapshot fnmatch H (some (repo.withTrees json)) revision deep true = .ok report)
    (hverified : report.state = .verified) :
    ∃ commit snapshot named, report.revision = some commit ∧
      repo.snapshots.lookup commit = some snapshot ∧ json commit = .files named ∧
        (Complete fnmatch H snapshot (fun _ ↦ true) report.evidence named
            (markerPatterns repo.marker commit) ↔
          Checkable fnmatch snapshot (fun _ ↦ true) deep named
            (markerPatterns repo.marker commit)) := by
  rw [verifySnapshot] at h
  dsimp only at h
  rcases hcommit : resolveCommit (repo.withTrees json) revision with _ | commit
  · rw [hcommit] at h
    cases h
    cases hverified
  rw [hcommit] at h
  dsimp only at h
  rcases hsnapshot : (repo.withTrees json).snapshots.lookup commit with _ | snapshot
  · rw [hsnapshot] at h
    cases h
    cases hverified
  rw [hsnapshot, readManifest_withTrees] at h
  rcases hmanifest : (json commit).manifest? with _ | manifest
  · rw [hmanifest] at h
    cases h
    cases hverified
  obtain ⟨named, hnamed, rfl⟩ := TreesJson.eq_files hmanifest
  rw [hmanifest] at h
  obtain ⟨hrevision, hevidence, hpassed⟩ := passed_of_verifyAgainstManifest h hverified
  exact ⟨commit, snapshot, named, hrevision, hsnapshot, hnamed,
    complete_iff_of_passed hevidence hpassed⟩

theorem listingStructurally_required (files : AList fun _ : String ↦ SnapshotFile)
    (report : Report) : (listingStructurally files report true).state ≠ .verified := by
  intro h
  rw [listingStructurally, if_pos rfl] at h
  dsimp only at h
  split_ifs at h

/-- The verdict on a listing, with a manifest. -/
theorem verifyListing_state (files : List SnapshotFile) (commit : Option String)
    (manifest : Manifest) (requireManifest : Bool) (allowPatterns : Option (List String)) :
    (verifyListing fnmatch files commit true (some manifest) deep requireManifest
      allowPatterns).state =
        if (inspectAllListed (byPath files) deep (admitted fnmatch manifest allowPatterns)).clean then
          .verified else .partially := by
  rw [verifyListing, if_neg Bool.noConfusion]
  dsimp only
  rw [applyFilter_fst]
  exact conclude_state ..

/-- A snapshot verified from the listing of a node. -/
theorem complete_of_verifyListing {trees : TreesJson} {commit : Option String} {present : Bool}
    {allowPatterns : Option (List String)}
    (hverified : (verifyListing fnmatch (snapshot.listing H hashed) commit present trees.manifest?
      deep true allowPatterns).state = .verified) :
    ∃ named, trees = .files named ∧
      (Complete fnmatch H snapshot hashed
          (verifyListing fnmatch (snapshot.listing H hashed) commit present trees.manifest? deep true
            allowPatterns).evidence named allowPatterns ↔
        Checkable fnmatch snapshot hashed deep named allowPatterns) := by
  rw [verifyListing] at hverified ⊢
  by_cases hpresent : present = false
  · rw [if_pos hpresent] at hverified
    cases hverified
  rw [if_neg hpresent] at hverified ⊢
  rcases hmanifest : trees.manifest? with _ | manifest
  · rw [hmanifest] at hverified
    exact (listingStructurally_required _ _ hverified).elim
  obtain ⟨named, hnamed, rfl⟩ := TreesJson.eq_files hmanifest
  rw [hmanifest] at hverified
  dsimp only at hverified ⊢
  rw [applyFilter_fst] at hverified ⊢
  exact ⟨named, hnamed, complete_iff_of_passed (conclude_kept ..).2
    (passed_of_inspectAllListed (clean_of_conclude hverified))⟩

end

/-! ## One file, and what is verified of it -/

private def jsonDigest (b : Bool) : String :=
  if b then "44136fa355b3678a1146ad16f7e8649e94fb4fc21fe77e8310c060f61caaff8a"
  else "4f53cda18c2baa0c0354bb5f9a3ecbe5ed12ab4d8e11ba873c2f11161202b945"

private theorem jsonDigest_lower (b : Bool) : (jsonDigest b).toLower = jsonDigest b := by
  cases b <;> decide +kernel

private theorem jsonDigest_ne (b : Bool) : jsonDigest b ≠ "" := by
  cases b <;> decide +kernel

/-- The two bytes of an empty object (`true`) or of an empty list (`false`). -/
private def jsonHashes : Hashes Bool where
  size _ := 2
  sha256 := jsonDigest
  gitSha1 b := if b then "9e26dfeeb6e641a33dae4961196235bdb965b21b"
    else "0637a088a01e8ddab3bf3fa98dbe804cbde1a0dc"
  sha256_lower := jsonDigest_lower
  sha256_ne_empty := jsonDigest_ne

private theorem oneFile_wf (content : Bool) :
    (Tree.file "config.json" false content .nil).Wf :=
  ⟨by decide +kernel, List.not_mem_nil, trivial⟩

private def oneFile (content : Bool) : Snapshot Bool where
  tree := .file "config.json" false content .nil
  wf := oneFile_wf content
  elsewhere := fun _ ↦ none

private def onlySnapshot : AList fun _ : String ↦ Snapshot Bool :=
  AList.singleton "c0ffee" (oneFile true)

private theorem onlySnapshot_named : ∀ name ∈ onlySnapshot.keys, IsName name := by
  intro name hname
  obtain rfl : name = "c0ffee" := List.mem_singleton.mp hname
  decide +kernel

private def oneFileRepo : Repo Bool where
  refs := AList.singleton "main" "c0ffee"
  snapshots := onlySnapshot
  named := onlySnapshot_named
  blobs := []
  trees _ := .absent
  marker := none

/-- The manifest of an empty object. -/
private def objectEntry : ManifestEntry := { size := some 2, lfsSha256 := some (jsonDigest true) }

private theorem probe_oneFile (content : Bool) :
    (oneFile content).probe "config.json" = some (.file content) := by
  cases content <;> decide +kernel

private theorem oneFile_checkable (hashed : String → Bool) (hhashed : hashed "config.json" = true) :
    Checkable (fun _ _ ↦ false) (oneFile true) hashed true [("config.json", some objectEntry)]
      none := by
  refine ⟨fun path hmem _ ↦ ?_, fun path entry hmem _ size hsize ↦ ?_,
    fun _ path entry hmem _ _ _ ↦ ?_⟩
  · cases List.mem_singleton.mp hmem
  · cases List.mem_singleton.mp hmem
    cases (probe_oneFile true).symm.trans hsize
  · cases List.mem_singleton.mp hmem
    exact hhashed

/-- The listing of the one file at full depth is verified when the node could hash it. -/
private theorem oneFile_verified :
    (verifyListing (fun _ _ ↦ false) ((oneFile true).listing jsonHashes fun _ ↦ true)
      (some "c0ffee") true (TreesJson.files [("config.json", some objectEntry)]).manifest? true true
      none).state = .verified := by
  have hsorted : sorted [("config.json", objectEntry)] = [("config.json", objectEntry)] :=
    List.mergeSort_singleton _
  have hlookup : (byPath ((oneFile true).listing jsonHashes fun _ ↦ true)).lookup "config.json" =
      some ⟨"config.json", 2, jsonDigest true, false, true⟩ := by decide +kernel
  have hclean : (inspectAllListed (byPath ((oneFile true).listing jsonHashes fun _ ↦ true)) true
      [("config.json", objectEntry)]).clean = true := by
    rw [inspectAllListed, foldl_add_clean, hsorted, List.all_cons, List.all_nil, Bool.and_true,
      (inspectListed_file objectEntry hlookup rfl).mpr ⟨rfl, fun _ expected heq _ ↦ ?_⟩]
    · rfl
    · have hlfs : truthy objectEntry.lfsSha256 = some (jsonDigest true) := by decide +kernel
      rw [expectedHash_of_lfs hlfs] at heq
      exact (Prod.mk.inj (Option.some.inj heq)).2
  have hmanifest : (TreesJson.files [("config.json", some objectEntry)]).manifest? =
      some [("config.json", objectEntry)] := rfl
  rw [hmanifest, verifyListing_state]
  exact if_pos hclean

end SparkPulse.HubCache
