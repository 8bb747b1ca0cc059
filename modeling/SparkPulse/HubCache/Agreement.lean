import SparkPulse.HubCache.Verify

/-!
# The two verifiers agree

A walk of a snapshot lists exactly the files and dangling links that paths lead to, so over a
manifest both verifiers look at the same files. They differ where one of them sees more: the tree
itself has the bytes a git blob id names, the unfinished blobs and the sizes of directories; the
listing has what lies behind links to directories.
-/

namespace SparkPulse.HubCache

variable {β : Type} {H : Hashes β} {deep : Bool}

/-! ## What a walk lists -/

/-- What a listed file says of what its path leads to. -/
def SnapshotFile.Shows (H : Hashes β) (deep : Bool) (f : SnapshotFile) : Found β → Prop
  | .file content => f.resolved = true ∧ f.sizeBytes = H.size content ∧
      f.sha256 = if deep then H.sha256 content else ""
  | .dangling => f.resolved = false
  | .directory _ => False

namespace Tree

/-- What the walk lists is there. -/
theorem find_of_mem_walk {t : Tree β} (ht : t.Wf) {above : List String} {f : SnapshotFile}
    (h : f ∈ t.walk H deep above) :
    ∃ ns found, t.find ns = some found ∧ f.path = joinPath (above ++ ns) ∧ f.Shows H deep found := by
  induction t generalizing above with
  | nil => cases h
  | file name linked content rest ih =>
    rcases List.mem_cons.mp h with rfl | h
    · refine ⟨[name], .file content, ?_, rfl, rfl, rfl, rfl⟩
      rw [find, if_pos rfl, if_pos rfl]
    · obtain ⟨ns, found, hfind, hpath, hshows⟩ := ih ht.2.2 h
      obtain ⟨n, ns', rfl, hne⟩ := ne_of_find ht.2.1 hfind
      exact ⟨n :: ns', found, by rwa [find, if_neg hne], hpath, hshows⟩
  | dangling name rest ih =>
    rcases List.mem_cons.mp h with rfl | h
    · refine ⟨[name], .dangling, ?_, rfl, rfl⟩
      rw [find, if_pos rfl, if_pos rfl]
    · obtain ⟨ns, found, hfind, hpath, hshows⟩ := ih ht.2.2 h
      obtain ⟨n, ns', rfl, hne⟩ := ne_of_find ht.2.1 hfind
      exact ⟨n :: ns', found, by rwa [find, if_neg hne], hpath, hshows⟩
  | dir name linked size children rest ihc ih =>
    rcases List.mem_append.mp h with h | h
    · obtain ⟨ns, found, hfind, hpath, hshows⟩ := ihc ht.2.2.1 h
      refine ⟨name :: ns, found, ?_, by rw [hpath, List.append_assoc]; rfl, hshows⟩
      rwa [find, if_pos rfl, if_neg (find_ne_nil hfind)]
    · obtain ⟨ns, found, hfind, hpath, hshows⟩ := ih ht.2.2.2 h
      obtain ⟨n, ns', rfl, hne⟩ := ne_of_find ht.2.1 hfind
      exact ⟨n :: ns', found, by rwa [find, if_neg hne], hpath, hshows⟩

/-- What is there and is no directory is listed. -/
theorem mem_walk_of_find {t : Tree β} (above : List String) {ns : List String} {found : Found β}
    (h : t.find ns = some found) (hleaf : ∀ size, found ≠ .directory size) :
    ∃ f ∈ t.walk H deep above, f.path = joinPath (above ++ ns) ∧ f.Shows H deep found := by
  induction t generalizing above ns with
  | nil => cases ns <;> cases h
  | file name linked content rest ih =>
    obtain ⟨n, ns, rfl⟩ := List.exists_cons_of_ne_nil (find_ne_nil h)
    rw [find] at h
    split_ifs at h with hn hns
    · cases h
      exact ⟨_, List.mem_cons_self, by rw [hn, hns], rfl, rfl, rfl⟩
    · obtain ⟨f, hf, hshows⟩ := ih above h
      exact ⟨f, List.mem_cons_of_mem _ hf, hshows⟩
  | dangling name rest ih =>
    obtain ⟨n, ns, rfl⟩ := List.exists_cons_of_ne_nil (find_ne_nil h)
    rw [find] at h
    split_ifs at h with hn hns
    · cases h
      exact ⟨_, List.mem_cons_self, by rw [hn, hns], rfl⟩
    · obtain ⟨f, hf, hshows⟩ := ih above h
      exact ⟨f, List.mem_cons_of_mem _ hf, hshows⟩
  | dir name linked size children rest ihc ih =>
    obtain ⟨n, ns, rfl⟩ := List.exists_cons_of_ne_nil (find_ne_nil h)
    rw [find] at h
    split_ifs at h with hn hns
    · exact absurd (Option.some.inj h).symm (hleaf size)
    · obtain ⟨f, hf, hpath, hshows⟩ := ihc (above ++ [name]) h
      refine ⟨f, List.mem_append_left _ hf, ?_, hshows⟩
      rw [hpath, hn, List.append_assoc]
      rfl
    · obtain ⟨f, hf, hshows⟩ := ih above h
      exact ⟨f, List.mem_append_right _ hf, hshows⟩

variable (H deep) in
/-- Without links to directories both walks list the same paths. -/
theorem osWalk_eq {t : Tree β} (ht : t.NoLinkedDirs) (above : List String) :
    t.osWalk H above = (t.walk H deep above).map fun f ↦
      (f.path, if f.resolved then some f.sizeBytes else none) := by
  induction t generalizing above with
  | nil => rfl
  | file name linked content rest ih =>
    rw [osWalk, walk, List.map_cons, ih ht]
    rfl
  | dangling name rest ih =>
    rw [osWalk, walk, List.map_cons, ih ht]
    rfl
  | dir name linked size children rest ihc ih =>
    rw [osWalk, walk, List.map_append, ihc ht.2.1, ih ht.2.2, ht.1]
    rfl

end Tree

/-! ## The listing as a dictionary -/

theorem lookup_foldl_insert (files : List SnapshotFile) (d : AList fun _ : String ↦ SnapshotFile)
    (path : String) : (files.foldl (fun d f ↦ d.insert f.path f) d).lookup path =
      ((files.reverse.find? fun f ↦ f.path = path).or (d.lookup path)) := by
  induction files generalizing d with
  | nil => rfl
  | cons f files ih =>
    rw [List.foldl_cons, ih, List.reverse_cons, List.find?_append, Option.or_assoc]
    congr 1
    by_cases h : f.path = path
    · rw [h, AList.lookup_insert, List.find?_singleton, decide_eq_true h]
      rfl
    · rw [AList.lookup_insert_ne (Ne.symm h), List.find?_singleton, decide_eq_false h]
      rfl

theorem lookup_byPath (files : List SnapshotFile) (path : String) :
    (byPath files).lookup path = files.reverse.find? fun f ↦ f.path = path := by
  rw [byPath, lookup_foldl_insert, AList.lookup_empty, Option.or_none]

theorem mem_of_lookup_byPath {files : List SnapshotFile} {path : String} {f : SnapshotFile}
    (h : (byPath files).lookup path = some f) : f ∈ files ∧ f.path = path := by
  rw [lookup_byPath] at h
  have hpath := List.find?_some h
  exact ⟨List.mem_reverse.mp (List.mem_of_find?_eq_some h), of_decide_eq_true hpath⟩

theorem isSome_lookup_byPath {files : List SnapshotFile} {f : SnapshotFile} (h : f ∈ files) :
    ∃ g, (byPath files).lookup f.path = some g := by
  rw [lookup_byPath, ← Option.isSome_iff_exists, List.find?_isSome]
  exact ⟨f, List.mem_reverse.mpr h, decide_eq_true rfl⟩

/-- The listing of a snapshot, as a dictionary. -/
def Snapshot.listed (H : Hashes β) (deep : Bool) (snapshot : Snapshot β) :
    AList fun _ : String ↦ SnapshotFile :=
  byPath ((snapshot.tree.walk H deep []).mergeSort fun a b ↦ decide (a.path ≤ b.path))

/-- What the dictionary has at a path is what the path leads to. -/
theorem find_of_listed {snapshot : Snapshot β} {path : String} {f : SnapshotFile}
    (h : (snapshot.listed H deep).lookup path = some f) :
    Plain path ∧ ∃ found, snapshot.tree.find (splitPath path) = some found ∧
      f.Shows H deep found := by
  obtain ⟨hmem, rfl⟩ := mem_of_lookup_byPath h
  obtain ⟨ns, found, hfind, hpath, hshows⟩ :=
    Tree.find_of_mem_walk snapshot.wf (List.mem_mergeSort.mp hmem)
  have hnames := Tree.isName_of_find snapshot.wf hfind
  have hsplit : splitPath f.path = ns := by
    rw [hpath, List.nil_append, splitPath_joinPath (Tree.find_ne_nil hfind) hnames]
  rw [Plain, hsplit]
  exact ⟨hnames, found, hfind, hshows⟩

variable (H deep) in
/-- A path that leads to a file or to a dangling link is in the dictionary. -/
theorem listed_of_find {snapshot : Snapshot β} {path : String} {found : Found β}
    (h : snapshot.tree.find (splitPath path) = some found)
    (hleaf : ∀ size, found ≠ .directory size) :
    ∃ f, (snapshot.listed H deep).lookup path = some f ∧ f.Shows H deep found := by
  obtain ⟨f, hmem, hpath, -⟩ := Tree.mem_walk_of_find (H := H) [] h hleaf
  rw [List.nil_append, joinPath_splitPath] at hpath
  obtain ⟨g, hg⟩ := isSome_lookup_byPath (List.mem_mergeSort.mpr hmem)
  rw [hpath] at hg
  obtain ⟨-, found', hfind, hshows⟩ := find_of_listed hg
  rw [h] at hfind
  exact ⟨g, hg, Option.some.inj hfind ▸ hshows⟩

/-! ## Over a manifest -/

/-- One file of the manifest that both verifiers can tell alike: its path is spelled by names or
leads nowhere, it is no directory of just the listed size, and at full depth a file that the hub
published only a git blob id for is that blob. -/
structure Comparable (H : Hashes β) (snapshot : Snapshot β) (deep : Bool) (path : String)
    (entry : ManifestEntry) : Prop where
  plain : Plain path ∨ snapshot.probe path = none
  noDirectory : ∀ size, snapshot.probe path = some (.directory size) →
    (size : Int) ≠ entry.expectedSize
  blob : deep = true → ∀ content expected, snapshot.probe path = some (.file content) →
    entry.expectedHash = some (.gitSha1, expected) → H.gitSha1 content = expected

/-- Nothing is wrong with a file. -/
def Finding.clean : Finding → Bool
  | .present _ none => true
  | _ => false

/-- What is listed at a path that leads to no file. -/
theorem listed_eq_none {snapshot : Snapshot β} {path : String}
    (h : ∀ found, snapshot.probe path = some found → ∃ size, found = .directory size) :
    (snapshot.listed H deep).lookup path = none := by
  rw [← Option.not_isSome_iff_eq_none, Option.isSome_iff_exists]
  rintro ⟨f, hf⟩
  obtain ⟨hplain, found, hfind, hshows⟩ := find_of_listed hf
  obtain ⟨size, rfl⟩ := h found (by rw [Snapshot.probe, if_pos hplain, hfind])
  exact hshows

variable (H deep) in
/-- A file on the tree is right when its size is, and at full depth its published digest. -/
theorem inspect_file {snapshot : Snapshot β} {path : String} (entry : ManifestEntry) {content : β}
    (h : snapshot.probe path = some (.file content)) :
    ∃ finding, inspect H snapshot deep path entry = .ok finding ∧ (finding.clean = true ↔
      (H.size content : Int) = entry.expectedSize ∧ (deep = true → ∀ algorithm expected,
        entry.expectedHash = some (algorithm, expected) → (match algorithm with
          | .sha256 => H.sha256 content
          | .gitSha1 => H.gitSha1 content) = expected)) := by
  rw [inspect, h]
  dsimp only
  by_cases hsize : (H.size content : Int) = entry.expectedSize
  swap
  · rw [if_pos hsize]
    exact ⟨_, rfl, nofun, fun h ↦ absurd h.1 hsize⟩
  rw [if_neg (not_not_intro hsize)]
  cases deep with
  | false => exact ⟨_, rfl, fun _ ↦ ⟨hsize, nofun⟩, fun _ ↦ rfl⟩
  | true =>
    rw [if_pos rfl]
    rcases entry.expectedHash with _ | ⟨algorithm, expected⟩
    · exact ⟨_, rfl, fun _ ↦ ⟨hsize, nofun⟩, fun _ ↦ rfl⟩
    · dsimp only
      split_ifs with hactual
      · refine ⟨_, rfl, nofun, fun h ↦ absurd (h.2 rfl algorithm expected rfl) hactual⟩
      · refine ⟨_, rfl, fun _ ↦ ⟨hsize, ?_⟩, fun _ ↦ rfl⟩
        rintro - algorithm' expected' heq
        obtain ⟨rfl, rfl⟩ := Prod.mk.inj (Option.some.inj heq)
        exact not_not.mp hactual

/-- A listed file is right when its size is, and at full depth its SHA-256 if the hub published one
and the node has one. -/
theorem inspectListed_file {files : AList fun _ : String ↦ SnapshotFile} {path : String}
    (entry : ManifestEntry) {f : SnapshotFile} (h : files.lookup path = some f)
    (hresolved : f.resolved = true) :
    (inspectListed files deep path entry).clean = true ↔
      (f.sizeBytes : Int) = entry.expectedSize ∧ (deep = true → ∀ expected,
        entry.expectedHash = some (.sha256, expected) → f.sha256 ≠ "" →
          f.sha256.toLower = expected) := by
  rw [inspectListed, h]
  dsimp only
  rw [if_neg (by rw [hresolved]; exact Bool.noConfusion)]
  by_cases hsize : (f.sizeBytes : Int) = entry.expectedSize
  swap
  · rw [if_pos hsize]
    exact ⟨nofun, fun h ↦ absurd h.1 hsize⟩
  rw [if_neg (not_not_intro hsize)]
  cases deep with
  | false => exact ⟨fun _ ↦ ⟨hsize, nofun⟩, fun _ ↦ rfl⟩
  | true =>
    rw [if_pos rfl]
    rcases entry.expectedHash with _ | ⟨_ | _, expected⟩
    · exact ⟨fun _ ↦ ⟨hsize, nofun⟩, fun _ ↦ rfl⟩
    · dsimp only
      split_ifs with hdigest
      · exact ⟨nofun, fun h ↦ absurd (h.2 rfl expected rfl hdigest.1) hdigest.2⟩
      · refine ⟨fun _ ↦ ⟨hsize, ?_⟩, fun _ ↦ rfl⟩
        rintro - expected' heq hne
        obtain rfl := (Prod.mk.inj (Option.some.inj heq)).2
        exact not_not.mp fun hdiffer ↦ hdigest ⟨hne, hdiffer⟩
    · exact ⟨fun _ ↦ ⟨hsize, nofun⟩, fun _ ↦ rfl⟩

/-- **One file of the manifest.** -/
theorem inspect_clean {snapshot : Snapshot β} {path : String} {entry : ManifestEntry}
    (h : Comparable H snapshot deep path entry) :
    ∃ finding, inspect H snapshot deep path entry = .ok finding ∧
      finding.clean = (inspectListed (snapshot.listed H deep) deep path entry).clean := by
  rcases hprobe : snapshot.probe path with _ | content | _ | size
  · refine ⟨.missing, by rw [inspect, hprobe], ?_⟩
    rw [inspectListed, listed_eq_none fun found hfound ↦ by rw [hprobe] at hfound; cases hfound]
  all_goals
    have hplain : Plain path := h.plain.resolve_right (by rw [hprobe]; exact Option.some_ne_none _)
    have hfind := hprobe
    rw [Snapshot.probe, if_pos hplain] at hfind
  · obtain ⟨f, hf, hresolved, hsize, hsha⟩ := listed_of_find H deep hfind nofun
    obtain ⟨finding, hfinding, hclean⟩ := inspect_file H deep entry hprobe
    refine ⟨finding, hfinding, Bool.eq_iff_iff.mpr (hclean.trans ?_)⟩
    rw [inspectListed_file entry hf hresolved, hsize]
    refine and_congr_right fun _ ↦ forall_congr' fun hdeep ↦ ?_
    rw [if_pos hdeep] at hsha
    rw [hsha]
    constructor
    · intro hall expected heq _
      rw [H.sha256_lower]
      exact hall .sha256 expected heq
    · rintro hall (_ | _) expected heq
      · exact (H.sha256_lower content).symm.trans (hall expected heq (H.sha256_ne_empty content))
      · exact h.blob hdeep content expected hprobe heq
  · obtain ⟨f, hf, hresolved⟩ := listed_of_find H deep hfind nofun
    refine ⟨.dangling, by rw [inspect, hprobe], ?_⟩
    have hdangling : f.resolved = false := hresolved
    rw [inspectListed, hf]
    dsimp only
    rw [if_pos hdangling]
  · have hnone : (snapshot.listed H deep).lookup path = none := by
      refine listed_eq_none fun found hfound ↦ ⟨size, ?_⟩
      rw [hprobe] at hfound
      exact (Option.some.inj hfound).symm
    refine ⟨_, by rw [inspect, hprobe]; exact if_pos (h.noDirectory size hprobe), ?_⟩
    rw [inspectListed, hnone]
    rfl

theorem clean_add (t : Tally) (path : String) (finding : Finding) :
    (t.add path finding).clean = (t.clean && finding.clean) := by
  rcases finding with _ | _ | ⟨size, _ | mismatch⟩ <;>
    simp [Tally.add, Tally.clean, Finding.clean, List.isEmpty_iff]

/-- The two loops over a manifest whose files can all be told alike. -/
theorem inspectAll_clean {snapshot : Snapshot β} {manifest : Manifest}
    (h : ∀ item ∈ manifest, Comparable H snapshot deep item.1 item.2) :
    ∃ t, inspectAll H snapshot deep manifest = .ok t ∧
      t.clean = (inspectAllListed (snapshot.listed H deep) deep manifest).clean := by
  have hloop : ∀ (items : Manifest), (∀ item ∈ items, Comparable H snapshot deep item.1 item.2) →
      ∀ t₀ t₀' : Tally, t₀.clean = t₀'.clean → ∃ t : Tally,
        items.foldlM (fun t item ↦ (inspect H snapshot deep item.1 item.2).map (t.add item.1)) t₀ =
          (.ok t : Except String Tally) ∧
        t.clean = (items.foldl (fun t item ↦ t.add item.1
          (inspectListed (snapshot.listed H deep) deep item.1 item.2)) t₀').clean := by
    intro items hitems
    induction items with
    | nil => exact fun t₀ t₀' heq ↦ ⟨t₀, rfl, heq⟩
    | cons item items ih =>
      intro t₀ t₀' heq
      obtain ⟨finding, hfinding, hclean⟩ := inspect_clean (hitems item List.mem_cons_self)
      rw [List.foldlM_cons, hfinding, List.foldl_cons]
      refine ih (fun item' hmem ↦ hitems item' (List.mem_cons_of_mem _ hmem)) _ _ ?_
      rw [clean_add, clean_add, heq, hclean]
  exact hloop (sorted manifest) (fun item hmem ↦ h item (List.mem_mergeSort.mp hmem)) {} {} rfl

theorem conclude_state (manifest : Manifest) (commit : Option String) (deep : Bool) (t : Tally)
    (report : Report) :
    (conclude manifest commit deep t report).state = if t.clean then .verified else .partially := by
  rw [conclude]
  split_ifs <;> rfl

/-- The files of the manifest that a filter admits. -/
def admitted (fnmatch : String → String → Bool) (manifest : Manifest)
    (allowPatterns : Option (List String)) : Manifest :=
  match allowPatterns.filter (· ≠ []) with
  | none => manifest
  | some patterns =>
    if filterManifest fnmatch manifest patterns = [] then manifest
    else filterManifest fnmatch manifest patterns

theorem applyFilter_fst (fnmatch : String → String → Bool) (manifest : Manifest)
    (allowPatterns : Option (List String)) (report : Report) :
    (applyFilter fnmatch manifest allowPatterns report).1 =
      admitted fnmatch manifest allowPatterns := by
  rw [applyFilter, admitted]
  rcases allowPatterns.filter (· ≠ []) with _ | patterns
  · rfl
  · dsimp only
    split_ifs <;> rfl

/-! ## Without a manifest -/

/-- A snapshot without a manifest that both verifiers can tell alike: no link leads to a directory,
something is in it, and what only the tree shows, unfinished blobs or a manifest that cannot be
read, is not there or decides nothing. -/
structure ComparableLayout (H : Hashes β) (repo : Repo β) (snapshot : Snapshot β) (commit : String)
    (requireManifest : Bool) : Prop where
  noLinkedDirs : snapshot.tree.NoLinkedDirs
  nonempty : snapshot.tree.osWalk H [] ≠ []
  decided : requireManifest = true ∨ (∃ f ∈ snapshot.tree.osWalk H [], f.2 = none) ∨
    repo.incompleteBlobs = [] ∧ repo.manifestUnreadable commit = none

variable (H deep) in
/-- The dictionary of a listing has a file exactly when the walk lists one. -/
theorem entries_listed (snapshot : Snapshot β) (p : SnapshotFile → Prop)
    (hp : ∀ f g found, f.Shows H deep found → g.Shows H deep found → p f → p g) :
    (∃ e ∈ (snapshot.listed H deep).entries, p e.2) ↔ ∃ f ∈ snapshot.tree.walk H deep [], p f := by
  constructor
  · rintro ⟨⟨path, f⟩, he, hf⟩
    have hlookup := AList.mem_lookup_iff.mpr he
    obtain ⟨hmem, -⟩ := mem_of_lookup_byPath hlookup
    exact ⟨f, List.mem_mergeSort.mp hmem, hf⟩
  · rintro ⟨f, hmem, hf⟩
    obtain ⟨ns, found, hfind, hpath, hshows⟩ := Tree.find_of_mem_walk snapshot.wf hmem
    have hsplit : splitPath f.path = ns := by
      rw [hpath, List.nil_append, splitPath_joinPath (Tree.find_ne_nil hfind)
        (Tree.isName_of_find snapshot.wf hfind)]
    obtain ⟨g, hg, hshows'⟩ := listed_of_find H deep (hsplit ▸ hfind) (by
      rintro size rfl
      exact hshows)
    exact ⟨⟨f.path, g⟩, AList.mem_lookup_iff.mp hg, hp f g found hshows hshows' hf⟩

/-- A link that leads nowhere decides for both, and so does whether anything is listed. -/
theorem listed_dangling {snapshot : Snapshot β} (h : snapshot.tree.NoLinkedDirs) :
    ((snapshot.listed H deep).entries.filter fun e ↦ e.2.resolved = false).map Sigma.fst ≠ [] ↔
      ∃ f ∈ snapshot.tree.osWalk H [], f.2 = none := by
  have hentries := entries_listed H deep snapshot
    (fun f ↦ f.resolved = false) ?_
  · rw [Ne, List.map_eq_nil_iff, List.filter_eq_nil_iff]
    push Not
    simp only [decide_eq_true_eq]
    rw [hentries, Tree.osWalk_eq H deep h]
    constructor
    · rintro ⟨f, hmem, hf⟩
      exact ⟨_, List.mem_map_of_mem hmem, by rw [hf]; rfl⟩
    · rintro ⟨_, hmem, hnone⟩
      obtain ⟨f, hf, rfl⟩ := List.mem_map.mp hmem
      refine ⟨f, hf, Bool.eq_false_iff.mpr fun hf ↦ ?_⟩
      rw [if_pos hf] at hnone
      cases hnone
  · rintro f g (content | _ | size) hshows hshows' hf
    · rw [hshows.1] at hf
      cases hf
    · exact hshows'
    · exact hshows.elim

theorem listed_ne_nil {snapshot : Snapshot β} (h : snapshot.tree.NoLinkedDirs)
    (hne : snapshot.tree.osWalk H [] ≠ []) :
    (snapshot.listed H deep).entries.map Sigma.snd ≠ [] := by
  have hentries := entries_listed H deep snapshot
    (fun _ ↦ True) (fun _ _ _ _ _ _ ↦ trivial)
  rw [Tree.osWalk_eq H deep h, Ne, List.map_eq_nil_iff] at hne
  obtain ⟨f, hmem⟩ := List.exists_mem_of_ne_nil _ hne
  obtain ⟨e, he, -⟩ := hentries.mpr ⟨f, hmem, trivial⟩
  exact List.ne_nil_of_mem (List.mem_map_of_mem he)

theorem osWalk_dangling (files : List (String × Option Nat)) :
    (files.filter fun f ↦ f.2.isNone).map Prod.fst ≠ [] ↔ ∃ f ∈ files, f.2 = none := by
  rw [Ne, List.map_eq_nil_iff, List.filter_eq_nil_iff]
  push Not
  simp only [Option.isNone_iff_eq_none]

theorem osWalk_sizes {files : List (String × Option Nat)} (hne : files ≠ [])
    (h : ¬∃ f ∈ files, f.2 = none) : (files.filterMap Prod.snd).length ≠ 0 := by
  obtain ⟨f, hmem⟩ := List.exists_mem_of_ne_nil _ hne
  obtain ⟨size, hsize⟩ := Option.ne_none_iff_exists'.mp fun hnone ↦ h ⟨f, hmem, hnone⟩
  rw [Ne, List.length_eq_zero_iff]
  exact List.ne_nil_of_mem (List.mem_filterMap.mpr ⟨f, hmem, hsize⟩)

/-- **The layout alone.** -/
theorem structurally_state {repo : Repo β} {snapshot : Snapshot β} {commit : String}
    {requireManifest : Bool} (h : ComparableLayout H repo snapshot commit requireManifest)
    (report report' : Report) :
    (verifyStructurally H repo commit snapshot report requireManifest).state =
      (listingStructurally (snapshot.listed H deep) report' requireManifest).state := by
  rw [verifyStructurally, listingStructurally]
  dsimp only
  by_cases hdangling : ∃ f ∈ snapshot.tree.osWalk H [], f.2 = none
  · rw [if_pos ((listed_dangling h.noLinkedDirs).mpr hdangling),
      if_pos ((osWalk_dangling _).mpr hdangling)]
    split_ifs <;> rfl
  · rw [if_neg (mt (listed_dangling h.noLinkedDirs).mp hdangling),
      if_neg (mt (osWalk_dangling _).mp hdangling),
      if_neg (listed_ne_nil h.noLinkedDirs h.nonempty)]
    cases requireManifest with
    | true => rfl
    | false =>
      obtain ⟨hcomplete, hreadable⟩ := (h.decided.resolve_left Bool.noConfusion).resolve_left hdangling
      rw [if_neg (not_not_intro hcomplete), if_neg (osWalk_sizes h.nonempty hdangling), hreadable]
      rfl

/-! ## The verdicts -/

/-- A cache entry and a revision of it that both verifiers can tell alike. -/
def Repo.Comparable (fnmatch : String → String → Bool) (H : Hashes β) (repo : Repo β)
    (revision : Option String) (deep requireManifest : Bool) : Prop :=
  match resolveCommit repo revision with
  -- the agent falls back to `refs/main`
  | none => ∀ main ∈ repo.readRef "main", repo.snapshots.lookup main = none
  | some commit => ∀ snapshot ∈ repo.snapshots.lookup commit,
    match repo.readManifest commit with
    | some manifest => ∀ item ∈ admitted fnmatch manifest (markerPatterns repo.marker commit),
        HubCache.Comparable H snapshot deep item.1 item.2
    | none => ComparableLayout H repo snapshot commit requireManifest

theorem isCommitHash_ne {revision : String} (h : isCommitHash revision = true) :
    revision.toLower ≠ "" := by
  have hlength : revision.length = 40 := by
    rw [isCommitHash, Bool.decide_and, Bool.and_eq_true] at h
    exact of_decide_eq_true h.1
  intro hempty
  have hzero : revision.toLower.length = 0 := by rw [hempty]; rfl
  have hmap : revision.toLower.length = revision.length := String.length_map
  omega

theorem truthy_ne {s : Option String} {t : String} (h : truthy s = some t) : t ≠ "" := by
  obtain ⟨-, hne⟩ := Option.filter_eq_some_iff.mp h
  exact of_decide_eq_true hne

/-- A resolved commit is not the empty string. -/
theorem resolveCommit_ne {repo : Repo β} {revision : Option String} {commit : String}
    (h : resolveCommit repo revision = some commit) : commit ≠ "" := by
  rw [resolveCommit] at h
  split at h
  · split_ifs at h with hhash
    · exact Option.some.inj h ▸ isCommitHash_ne hhash
    · exact truthy_ne h
  · split at h
    next resolved hmain => exact Option.some.inj h ▸ truthy_ne hmain
    · rw [Repo.onlySnapshot] at h
      split at h
      next name hkeys =>
        refine Option.some.inj h ▸ (repo.named name ?_).1
        rw [hkeys]
        exact List.mem_cons_self
      · cases h

theorem verifyListing_absent (fnmatch : String → String → Bool) (files : List SnapshotFile)
    (commit : Option String) (manifest : Option Manifest) (deep requireManifest : Bool)
    (allowPatterns : Option (List String)) :
    (verifyListing fnmatch files commit false manifest deep requireManifest allowPatterns).state =
      .absent := by
  rw [verifyListing, if_pos rfl]

/-- The listing of a commit that is not the empty string is of its own directory. -/
theorem listSnapshot_of_ne {repo : Repo β} {commit : String} (hne : commit ≠ "") :
    listSnapshot H (some repo) commit deep =
      match repo.snapshots.lookup commit with
      | none => { revision := commit }
      | some snapshot =>
        { revision := commit
          present := true
          files := (snapshot.tree.walk H deep []).mergeSort fun a b ↦ decide (a.path ≤ b.path)
          bytesPresent := ((snapshot.tree.walk H deep []).map SnapshotFile.sizeBytes).sum } := by
  rw [listSnapshot, snapshotDir, if_neg hne]
  cases h : repo.snapshots.lookup commit <;> simp only [Option.map_some, Option.bind_some, h]

/-- A snapshot that is there, over its manifest or its layout. -/
theorem present_agrees (fnmatch : String → String → Bool) (H : Hashes β) {repo : Repo β}
    {commit : String} {snapshot : Snapshot β} (deep requireManifest : Bool) (report : Report)
    (listed : Option String)
    (h : match repo.readManifest commit with
      | some manifest => ∀ item ∈ admitted fnmatch manifest (markerPatterns repo.marker commit),
          HubCache.Comparable H snapshot deep item.1 item.2
      | none => ComparableLayout H repo snapshot commit requireManifest) :
    ∃ verdict, (match repo.readManifest commit with
        | none => .ok (verifyStructurally H repo commit snapshot report requireManifest)
        | some manifest => verifyAgainstManifest fnmatch H manifest snapshot commit deep
            (markerPatterns repo.marker commit) report) = (.ok verdict : Except String Report) ∧
      (verifyListing fnmatch ((snapshot.tree.walk H deep []).mergeSort fun a b ↦
          decide (a.path ≤ b.path)) listed true (repo.readManifest commit) deep
        requireManifest (markerPatterns repo.marker commit)).state = verdict.state := by
  rw [verifyListing, if_neg Bool.noConfusion]
  rcases hmanifest : repo.readManifest commit with _ | manifest <;> rw [hmanifest] at h
  · exact ⟨_, rfl, (structurally_state h report _).symm⟩
  · obtain ⟨t, ht, hclean⟩ := inspectAll_clean h
    dsimp only
    rw [verifyAgainstManifest]
    dsimp only
    rw [applyFilter_fst, ht]
    refine ⟨_, rfl, ?_⟩
    rw [conclude_state, applyFilter_fst]
    exact (congrArg (fun c ↦ if c = true then State.verified else .partially) hclean.symm).trans
      (conclude_state ..).symm

/-- The two bytes of an empty object (`true`) or of an empty list (`false`). -/
private def smallHashes : Hashes Bool where
  size _ := 2
  sha256
    | true => "44136fa355b3678a1146ad16f7e8649e94fb4fc21fe77e8310c060f61caaff8a"
    | false => "4f53cda18c2baa0c0354bb5f9a3ecbe5ed12ab4d8e11ba873c2f11161202b945"
  gitSha1
    | true => "9e26dfeeb6e641a33dae4961196235bdb965b21b"
    | false => "0637a088a01e8ddab3bf3fa98dbe804cbde1a0dc"
  sha256_lower b := by cases b <;> decide +kernel
  sha256_ne_empty b := by cases b <;> decide +kernel

/-- A snapshot of one file, which the manifest knows by the git blob id of an empty object. -/
private def smallRepo (content : Bool) : Repo Bool where
  refs := AList.singleton "main" "c0ffee"
  snapshots := AList.singleton "c0ffee"
    { tree := .file "config.json" false content .nil
      wf := ⟨by decide +kernel, List.not_mem_nil, trivial⟩
      elsewhere := fun _ ↦ none }
  named name hname := by
    obtain rfl : name = "c0ffee" := List.mem_singleton.mp hname
    decide +kernel
  blobs := []
  trees _ := .files [("config.json", { size := some 2, blobId := some (smallHashes.gitSha1 true) })]
  marker := none

private theorem smallRepo_comparable :
    (smallRepo true).Comparable (fun _ _ ↦ false) smallHashes none true false := by
  have hcommit : resolveCommit (smallRepo true) none = some "c0ffee" := by decide +kernel
  rw [Repo.Comparable, hcommit]
  intro snapshot hsnapshot
  obtain rfl := Option.some.inj hsnapshot
  intro item hitem
  obtain rfl := List.mem_singleton.mp hitem
  have hplain : Plain "config.json" := by decide +kernel
  have hfind : (Tree.file "config.json" false true .nil).find (splitPath "config.json") =
      some (.file true) := by decide +kernel
  refine ⟨.inl hplain, fun size hsize ↦ ?_, fun _ content expected hfile hhash ↦ ?_⟩
  · rw [Snapshot.probe, if_pos hplain] at hsize
    cases hfind.symm.trans hsize
  · rw [Snapshot.probe, if_pos hplain] at hfile
    cases hfind.symm.trans hfile
    have hblob : ManifestEntry.expectedHash
        { size := some 2, blobId := some (smallHashes.gitSha1 true) } =
          some (.gitSha1, smallHashes.gitSha1 true) := by decide +kernel
    exact (Prod.mk.inj (Option.some.inj (hblob.symm.trans hhash))).2

end SparkPulse.HubCache
