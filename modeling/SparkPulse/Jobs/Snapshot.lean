import SparkPulse.Filesystem.Glob
import SparkPulse.HubCache.Tree
import SparkPulse.Jobs.Basic

/-!
# What a completed download has fetched

`_run_download` fetches the files of its plan one after the other, each by a call that names a
revision and is answered with the commit it is at by then. The snapshot it reports is that of the
first file. So the snapshot has every planned file exactly when each of them was fetched at the
commit of the first, or was there before; a branch that moves in between leaves it in pieces. The
plan is made by patterns as they are written, where the hub reads a directory as everything in it.
-/

namespace SparkPulse.Jobs

open Program Prog HubCache Glob

/-! ## The snapshot of a file -/

/-- `os.path.dirname` -/
def dirname (path : List Char) : List Char :=
  let head := (path.reverse.dropWhile (· ≠ '/')).reverse
  if head.all (· = '/') then head else (head.reverse.dropWhile (· = '/')).reverse

/-- `_snapshot_root`: the snapshot directory, from one file inside it and its repo path. -/
def snapshotRoot (localFile relPath : String) : String :=
  .ofList (dirname^[relPath.toList.count '/' + 1] localFile.toList)

/-- The directory of a commit in the cache entry of a repository. -/
def snapshotDir (repo commit : String) : String := repo ++ "/snapshots/" ++ commit

/-- A file of a snapshot. -/
def localFile (repo commit path : String) : String := snapshotDir repo commit ++ "/" ++ path

theorem snapshotDir_ne_empty (repo commit : String) : snapshotDir repo commit ≠ "" := by
  intro h
  have hlength := congrArg (fun s ↦ s.toList.length) h
  simp [snapshotDir] at hlength

theorem dirname_append {p n : List Char} (hp : p ≠ []) (hlast : p.getLast hp ≠ '/')
    (hn : '/' ∉ n) : dirname (p ++ '/' :: n) = p := by
  have hhead : ((p ++ '/' :: n).reverse.dropWhile (· ≠ '/')).reverse = p ++ ['/'] := by
    rw [List.reverse_append, List.reverse_cons, List.append_assoc, List.dropWhile_append_of_pos]
    · simp
    · intro c hc
      have hne : c ≠ '/' := by
        rintro rfl
        exact hn (by simpa using hc)
      simpa using hne
  have hsome : (p ++ ['/']).all (· = '/') = false := by
    rw [List.all_eq_false]
    exact ⟨p.getLast hp, List.mem_append_left _ (List.getLast_mem hp), by simpa using hlast⟩
  rw [dirname, hhead, hsome]
  simp only [List.reverse_append, List.reverse_singleton, List.singleton_append,
    Bool.false_eq_true, if_false, List.dropWhile_cons_of_pos, decide_true]
  obtain ⟨q, c, rfl⟩ : ∃ q c, p = q ++ [c] := ⟨_, _, (List.dropLast_append_getLast hp).symm⟩
  rw [List.getLast_append_singleton] at hlast
  simp [hlast]

/-- Going up from a file once for each name of its path. -/
theorem dirname_iterate {p : List Char} (hp : p ≠ []) (hlast : p.getLast hp ≠ '/')
    {names : List (List Char)} (hne : names ≠ []) (hnames : ∀ n ∈ names, n ≠ [] ∧ '/' ∉ n) :
    dirname^[names.length] (p ++ '/' :: ['/'].intercalate names) = p := by
  induction names generalizing p with
  | nil => exact absurd rfl hne
  | cons n ns ih =>
    obtain ⟨⟨hn, hslash⟩, hns⟩ := List.forall_mem_cons.mp hnames
    rw [List.length_cons, Function.iterate_succ_apply']
    rcases eq_or_ne ns [] with rfl | hns'
    · rw [List.intercalate_singleton]
      exact dirname_append hp hlast hslash
    · rw [List.intercalate_cons_of_ne_nil hns', List.append_assoc, List.singleton_append,
        ← List.cons_append, ← List.append_assoc]
      have hlast' : (p ++ '/' :: n).getLast (by simp) ≠ '/' := by
        rw [List.getLast_append_of_ne_nil _ (List.cons_ne_nil _ _), List.getLast_cons hn]
        exact fun h ↦ hslash (h ▸ List.getLast_mem hn)
      rw [ih _ hlast' hns' hns]
      exact dirname_append hp hlast hslash

theorem count_intercalate {names : List (List Char)} (hne : names ≠ [])
    (hnames : ∀ n ∈ names, '/' ∉ n) :
    (['/'].intercalate names).count '/' + 1 = names.length := by
  induction names with
  | nil => exact absurd rfl hne
  | cons n ns ih =>
    obtain ⟨hslash, hns⟩ := List.forall_mem_cons.mp hnames
    rcases eq_or_ne ns [] with rfl | hns'
    · rw [List.intercalate_singleton, List.count_eq_zero_of_not_mem hslash]
      rfl
    · rw [List.intercalate_cons_of_ne_nil hns', List.append_assoc, List.singleton_append,
        List.count_append, List.count_cons_self, List.count_eq_zero_of_not_mem hslash, zero_add,
        ih hns' hns, List.length_cons]

theorem snapshotRoot_localFile {repo commit path : String} (hcommit : IsName commit)
    (hpath : Plain path) :
    snapshotRoot (localFile repo commit path) path = snapshotDir repo commit := by
  have hnames : ∀ n ∈ path.toList.splitOn '/', n ≠ [] ∧ '/' ∉ n := by
    intro n hn
    obtain ⟨hempty, -, -, hslash⟩ := hpath (.ofList n) (List.mem_map_of_mem hn)
    refine ⟨?_, by rwa [String.toList_ofList] at hslash⟩
    rintro rfl
    exact hempty rfl
  have hne : path.toList.splitOn '/' ≠ [] := List.splitOn_ne_nil _ _
  have hjoin : ['/'].intercalate (path.toList.splitOn '/') = path.toList :=
    List.intercalate_splitOn _
  have hcount := count_intercalate hne fun n hn ↦ (hnames n hn).2
  rw [hjoin] at hcount
  obtain ⟨hempty, -, -, hslash⟩ := hcommit
  have hdir : (snapshotDir repo commit).toList ≠ [] := by
    simp [snapshotDir]
  have hlast : (snapshotDir repo commit).toList.getLast hdir ≠ '/' := by
    have hsome : commit.toList ≠ [] := by simpa using hempty
    simp only [snapshotDir, String.toList_append]
    rw [List.getLast_append_of_ne_nil _ hsome]
    exact fun h ↦ hslash (h ▸ List.getLast_mem hsome)
  have hiterate := dirname_iterate hdir hlast hne hnames
  rw [hjoin, ← hcount] at hiterate
  rw [snapshotRoot, localFile]
  simp only [String.toList_append]
  rw [List.append_assoc]
  exact (congrArg String.ofList hiterate).trans (String.ofList_toList ..)

/-! ## The plan -/

/-- A file as the hub lists it. -/
structure Sibling where
  rfilename : String
  size : Option Nat := none

/-- `_plan_files`, of what the hub lists if it answers. -/
def planFiles (siblings : Option (List Sibling)) (allowPatterns : List String) :
    List PlanEntry :=
  (siblings.getD []).filterMap fun sibling ↦
    if sibling.rfilename = "" then none
    else if allowPatterns ≠ [] ∧ ¬allowPatterns.any (fnmatch sibling.rfilename) then none
    else some ⟨sibling.rfilename, sibling.size.getD 0⟩

/-- The names of the files of a listing. -/
def listedNames (siblings : List Sibling) : List String :=
  (siblings.map Sibling.rfilename).filter (· ≠ "")

/-- `filter_repo_objects` of `huggingface_hub`, by its rule: no patterns admit every name, a list of
them admits what matches one, and a pattern that ends in a slash is everything below it. -/
structure HubFilter where
  admits : Option (List String) → String → Bool
  admits_none : ∀ name, admits none name = true
  admits_some : ∀ patterns name, admits (some patterns) name = patterns.any fun p ↦
    fnmatch name (if p.toList.getLast? = some '/' then p ++ "*" else p)

/-- What the hub would select: `allow_patterns or None` is what it is given. -/
def HubFilter.selected (F : HubFilter) (siblings : List Sibling) (allowPatterns : List String) :
    List String :=
  (listedNames siblings).filter
    (F.admits (if allowPatterns = [] then none else some allowPatterns))

theorem planFiles_path (siblings : List Sibling) (allowPatterns : List String) :
    (planFiles (some siblings) allowPatterns).map PlanEntry.path =
      (listedNames siblings).filter fun name ↦
        allowPatterns = [] ∨ allowPatterns.any (fnmatch name) := by
  induction siblings with
  | nil => rfl
  | cons sibling siblings ih =>
    rw [planFiles, Option.getD_some] at ih ⊢
    rw [listedNames] at ih ⊢
    rw [List.filterMap_cons, List.map_cons, List.filter_cons]
    by_cases hname : sibling.rfilename = ""
    · rw [if_pos hname, if_neg (by simpa using hname)]
      exact ih
    have hlisted : decide (sibling.rfilename ≠ "") = true := decide_eq_true hname
    rw [if_neg hname, if_pos hlisted, List.filter_cons]
    by_cases hadmits : allowPatterns = [] ∨ allowPatterns.any (fnmatch sibling.rfilename) = true
    · have hplanned : ¬(allowPatterns ≠ [] ∧ ¬allowPatterns.any (fnmatch sibling.rfilename)) :=
        fun h ↦ hadmits.elim h.1 h.2
      rw [if_neg hplanned, if_pos (decide_eq_true hadmits)]
      exact congrArg (sibling.rfilename :: ·) ih
    · rw [if_pos (not_or.mp hadmits), if_neg (fun h ↦ hadmits (of_decide_eq_true h))]
      exact ih

/-- What the plan admits, the hub's filter admits; the rest is below a directory of the patterns. -/
theorem selected_iff (F : HubFilter) (siblings : List Sibling) (allowPatterns : List String) :
    (planFiles (some siblings) allowPatterns).map PlanEntry.path =
        F.selected siblings allowPatterns ↔
      ∀ name ∈ listedNames siblings, ∀ p ∈ allowPatterns, p.toList.getLast? = some '/' →
        fnmatch name (p ++ "*") → ∃ q ∈ allowPatterns, fnmatch name q := by
  have hnone : ∀ name, allowPatterns = [] → F.admits (if allowPatterns = [] then none
      else some allowPatterns) name = true := by
    intro name hempty
    rw [if_pos hempty]
    exact F.admits_none name
  have hsome : ∀ name, allowPatterns ≠ [] → (F.admits (if allowPatterns = [] then none
      else some allowPatterns) name = true ↔ ∃ p ∈ allowPatterns,
        fnmatch name (if p.toList.getLast? = some '/' then p ++ "*" else p) = true) := by
    intro name hne
    rw [if_neg hne, F.admits_some, List.any_eq_true]
  rw [planFiles_path, HubFilter.selected]
  constructor
  · intro h name hname p hp hslash hmatch
    have hne : allowPatterns ≠ [] := List.ne_nil_of_mem hp
    have hadmits := (hsome name hne).mpr ⟨p, hp, by rwa [if_pos hslash]⟩
    have hmem := h ▸ List.mem_filter.mpr ⟨hname, hadmits⟩
    have hplanned := of_decide_eq_true (List.mem_filter.mp hmem).2
    exact List.any_eq_true.mp (hplanned.resolve_left hne)
  · intro h
    refine List.filter_congr fun name hname ↦ Bool.eq_iff_iff.mpr ⟨fun hplanned ↦ ?_, ?_⟩
    · by_cases hempty : allowPatterns = []
      · exact hnone name hempty
      · obtain ⟨p, hp, hmatch⟩ :=
          List.any_eq_true.mp ((of_decide_eq_true hplanned).resolve_left hempty)
        refine (hsome name hempty).mpr ⟨p, hp, ?_⟩
        split_ifs
        · exact fnmatch_append_star hmatch
        · exact hmatch
    · intro hadmits
      by_cases hempty : allowPatterns = []
      · exact decide_eq_true (.inl hempty)
      · obtain ⟨p, hp, hmatch⟩ := (hsome name hempty).mp hadmits
        refine decide_eq_true (.inr (List.any_eq_true.mpr ?_))
        split_ifs at hmatch with hslash
        · exact h name hname p hp hslash hmatch
        · exact ⟨p, hp, hmatch⟩

/-! ## The hub -/

/-- A repository of the hub, and the commit the revision of a job is at when each of its files is
fetched. -/
structure History where
  /-- The revision may be a branch, which moves. -/
  commitAt : ℕ → String
  /-- The files of each commit. -/
  files : String → List String
  commit_isName : ∀ n, IsName (commitAt n)
  files_plain : ∀ commit, ∀ path ∈ files commit, Plain path

/-- The worker's surroundings: what every call but a fetch is answered, what was fetched into the
cache entry before and since, and the snapshot reported when the job was marked completed. -/
structure Fetching where
  replies : ℕ → (c : Call) → c.Ret
  calls : ℕ := 0
  fetches : ℕ := 0
  /-- The files there are, by commit. -/
  cache : List (String × String)
  completed : Option String := none

namespace Fetching

variable (repo : String) (H : History)

/-- The call has been answered. -/
def answered (w : Fetching) : Fetching := { w with calls := w.calls + 1 }

/-- `hf_hub_download`: the revision is resolved now, and the file is stored under its commit. -/
def fetch (path : String) (w : Fetching) : Fetching :=
  { w.answered with
    fetches := w.fetches + 1
    cache := w.cache ++ [(H.commitAt w.fetches, path)] }

/-- What `_download_plan` makes of the answer to a fetch. -/
def fetched (path : String) (w : Fetching) (answer : Except Failure (ℕ × String)) :
    Except Failure (ℕ × String) × Fetching :=
  match answer with
  | .error exc => (.error exc, w.answered)
  | .ok (bytes, _) =>
    if path ∈ H.files (H.commitAt w.fetches) then
      (.ok (bytes, snapshotRoot (localFile repo (H.commitAt w.fetches) path) path), w.fetch H path)
    else (.error (.other "Entry Not Found"), w.answered)

/-- What a job that is there is set to. -/
def marked (fields : Fields) (job : Option Job) (w : Fetching) : Fetching :=
  if fields.status = some .completed ∧ job.isSome then
    { w.answered with completed := fields.path.join }
  else w.answered

/-- The effect of a call of the worker. -/
def exec (w : Fetching) : (c : Call) → Option (c.Ret × Fetching)
  | .download job path => some (w.fetched repo H path (w.replies w.calls (.download job path)))
  | .set id fields =>
    some (w.replies w.calls (.set id fields), w.marked fields (w.replies w.calls (.set id fields)))
  | c => some (w.replies w.calls c, w.answered)

/-- Whether a snapshot directory has a file. -/
def Has (w : Fetching) (path file : String) : Prop :=
  ∃ commit, path = snapshotDir repo commit ∧ (commit, file) ∈ w.cache

end Fetching

/-! ## What the worker fetches -/

/-- The files that a plan fetches from a number of fetches on, by commit. -/
def landings (H : History) : ℕ → List PlanEntry → List (String × String)
  | _, [] => []
  | k, entry :: entries => (H.commitAt k, entry.path) :: landings H (k + 1) entries

/-- What is answered lets the job complete, as far as the files are there. -/
structure Obliging (id : JobId) (replies : ℕ → (c : Call) → c.Ret) : Prop where
  get : ∀ n, (replies n (.get id)).isSome
  isCancelled : ∀ n, replies n (.isCancelled id) = false
  set : ∀ n fields, (replies n (.set id fields)).isSome
  download : ∀ n job path, ∃ v, replies n (.download job path) = .ok v

/-- The calls that fetch nothing and complete no job. -/
def Fetchless : Call → Prop
  | .download .. => False
  | .set _ fields => fields.status ≠ some .completed
  | _ => True

section
variable {repo : String} {H : History} {id : JobId} {job : Job} {α : Type}
  {ρ : ℕ → (c : Call) → c.Ret}

/-- The setting of the worker. -/
abbrev fetching (repo : String) (H : History) : Setting Call.Ret Fetching :=
  solitary (Fetching.exec repo H)

/-- What idle calls leave as it is. -/
def Fetching.Same (v w : Fetching) : Prop :=
  w.replies = v.replies ∧ w.fetches = v.fetches ∧ w.cache = v.cache ∧ w.completed = v.completed

theorem Fetching.Same.refl (w : Fetching) : w.Same w := ⟨rfl, rfl, rfl, rfl⟩

theorem Fetching.Same.trans {u v w : Fetching} (huv : u.Same v) (hvw : v.Same w) : u.Same w :=
  ⟨hvw.1.trans huv.1, hvw.2.1.trans huv.2.1, hvw.2.2.1.trans huv.2.2.1,
    hvw.2.2.2.trans huv.2.2.2⟩

theorem same_of_fetchless {v w : Fetching} {c : Call} {r : c.Ret} (hc : Fetchless c)
    (h : Fetching.exec repo H v c = some (r, w)) :
    v.Same w ∧ r = v.replies v.calls c := by
  cases c with
  | download job path => exact hc.elim
  | set i fields =>
    obtain ⟨rfl, rfl⟩ := Prod.mk.inj (Option.some.inj h)
    rw [Fetching.marked, if_neg fun h ↦ hc h.1]
    exact ⟨.refl _, rfl⟩
  | _ =>
    obtain ⟨rfl, rfl⟩ := Prod.mk.inj (Option.some.inj h)
    exact ⟨.refl _, rfl⟩

/-- An idle call, and what is done with its answer. -/
theorem safe_fetchless {c : Call} (hc : Fetchless c) {f : c.Ret → Op α} {Q : α → Fetching → Prop}
    {X : Failure → Fetching → Prop} {v : Fetching}
    (h : ∀ w, v.Same w → (f (v.replies v.calls c)).Safe (fetching repo H) Q X w) :
    (invoke c >>= f).Safe (fetching repo H) Q X v := by
  rw [safe_bind, safe_call]
  rintro _ rfl r w hexec
  obtain ⟨hsame, rfl⟩ := same_of_fetchless hc hexec
  exact ⟨trivial, h w hsame⟩

/-- A program of idle calls. -/
theorem safe_of_fetchless {p : Op α} (h : p.Uses Fetchless) (v : Fetching) :
    p.Safe (fetching repo H) (fun _ w ↦ v.Same w) (fun _ w ↦ v.Same w) v :=
  h.safe (fun _ _ hw heq ↦ heq ▸ hw) (fun _ _ _ _ hc hu hexec ↦
    ⟨trivial, hu.trans (same_of_fetchless hc hexec).1⟩) (.refl v)

/-- A fetch, and what is done with its answer. -/
theorem safe_download (id : JobId) {path : String}
    {f : Except Failure (ℕ × String) → Op α} {Q : α → Fetching → Prop}
    {X : Failure → Fetching → Prop} {v : Fetching}
    (herror : ∀ exc w, v.Same w →
      (Obliging id v.replies → path ∉ H.files (H.commitAt v.fetches)) →
      (f (.error exc)).Safe (fetching repo H) Q X w)
    (hok : ∀ bytes, path ∈ H.files (H.commitAt v.fetches) →
      (f (.ok (bytes, snapshotDir repo (H.commitAt v.fetches)))).Safe (fetching repo H) Q X
        (v.fetch H path)) :
    (invoke (.download job path) >>= f).Safe (fetching repo H) Q X v := by
  rw [safe_bind, safe_call]
  rintro _ rfl answer w hexec
  refine ⟨trivial, ?_⟩
  obtain ⟨hanswer, rfl⟩ := Prod.mk.inj (Option.some.inj hexec)
  subst hanswer
  split
  · next exc hexc =>
    refine herror exc _ (.refl _) fun hobliging ↦ ?_
    obtain ⟨value, hvalue⟩ := hobliging.download v.calls job path
    cases hexc.symm.trans hvalue
  · split_ifs with hfile
    · rw [snapshotRoot_localFile (H.commit_isName _) (H.files_plain _ _ hfile)]
      exact hok _ hfile
    · exact herror _ _ (.refl _) fun _ ↦ hfile

/-- **The walk over the plan.** What is reported is the snapshot of the first file; what is fetched
is each file, at the commit the revision is at by then. -/
theorem safe_downloadPlan (entries : List PlanEntry) {k done : ℕ} {snapshot : String}
    {v : Fetching} (hfetches : v.fetches = k) (hnone : v.completed = none) :
    (downloadPlan id job entries done snapshot).Safe (fetching repo H)
      (fun reported w ↦ w.replies = v.replies ∧ w.completed = none ∧
        w.cache = v.cache ++ landings H k entries ∧
        (∀ f ∈ landings H k entries, f.2 ∈ H.files f.1) ∧
        (snapshot ≠ "" → reported.1 = snapshot) ∧
        (snapshot = "" → entries ≠ [] → reported.1 = snapshotDir repo (H.commitAt k)))
      (fun _ w ↦ w.completed = none ∧
        (Obliging id v.replies → ∃ f ∈ landings H k entries, f.2 ∉ H.files f.1)) v := by
  induction entries generalizing k done snapshot v with
  | nil =>
    refine safe_fetchless (c := .isCancelled id) trivial fun w hw ↦ ?_
    obtain ⟨hreplies, -, hcache, hcompleted⟩ := hw
    split_ifs with hcancelled hempty
    · refine ⟨hcompleted.trans hnone, fun hobliging ↦ ?_⟩
      rw [hobliging.isCancelled] at hcancelled
      cases hcancelled
    · refine safe_fetchless (c := .repoPath job.subject) trivial fun u hu ↦ ?_
      refine ⟨hu.1.trans hreplies, (hu.2.2.2.trans hcompleted).trans hnone, ?_, ?_, ?_, ?_⟩
      · rw [hu.2.2.1, hcache, landings, List.append_nil]
      · exact fun f hf ↦ nomatch hf
      · exact fun h ↦ absurd hempty h
      · exact fun _ h ↦ absurd rfl h
    · refine ⟨hreplies, hcompleted.trans hnone, ?_, ?_, fun _ ↦ rfl, fun _ h ↦ absurd rfl h⟩
      · rw [hcache, landings, List.append_nil]
      · exact fun f hf ↦ nomatch hf
  | cons entry entries ih =>
    refine safe_fetchless (c := .isCancelled id) trivial fun w hw ↦ ?_
    by_cases hcancelled : v.replies v.calls (.isCancelled id) = true
    · rw [if_pos hcancelled]
      refine ⟨hw.2.2.2.trans hnone, fun hobliging ↦ ?_⟩
      rw [hobliging.isCancelled] at hcancelled
      cases hcancelled
    · rw [if_neg hcancelled]
      refine safe_fetchless (c := .set id { currentFile := some (some entry.path) }) nofun
        fun u hu ↦ ?_
      obtain ⟨hreplies, hcount, hcache, hcompleted⟩ := hw.trans hu
      have hk : u.fetches = k := hcount.trans hfetches
      refine safe_download id (fun exc x hx hmissing ↦ ?_) fun bytes hfile ↦ ?_
      · refine ⟨hx.2.2.2.trans (hcompleted.trans hnone), fun hobliging ↦
          ⟨_, List.mem_cons_self, ?_⟩⟩
        rw [← hk]
        exact hmissing (hreplies ▸ hobliging)
      · rw [hk] at hfile ⊢
        refine (ih (k := k + 1) (v := u.fetch H entry.path) (congrArg (· + 1) hk)
          (hcompleted.trans hnone)).mono ?_ ?_
        · rintro reported x ⟨hx, hx', hlanded, hall, hkept, -⟩
          refine ⟨hx.trans hreplies, hx', ?_, List.forall_mem_cons.mpr ⟨hfile, hall⟩, ?_, ?_⟩
          · have hfetched : (u.fetch H entry.path).cache =
                v.cache ++ [(H.commitAt k, entry.path)] := by
              rw [← hk, ← hcache]
              rfl
            rw [hlanded, hfetched, List.append_assoc]
            rfl
          · intro hsnapshot
            rw [if_neg hsnapshot] at hkept
            exact hkept hsnapshot
          · intro hsnapshot _
            rw [if_pos hsnapshot] at hkept
            exact hkept (snapshotDir_ne_empty _ _)
        · rintro _ x ⟨hx, hmissing⟩
          refine ⟨hx, fun hobliging ↦ ?_⟩
          obtain ⟨f, hf, hmiss⟩ := hmissing (hreplies ▸ hobliging)
          exact ⟨f, List.mem_cons_of_mem _ hf, hmiss⟩

theorem publishJob_fetchless : (publishJob .download job).Uses Fetchless :=
  .ite (fun _ ↦ Uses.bind (uses_call.mpr trivial) fun _ ↦
    .ite (fun _ ↦ uses_call.mpr trivial) fun _ ↦ trivial) fun _ ↦ trivial

theorem setAndPublish_fetchless {fields : Fields} (h : fields.status ≠ some .completed) :
    (setAndPublish .download id fields).Uses Fetchless :=
  Uses.bind (uses_call.mpr h) fun reply ↦ by
    cases reply with
    | none => trivial
    | some job => exact Uses.bind publishJob_fetchless fun _ ↦ trivial

theorem setAndPublish_raises {fields : Fields} :
    (setAndPublish .download id fields).Raises fun _ ↦ False :=
  Raises.bind raises_call fun reply ↦ by
    cases reply with
    | none => trivial
    | some job =>
      exact Raises.bind (.ite (fun _ ↦ Raises.bind raises_call fun _ ↦
        .ite (fun _ ↦ raises_call) fun _ ↦ trivial) fun _ ↦ trivial) fun _ ↦ trivial

theorem abandonDownload_fetchless {exc : Failure} :
    (abandonDownload id exc).Uses Fetchless :=
  Uses.bind (uses_call.mpr trivial) fun _ ↦
    .ite (fun _ ↦ Uses.bind (setAndPublish_fetchless nofun) fun _ ↦ trivial)
      fun _ ↦ Uses.bind (setAndPublish_fetchless nofun) fun _ ↦ trivial

/-- What completing a download does: it reports its path, unless the job is gone. -/
theorem safe_completeDownload {path : String} {done : ℕ} {v : Fetching} :
    (completeDownload id job path done).Safe (fetching repo H)
      (fun _ w ↦ w.cache = v.cache ∧ (w.completed = v.completed ∨ w.completed = some path) ∧
        (Obliging id v.replies → w.completed.isSome))
      (fun _ w ↦ w.cache = v.cache ∧ (w.completed = v.completed ∨ w.completed = some path) ∧
        (Obliging id v.replies → w.completed.isSome)) v := by
  unfold completeDownload
  rw [safe_bind, safe_call]
  rintro _ rfl reply w hexec
  refine ⟨trivial, ?_⟩
  obtain ⟨hreply, rfl⟩ := Prod.mk.inj (Option.some.inj hexec)
  rw [hreply]
  cases reply with
  | none =>
    refine ⟨rfl, .inl rfl, fun hobliging ↦ ?_⟩
    have hsome := hobliging.set v.calls
      { status := some .completed, path := some (some path), bytesDone := some done
        bytesTotal := some (max done job.bytesTotal), currentFile := some none
        cancelRequested := some false }
    rw [hreply] at hsome
    cases hsome
  | some finished =>
    have hrest : (invoke (.record finished path) >>= fun _ ↦
        publishJob .download finished).Uses Fetchless :=
      Uses.bind (uses_call.mpr trivial) fun _ ↦ publishJob_fetchless
    refine (safe_of_fetchless hrest _).mono (fun _ x hx ↦ ?_) fun _ x hx ↦ ?_
    · exact ⟨hx.2.2.1, .inr hx.2.2.2, fun _ ↦ congrArg Option.isSome hx.2.2.2⟩
    · exact ⟨hx.2.2.1, .inr hx.2.2.2, fun _ ↦ congrArg Option.isSome hx.2.2.2⟩

/-- How the worker of a job with a plan leaves things: a path is reported once every file has been
fetched, and it is the snapshot of the first. -/
structure Fetched (repo : String) (H : History) (id : JobId) (plan : List PlanEntry)
    (v w : Fetching) : Prop where
  reported : ∀ path, w.completed = some path →
    path = snapshotDir repo (H.commitAt 0) ∧ w.cache = v.cache ++ landings H 0 plan ∧
      ∀ f ∈ landings H 0 plan, f.2 ∈ H.files f.1
  completes : Obliging id v.replies → (∀ f ∈ landings H 0 plan, f.2 ∈ H.files f.1) →
    w.completed.isSome

theorem safe_fetchAndSettle {plan : List PlanEntry} (hplan : plan ≠ []) {v : Fetching}
    (hfetches : v.fetches = 0) (hnone : v.completed = none) :
    (fetchAndSettle id job plan).Safe (fetching repo H)
      (fun _ w ↦ Fetched repo H id plan v w) (fun _ w ↦ Fetched repo H id plan v w) v := by
  have hfetch : fetchModel id job plan = downloadPlan id job plan 0 "" := by
    rw [fetchModel, if_neg (by simpa using hplan)]
  unfold fetchAndSettle
  rw [safe_bind, safe_attempt, hfetch]
  refine (safe_downloadPlan plan hfetches hnone).mono ?_ ?_
  · rintro ⟨path, done⟩ w ⟨hreplies, hopen, hcache, hall, -, hpath⟩
    refine safe_fetchless (c := .stop id) trivial fun u hu ↦ ?_
    rw [safe_bind]
    have hsettled : ∀ {x : Fetching}, x.cache = u.cache →
        x.completed = u.completed ∨ x.completed = some path →
        (Obliging id u.replies → x.completed.isSome) → Fetched repo H id plan v x := by
      intro x hxcache hxpath hxsome
      refine ⟨fun p hp ↦ ?_, fun hobliging _ ↦ hxsome (hu.1.trans hreplies ▸ hobliging)⟩
      rw [hp, hu.2.2.2, hopen] at hxpath
      obtain rfl := Option.some.inj (hxpath.resolve_left nofun)
      exact ⟨hpath rfl hplan, hxcache.trans (hu.2.2.1.trans hcache), hall⟩
    refine safe_completeDownload.mono ?_ ?_
    · rintro - x ⟨hxcache, hxpath, hxsome⟩
      refine (safe_of_fetchless (p := invoke (.uncancel id)) (uses_call.mpr trivial) x).mono
        (fun _ y hy ↦ ?_) fun _ y hy ↦ ?_
      · exact hsettled (hy.2.2.1.trans hxcache) (hy.2.2.2 ▸ hxpath) (hy.2.2.2 ▸ hxsome)
      · exact hsettled (hy.2.2.1.trans hxcache) (hy.2.2.2 ▸ hxpath) (hy.2.2.2 ▸ hxsome)
    · rintro - x ⟨hxcache, hxpath, hxsome⟩
      exact hsettled hxcache hxpath hxsome
  · rintro exc w ⟨hopen, hmissing⟩
    have hrest : (do
        invoke (.stop id)
        abandonDownload id exc
        invoke (.uncancel id) : Op Unit).Uses Fetchless :=
      Uses.bind (uses_call.mpr trivial) fun _ ↦
        Uses.bind abandonDownload_fetchless fun _ ↦ uses_call.mpr trivial
    have hsettled : ∀ {x : Fetching}, w.Same x → Fetched repo H id plan v x := by
      intro x hx
      refine ⟨fun p hp ↦ ?_, fun hobliging hall ↦ ?_⟩
      · rw [hx.2.2.2, hopen] at hp
        cases hp
      · obtain ⟨f, hf, hmiss⟩ := hmissing hobliging
        exact absurd (hall f hf) hmiss
    exact (safe_of_fetchless hrest w).mono (fun _ x hx ↦ hsettled hx) fun _ x hx ↦ hsettled hx

/-- **The worker.** -/
theorem safe_runDownload {plan : List PlanEntry} (hplan : plan ≠ []) {v : Fetching}
    (hfetches : v.fetches = 0) (hnone : v.completed = none) :
    (runDownload id plan).Safe (fetching repo H)
      (fun _ w ↦ Fetched repo H id plan v w) (fun _ w ↦ Fetched repo H id plan v w) v := by
  have hidle : ∀ {x : Fetching}, v.Same x → ¬Obliging id v.replies →
      Fetched repo H id plan v x := by
    refine fun hx hnot ↦ ⟨fun p hp ↦ ?_, fun hobliging ↦ absurd hobliging hnot⟩
    rw [hx.2.2.2, hnone] at hp
    cases hp
  refine safe_fetchless (c := .get id) trivial fun u hu ↦ ?_
  cases hjob : v.replies v.calls (.get id) with
  | none =>
    refine hidle hu fun hobliging ↦ ?_
    have hsome := hobliging.get v.calls
    rw [hjob] at hsome
    cases hsome
  | some job =>
    refine safe_fetchless (c := .isCancelled id) trivial fun x hx ↦ ?_
    by_cases hcancelled : u.replies u.calls (.isCancelled id) = true
    · rw [if_pos hcancelled]
      have hrest : (do
          let _ ← setAndPublish .download id { status := some .cancelled }
          pure () : Op Unit).Uses Fetchless :=
        Uses.bind (setAndPublish_fetchless nofun) fun _ ↦ trivial
      have hnot : ¬Obliging id v.replies := by
        intro hobliging
        have hfalse := hobliging.isCancelled u.calls
        rw [← hu.1, hcancelled] at hfalse
        cases hfalse
      exact (safe_of_fetchless hrest x).mono (fun _ y hy ↦ hidle ((hu.trans hx).trans hy) hnot)
        fun _ y hy ↦ hidle ((hu.trans hx).trans hy) hnot
    · rw [if_neg hcancelled]
      rw [safe_bind]
      have hrunning : (setAndPublish .download id { status := some .running }).Uses Fetchless :=
        setAndPublish_fetchless nofun
      refine (setAndPublish_raises.safe (safe_of_fetchless hrunning x)).mono
        (fun _ y hy ↦ ?_) fun _ _ h ↦ h.1.elim
      refine safe_fetchless (c := .spawn (.progress id) plan) trivial fun z hz ↦ ?_
      obtain ⟨hreplies, hcount, hcache, hcompleted⟩ := ((hu.trans hx).trans hy).trans hz
      have hsettled : ∀ {a : Fetching}, Fetched repo H id plan z a → Fetched repo H id plan v a :=
        fun h ↦ ⟨hcache ▸ h.reported, hreplies ▸ h.completes⟩
      exact (safe_fetchAndSettle hplan (hcount.trans hfetches) (hcompleted.trans hnone)).mono
        (fun _ _ h ↦ hsettled h) fun _ _ h ↦ hsettled h

/-- Answers that let the job complete. -/
def willing : (c : Call) → c.Ret
  | .await | .jobs | .planFiles .. => []
  | .get _ | .set .. => some { subject := "" }
  | .insert job => job
  | .isCancelled _ | .stopped _ | .announce _ => false
  | .getSource _ => .ok ⟨"", ""⟩
  | .checkDiskSpace _ => .ok ()
  | .repoPath _ => ""
  | .download .. | .snapshotDownload _ => .ok (0, "")
  | .measure _ => (0, 0)
  | .pullImage _ => .ok (0, 0, none)
  | .spawn .. | .clear | .cancel _ | .uncancel _ | .stop _ | .tell _ | .record .. => ()

theorem obliging_willing : Obliging id fun _ ↦ willing where
  get _ := rfl
  isCancelled _ := rfl
  set _ _ := rfl
  download _ _ _ := ⟨_, rfl⟩

theorem snapshotDir_inj {commit commit' : String}
    (h : snapshotDir repo commit = snapshotDir repo commit') : commit = commit' := by
  have hlists := congrArg String.toList h
  simp only [snapshotDir, String.toList_append] at hlists
  exact String.toList_inj.mp (List.append_cancel_left hlists)

theorem mem_landings {k : ℕ} {entries : List PlanEntry} {entry : PlanEntry}
    (h : entry ∈ entries) : ∃ commit, (commit, entry.path) ∈ landings H k entries := by
  induction entries generalizing k with
  | nil => cases h
  | cons e es ih =>
    rcases List.mem_cons.mp h with rfl | h
    · exact ⟨_, List.mem_cons_self⟩
    · obtain ⟨commit, hmem⟩ := ih h
      exact ⟨commit, List.mem_cons_of_mem _ hmem⟩

theorem exists_entry {k : ℕ} {entries : List PlanEntry} {f : String × String}
    (h : f ∈ landings H k entries) : ∃ entry ∈ entries, entry.path = f.2 := by
  induction entries generalizing k with
  | nil => cases h
  | cons e es ih =>
    rcases List.mem_cons.mp h with rfl | h
    · exact ⟨e, List.mem_cons_self, rfl⟩
    · obtain ⟨entry, hentry, hpath⟩ := ih h
      exact ⟨entry, List.mem_cons_of_mem _ hentry, hpath⟩

/-- What a run of the worker leaves. -/
theorem settled_of_run {plan : List PlanEntry} (hplan : plan ≠ []) {cache : List (String × String)}
    {outcome : Except Failure Unit} {w : Fetching}
    (hrun : (runDownload id plan).run (Fetching.exec repo H) { replies := ρ, cache } =
      some (outcome, w)) :
    Fetched repo H id plan { replies := ρ, cache } w := by
  have hsafe : (runDownload id plan).Safe (fetching repo H) _ _ { replies := ρ, cache } :=
    safe_runDownload hplan rfl rfl
  have h := hsafe.of_run hrun
  cases outcome with
  | ok u => exact h.1 u rfl
  | error exc => exact h.2 exc rfl

/-- **Whole snapshots.** What is reported has every planned file, whatever is answered, exactly when
each file that is fetched is, or was, at the commit of the first. -/
theorem reported_has_iff {plan : List PlanEntry} {cache : List (String × String)} :
    (∀ replies outcome w,
        (runDownload id plan).run (Fetching.exec repo H) { replies, cache } = some (outcome, w) →
        ∀ path, w.completed = some path → ∀ entry ∈ plan, w.Has repo path entry.path) ↔
      ((∀ f ∈ landings H 0 plan, f.2 ∈ H.files f.1) →
        ∀ f ∈ landings H 0 plan, (H.commitAt 0, f.2) ∈ cache ∨
          (H.commitAt 0, f.2) ∈ landings H 0 plan) := by
  rcases eq_or_ne plan [] with rfl | hplan
  · exact ⟨fun _ _ _ hf ↦ (nomatch hf), fun _ _ _ _ _ _ _ _ he ↦ (nomatch he)⟩
  constructor
  · intro h hall f hf
    have htotal : ∀ w c, (Fetching.exec repo H w c).isSome = true := fun w c ↦ by cases c <;> rfl
    obtain ⟨outcome, w, hrun⟩ :=
      exists_run htotal (runDownload id plan) { replies := fun _ ↦ willing, cache }
    have hsettled := settled_of_run hplan hrun
    obtain ⟨path, hpath⟩ :=
      Option.isSome_iff_exists.mp (hsettled.completes obliging_willing hall)
    obtain ⟨hdir, hcache, -⟩ := hsettled.reported path hpath
    obtain ⟨entry, hentry, hname⟩ := exists_entry hf
    obtain ⟨commit, hcommit, hmem⟩ := h _ outcome w hrun path hpath entry hentry
    obtain rfl := snapshotDir_inj (hdir.symm.trans hcommit)
    rw [hcache, hname] at hmem
    exact List.mem_append.mp hmem
  · intro h replies outcome w hrun path hpath entry hentry
    obtain ⟨hdir, hcache, hall⟩ := (settled_of_run hplan hrun).reported path hpath
    obtain ⟨commit, hmem⟩ := mem_landings (k := 0) (H := H) hentry
    refine ⟨H.commitAt 0, hdir, ?_⟩
    rw [hcache]
    exact List.mem_append.mpr (h hall _ hmem)

end

/-- A completed download is one whole snapshot of what the hub's filter selects exactly when each
planned file was fetched at the commit of the first, or was there at that commit, as far as the job
can complete, and no listed file is only below a directory of the patterns. -/
theorem snapshot_whole (F : HubFilter) (repo : String) (H : History) (id : JobId)
    (siblings : Option (List Sibling)) (patterns : List String)
    (cache : List (String × String)) :
    ((∀ replies outcome w,
        (runDownload id (planFiles siblings patterns)).run (Fetching.exec repo H)
          { replies, cache } = some (outcome, w) →
        ∀ path, w.completed = some path →
          ∀ entry ∈ planFiles siblings patterns, w.Has repo path entry.path) ∧
      ∀ listed, siblings = some listed →
        (planFiles siblings patterns).map PlanEntry.path = F.selected listed patterns) ↔
    ((∀ f ∈ landings H 0 (planFiles siblings patterns), f.2 ∈ H.files f.1) →
        ∀ f ∈ landings H 0 (planFiles siblings patterns), (H.commitAt 0, f.2) ∈ cache ∨
          (H.commitAt 0, f.2) ∈ landings H 0 (planFiles siblings patterns)) ∧
      ∀ listed, siblings = some listed → ∀ name ∈ listedNames listed, ∀ p ∈ patterns,
        p.toList.getLast? = some '/' → fnmatch name (p ++ "*") →
          ∃ q ∈ patterns, fnmatch name q := by
  refine and_congr ?_ (forall_congr' fun listed ↦ forall_congr' fun hlisted ↦ ?_)
  · exact reported_has_iff
  · rw [hlisted]
    exact selected_iff F listed patterns

/-- A repository of two files whose branch moves after the first fetch. -/
private def moving : History where
  commitAt n := if n = 0 then "5fa1" else "9c07"
  files _ := ["config.json", "model.bin"]
  commit_isName n := by split_ifs <;> decide
  files_plain _ := by decide +kernel

private def twoListed : List Sibling :=
  [{ rfilename := "config.json" }, { rfilename := "model.bin" }]

/-- The rule of the hub. -/
private def hubRule : HubFilter where
  admits patterns name := patterns.all fun patterns ↦ patterns.any fun p ↦
    fnmatch name (if p.toList.getLast? = some '/' then p ++ "*" else p)
  admits_none _ := rfl
  admits_some _ _ := rfl

/-- The branch moved: the second file is in the snapshot of another commit. -/
theorem moved_not_whole :
    ¬((∀ replies outcome w,
        (runDownload 0 (planFiles (some twoListed) [])).run
          (Fetching.exec "models--org--model" moving) { replies, cache := [] } = some (outcome, w) →
        ∀ path, w.completed = some path →
          ∀ entry ∈ planFiles (some twoListed) [], w.Has "models--org--model" path entry.path) ∧
      ∀ siblings, some twoListed = some siblings →
        (planFiles (some twoListed) []).map PlanEntry.path = hubRule.selected siblings []) := by
  rintro ⟨h, -⟩
  have hwhole := reported_has_iff.mp h
  simp [planFiles, twoListed, landings, moving] at hwhole

example : (planFiles (some [{ rfilename := "onnx/model.onnx" }]) ["*.json", "onnx/"]).map
    PlanEntry.path = [] ∧ hubRule.selected [{ rfilename := "onnx/model.onnx" }]
      ["*.json", "onnx/"] = ["onnx/model.onnx"] := by
  simp [planFiles, HubFilter.selected, listedNames, hubRule, fnmatch, pieces, matchPieces,
    Piece.admits]

end SparkPulse.Jobs
