import Mathlib.Data.List.Induction
import Mathlib.Logic.Function.Basic
import SparkPulse.Transition.System

/-!
# The agent's self-update

`install` of `agent/src/executor/selfupdate.rs`: a bundle is unpacked beside the one that runs, its
binary is asked for its version, the link `current` is moved over to it, and the directories that
are neither the new one nor the one it replaced are deleted.

The name of the directory is the request's choice. It may be the one that `current` names, which is
then unpacked into, or `current` itself, which leads there and would afterwards lead to itself. And
what is kept goes by the link, where the process that runs may be older than that: it is a restart
that brings the two together. Here is exactly which requests are all or nothing, in any sequence of
them with restarts in between or not.

What the machine answers at each step is data. Of the install root, the dot-files that an install
stages its work in are left out, since nothing reads them back.
-/

namespace SparkPulse.Agent.SelfUpdate

/-! ## Bundles -/

/-- A file of an archive. -/
structure Member (β : Type) where
  name : String
  data : β

/-- The files below a directory, by their paths from there. -/
abbrev Dir (β : Type) := String → Option β

variable {β : Type}

/-- `tar -x` into a directory: what was there stays, but for the files that the archive has. -/
def unpack (archive : List (Member β)) (dir : Dir β) : Dir β :=
  archive.foldl (fun dir m ↦ Function.update dir m.name (some m.data)) dir

/-- Every file of the archive is in the directory, as its last entry has it. -/
def Holds (archive : List (Member β)) (dir : Dir β) : Prop :=
  ∀ m, archive.reverse.find? (fun m' ↦ m'.name = m.name) = some m → dir m.name = some m.data

theorem holds_unpack (archive : List (Member β)) (dir : Dir β) :
    Holds archive (unpack archive dir) := by
  induction archive using List.reverseRecOn with
  | nil =>
    intro m hm
    cases hm
  | append_singleton archive last ih =>
    intro m hm
    rw [List.reverse_append, List.reverse_singleton, List.singleton_append, List.find?_cons] at hm
    rw [unpack, List.foldl_append, List.foldl_cons, List.foldl_nil, Function.update_apply]
    by_cases hname : last.name = m.name
    · rw [decide_eq_true hname] at hm
      obtain rfl := Option.some.inj hm
      rw [if_pos rfl]
    · rw [decide_eq_false hname] at hm
      rw [if_neg (Ne.symm hname)]
      exact ih m hm

/-- `is_unsafe_member`: an absolute path, or one with a component that leads up. -/
def isUnsafeMember (name : String) : Bool :=
  name.toList.head? = some '/' || (name.toList.splitOn '/').contains ['.', '.']

def binary : String := "bin/spark-pulse-agent"

/-! ## Requests -/

structure InstallBundle (β : Type) where
  version : String
  dirName : String
  tarball : List (Member β)

structure BundleInstalled where
  version : String
  path : String
  restarting : Bool
  deriving DecidableEq, Repr

/-- Why the install root could not be found. -/
inductive RootError
  | noPath (e : String)
  | unresolved (e : String)
  | notLaidOut
  | notManaged
  deriving DecidableEq, Repr

inductive InstallError
  | unsafeDirName (name : String)
  | root (e : RootError)
  | create (path e : String)
  | stage (e : String)
  | listing (e : String)
  | unsafeMember (name : String)
  | tar (e : String)
  | spawn (e : String)
  | unanswered
  | link (e : String)
  | repoint (e : String)
  deriving DecidableEq, Repr

/-- The texts of the errors, given how a string is shown in quotes. -/
def InstallError.message (quoted : String → String) : InstallError → String
  | unsafeDirName name => s!"unsafe bundle dir name {quoted name}"
  | root (.noPath e) => s!"cannot find own path: {e}"
  | root (.unresolved e) => s!"cannot resolve own path: {e}"
  | root .notLaidOut => "the agent is not laid out under an install root"
  | root .notManaged => "this agent is not a unit-managed install (no 'current' symlink); it " ++
      "updates when its package does, not over the stream"
  | create path e => s!"could not create {path}: {e}"
  | stage e => s!"could not stage the bundle: {e}"
  | listing e => e
  | unsafeMember name => s!"the bundle contains an unsafe member path: {quoted name}"
  | tar e => e
  | spawn e => s!"the new binary does not run: {e}"
  | unanswered => "the new binary did not answer --version; not switching to it"
  | link e => s!"could not stage the current symlink: {e}"
  | repoint e => s!"could not repoint current: {e}"

/-- The managers that may know the agent's unit. -/
inductive Scope
  | user
  | system
  deriving DecidableEq, Repr

def detectRestartScope (knows : Scope → Bool) : Option Scope := [.user, .system].find? knows

/-- What the machine answers at each step of one install; left alone, every step goes well. -/
structure Outcome (β : Type) where
  root : Option RootError := none
  create : Option String := none
  stage : Option String := none
  listing : Option String := none
  /-- Why the archive was not unpacked, and what is in the directory then. -/
  tar : Option (String × Dir β) := none
  spawn : Option String := none
  /-- The binary ran and did not do well, for a reason of its own. -/
  refuses : Bool := false
  readLink : Bool := true
  link : Option String := none
  repoint : Option String := none
  /-- The install root can be listed. -/
  readDir : Bool := true
  /-- What is left of a directory that is being removed. -/
  left : String → Option (Dir β) := fun _ ↦ none
  knows : Scope → Bool := fun _ ↦ true

/-! ## The install root -/

def current : String := "current"

/-- The directory that holds the versions, and the link to one of them. -/
structure Root (β : Type) where
  path : String
  dirs : String → Option (Dir β)
  /-- What `current` names. -/
  link : String

namespace Root

variable (root : Root β)

/-- The directory that a name leads to. -/
def through (name : String) : String := if name = current then root.link else name

/-- What `current` leads to; a link to itself leads nowhere. -/
def resolve : Option (Dir β) := if root.link = current then none else root.dirs root.link

def set (name : String) (dir : Dir β) : Root β :=
  { root with dirs := Function.update root.dirs name (some dir) }

@[simp] theorem set_link (name : String) (dir : Dir β) : (root.set name dir).link = root.link := rfl

theorem set_dirs (name : String) (dir : Dir β) (name' : String) :
    (root.set name dir).dirs name' = if name' = name then some dir else root.dirs name' :=
  Function.update_apply ..

/-- What is in the directory that a name leads to, which is made where there is none. -/
def contents (name : String) : Dir β := (root.dirs (root.through name)).getD fun _ ↦ none

/-- Whether `prune_old_versions` removes a directory. -/
def prunes (keepNew : String) (keepPrev : Option String) (name : String) : Bool :=
  !(name = current || name.toList.head? = some '.' || name = keepNew || some name = keepPrev)

/-- `prune_old_versions` -/
def prune (o : Outcome β) (keepNew : String) (keepPrev : Option String) : Root β :=
  { root with dirs := fun name ↦
      if o.readDir ∧ prunes keepNew keepPrev name then (root.dirs name).bind fun _ ↦ o.left name
      else root.dirs name }

end Root

/-! ## Installing -/

section

variable (answers : β → Bool)

/-- The binary of a directory answers `--version`. -/
def Dir.runs (dir : Dir β) : Bool := (dir binary).any answers

/-- The name of a bundle's directory is refused. -/
def unsafeDirName (name : String) : Bool :=
  name = "" || '/' ∈ name.toList || name.toList.head? = some '.'

/-- `install_root`: the path of the process must still lead somewhere. -/
def installRoot (o : Outcome β) (running : String) (root : Root β) : Option InstallError :=
  match o.root with
  | some e => some (.root e)
  | none => if (root.dirs running).isNone then some (.root (.unresolved "No such file")) else none

/-- What goes wrong before anything is unpacked. A link that leads nowhere is no directory, and none
can be made in its place. -/
def refusal (r : InstallBundle β) (o : Outcome β) (running : String) (root : Root β) :
    Option InstallError :=
  let target := root.path ++ "/" ++ r.dirName
  (if unsafeDirName r.dirName then some (.unsafeDirName r.dirName) else none).or <|
    (installRoot o running root).or <|
    (o.create.map (.create target)).or <|
    (if r.dirName = current ∧ root.resolve.isNone then some (.create target "File exists")
      else none).or <|
    (o.stage.map .stage).or <|
    (o.listing.map .listing).or <|
    (r.tarball.find? fun m ↦ isUnsafeMember m.name).map fun m ↦ .unsafeMember m.name

/-- What is in the directory once `tar` has ended. -/
def unpacked (r : InstallBundle β) (o : Outcome β) (root : Root β) : Dir β :=
  match o.tar with
  | some (_, left) => left
  | none => unpack r.tarball (root.contents r.dirName)

/-- What goes wrong from there on, up to the moving of the link. -/
def fault (r : InstallBundle β) (o : Outcome β) (root : Root β) : Option InstallError :=
  (o.tar.map fun t ↦ .tar t.1).or <|
    (o.spawn.map .spawn).or <|
    (if o.refuses ∨ !(unpacked r o root).runs answers then some .unanswered else none).or <|
    (o.link.map .link).or (o.repoint.map .repoint)

/-- The root that a refused request leaves, which may have a new directory in it. -/
def refused (r : InstallBundle β) (o : Outcome β) (running : String) (root : Root β) : Root β :=
  if unsafeDirName r.dirName ∨ (installRoot o running root).isSome ∨ o.create.isSome ∨
      r.dirName = current then root
  else root.set r.dirName (root.contents r.dirName)

/-- `install` -/
def install (r : InstallBundle β) (o : Outcome β) (running : String) (root : Root β) :
    Except InstallError BundleInstalled × Root β :=
  match refusal r o running root with
  | some e => (.error e, refused r o running root)
  | none =>
    let opened := root.set (root.through r.dirName) (unpacked r o root)
    match fault answers r o root with
    | some e => (.error e, opened)
    | none =>
      let previous := if o.readLink then some root.link else none
      (.ok { version := r.version
             path := root.path ++ "/" ++ r.dirName
             restarting := (detectRestartScope o.knows).isSome },
        Root.prune { opened with link := r.dirName } o r.dirName previous)

end

/-! ## A node that updates itself -/

/-- An install root, and the directory of the process that runs, if one runs. -/
structure Node (β : Type) where
  root : Root β
  running : Option String
  /-- The archives that were unpacked here or sent to be, the first install's among them. -/
  shipped : List (List (Member β))

inductive Act (β : Type)
  | request (r : InstallBundle β) (o : Outcome β)
  /-- The unit is restarted onto what `current` leads to. -/
  | restart

section

variable (answers : β → Bool)

/-- A directory holds the whole of one of these bundles, and its binary answers. -/
structure Sound (shipped : List (List (Member β))) (dir : Dir β) : Prop where
  whole : ∃ archive ∈ shipped, Holds archive dir
  runs : dir.runs answers = true

/-- `current` leads to a sound bundle. -/
def Node.Healthy (n : Node β) : Prop :=
  ∃ dir, n.root.resolve = some dir ∧ Sound answers n.shipped dir

def Node.next (n : Node β) : Act β → Option (Node β)
  | .request r o => n.running.map fun running ↦ { n with
      root := (install answers r o running n.root).2
      shipped := r.tarball :: n.shipped }
  | .restart => some { n with
      running := if n.root.resolve.any (Dir.runs answers) then some n.root.link else none }

def system : Transition.System (Node β) (Act β) where
  init n := n.Healthy answers
  next := Node.next answers

/-- A request is all or nothing, and removes nothing that runs. -/
structure AllOrNothing (n : Node β) (r : InstallBundle β) (o : Outcome β) (running : String) :
    Prop where
  current : ∃ dir, (install answers r o running n.root).2.resolve = some dir ∧
    Sound answers (r.tarball :: n.shipped) dir
  failed : ∀ e, (install answers r o running n.root).1 = .error e →
    (install answers r o running n.root).2.link = n.root.link ∧
      (install answers r o running n.root).2.resolve = n.root.resolve
  /-- But for the directory that is unpacked into, that of the process is left alone. -/
  spared : running ≠ n.root.through r.dirName →
    (install answers r o running n.root).2.dirs running = n.root.dirs running

/-- What a request and the machine's answers must be like, in a state, for that. -/
structure Upheld (n : Node β) (r : InstallBundle β) (o : Outcome β) (running : String) :
    Prop where
  /-- A request that fails after its archive was opened did not write over what `current` names. -/
  kept : refusal r o running n.root = none → fault answers r o n.root ≠ none →
    n.root.through r.dirName = n.root.link → n.root.resolve = some (unpacked r o n.root)
  /-- One that goes through does not name the link. -/
  named : refusal r o running n.root = none → fault answers r o n.root = none →
    r.dirName ≠ current
  /-- And then the process runs from the new directory, or from the one that is replaced, unless
  the old directories are not got to. -/
  restarted : refusal r o running n.root = none → fault answers r o n.root = none →
    o.readDir = true →
      Root.prunes r.dirName (if o.readLink then some n.root.link else none) running = true →
        o.left running = n.root.dirs running

/-- Every request is such a one. -/
def upheld : Transition.Guard (Node β) (Act β)
  | n, .request r o => ∀ running ∈ n.running, Upheld answers n r o running
  | _, .restart => True

end

/-! ## One request -/

section

variable {answers : β → Bool} {n : Node β} {r : InstallBundle β} {o : Outcome β}
  {running : String} {dir : Dir β}

theorem Sound.mono {shipped shipped' : List (List (Member β))} (h : Sound answers shipped dir)
    (hsub : shipped ⊆ shipped') : Sound answers shipped' dir := by
  obtain ⟨archive, hmem, hholds⟩ := h.whole
  exact ⟨⟨archive, hsub hmem, hholds⟩, h.runs⟩

theorem Root.resolve_eq {root : Root β} (h : root.link ≠ current) :
    root.resolve = root.dirs root.link := if_neg h

theorem Node.Healthy.link_ne (h : n.Healthy answers) : n.root.link ≠ current := by
  obtain ⟨dir, hdir, -⟩ := h
  intro hlink
  rw [Root.resolve, if_pos hlink] at hdir
  cases hdir

theorem Root.through_of_ne {root : Root β} {name : String} (h : name ≠ current) :
    root.through name = name := if_neg h

/-- Nothing is unpacked unless the process's own directory is there. -/
theorem dirs_running_of_refusal {root : Root β} (h : refusal r o running root = none) :
    root.dirs running ≠ none := by
  simp only [refusal, Option.or_eq_none_iff] at h
  have hroot := h.2.1
  unfold installRoot at hroot
  split at hroot
  · cases hroot
  · intro hnone
    rw [hnone] at hroot
    cases hroot

/-- What a refused request leaves is the root as it was, but for an empty directory. -/
theorem refused_dirs {root : Root β} {name : String} (h : root.dirs name ≠ none) :
    (refused r o running root).dirs name = root.dirs name := by
  unfold refused
  split_ifs with hmade
  · rfl
  · have hne : r.dirName ≠ current := fun heq ↦ hmade (.inr (.inr (.inr heq)))
    rw [Root.set_dirs, Root.contents, Root.through_of_ne hne]
    split_ifs with hname
    · subst hname
      obtain ⟨dir, hdir⟩ := Option.ne_none_iff_exists'.mp h
      rw [hdir, Option.getD_some]
    · rfl

theorem refused_dirs_of_ne {root : Root β} {name : String} (h : name ≠ root.through r.dirName) :
    (refused r o running root).dirs name = root.dirs name := by
  unfold refused
  split_ifs with hmade
  · rfl
  · have hne : r.dirName ≠ current := fun heq ↦ hmade (.inr (.inr (.inr heq)))
    rw [Root.through_of_ne hne] at h
    rw [Root.set_dirs, if_neg h]

theorem refused_link {root : Root β} : (refused r o running root).link = root.link := by
  unfold refused
  split_ifs <;> rfl

/-- A request is refused, or fails once its archive is open, or goes through. -/
theorem install_cases (answers : β → Bool) (r : InstallBundle β) (o : Outcome β)
    (running : String) (root : Root β) :
    (∃ e, install answers r o running root = (.error e, refused r o running root)) ∧
        refusal r o running root ≠ none ∨
      refusal r o running root = none ∧ fault answers r o root ≠ none ∧
        (∃ e, install answers r o running root =
          (.error e, root.set (root.through r.dirName) (unpacked r o root))) ∨
      refusal r o running root = none ∧ fault answers r o root = none ∧
        ∃ done, install answers r o running root =
          (.ok done, Root.prune
            { root.set (root.through r.dirName) (unpacked r o root) with link := r.dirName } o
            r.dirName (if o.readLink then some root.link else none)) := by
  rcases hrefusal : refusal r o running root with _ | e
  · rcases hfault : fault answers r o root with _ | e
    · refine .inr (.inr ⟨rfl, rfl, ?_⟩)
      simp only [install, hrefusal, hfault]
      exact ⟨_, rfl⟩
    · refine .inr (.inl ⟨rfl, nofun, e, ?_⟩)
      simp only [install, hrefusal, hfault]
  · refine .inl ⟨⟨e, ?_⟩, nofun⟩
    simp only [install, hrefusal]

theorem runs_of_fault (h : fault answers r o n.root = none) :
    unpacked r o n.root = unpack r.tarball (n.root.contents r.dirName) ∧
      (unpacked r o n.root).runs answers = true := by
  simp only [fault, Option.or_eq_none_iff, Option.map_eq_none_iff] at h
  obtain ⟨htar, -, hruns, -⟩ := h
  have hanswered : ¬(o.refuses = true ∨ (!(unpacked r o n.root).runs answers) = true) := by
    intro hnot
    rw [if_pos hnot] at hruns
    cases hruns
  refine ⟨by rw [unpacked, htar], ?_⟩
  simpa using (not_or.mp hanswered).2

/-- A failed request that leaves what `current` leads to, and the directory of the process, is all or
nothing. -/
theorem allOrNothing_of_kept (hn : n.Healthy answers) {e : InstallError} {root : Root β}
    (hinstall : install answers r o running n.root = (.error e, root))
    (hlink : root.link = n.root.link) (hresolve : root.resolve = n.root.resolve)
    (hspared : running ≠ n.root.through r.dirName → root.dirs running = n.root.dirs running) :
    AllOrNothing answers n r o running := by
  obtain ⟨dir, hdir, hsound⟩ := hn
  refine ⟨⟨dir, ?_, hsound.mono (List.subset_cons_self _ _)⟩, fun _ _ ↦ ?_, fun hne ↦ ?_⟩
  · rw [hinstall, ← hdir, ← hresolve]
  · rw [hinstall]
    exact ⟨hlink, hresolve⟩
  · rw [hinstall]
    exact hspared hne

theorem allOrNothing_of_refused (hn : n.Healthy answers) {e : InstallError}
    (hinstall : install answers r o running n.root = (.error e, refused r o running n.root)) :
    AllOrNothing answers n r o running := by
  have hlink := hn.link_ne
  refine allOrNothing_of_kept hn hinstall refused_link ?_ refused_dirs_of_ne
  obtain ⟨dir, hdir, -⟩ := hn
  rw [Root.resolve_eq hlink] at hdir
  rw [Root.resolve_eq (refused_link.trans_ne hlink), Root.resolve_eq hlink, refused_link,
    refused_dirs (by rw [hdir]; exact nofun)]

/-- A request that fails once its archive is open is all or nothing as long as `current` leads
elsewhere, or to what was there. -/
theorem allOrNothing_iff_of_fault (hn : n.Healthy answers) {e : InstallError}
    (hinstall : install answers r o running n.root =
      (.error e, n.root.set (n.root.through r.dirName) (unpacked r o n.root))) :
    AllOrNothing answers n r o running ↔
      (n.root.through r.dirName = n.root.link → n.root.resolve = some (unpacked r o n.root)) := by
  have hlink := hn.link_ne
  have hresolve : (n.root.set (n.root.through r.dirName) (unpacked r o n.root)).resolve =
      if n.root.link = n.root.through r.dirName then some (unpacked r o n.root)
      else n.root.resolve := by
    have hset : (n.root.set (n.root.through r.dirName) (unpacked r o n.root)).link ≠ current := hlink
    rw [Root.resolve_eq hset, Root.resolve_eq hlink, Root.set_link, Root.set_dirs]
  constructor
  · intro h hthrough
    have hfailed := (h.failed e (by rw [hinstall])).2
    rw [hinstall, hresolve, if_pos hthrough.symm] at hfailed
    exact hfailed.symm
  · intro h
    refine allOrNothing_of_kept hn hinstall rfl ?_ fun hne ↦ ?_
    · rw [hresolve]
      split_ifs with hthrough
      · exact (h hthrough.symm).symm
      · rfl
    · rw [Root.set_dirs, if_neg hne]

/-- A request that goes through is all or nothing as long as it does not name the link, and the
directory of the process is not one of those that are removed. -/
theorem allOrNothing_iff_of_done {previous : Option String} {done : BundleInstalled}
    (hfault : fault answers r o n.root = none) (hdirs : n.root.dirs running ≠ none)
    (hinstall : install answers r o running n.root = (.ok done, Root.prune
      { n.root.set (n.root.through r.dirName) (unpacked r o n.root) with link := r.dirName } o
        r.dirName previous)) :
    AllOrNothing answers n r o running ↔ r.dirName ≠ current ∧
      (o.readDir = true → Root.prunes r.dirName previous running = true →
        o.left running = n.root.dirs running) := by
  obtain ⟨hunpacked, hruns⟩ := runs_of_fault hfault
  obtain ⟨dir, hdir⟩ := Option.ne_none_iff_exists'.mp hdirs
  have hspared (hne : r.dirName ≠ current) (hrunning : running ≠ r.dirName) :
      (install answers r o running n.root).2.dirs running =
        if o.readDir = true ∧ Root.prunes r.dirName previous running = true then o.left running
        else n.root.dirs running := by
    rw [hinstall, Root.prune]
    simp only [Root.set_dirs, Root.through_of_ne hne, if_neg hrunning, hdir, Option.bind_some]
  have hnew : Root.prunes r.dirName previous r.dirName = false := by
    simp [Root.prunes]
  constructor
  · intro h
    have hne : r.dirName ≠ current := by
      intro heq
      obtain ⟨dir, hdir, -⟩ := h.current
      rw [hinstall, Root.resolve, Root.prune, if_pos heq] at hdir
      cases hdir
    refine ⟨hne, fun hread hprunes ↦ ?_⟩
    have hrunning : running ≠ r.dirName := by
      rintro rfl
      rw [hnew] at hprunes
      cases hprunes
    have hkept := h.spared (by rwa [Root.through_of_ne hne])
    rwa [hspared hne hrunning, if_pos ⟨hread, hprunes⟩] at hkept
  · rintro ⟨hne, hleft⟩
    refine ⟨⟨unpacked r o n.root, ?_, ⟨r.tarball, List.mem_cons_self, ?_⟩, hruns⟩,
      fun e he ↦ ?_, fun hrunning ↦ ?_⟩
    · rw [hinstall, Root.resolve_eq hne, Root.prune]
      simp only [hnew, Bool.false_eq_true, and_false, if_false, Root.set_dirs,
        Root.through_of_ne hne, if_true]
    · rw [hunpacked]
      exact holds_unpack _ _
    · rw [hinstall] at he
      cases he
    · rw [Root.through_of_ne hne] at hrunning
      rw [hspared hne hrunning]
      split_ifs with hprunes
      · exact hleft hprunes.1 hprunes.2
      · rfl

/-- Exactly the requests that are upheld are all or nothing. -/
theorem allOrNothing_iff (hn : n.Healthy answers) :
    AllOrNothing answers n r o running ↔ Upheld answers n r o running := by
  rcases install_cases answers r o running n.root with
    ⟨⟨e, hinstall⟩, hrefusal⟩ | ⟨hrefusal, hfault, e, hinstall⟩ |
      ⟨hrefusal, hfault, done, hinstall⟩
  · refine iff_of_true (allOrNothing_of_refused hn hinstall) ⟨fun h ↦ ?_, fun h ↦ ?_, fun h ↦ ?_⟩
    all_goals exact absurd h hrefusal
  · rw [allOrNothing_iff_of_fault hn hinstall]
    refine ⟨fun h ↦ ⟨fun _ _ ↦ h, fun _ h ↦ ?_, fun _ h ↦ ?_⟩, fun h ↦ h.kept hrefusal hfault⟩
    all_goals exact absurd h hfault
  · rw [allOrNothing_iff_of_done hfault (dirs_running_of_refusal hrefusal) hinstall]
    refine ⟨fun h ↦ ⟨fun _ hfault' ↦ absurd hfault hfault', fun _ _ ↦ h.1, fun _ _ ↦ h.2⟩,
      fun h ↦ ⟨h.named hrefusal hfault, h.restarted hrefusal hfault⟩⟩

/-! ## Sequences of them -/

theorem healthy_of_next {a : Act β} {n' : Node β} (hn : n.Healthy answers)
    (ha : upheld answers n a) (hnext : n.next answers a = some n') : n'.Healthy answers := by
  cases a with
  | request r o =>
    obtain ⟨running, hrunning, rfl⟩ := Option.map_eq_some_iff.mp hnext
    exact ((allOrNothing_iff hn).mpr (ha running hrunning)).current
  | restart =>
    cases hnext
    exact hn

theorem healthy_of_reachable (h : (system answers).Reachable (upheld answers) n) :
    n.Healthy answers :=
  h.invariant (fun _ h ↦ h) fun _ _ _ ↦ healthy_of_next

/-- **Self-updates are all or nothing as long as they name a fresh directory and the agent has been
restarted since.** In every sequence of requests and restarts whose requests were all upheld, one
more request leaves `current` with a whole bundle that runs, the same as before if the request
failed, and the directory of the process alone; if, and only if, it is upheld too. -/
theorem allOrNothing_iff_upheld (h : (system answers).Reachable (upheld answers) n) :
    AllOrNothing answers n r o running ↔ Upheld answers n r o running :=
  allOrNothing_iff (healthy_of_reachable h)

end

/-- A bundle of nothing but a binary, which answers or does not. -/
private def bundleOf (version : String) (answering : Bool) : InstallBundle Bool where
  version := version
  dirName := version
  tarball := [⟨binary, answering⟩]

/-- A node as it is first installed, running what `current` leads to. -/
private def firstInstall : Node Bool where
  root := ⟨"/opt/spark-pulse", fun name ↦ if name = "v1" then
    some (unpack (bundleOf "v1" true).tarball fun _ ↦ none) else none, "v1"⟩
  running := some "v1"
  shipped := [(bundleOf "v1" true).tarball]

private theorem firstInstall_healthy : firstInstall.Healthy id :=
  ⟨_, rfl, ⟨_, List.mem_cons_self, holds_unpack _ _⟩, rfl⟩

/-- The node is sent a second version, and is not restarted. -/
private def secondInstalled : Node Bool := { firstInstall with
  root := (install id (bundleOf "v2" true) {} "v1" firstInstall.root).2
  shipped := [(bundleOf "v2" true).tarball, (bundleOf "v1" true).tarball] }

/-- A first update of a node that runs what it was installed with is upheld, and so is one whose
binary does not answer. -/
theorem allOrNothing_of_firstInstall :
    AllOrNothing id firstInstall (bundleOf "v2" true) {} "v1" ∧
      AllOrNothing id firstInstall (bundleOf "v2" false) {} "v1" := by
  have hreachable := Transition.System.Reachable.init (S := system id) (G := upheld id)
    firstInstall_healthy
  refine ⟨(allOrNothing_iff_upheld hreachable).mpr ⟨fun _ h ↦ absurd rfl h, fun _ _ ↦ ?_,
      fun _ _ _ h ↦ ?_⟩,
    (allOrNothing_iff_upheld hreachable).mpr ⟨fun _ _ h ↦ ?_, fun _ h ↦ ?_, fun _ h ↦ ?_⟩⟩
  · decide
  · exact absurd h (by decide)
  · exact absurd h (by decide)
  · cases h
  · cases h

/-- A request is not all or nothing in general. The third version prunes the first, which is what
runs as long as there was no restart; a bundle that does not answer is unpacked over the one that
`current` names; and one that is named like the link makes it name itself. -/
theorem install_not_allOrNothing :
    (system id).Reachable Transition.Guard.free secondInstalled ∧
      ¬AllOrNothing id secondInstalled (bundleOf "v3" true) {} "v1" ∧
      ¬AllOrNothing id firstInstall (bundleOf "v1" false) {} "v1" ∧
      ¬AllOrNothing id firstInstall (bundleOf current true) {} "v1" := by
  have hinit : (system id).init firstInstall := firstInstall_healthy
  refine ⟨⟨_, hinit, .single (a := .request (bundleOf "v2" true) {}) trivial rfl⟩,
    fun h ↦ ?_, fun h ↦ ?_, fun h ↦ ?_⟩
  · have hspared := congrArg Option.isSome (h.spared (by decide))
    exact absurd hspared (by decide)
  · have hresolve := congrArg (Option.map fun dir ↦ dir binary) (h.failed _ rfl).2
    exact absurd hresolve (by decide)
  · obtain ⟨dir, hdir, -⟩ := h.current
    cases hdir

end SparkPulse.Agent.SelfUpdate
