import Mathlib.Algebra.Order.Ring.Int
import SparkPulse.Program.Threads
import SparkPulse.Runtime.Persistence

/-!
# Download and pull jobs

The job registries of `tools/models.py` and `tools/images.py`, and the threads over them: requests
that start, cancel and clear jobs, one worker for each job, and what reports its progress.

Each lock section is one call, and so is each use of the set `_cancelled`, which no lock guards. The
hub, the disk and the container service are answered by the schedule. The times a job was started
and finished at are left out, as are the events, which only go to whoever watches.
-/

namespace SparkPulse.Jobs

open Program

/-! ## Data -/

/-- Downloads of models and pulls of images. -/
inductive Kind
  | download
  | pull
  deriving DecidableEq, Repr

/-- The draws of `uuid4`, numbered. -/
abbrev JobId := Nat

inductive Tid
  | client (n : Nat)
  /-- `_run_download` or `_run_pull` for a job. -/
  | worker (id : JobId)
  /-- `_progress_monitor` of a download; for a pull, the event loop that calls `_progress`. -/
  | progress (id : JobId)
  deriving DecidableEq, Repr

inductive Status
  | queued
  | running
  | completed
  | failed
  | cancelled
  deriving DecidableEq, Repr

/-- `_ACTIVE_DOWNLOAD_STATES` -/
def Status.active : Status → Bool
  | .queued | .running => true
  | _ => false

/-- `TERMINAL_STATES` -/
def Status.terminal : Status → Bool
  | .completed | .failed | .cancelled => true
  | _ => false

theorem Status.active_eq_not_terminal (s : Status) : s.active = !s.terminal := by
  cases s <;> rfl

structure Job where
  id : JobId := 0
  /-- The `model` of a download, the `ref` of a pull. -/
  subject : String
  source : Option String := none
  revision : Option String := none
  allowPatterns : List String := []
  status : Status := .queued
  bytesDone : Nat := 0
  bytesTotal : Nat := 0
  filesTotal : Nat := 0
  currentFile : Option String := none
  /-- The `path` of a download, the `image_id` of a pull. -/
  path : Option String := none
  error : Option String := none
  cancelRequested : Bool := false
  createdAt : String := ""
  deriving DecidableEq, Repr

/-- The fields an update gives. -/
structure Fields where
  status : Option Status := none
  bytesDone : Option Nat := none
  bytesTotal : Option Nat := none
  currentFile : Option (Option String) := none
  path : Option (Option String) := none
  error : Option String := none
  cancelRequested : Option Bool := none

def Fields.update (f : Fields) (job : Job) : Job :=
  { job with
    status := f.status.getD job.status
    bytesDone := f.bytesDone.getD job.bytesDone
    bytesTotal := f.bytesTotal.getD job.bytesTotal
    currentFile := f.currentFile.getD job.currentFile
    path := f.path.getD job.path
    error := if f.error.isSome then f.error else job.error
    cancelRequested := f.cancelRequested.getD job.cancelRequested }

structure Source where
  name : String
  type : String
  deriving DecidableEq, Repr

structure PlanEntry where
  path : String
  size : Nat
  deriving DecidableEq, Repr

/-- `_plan_bytes` -/
def planBytes (plan : List PlanEntry) : Nat := (plan.map PlanEntry.size).sum

inductive Failure
  | valueError (message : String)
  | downloadInProgress (job : Job)
  /-- `_DownloadCancelled` or `PullCancelled` -/
  | cancelled
  /-- Any other exception, by the text it is reported with. -/
  | other (text : String)
  deriving DecidableEq, Repr

/-- How the exception is reported on the job. -/
def Failure.text : Failure → String
  | .valueError message => message
  | .downloadInProgress job => s!"{job.subject} is already downloading as job " ++
      s!"{job.id}; cancel it before starting a different download of the same model"
  | .cancelled => "cancelled"
  | .other text => text

/-! ## Calls -/

inductive Call
  /-- What the thread was started with. -/
  | await
  | spawn (t : Tid) (plan : List PlanEntry)
  | jobs
  | get (id : JobId)
  | insert (job : Job)
  | set (id : JobId) (fields : Fields)
  | clear
  | isCancelled (id : JobId)
  | cancel (id : JobId)
  | uncancel (id : JobId)
  | stop (id : JobId)
  | stopped (id : JobId)
  /-- The lock section of `_notify_finished`: whether the job had not been announced. -/
  | announce (id : JobId)
  /-- The finish listeners, called one after the other. -/
  | tell (job : Job)
  | getSource (name : Option String)
  | planFiles (model : String) (source : Source) (revision : Option String)
      (allowPatterns : List String)
  | checkDiskSpace (bytes : Nat)
  | repoPath (model : String)
  | download (job : Job) (path : String)
  | snapshotDownload (job : Job)
  | record (job : Job) (path : String)
  | measure (id : JobId)
  | pullImage (ref : String)

@[reducible] def Call.Ret : Call → Type
  | await => List PlanEntry
  | jobs => List Job
  | get _ | set .. => Option Job
  | insert _ => Job
  | isCancelled _ | stopped _ | announce _ => Bool
  | getSource _ => Except Failure Source
  | planFiles .. => List PlanEntry
  | checkDiskSpace _ => Except Failure Unit
  | repoPath _ => String
  -- the bytes that landed, and the snapshot they landed in
  | download .. | snapshotDownload _ => Except Failure (Nat × String)
  -- the bytes done, and the bytes in all
  | measure _ => Nat × Nat
  | pullImage _ => Except Failure (Nat × Nat × Option String)
  | spawn .. | clear | cancel _ | uncancel _ | stop _ | tell _ | record .. => Unit

/-- A program over a registry. -/
abbrev Op := Prog Call Call.Ret Failure

/-- Make one call. -/
abbrev invoke (c : Call) : Op c.Ret := Prog.call c

/-! ## Both kinds -/

/-- `a or None` -/
def orNone (a : Option String) : Option String := a.filter fun s ↦ s ≠ ""

def notifyFinished (job : Job) : Op Unit := do
  if ← invoke (.announce job.id) then invoke (.tell job) else return

/-- `_publish_job`: only downloads have listeners. -/
def publishJob (k : Kind) (job : Job) : Op Unit :=
  match k with
  | .download => if job.status.terminal then notifyFinished job else pure ()
  | .pull => pure ()

/-- `_set_job` and, when the job is there, `_publish_job`. -/
def setAndPublish (k : Kind) (id : JobId) (fields : Fields) : Op (Option Job) := do
  match ← invoke (.set id fields) with
  | none => return none
  | some job =>
    publishJob k job
    return some job

/-- `cancel_download` and `cancel_pull`. -/
def cancelJob (k : Kind) (id : JobId) : Op (Option Job) := do
  match ← invoke (.get id) with
  | none => return none
  | some job =>
    if job.status.terminal then return some job
    else
      invoke (.cancel id)
      if job.status = .queued then setAndPublish k id { status := some .cancelled }
      else invoke (.set id { cancelRequested := some true })

/-- Insert a job, publish it and start its worker. -/
def launch (k : Kind) (job : Job) (plan : List PlanEntry) : Op Job := do
  let snapshot ← invoke (.insert job)
  publishJob k snapshot
  invoke (.spawn (.worker snapshot.id) plan)
  return snapshot

/-! ## Downloads -/

/-- `_active_download_for`, of the jobs at one moment. -/
def activeDownloadFor (model : String) (jobs : List Job) : Option Job :=
  jobs.find? fun job ↦ job.status.active ∧ job.subject = model

/-- Whether a running job is fetching exactly what is being asked for. -/
def sameRequest (job : Job) (source : String) (revision : Option String)
    (allowPatterns : List String) : Bool :=
  job.source = some source ∧ orNone job.revision = orNone revision ∧
    job.allowPatterns = allowPatterns

/-- Queue a snapshot download. -/
def queueDownload (model : String) (source : Source) (revision : Option String)
    (allowPatterns : List String) : Op Job := do
  match activeDownloadFor model (← invoke .jobs) with
  | some existing =>
    if sameRequest existing source.name revision allowPatterns then return existing
    else Prog.raise (.downloadInProgress existing)
  | none =>
    let plan ← invoke (.planFiles model source revision allowPatterns)
    match ← invoke (.checkDiskSpace (planBytes plan)) with
    | .error exc => Prog.raise exc
    | .ok () =>
      let job : Job := {
        subject := model
        source := some source.name
        revision, allowPatterns
        bytesTotal := planBytes plan
        filesTotal := plan.length }
      launch .download job plan

def startDownload (model : String) (source revision : Option String)
    (allowPatterns : List String) : Op Job := do
  if Runtime.strip model = "" then Prog.raise (.valueError "model is required")
  else
    match ← invoke (.getSource source) with
    | .error exc => Prog.raise exc
    | .ok src =>
      if src.type ≠ "hf_hub" then
        Prog.raise (.valueError s!"Source '{src.name}' is a local path — nothing to download")
      else queueDownload (Runtime.strip model) src revision allowPatterns

/-- `cancel_download` -/
def cancelDownload (id : JobId) : Op (Option Job) := cancelJob .download id

/-- `clear_finished_downloads` -/
def clearFinishedDownloads : Op Unit := invoke .clear

/-- `_landed`: what a file adds to the bytes done, never more than its own size. -/
def landed (actual expected : Nat) : Nat :=
  if expected ≠ 0 then min actual expected else actual

/-- `_download_plan`: the snapshot the files landed in, and the bytes done. -/
def downloadPlan (id : JobId) (job : Job) :
    List PlanEntry → (done : Nat) → (snapshot : String) → Op (String × Nat)
  | [], done, snapshot => do
    if ← invoke (.isCancelled id) then Prog.raise .cancelled
    else if snapshot = "" then return (← invoke (.repoPath job.subject), done)
    else return (snapshot, done)
  | entry :: entries, done, snapshot => do
    if ← invoke (.isCancelled id) then Prog.raise .cancelled
    else
      let _ ← invoke (.set id { currentFile := some (some entry.path) })
      match ← invoke (.download job entry.path) with
      | .error exc => Prog.raise exc
      | .ok (actual, root) =>
        downloadPlan id job entries (done + landed actual entry.size)
          (if snapshot = "" then root else snapshot)

/-- Fetch the files, one at a time when there is a plan. -/
def fetchModel (id : JobId) (job : Job) (plan : List PlanEntry) : Op (String × Nat) := do
  if plan.isEmpty then
    match ← invoke (.snapshotDownload job) with
    | .error exc => Prog.raise exc
    | .ok (bytes, path) => return (path, bytes)
  else downloadPlan id job plan 0 ""

/-- The end of a download that was fetched. -/
def completeDownload (id : JobId) (job : Job) (path : String) (done : Nat) : Op Unit := do
  match ← invoke (.set id
    { status := some .completed, path := some (some path), bytesDone := some done
      bytesTotal := some (max done job.bytesTotal), currentFile := some none
      cancelRequested := some false }) with
  | none => return
  | some finished =>
    invoke (.record finished path)
    publishJob .download finished

/-- The end of a download that was not. -/
def abandonDownload (id : JobId) (exc : Failure) : Op Unit := do
  if ← invoke (.isCancelled id) then
    let _ ← setAndPublish .download id
      { status := some .cancelled, currentFile := some none, cancelRequested := some false }
  else
    let _ ← setAndPublish .download id { status := some .failed, error := some exc.text }

/-- The part of `_run_download` after the job has been set running. -/
def fetchAndSettle (id : JobId) (job : Job) (plan : List PlanEntry) : Op Unit := do
  match ← (fetchModel id job plan).attempt with
  | .ok (path, done) =>
    invoke (.stop id)
    completeDownload id job path done
    invoke (.uncancel id)
  | .error exc =>
    invoke (.stop id)
    abandonDownload id exc
    invoke (.uncancel id)

def runDownload (id : JobId) (plan : List PlanEntry) : Op Unit := do
  match ← invoke (.get id) with
  | none => return
  | some job =>
    if ← invoke (.isCancelled id) then
      let _ ← setAndPublish .download id { status := some .cancelled }
    else
      let _ ← setAndPublish .download id { status := some .running }
      invoke (.spawn (.progress id) plan)
      fetchAndSettle id job plan

/-- `_progress_monitor`, for a number of polls. -/
def progressMonitor (id : JobId) : Nat → Op Unit
  | 0 => pure ()
  | polls + 1 => do
    if ← invoke (.stopped id) then return
    else
      let (size, _) ← invoke (.measure id)
      match ← invoke (.set id { bytesDone := some size }) with
      | none => return
      | some job =>
        if job.status = .running then
          publishJob .download job
          progressMonitor id polls
        else return

/-! ## Pulls -/

/-- `list_pulls`, of the jobs at one moment: newest first. -/
def listPulls (jobs : List Job) : List Job :=
  jobs.mergeSort fun a b ↦ decide (b.createdAt ≤ a.createdAt)

def startPull (ref : String) : Op Job := do
  if Runtime.strip ref = "" then Prog.raise (.valueError "ref is required")
  else
    match (listPulls (← invoke .jobs)).find? fun job ↦
        job.subject = Runtime.strip ref ∧ job.status.active with
    | some job => return job
    | none => launch .pull { subject := Runtime.strip ref } []

/-- `cancel_pull` -/
def cancelPull (id : JobId) : Op (Option Job) := cancelJob .pull id

/-- `clear_finished_pulls` -/
def clearFinishedPulls : Op Unit := invoke .clear

/-- The end of a pull that raised. -/
def abandonPull (id : JobId) (exc : Failure) : Op Unit := do
  if exc = .cancelled then
    let _ ← setAndPublish .pull id { status := some .cancelled }
  else if ← invoke (.isCancelled id) then
    let _ ← setAndPublish .pull id { status := some .cancelled }
  else
    let _ ← setAndPublish .pull id { status := some .failed, error := some exc.text }

/-- The part of `_run_pull` after the job has been set running. -/
def pullAndSettle (id : JobId) (job : Job) : Op Unit := do
  match ← invoke (.pullImage job.subject) with
  | .error exc =>
    abandonPull id exc
    invoke (.uncancel id)
  | .ok (done, total, imageId) =>
    let _ ← setAndPublish .pull id
      { status := some .completed, bytesDone := some done, bytesTotal := some total
        path := some imageId }
    invoke (.uncancel id)

def runPull (id : JobId) : Op Unit := do
  match ← invoke (.get id) with
  | none => return
  | some job =>
    if ← invoke (.isCancelled id) then
      let _ ← setAndPublish .pull id { status := some .cancelled }
      invoke (.uncancel id)
    else
      let _ ← setAndPublish .pull id { status := some .running }
      invoke (.spawn (.progress id) [])
      pullAndSettle id job

/-- A number of calls of `_progress`. -/
def pullProgress (id : JobId) : Nat → Op Unit
  | 0 => pure ()
  | polls + 1 => do
    let (done, total) ← invoke (.measure id)
    let _ ← setAndPublish .pull id { bytesDone := some done, bytesTotal := some total }
    pullProgress id polls

/-! ## The registry -/

/-- A registry and its threads, and what is recorded beside them: the last status each job had, the
ends the listeners were told of, and the threads that still have to announce an end they wrote or to
tell one they announced. Identifiers are drawn in increasing order. -/
structure Registry where
  jobs : JobId → Option Job := fun _ ↦ none
  next : JobId := 0
  cancelled : List JobId := []
  notified : List JobId := []
  stopped : List JobId := []
  spawned : Tid → Option (List PlanEntry) := fun _ ↦ none
  last : JobId → Option Status := fun _ ↦ none
  told : List (JobId × Status) := []
  owed : List (Tid × JobId) := []
  telling : List (Tid × JobId) := []

/-- What the schedule decides about one call. -/
structure Answer where
  raises : Option Failure := none
  source : Source := ⟨"hf", "hf_hub"⟩
  plan : List PlanEntry := []
  text : String := ""
  imageId : Option String := none
  done : Nat := 0
  total : Nat := 0

/-- What a call that may raise answers. -/
def Answer.reply {α : Type} (a : Answer) (value : α) : Except Failure α :=
  match a.raises with
  | some exc => .error exc
  | none => .ok value

namespace Registry

/-- The jobs in the order they were inserted in. -/
def listing (w : Registry) : List Job := (List.range w.next).filterMap w.jobs

def insert (job : Job) (createdAt : String) (w : Registry) : Job × Registry :=
  let job := { job with id := w.next, createdAt }
  (job, { w with
    jobs := Function.update w.jobs w.next (some job)
    next := w.next + 1
    last := Function.update w.last w.next (some job.status) })

/-- The update of a job; a thread that writes an end has to announce it. -/
def set (i : Tid) (id : JobId) (fields : Fields) (w : Registry) : Option Job × Registry :=
  match w.jobs id with
  | none => (none, w)
  | some job =>
    (some (fields.update job), { w with
      jobs := Function.update w.jobs id (some (fields.update job))
      last := Function.update w.last id (some (fields.update job).status)
      owed := if fields.status.any Status.terminal then (i, id) :: w.owed else w.owed })

/-- Whether a job is there to be cleared. -/
def stale (w : Registry) (id : JobId) : Bool := (w.jobs id).any fun job ↦ job.status.terminal

def clear (w : Registry) : Registry :=
  { w with
    jobs := fun id ↦ (w.jobs id).filter fun job ↦ !job.status.terminal
    notified := w.notified.filter fun id ↦ !w.stale id }

def announce (i : Tid) (id : JobId) (w : Registry) : Bool × Registry :=
  if id ∈ w.notified then (false, { w with owed := w.owed.filter fun o ↦ o ≠ (i, id) })
  else (true, { w with
    notified := id :: w.notified
    owed := w.owed.filter fun o ↦ o ≠ (i, id)
    telling := (i, id) :: w.telling })

def tell (i : Tid) (job : Job) (w : Registry) : Registry :=
  { w with
    told := (job.id, job.status) :: w.told
    telling := w.telling.filter fun o ↦ o ≠ (i, job.id) }

/-- Requests come from outside; the other threads run once they are started. -/
def started (w : Registry) : Tid → Bool
  | .client _ => true
  | t => (w.spawned t).isSome

end Registry

/-- One call by a thread that has been started. -/
def Call.exec (i : Tid) (w : Registry) (c : Call) (a : Answer) : Option (c.Ret × Registry) :=
  if w.started i = false then none else
  match c with
  | .await => (w.spawned i).map fun plan ↦ (plan, w)
  | .spawn t plan => some ((), { w with spawned := Function.update w.spawned t (some plan) })
  | .jobs => some (w.listing, w)
  | .get id => some (w.jobs id, w)
  | .insert job => some (w.insert job a.text)
  | .set id fields => some (w.set i id fields)
  | .clear => some ((), w.clear)
  | .isCancelled id => some (decide (id ∈ w.cancelled), w)
  | .cancel id => some ((), { w with cancelled := id :: w.cancelled })
  | .uncancel id => some ((), { w with cancelled := w.cancelled.filter fun c ↦ c ≠ id })
  | .stop id => some ((), { w with stopped := id :: w.stopped })
  | .stopped id => some (decide (id ∈ w.stopped), w)
  | .announce id => some (w.announce i id)
  | .tell job => some ((), w.tell i job)
  | .getSource _ => some (a.reply a.source, w)
  | .planFiles .. => some (a.plan, w)
  | .checkDiskSpace _ => some (a.reply (), w)
  | .repoPath _ => some (a.text, w)
  | .download .. | .snapshotDownload _ => some (a.reply (a.done, a.text), w)
  | .record .. => some ((), w)
  | .measure _ => some ((a.done, a.total), w)
  | .pullImage _ => some (a.reply (a.done, a.total, a.imageId), w)

/-! ## Threads -/

inductive Request
  /-- `start_download`, or `start_pull` of the subject. -/
  | start (subject : String) (source revision : Option String) (allowPatterns : List String)
  | cancel (id : JobId)
  | clear

def Request.program : Kind → Request → Op Unit
  | .download, .start model source revision allowPatterns => do
    let _ ← startDownload model source revision allowPatterns
  | .download, .cancel id => do let _ ← cancelDownload id
  | .download, .clear => clearFinishedDownloads
  | .pull, .start ref _ _ _ => do let _ ← startPull ref
  | .pull, .cancel id => do let _ ← cancelPull id
  | .pull, .clear => clearFinishedPulls

/-- What each thread runs, for some requests and numbers of progress reports. -/
def program (k : Kind) (requests : Nat → Request) (polls : JobId → Nat) : Tid → Op Unit
  | .client n => (requests n).program k
  | .worker id => do
    let plan ← invoke .await
    match k with
    | .download => runDownload id plan
    | .pull => runPull id
  | .progress id => do
    let _ ← invoke .await
    match k with
    | .download => progressMonitor id (polls id)
    | .pull => pullProgress id (polls id)

/-- All interleavings of the threads, over a registry that starts empty. -/
def system (k : Kind) (requests : Nat → Request) (polls : JobId → Nat) :
    Transition.System (Threads Tid Call.Ret Failure Unit Registry) (Tid × Answer) :=
  Threads.system Call.exec fun s ↦ s.pool = program k requests polls ∧ s.world = {}

end SparkPulse.Jobs
