import Mathlib.Data.List.AList
import SparkPulse.Program.Threads

/-!
# Scheduled deploys

Deployments that wait for a model download, from `tools/scheduled_deploys.py`: each is one row of a
table, and `cancel`, the download hook, `reconcile` and the deploy of an entry are programs over it.

A transaction that reads a row and changes it is two calls, its read and its commit, and a commit
writes the columns that were changed. The conditional update of `_claim` is one statement, so one
call. A thread may be killed between any two calls, as by a restart of the control plane; an error
of the database ends a thread in the same way.
-/

namespace SparkPulse.Scheduled

open Program

abbrev Tid := Nat

/-! ## Data -/

inductive Status
  | waiting
  | deploying
  | done
  | failed
  | cancelled
  deriving DecidableEq, Repr

def Status.value : Status → String
  | .waiting => "waiting"
  | .deploying => "deploying"
  | .done => "done"
  | .failed => "failed"
  | .cancelled => "cancelled"

/-- `_ACTIVE` -/
def Status.active : Status → Bool
  | .waiting | .deploying => true
  | _ => false

/-- The body of a create request; an absent field is `none`. -/
structure DeployRequest (ι : Type) where
  recipeId : Option String := none
  name : Option String := none
  params : Option ι := none
  nodes : Option ι := none
  engine : Option String := none
  variant : Option String := none
  model : Option String := none
  extraArgs : Option ι := none
  deriving DecidableEq, Repr

/-- What `create_deployment` is called with. -/
structure CreateArgs (ι : Type) where
  recipeId : String
  name : String
  params : Option ι
  nodes : Option ι
  engine : Option String
  variant : Option String
  model : Option String
  extraArgs : Option ι
  allowMissingModel : Bool
  deriving DecidableEq, Repr

/-- `a or b` for strings. -/
def orElse (a : Option String) (b : String) : String :=
  match a with
  | some s => if s = "" then b else s
  | none => b

def DeployRequest.args {ι : Type} (r : DeployRequest ι) : CreateArgs ι where
  recipeId := r.recipeId.getD ""
  name := orElse r.name (r.recipeId.getD "")
  params := r.params
  nodes := r.nodes
  engine := r.engine
  variant := r.variant
  model := r.model
  extraArgs := r.extraArgs
  allowMissingModel := false

/-- One deployment waiting on one model. -/
structure ScheduledDeploy (ι : Type) where
  id : String
  model : String := ""
  downloadJobId : String := ""
  status : Status := .waiting
  name : String := ""
  recipeId : String := ""
  request : DeployRequest ι := {}
  deploymentId : String := ""
  error : String := ""
  createdAt : String := ""
  finishedAt : String := ""
  deriving DecidableEq, Repr

/-- A download job, as the hook is given it. -/
structure DownloadJob where
  id : String
  model : String
  status : String
  error : String := ""
  deriving DecidableEq, Repr

/-- A commit writes the columns that differ from what the transaction read. -/
def ScheduledDeploy.commit {ι : Type} (row read changed : ScheduledDeploy ι) :
    ScheduledDeploy ι :=
  { row with
    status := if changed.status = read.status then row.status else changed.status
    deploymentId :=
      if changed.deploymentId = read.deploymentId then row.deploymentId else changed.deploymentId
    error := if changed.error = read.error then row.error else changed.error
    finishedAt :=
      if changed.finishedAt = read.finishedAt then row.finishedAt else changed.finishedAt }

/-! ## Calls -/

inductive Call (ι : Type)
  | load (id : String)
  | store (id : String) (read changed : ScheduledDeploy ι)
  | claim (id : String)
  | select
  | getModel (model : String)
  | getDownload (jobId : String)
  | cancelDownload (jobId : String)
  /-- `create_deployment`, for an entry. -/
  | createDeployment (id : String) (args : CreateArgs ι)
  /-- Start a thread that deploys an entry. -/
  | spawn (entry : ScheduledDeploy ι)
  | now
  /-- The answer to a request to cancel an entry. -/
  | respond (id : String) (entry : Option (ScheduledDeploy ι))
  /-- The end of a thread by a crash of its process. -/
  | kill (t : Tid)

@[reducible] def Call.Ret {ι : Type} : Call ι → Type
  | load _ => Option (ScheduledDeploy ι)
  | claim _ => Bool
  | select => List (ScheduledDeploy ι)
  | getModel _ => Except String Bool
  | getDownload _ => Except String (Option DownloadJob)
  | cancelDownload _ => Except String Unit
  | createDeployment .. => Except String (Option String)
  | now => String
  | store .. | spawn _ | respond .. | kill _ => Unit

/-- A program over the table. -/
abbrev Op (ι : Type) := Prog (Call ι) Call.Ret Empty

variable {ι : Type}

/-- Make one call. -/
abbrev invoke (c : Call ι) : Op ι c.Ret := Prog.call c

/-! ## Operations -/

/-- Every scheduled deploy, newest first. -/
def listing (activeOnly : Bool) : Op ι (List (ScheduledDeploy ι)) := do
  let entries ← invoke .select
  let entries := if activeOnly then entries.filter fun e ↦ e.status.active else entries
  return entries.mergeSort fun a b ↦ decide (b.createdAt ≤ a.createdAt)

/-- The active schedules waiting on one model. -/
def forModel (model : String) : Op ι (List (ScheduledDeploy ι)) := do
  return (← listing true).filter fun e ↦ e.model = model

/-- Cancel the download behind a deploy that was called off, when nothing else waits on it. -/
def cancelBehind (stored : ScheduledDeploy ι) : Op ι Unit := do
  let others := (← forModel stored.model).filter fun e ↦ e.downloadJobId = stored.downloadJobId
  if others.isEmpty then
    let _ ← invoke (.cancelDownload stored.downloadJobId)
  else return

/-- Call off a scheduled deploy, and by default the download behind it. -/
def cancel (entryId : String) (cancelDownload : Bool) : Op ι (Option (ScheduledDeploy ι)) := do
  match ← invoke (.load entryId) with
  | none => return none
  | some row =>
    if row.status.active then
      let finishedAt ← invoke .now
      let stored := { row with status := .cancelled, finishedAt }
      invoke (.store entryId row stored)
      if cancelDownload ∧ stored.downloadJobId ≠ "" then
        cancelBehind stored
        return some stored
      else return some stored
    else return some row

def finish (entryId : String) (status : Status) (deploymentId error : Option String) :
    Op ι Unit := do
  match ← invoke (.load entryId) with
  | none => return
  | some row =>
    let finishedAt ← invoke .now
    invoke (.store entryId row { row with
      status, finishedAt
      deploymentId := deploymentId.getD row.deploymentId
      error := error.getD row.error })

/-- `s[:2000]` -/
def clip (s : String) : String := .ofList (s.toList.take 2000)

/-- Create the deployment an entry was holding. -/
def deploy (entry : ScheduledDeploy ι) : Op ι Unit := do
  if ← invoke (.claim entry.id) then
    match ← invoke (.createDeployment entry.id entry.request.args) with
    | .error exc => finish entry.id .failed none (some (clip exc))
    | .ok deploymentId => finish entry.id .done (some (deploymentId.getD "")) none
  else return

/-- What the hook does for one entry. -/
def settleFor (job : DownloadJob) (entry : ScheduledDeploy ι) : Op ι Unit :=
  if job.status = "completed" then deploy entry
  else if job.status = "failed" ∨ job.status = "cancelled" then
    if entry.downloadJobId = job.id then
      finish entry.id (if job.status = "failed" then .failed else .cancelled) none
        (some (orElse (some (clip job.error)) s!"the download was {job.status}"))
    else pure ()
  else pure ()

/-- One entry after the other, in the order listed. -/
def each {α : Type} (f : α → Op ι Unit) : List α → Op ι Unit
  | [] => pure ()
  | a :: as => do
    f a
    each f as

/-- The hook that the download thread calls when a job reaches a terminal state. -/
def onDownloadFinished (job : DownloadJob) : Op ι Unit := do
  if job.model = "" then return
  else each (settleFor job) (← forModel job.model)

/-- The download job of an entry, if it has one that can be asked for. -/
def jobOf (entry : ScheduledDeploy ι) : Op ι (Option DownloadJob) := do
  if entry.downloadJobId = "" then return none
  else
    match ← invoke (.getDownload entry.downloadJobId) with
    | .error _ => return none
    | .ok job => return job

/-- What `reconcile` does for one entry, and whether it was acted on. -/
def reconcileEntry (entry : ScheduledDeploy ι) : Op ι Bool := do
  if entry.status = .deploying then
    finish entry.id .failed none (some ("the control plane restarted while this was deploying; " ++
      "check whether the deployment exists and re-issue it if not"))
    return true
  else
    match ← invoke (.getModel entry.model) with
    | .error _ => return false
    | .ok true =>
      invoke (.spawn entry)
      return true
    | .ok false =>
      let job ← jobOf entry
      if job.all fun job ↦ job.status = "failed" ∨ job.status = "cancelled" then
        finish entry.id .failed none
          (some "the download this was waiting on is no longer running")
        return true
      else return false

/-- The entries acted on, counted. -/
def reconcileEach : List (ScheduledDeploy ι) → Op ι Nat
  | [] => pure 0
  | entry :: entries => do
    let acted ← reconcileEntry entry
    let settled ← reconcileEach entries
    return acted.toNat + settled

/-- Settle every active record against what is on disk now. -/
def reconcile : Op ι Nat := do reconcileEach (← listing true)

/-! ## The world -/

/-- What happens to an entry. -/
inductive Event
  | wrote (id : String) (old new : Status)
  /-- `create_deployment` is called for an entry. -/
  | issued (id : String)
  /-- A request to cancel an entry is answered with the entry. -/
  | answered (id : String)
  deriving DecidableEq, Repr

/-- The table, and what is recorded beside it: the claims whose deploys have not been settled by
their own threads, the threads killed, and the history, latest first. -/
structure World (ι : Type) where
  rows : AList fun _ : String ↦ ScheduledDeploy ι := ∅
  claimed : List (String × Tid) := []
  dead : List Tid := []
  log : List Event := []

/-- What the schedule decides about one call. -/
structure Answer where
  raises : Option String := none
  yes : Bool := true
  text : String := ""
  job : Option DownloadJob := none
  deploymentId : Option String := none

namespace World

/-- Write a row that is there. -/
def write (id : String) (row : ScheduledDeploy ι) (old : Status) (w : World ι) : World ι :=
  { w with
    rows := w.rows.insert id row
    log := if row.status = old then w.log else .wrote id old row.status :: w.log }

/-- A commit; that of a thread which has claimed the entry settles its deploy. -/
def store (i : Tid) (id : String) (read changed : ScheduledDeploy ι) (w : World ι) : World ι :=
  match w.rows.lookup id with
  | none => w
  | some row =>
    { w.write id (row.commit read changed) row.status with
      claimed := w.claimed.filter fun c ↦ c ≠ (id, i) }

/-- The conditional update of `_claim`. -/
def claim (i : Tid) (id : String) (w : World ι) : Bool × World ι :=
  match w.rows.lookup id with
  | none => (false, w)
  | some row =>
    if row.status = .waiting then
      (true, { w.write id { row with status := .deploying } row.status with
        claimed := (id, i) :: w.claimed })
    else (false, w)

end World

/-- What a call that may raise answers. -/
def Answer.reply {α : Type} (a : Answer) (value : α) : Except String α :=
  match a.raises with
  | some exc => .error exc
  | none => .ok value

/-- One call by a thread that has not been killed. -/
def Call.exec (i : Tid) (w : World ι) (c : Call ι) (a : Answer) : Option (c.Ret × World ι) :=
  if i ∈ w.dead then none else
  match c with
  | .load id => some (w.rows.lookup id, w)
  | .store id read changed => some ((), w.store i id read changed)
  | .claim id => some (w.claim i id)
  | .select => some (w.rows.entries.map Sigma.snd, w)
  | .getModel _ => some (a.reply a.yes, w)
  | .getDownload _ => some (a.reply a.job, w)
  | .cancelDownload _ => some (a.reply (), w)
  | .createDeployment id _ => some (a.reply a.deploymentId, { w with log := .issued id :: w.log })
  | .spawn _ => some ((), w)
  | .now => some (a.text, w)
  | .respond id entry =>
    some ((), if entry.isSome then { w with log := .answered id :: w.log } else w)
  | .kill t => some ((), { w with dead := t :: w.dead })

/-! ## Threads -/

/-- What a thread runs. -/
inductive Job (ι : Type)
  | cancelScheduled (entryId : String) (cancelDownload : Bool)
  | onDownloadFinished (job : DownloadJob)
  | reconcile
  | deploy (entry : ScheduledDeploy ι)
  /-- A crash of the process of some threads. -/
  | crash (threads : List Tid)

def Job.program : Job ι → Op ι Unit
  | .cancelScheduled entryId cancelDownload => do
    let entry ← cancel entryId cancelDownload
    invoke (.respond entryId entry)
  | .onDownloadFinished job => Scheduled.onDownloadFinished job
  | .reconcile => do let _ ← Scheduled.reconcile
  | .deploy entry => Scheduled.deploy entry
  | .crash threads => each (fun t ↦ invoke (.kill t)) threads

/-- All interleavings of some threads over a table of scheduled deploys. -/
def system (jobs : Tid → Job ι) :
    Transition.System (Threads Tid (@Call.Ret ι) Empty Unit (World ι)) (Tid × Answer) :=
  Threads.system Call.exec fun s ↦
    s.pool = (fun i ↦ (jobs i).program) ∧
      s.world.claimed = [] ∧ s.world.dead = [] ∧ s.world.log = []

end SparkPulse.Scheduled
