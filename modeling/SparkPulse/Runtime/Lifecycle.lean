import SparkPulse.Runtime.Start

/-!
# Stop, delete, and the background start

The requests that change a deployment. A deploy whose image is missing runs on a thread of its own;
a stop or delete of the same deployment may arrive at any moment of it.
-/

namespace SparkPulse.Runtime

open Program Prog

variable (env : Env)

/-! ## Stop and delete -/

/-- The names a stop reports. -/
def stoppedText (entries : List RankEntry) : String :=
  "stopped " ++ joined (entries.map RankEntry.containerName)

/-- The part of `stop_deployment` under the lifecycle lock. -/
def stopLocked (id : String) : Op (Option Record) := do
  match ← getDeployment env id with
  | none => return none
  | some record =>
    let remains ← teardownEntries (rankEntries record)
    publish .deploymentStopped id (stoppedText (rankEntries record))
    updateRecord id {
      status := some .stopped
      stoppedAt := some (some (some (← now)))
      orphans := some remains.orphans
      finalLogs := some remains.logs }

/-- `stop_deployment`: stop every rank, head first, and mark the record stopped. -/
def stopDeployment (id : String) : Op (Option Record) := do
  match ← getDeployment env id with
  | none => return none
  | some _ =>
    -- asked before taking the lock: the pull runs outside it
    let _ ← cancelPull id
    withLock id (stopLocked env id)

/-- The part of `delete_deployment` under the lifecycle lock. -/
def deleteLocked (id : String) : Op Bool := do
  match ← getDeployment env id with
  | none => return false
  | some _ =>
    let stopped ← stopDeployment env id
    if stopped.any fun r ↦ r.orphans ≠ [] then
      return false
    invoke (.dropRecord id)

/-- `delete_deployment`: stop, and drop the record once no rank is outstanding. -/
def deleteDeployment (id : String) : Op Bool := do
  match ← getDeployment env id with
  | none => return false
  | some _ =>
    let _ ← cancelPull id
    withLock id (deleteLocked env id)

/-! ## The background start -/

/-- `create_deployment._watch`: await readiness and record it. -/
def watch (plan : DeployPlan) : Op Unit := do
  match ← (waitReady env plan).attempt with
  | .error (.native text) =>
    withLock plan.deploymentId do
      if ← isTornDown env plan.deploymentId then
        return
      let _ ← failLaunchedGang plan text
  | .error x => .raise x
  | .ok _ =>
    withLock plan.deploymentId do
      if ← isTornDown env plan.deploymentId then
        return
      let _ ← updateRecord plan.deploymentId
        { status := some .running, readyAt := some (some (← now)), errorMessage := some none }
      publish .deploymentReady plan.deploymentId s!"{plan.recipeId} is serving on port {plan.port}"

/-- `create_deployment._pull_then_start`: the thread behind a record in `pulling`. -/
def pullThenStart (plan : DeployPlan) : Op Unit := do
  match ← (start env plan false .pulling).attempt with
  | .error x =>
    if ← isTornDown env plan.deploymentId then
      return
    let _ ← recordError plan.deploymentId
      s!"the deploy of {plan.deploymentId} failed to start: {x.text}" {}
  | .ok started =>
    if started.status.finished then
      return
    watch env plan

/-- `create_deployment` without `wait`, up to its answer and on to the end of its thread. -/
def createDeployment (plan : DeployPlan) : Op Unit := do
  if ← imageMissing plan.upstreamRef plan.pullTargets then
    let _ ← persistPlannedRecord plan .pulling
    pullThenStart env plan
  else
    let record ← start env plan false .starting
    if record.status = .error then
      return
    watch env plan

end SparkPulse.Runtime
