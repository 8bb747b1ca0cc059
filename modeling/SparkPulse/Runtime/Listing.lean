import Mathlib.Algebra.Order.Ring.Int
import SparkPulse.Runtime.Pull
import SparkPulse.Runtime.Teardown

/-!
# Listing, orphan sweeps, and purging

The operations that look at the nodes and write what they found. The list and the orphan sweep load
the whole set, ask the nodes, and save the whole set.
-/

namespace SparkPulse.Runtime

open Program Prog

variable (env : Env)

/-! ## The orphan sweep -/

/-- Whether an orphan can now be confirmed gone, asking for the removal again when the node answers
and the container is still there. -/
def orphanGone (o : Orphan) : Op Bool := do
  node .observe o.node .services
  let status ← node .observe o.node (.containerStatus o.containerName)
  if isConfirmedGone status then
    return true
  if status = .unknown then
    return false
  node .observe o.node (.stopContainer o.containerName)
  return isConfirmedGone (← node .observe o.node (.containerStatus o.containerName))

/-- The orphans of a record that are still outstanding. -/
def remainingOrphans : List Orphan → Op (List Orphan)
  | [] => return []
  | o :: os => do
    match ← (orphanGone o).attempt with
    | .ok true => remainingOrphans os
    | _ => return o :: (← remainingOrphans os)

/-- The sweep over loaded records: each with the orphans it has left. -/
def sweepRecords (only : Option String) : List Record → Op (List Record)
  | [] => return []
  | r :: rs => do
    if (only ≠ none ∧ only ≠ some r.id) ∨ r.orphans = [] then
      return r :: (← sweepRecords only rs)
    else
      let remaining ← remainingOrphans r.orphans
      return { r with orphans := remaining } :: (← sweepRecords only rs)

/-- `sweep_orphans`: drop orphans whose containers can now be confirmed gone, and answer how many
were. -/
def sweepOrphans (only : Option String) : Op Nat := do
  let records ← loadRecords env
  let swept ← sweepRecords only records
  if swept ≠ records then
    saveRecords records swept
  return (records.map fun r ↦ r.orphans.length).sum - (swept.map fun r ↦ r.orphans.length).sum

/-! ## The list -/

/-- Whether the list judges a record: one that should already have containers. -/
def judged (r : Record) : Bool :=
  r.runtime = runtimeName && !(r.status = .stopped || r.status = .error || r.status = .pulling) &&
    !(r.status = .starting && (r.startedAt = none || r.startedAt = some ""))

/-- Whether a rank is on this machine and not listed as running or created. -/
def rankLost (containers : List (Container × String)) (entry : RankEntry) : Bool :=
  rankIsHere env entry.node &&
    match (containers.reverse.find? fun c ↦ c.1.name = entry.containerName) with
    | none => true
    | some c => !(c.2 = "running" || c.2 = "created")

/-- What the list makes of a loaded record. -/
def reconciled (containers : List (Container × String)) (now : String) (r : Record) : Record :=
  if judged r && (rankEntries r).any (rankLost env containers) then
    { r with status := .stopped, stoppedAt := some (r.stoppedAt.getD (some now)) }
  else r

/-- The deployment a listed container belongs to. -/
def deploymentOf (c : Container) : String :=
  match c.labels.deployment with
  | some id => if id = "" then .ofList (c.name.toList.drop containerPrefix.length) else id
  | none => .ofList (c.name.toList.drop containerPrefix.length)

/-- The record of a container nobody recorded. -/
def adopted (now : String) (c : Container × String) : Record where
  id := deploymentOf c.1
  name := if c.1.labels.recipe = "" then deploymentOf c.1 else c.1.labels.recipe
  status := if c.2 = "running" then .running else .stopped
  createdAt := if c.1.labels.createdAt = "" then now else c.1.labels.createdAt
  startedAt := some c.1.labels.createdAt
  stoppedAt := some none
  runtime := runtimeName
  containerName := c.1.name
  reconciled := true
  generation := c.1.labels.generation.getD 0
  ranks := [{
    rank := c.1.labels.rank.getD 0
    node := ""
    containerName := c.1.name
    isHead := c.1.labels.rank.getD 0 = 0 }]
  orphans := []

/-- Whether a listed container is one of ours that no loaded record knows. -/
def unknownTo (known : List Record) (c : Container × String) : Bool :=
  containerPrefix.isPrefixOf c.1.name && known.all fun r ↦ r.id ≠ deploymentOf c.1

/-- What the list saves: every loaded record as reconciled, and one for each unknown container. -/
def listedRecords (containers : List (Container × String)) (now : String) (records : List Record) :
    List Record :=
  records.map (reconciled env containers now) ++
    (containers.filter (unknownTo (records.filter fun r ↦ r.runtime = runtimeName))).map
      (adopted now)

/-- Asking this machine for the containers of every deployment. -/
def listHere : Op (List (Container × String)) := do
  node .observe "" .services
  node .observe "" (.listManaged none)

/-- `list_deployments`: native records, reconciled against the containers that exist here. -/
def listDeployments : Op (List Record) := do
  let records ← loadRecords env
  match ← listHere.attempt with
  | .error _ => return records.filter fun r ↦ r.runtime = runtimeName
  | .ok containers =>
    let seen := listedRecords env containers (← invoke .now) records
    if seen ≠ records then
      saveRecords records seen
    let _ ← (sweepOrphans env none).attempt
    return seen.filter fun r ↦ r.runtime = runtimeName

/-! ## Purging -/

/-- The time a finished record was stopped at, when it says one. -/
def stoppedTime (r : Record) : Option String :=
  if r.status.finished then
    match r.stoppedAt with
    | some (some t) => if t = "" then none else some t
    | _ => none
  else none

/-- The records that are not expired, and the ids of those that are. Nothing is when retention is
off. -/
def splitExpired : List Record → Op (List Record × List String)
  | [] => return ([], [])
  | r :: rs => do
    let isOld ← match stoppedTime r with
      | none => pure false
      | some t => invoke (.isExpired t)
    let (kept, expired) ← splitExpired rs
    if isOld then
      return (kept, if r.id = "" then expired else r.id :: expired)
    return (r :: kept, expired)

/-- `purge_expired`: drop terminal records older than the retention time. -/
def purgeExpired (records : List Record) : Op (List Record) := do
  let (kept, expired) ← splitExpired records
  if expired ≠ [] then
    let _ ← deleteMany expired
  return kept

end SparkPulse.Runtime
