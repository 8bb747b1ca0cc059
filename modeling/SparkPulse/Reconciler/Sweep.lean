import SparkPulse.Runtime.Lifecycle
import SparkPulse.Runtime.Listing

/-!
# The reconciler

`tools/reconciler.py`: requests mark a record with what is to become of it and return; a background
loop sweeps over the records that are not settled and makes it true.
-/

namespace SparkPulse.Reconciler

open Program Prog SparkPulse.Runtime

/-! ## Sync states -/

/-- Settled: the nodes hold what the record says they hold. -/
def syncOk : String := "in_sync"

/-- A change is being applied. -/
def syncInProgress : String := "in_progress"

/-- Removal was asked for; the containers are not gone yet. -/
def syncDeleting : String := "deleting"

/-- A node could not be asked. -/
def syncUnknown : String := "unknown"

def syncStates : List String := [syncOk, syncInProgress, syncDeleting, syncUnknown]

/-- What an in-progress record is being changed into. -/
def intentStop : String := "stop"

/-- `sync_state`: the convergence state of one record, defaulting to settled. -/
def syncState (r : Record) : String :=
  if r.sync ∈ syncStates then r.sync else syncOk

/-- The fields a mark writes. -/
def markPatch (state reason : String) (intent : Option String) : Patch :=
  { sync := some state, syncReason := some reason, syncIntent := some (intent.getD "") }

/-- `mark`: record an intent and return at once. -/
def mark (id state reason : String) (intent : Option String) : Op (Option Record) := do
  if state ∉ syncStates then
    .raise (.other s!"unknown sync state: {state}")
  let updated ← updateRow id (markPatch state reason intent)
  if updated.isSome then
    publish .deploymentSync id (if reason = "" then s!"sync: {state}" else reason)
  return updated

/-! ## The sweep -/

section
variable (env : Env)

/-- What a sweep reports of one record. -/
inductive Touched
  | updated (r : Record)
  | deleted (id : String)
  deriving DecidableEq, Repr

def outstandingReason : String :=
  "waiting for a rank whose container could not be confirmed gone"

/-- The report of a mark: nothing when the record is not there. -/
def markTouched (id state reason : String) (intent : Option String) : Op (Option Touched) := do
  return (← mark id state reason intent).map .updated

/-- `_finish_stop`: stop the containers and keep the record. -/
def finishStop (id : String) : Op (Option Touched) := do
  match ← (stopDeployment env id).attempt with
  | .error x => markTouched id syncInProgress s!"waiting on a node: {x.text}" (some intentStop)
  | .ok none => return some (.deleted id)
  | .ok (some result) =>
    if result.orphans ≠ [] then
      markTouched id syncInProgress outstandingReason (some intentStop)
    else
      markTouched id syncOk "" none

/-- `_finish_delete`: tear the ranks down and drop the record once nothing is left. -/
def finishDelete (id : String) : Op (Option Touched) := do
  match ← (deleteDeployment env id).attempt with
  | .error x => markTouched id syncDeleting s!"waiting on a node: {x.text}" none
  | .ok true =>
    publish .deploymentDeleted id "removed from every node"
    return some (.deleted id)
  | .ok false => markTouched id syncDeleting outstandingReason none

/-- Whether the pull thread still owns a record. -/
def awaitsPull (r : Record) : Bool := r.status = .pulling || r.status = .pending

/-- `_settle`: ask the nodes what is actually running, then stop saying in-progress. -/
def settle (id : String) (record : Record) : Op (Option Touched) := do
  if awaitsPull record then
    return none
  match ← (listDeployments env).attempt with
  | .error x => markTouched id syncUnknown s!"a node could not be asked: {x.text}" none
  | .ok _ =>
    match ← getRow id with
    | none => return some (.deleted id)
    | some current =>
      if awaitsPull current then
        return none
      markTouched id syncOk "" none

/-- `_converge` -/
def converge (record : Record) (state : String) : Op (Option Touched) := do
  if record.id = "" then
    return none
  if state = syncDeleting then
    finishDelete env record.id
  else if state = syncInProgress then
    if record.syncIntent = intentStop then finishStop env record.id
    else settle env record.id record
  else
    return none

/-- The records of a sweep's snapshot, one after another. -/
def sweepRecords : List Record → Op (List Touched)
  | [] => return []
  | r :: rs => do
    if syncState r = syncOk then
      sweepRecords rs
    else
      let result ← converge env r (syncState r)
      return result.toList ++ (← sweepRecords rs)

/-- `sweep`: advance every record that is not settled. -/
def sweep : Op (List Touched) := do
  sweepRecords env (← loadRecords env)

end

end SparkPulse.Reconciler
