import Mathlib.Data.List.Basic

/-!
# Deployment records

The record of one deployment, with the fields the runtime reads or writes, and the sets of fields
its updates name. `rest` stands for the remaining fields of the document, which are written with
the plan and read by nothing here.

Timestamps are the strings of `_now()`.
-/

namespace SparkPulse

/-! ## Data -/

/-- A record's status. A document may hold any other text. -/
inductive Status
  | pending
  | pulling
  | starting
  | running
  | degraded
  | stopped
  | error
  | other (text : String)
  deriving DecidableEq, Repr

namespace Status

/-- The statuses of a run that is over. -/
def finished : Status → Bool
  | .stopped | .error => true
  | _ => false

/-- A run that is coming up or serving. -/
def live : Status → Bool
  | .pulling | .starting | .running => true
  | _ => false

end Status

/-- One rank of a run: which container on which node. -/
structure RankEntry where
  rank : Nat
  node : String
  host : String := ""
  containerName : String
  isHead : Bool := false
  deriving DecidableEq, Repr

/-- A rank that was asked to stop and never confirmed gone. -/
structure Orphan where
  rank : Nat
  node : String
  containerName : String
  reason : String
  since : String
  deriving DecidableEq, Repr

/-- The record of one deployment. -/
structure Record where
  id : String
  name : String := ""
  status : Status
  runtime : String := ""
  nodes : List String := []
  createdAt : String := ""
  startedAt : Option String := none
  readyAt : Option String := none
  /-- `none` when the document lacks the key, `some none` when it is null. -/
  stoppedAt : Option (Option String) := none
  errorMessage : Option String := none
  port : Option Nat := none
  rendezvousPort : Option Nat := none
  rpcPort : Option Nat := none
  launchCommand : String := ""
  containerName : String := ""
  imagePresent : Bool := true
  generation : Nat := 0
  ranks : List RankEntry := []
  orphans : List Orphan := []
  finalLogs : List (Nat × String) := []
  warnings : List String := []
  reconciled : Bool := false
  sync : String := ""
  syncReason : String := ""
  syncIntent : String := ""
  rest : String := ""
  deriving DecidableEq, Repr

/-! ## Updates -/

/-- The fields an update names, with their new values. -/
structure Patch where
  name : Option String := none
  status : Option Status := none
  runtime : Option String := none
  nodes : Option (List String) := none
  createdAt : Option String := none
  startedAt : Option (Option String) := none
  readyAt : Option (Option String) := none
  stoppedAt : Option (Option (Option String)) := none
  errorMessage : Option (Option String) := none
  port : Option (Option Nat) := none
  rendezvousPort : Option (Option Nat) := none
  rpcPort : Option (Option Nat) := none
  launchCommand : Option String := none
  containerName : Option String := none
  imagePresent : Option Bool := none
  generation : Option Nat := none
  ranks : Option (List RankEntry) := none
  orphans : Option (List Orphan) := none
  finalLogs : Option (List (Nat × String)) := none
  warnings : Option (List String) := none
  reconciled : Option Bool := none
  sync : Option String := none
  syncReason : Option String := none
  syncIntent : Option String := none
  rest : Option String := none
  deriving DecidableEq, Repr

namespace Patch

/-- Merge the named fields into a record. -/
def apply (p : Patch) (r : Record) : Record where
  id := r.id
  name := p.name.getD r.name
  status := p.status.getD r.status
  runtime := p.runtime.getD r.runtime
  nodes := p.nodes.getD r.nodes
  createdAt := p.createdAt.getD r.createdAt
  startedAt := p.startedAt.getD r.startedAt
  readyAt := p.readyAt.getD r.readyAt
  stoppedAt := p.stoppedAt.getD r.stoppedAt
  errorMessage := p.errorMessage.getD r.errorMessage
  port := p.port.getD r.port
  rendezvousPort := p.rendezvousPort.getD r.rendezvousPort
  rpcPort := p.rpcPort.getD r.rpcPort
  launchCommand := p.launchCommand.getD r.launchCommand
  containerName := p.containerName.getD r.containerName
  imagePresent := p.imagePresent.getD r.imagePresent
  generation := p.generation.getD r.generation
  ranks := p.ranks.getD r.ranks
  orphans := p.orphans.getD r.orphans
  finalLogs := p.finalLogs.getD r.finalLogs
  warnings := p.warnings.getD r.warnings
  reconciled := p.reconciled.getD r.reconciled
  sync := p.sync.getD r.sync
  syncReason := p.syncReason.getD r.syncReason
  syncIntent := p.syncIntent.getD r.syncIntent
  rest := p.rest.getD r.rest

/-- A field is named when its value changes. -/
def changed {α : Type} [DecidableEq α] (old new : α) : Option α :=
  if old = new then none else some new

/-- The fields in which the second record differs from the first, with their new values. -/
def diff (r r' : Record) : Patch where
  name := changed r.name r'.name
  status := changed r.status r'.status
  runtime := changed r.runtime r'.runtime
  nodes := changed r.nodes r'.nodes
  createdAt := changed r.createdAt r'.createdAt
  startedAt := changed r.startedAt r'.startedAt
  readyAt := changed r.readyAt r'.readyAt
  stoppedAt := changed r.stoppedAt r'.stoppedAt
  errorMessage := changed r.errorMessage r'.errorMessage
  port := changed r.port r'.port
  rendezvousPort := changed r.rendezvousPort r'.rendezvousPort
  rpcPort := changed r.rpcPort r'.rpcPort
  launchCommand := changed r.launchCommand r'.launchCommand
  containerName := changed r.containerName r'.containerName
  imagePresent := changed r.imagePresent r'.imagePresent
  generation := changed r.generation r'.generation
  ranks := changed r.ranks r'.ranks
  orphans := changed r.orphans r'.orphans
  finalLogs := changed r.finalLogs r'.finalLogs
  warnings := changed r.warnings r'.warnings
  reconciled := changed r.reconciled r'.reconciled
  sync := changed r.sync r'.sync
  syncReason := changed r.syncReason r'.syncReason
  syncIntent := changed r.syncIntent r'.syncIntent
  rest := changed r.rest r'.rest

@[simp] theorem apply_id (p : Patch) (r : Record) : (p.apply r).id = r.id := rfl

@[simp] theorem changed_getD {α : Type} [DecidableEq α] (old new : α) :
    (changed old new).getD old = new := by
  unfold changed
  split_ifs with h
  · exact h
  · rfl

/-- A difference, merged into the record it was taken from, gives the other one. -/
theorem apply_diff (r r' : Record) (hid : r.id = r'.id) : (diff r r').apply r = r' := by
  cases r'
  simp only at hid
  subst hid
  simp only [apply, diff, changed_getD]

end Patch

end SparkPulse
