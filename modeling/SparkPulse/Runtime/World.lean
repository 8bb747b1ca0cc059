import SparkPulse.Records.Change

/-!
# The world of the native runtime

What the functions of `tools/native_runtime.py` and `tools/reconciler.py` act on: the record store,
the table of pulls in flight, the lifecycle locks, and the containers on the machines. The trace
keeps what happened, latest first; nothing in the code reads it.

A machine is named by its key: the address of a peer, and the empty string for the machine the
control plane runs on, whatever address it is reached at.
-/

namespace SparkPulse.Runtime

open Transition

/-- What a call can raise. Everything a node operation raises derives from Python's `Exception`. -/
inductive Exn
  /-- `NativeRuntimeError` -/
  | native (text : String)
  /-- `PullCancelled` -/
  | pullCancelled (text : String)
  /-- `PullStalled` -/
  | pullStalled (text : String)
  /-- Any other exception. -/
  | other (text : String)
  deriving DecidableEq, Repr

namespace Exn

/-- `str(exc)` -/
def text : Exn → String
  | native t | pullCancelled t | pullStalled t | other t => t

def isNative : Exn → Bool
  | native _ => true
  | _ => false

def isPullCancelled : Exn → Bool
  | pullCancelled _ => true
  | _ => false

end Exn

/-- The part of a deployment's life a node is spoken to in. -/
inductive Phase
  | reap
  | pull
  | create
  | rpc
  | launch
  | ready
  | diagnosis
  | teardown
  | observe
  deriving DecidableEq, Repr

/-- What a container's labels say. -/
structure Labels where
  deployment : Option String := none
  recipe : String := ""
  image : String := ""
  createdAt : String := ""
  generation : Option Nat := none
  rank : Option Nat := none
  worldSize : Option Nat := none
  deriving DecidableEq, Repr

/-- A container on a machine. -/
structure Container where
  machine : String
  name : String
  image : String := ""
  labels : Labels := {}
  deriving DecidableEq, Repr

/-- A node's answer about one container: `missing` is a daemon saying there is no such object, and
`unknown` a daemon that did not answer. -/
inductive Presence
  | missing
  | unknown
  | present (status : String) (running : Bool) (exitCode : Option Int)
  deriving DecidableEq, Repr

namespace Presence

/-- The `status` of the answer. -/
def status : Presence → String
  | missing => "missing"
  | unknown => "unknown"
  | present status _ _ => status

/-- The `running` of the answer. -/
def running : Presence → Bool
  | present _ running _ => running
  | _ => false

/-- `_exit_code_of` -/
def exitCode : Presence → Option Int
  | present _ _ exitCode => exitCode
  | _ => none

end Presence

/-- What is executed in a container. -/
inductive Command
  | makeDirectory (path : String)
  | runMod (path workdir : String)
  | chmodScript
  | launch
  | probe (program : String)
  deriving DecidableEq, Repr

/-- Operations on one node, and the look-ups on the control plane that can raise like them. -/
inductive NodeOp
  /-- Resolve the container service of the node. -/
  | services
  /-- `list_managed_containers`, of one deployment or of all -/
  | listManaged (deployment : Option String)
  | containerStatus (name : String)
  | stopContainer (name : String)
  | getLogs (name : String)
  | ensureDirectories (mounts : List String)
  | runContainer (image name : String) (labels : Labels)
  | exec (name : String) (command : Command)
  | copyTo (name path : String)
  | imageExists (ref : String)
  | pullImage (ref : String) (relay : Option String)
  /-- `_resolve_mod_dir`: the mod's name and its files. -/
  | resolveMod (mod : String)
  | loopbackReference (ref : String)
  | nodeReference (ref : String)
  | relayTarget
  deriving DecidableEq, Repr

/-- The frames published about a deployment. -/
inductive EventType
  | deploymentPlanned
  | containerStarted
  | modsApplied
  | deploymentServing
  | deploymentReady
  | deploymentError
  | deploymentStopped
  | deploymentDeleted
  | deploymentSync
  | imagePullStarted
  | imagePullProgress
  | imagePullCancelled
  | imagePullFailed
  | imagePullCompleted
  deriving DecidableEq, Repr

/-- What happened, in the terms the properties of the runtime are stated in. -/
inductive Event
  /-- A container came into being. -/
  | created (machine name : String) (labels : Labels)
  /-- A launch script was exec'd in a container. -/
  | launched (machine name : String)
  /-- A node answered that there is no such container. -/
  | gone (machine name : String)
  /-- A node listed its containers, of one deployment or of all. -/
  | listed (machine : String) (deployment : Option String) (names : List String)
  /-- A node operation of a phase raised. -/
  | raised (phase : Phase) (op : NodeOp) (exn : Exn)
  /-- A frame was published. -/
  | published (kind : EventType) (id text : String)
  /-- A record was written whole. -/
  | persisted (id : String)
  /-- A stop or delete request returned successfully. -/
  | tornDown (id : String)
  /-- A thread read every row. -/
  | rowsRead (tid : Nat)
  /-- A thread changed fields of one row. -/
  | rowUpdated (tid : Nat) (id : String) (p : Patch)
  deriving DecidableEq, Repr

abbrev Tid := Nat

/-- The state everything acts on. -/
structure World where
  store : Store := {}
  /-- What each change of the store was, of its own, latest first. -/
  commits : List (Delta String Record Patch) := []
  /-- `_active_pulls`: the deployments with a pull in flight, and whether it is to stop. -/
  pulls : String → Option Bool := fun _ ↦ none
  /-- `_lifecycle_locks`: who holds the lock of a deployment, and how many times over. -/
  locks : String → Option (Tid × Nat) := fun _ ↦ none
  containers : List Container := []
  trace : List Event := []

/-- What does not change while the control plane runs. -/
structure Env where
  /-- `is_local_address` -/
  isLocal : String → Bool
  isLocal_empty : isLocal "" = true
  /-- `_redact`, where a command line still holds credentials. -/
  redact : String → Option String
  /-- `serve_program` -/
  serveProgram : String → String
  /-- The label of this machine's container service. -/
  controlLabel : String
  /-- `config.deploy_ready_timeout_seconds` -/
  readyTimeout : Nat

namespace Env

/-- `_node_key`: one name for each machine. -/
def machine (env : Env) (address : String) : String :=
  if env.isLocal address then "" else address

@[simp] theorem machine_empty (env : Env) : env.machine "" = "" := by
  rw [machine, env.isLocal_empty]
  rfl

end Env

namespace World

/-- Add to the trace. -/
def log (w : World) (e : Event) : World := { w with trace := e :: w.trace }

@[simp] theorem log_store (w : World) (e : Event) : (w.log e).store = w.store := rfl

@[simp] theorem log_commits (w : World) (e : Event) : (w.log e).commits = w.commits := rfl

@[simp] theorem log_pulls (w : World) (e : Event) : (w.log e).pulls = w.pulls := rfl

@[simp] theorem log_locks (w : World) (e : Event) : (w.log e).locks = w.locks := rfl

@[simp] theorem log_containers (w : World) (e : Event) : (w.log e).containers = w.containers := rfl

@[simp] theorem log_trace (w : World) (e : Event) : (w.log e).trace = e :: w.trace := rfl

/-- Commit one transaction. -/
def commit (w : World) (own : Delta String Record Patch) (s : Store) : World :=
  { w with store := s, commits := own :: w.commits }

@[simp] theorem commit_store (w : World) (own : Delta String Record Patch) (s : Store) :
    (w.commit own s).store = s := rfl

@[simp] theorem commit_commits (w : World) (own : Delta String Record Patch) (s : Store) :
    (w.commit own s).commits = own :: w.commits := rfl

@[simp] theorem commit_pulls (w : World) (own : Delta String Record Patch) (s : Store) :
    (w.commit own s).pulls = w.pulls := rfl

@[simp] theorem commit_locks (w : World) (own : Delta String Record Patch) (s : Store) :
    (w.commit own s).locks = w.locks := rfl

@[simp] theorem commit_containers (w : World) (own : Delta String Record Patch) (s : Store) :
    (w.commit own s).containers = w.containers := rfl

@[simp] theorem commit_trace (w : World) (own : Delta String Record Patch) (s : Store) :
    (w.commit own s).trace = w.trace := rfl

/-- Whether a machine has a container of this name. -/
def has (w : World) (machine name : String) : Bool :=
  w.containers.any fun c ↦ c.machine = machine ∧ c.name = name

/-- The containers without those of one name on one machine. -/
def without (w : World) (machine name : String) : List Container :=
  w.containers.filter fun c ↦ ¬(c.machine = machine ∧ c.name = name)

end World

end SparkPulse.Runtime
