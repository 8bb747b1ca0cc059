import SparkPulse.Runtime.Persistence

/-!
# The pull phase

Getting the plan's image onto every node the gang runs on. The phase holds no lock: it may last for
tens of minutes, and a stop or delete reaches into it through the table of pulls.
-/

namespace SparkPulse.Runtime

open Program Prog

variable (env : Env)

/-! ## Where the image is -/

/-- `_rank_is_here`: whether a rank on this address lives on the machine we can enumerate. -/
def rankIsHere (address : String) : Bool := address = "" || env.isLocal address

/-- `_registry_copy`: the name a node holds a reference under when it came out of the control
node's registry. -/
def registryCopy (ref : String) : Op String := do
  match ← (node .pull "" (.loopbackReference ref)).attempt with
  | .error _ => return ""
  | .ok copy => return copy

/-- `_image_on_node`: the name an image is present under on a node, or the empty one. -/
def imageOnNode (address ref : String) : Op String := do
  if ← node .pull address (.imageExists ref) then
    return ref
  let copy ← registryCopy ref
  if copy = "" then
    return ""
  if ← node .pull address (.imageExists copy) then
    return copy
  return ""

/-- The part of `_relayed_source` that may raise. -/
def consultRegistry (address ref copy : String) : Op (Option (String × Option String)) := do
  if (← node .pull "" (.nodeReference ref)) = ref then
    return none
  if rankIsHere env address then
    return some (copy, none)
  let relay ← node .pull "" .relayTarget
  return if relay = "" then none else some (copy, some relay)

/-- `_relayed_source`: the name, and the relay, to pull a reference from the control node's
registry. -/
def relayedSource (address ref : String) : Op (Option (String × Option String)) := do
  let copy ← registryCopy ref
  if copy = "" then
    return none
  match ← (consultRegistry env address ref copy).attempt with
  | .error _ => return none
  | .ok source => return source

/-- One node of `_image_missing`. -/
def imageMissingOn (ref address : String) : Op Bool := do
  node .pull address .services
  return (← imageOnNode address ref) = ""

/-- `_image_missing`: whether any node the gang runs on is known to lack the image. -/
def imageMissing (ref : String) : List String → Op Bool
  | [] => return false
  | address :: addresses => do
    match ← (imageMissingOn ref address).attempt with
    | .ok true => return true
    | _ => imageMissing ref addresses

/-! ## Pulling -/

def pullAttempts : Nat := 3

/-- Seconds to wait before a retry, by the attempt just lost. -/
def pullRetryBackoffSeconds (attempt : Nat) : Nat := if attempt ≤ 1 then 10 else 30

/-- `_pull_failure_message`: why the pull failed, in the terms the operator can act on. -/
def pullFailureMessage (ref location : String) (attempts : Nat) (got : String) (x : Exn) : String :=
  let tried := if attempts = 1 then "1 attempt" else s!"{attempts} attempts"
  match x with
  | .pullStalled text =>
    s!"could not pull image {ref} on {location} after {tried}: the registry " ++
      s!"went silent — {text} — with {got}"
  | _ => s!"could not pull image {ref} on {location} after {tried}: {x.text} — {got}"

/-- `_pull_with_retries`, with the attempts that are left. -/
def pullWithRetries (id address ref location : String) : Nat → Op Unit
  | 0 => .raise (.native s!"could not pull image {ref} on {location}")
  | left + 1 => do
    match ← (node .pull address (.pullImage ref none)).attempt with
    | .ok _ => return
    | .error (.pullCancelled text) =>
      publish .imagePullCancelled id s!"pull of {ref} cancelled"
      .raise (.pullCancelled text)
    | .error x =>
      -- a teardown that arrived during the pull is not a failure to retry
      if ← teardownRequested env id then
        .raise (.pullCancelled s!"pull of {ref} cancelled")
      else
        let tried := pullAttempts - left
        if 0 < left then
          publish .imagePullProgress id
            (s!"pull of {ref} on {location} failed ({x.text}); retrying in " ++
              s!"{pullRetryBackoffSeconds tried}s — attempt {tried + 1} of {pullAttempts}")
          pullWithRetries id address ref location left
        else
          let message := pullFailureMessage ref location tried (← invoke .bytesTransferred) x
          publish .imagePullFailed id message
          .raise (.native message)

/-- `_pull_from_registry`: pull a reference out of the control node's registry when it holds it;
the empty name sends the caller upstream. -/
def pullFromRegistry (id address ref location : String) : Op String := do
  match ← relayedSource env address ref with
  | none => return ""
  | some (copy, relay) =>
    match ← (node .pull address (.pullImage copy relay)).attempt with
    | .ok _ => return copy
    | .error (.pullCancelled text) => .raise (.pullCancelled text)
    | .error x =>
      if ← teardownRequested env id then
        .raise (.pullCancelled s!"pull of {copy} cancelled")
      else
        publish .imagePullProgress id
          (s!"could not pull {copy} from the control node's registry on " ++
            s!"{location} ({x.text}); pulling {ref} from its own registry instead")
        return ""

/-- From the registry when it is a source, and else from upstream; the name pulled. -/
def pullSomewhere (id address ref location : String) : Op String := do
  let pulled ← pullFromRegistry env id address ref location
  if pulled ≠ "" then
    return pulled
  pullWithRetries env id address ref location pullAttempts
  return ref

/-- The name of a node in the frames of its pull. -/
def pullLocation (address : String) : String :=
  if address ≠ "" then address
  else if env.controlLabel ≠ "" then env.controlLabel
  else "this machine"

/-- `_pull_image_if_missing` from where the image was found to be missing. -/
def pullMissing (id address ref location : String) : Op String := do
  let _ ← updateRecord id { status := some .pulling }
  publish .imagePullStarted id s!"pulling {ref} on {location}"
  invoke (.registerPull id)
  let pulled ← (pullSomewhere env id address ref location).ensure (invoke (.unregisterPull id))
  publish .imagePullCompleted id s!"pulled {pulled}"
  let _ ← updateRecord id { status := some .starting, imagePresent := some true }
  return pulled

/-- `_pull_image_if_missing`: the name the image has on the node, which the caller runs the ranks of
the node from. -/
def pullImageIfMissing (id address ref : String) : Op String := do
  let location := pullLocation env address
  match ← (imageOnNode address ref).attempt with
  | .ok present =>
    if present ≠ "" then
      return present
    pullMissing env id address ref location
  | .error _ => pullMissing env id address ref location

/-- Resolving a node and pulling onto it. -/
def pullOnto (id address ref : String) : Op String := do
  node .pull address .services
  pullImageIfMissing env id address ref

/-- The pull phase: every node in turn. The plan is changed in place, so it comes back changed as
far as the phase got, with what ended it. -/
def pullEverywhere (plan : DeployPlan) : List String → Op (DeployPlan × Except Exn Unit)
  | [] => return (plan, .ok ())
  | address :: addresses => do
    match ← (pullOnto env plan.deploymentId address plan.upstreamRef).attempt with
    | .error x => return (plan, .error x)
    | .ok image => pullEverywhere (plan.runFrom address image) addresses

end SparkPulse.Runtime
