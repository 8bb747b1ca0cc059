import SparkPulse.Runtime.Pull
import SparkPulse.Runtime.Teardown

/-!
# Starting a gang

`start` runs a plan: reap what earlier attempts left, pull the image, and then, under the
lifecycle lock, create every rank's container before launching any of them. Readiness is awaited
without the lock.
-/

namespace SparkPulse.Runtime

open Program Prog

/-! ## One rank -/

def modsDir : String := "/workspace/mods"

def scriptPath : String := "/workspace/exec-script.sh"

def copyAll (name remote : String) (address : String) : List String → Op Unit
  | [] => return
  | path :: paths => do
    let _ ← node .create address (.copyTo name s!"{remote}/{path}")
    copyAll name remote address paths

/-- The exit code, as a message names it. -/
def ExecResult.exit (r : ExecResult) : String :=
  match r.returncode with
  | some code => s!"{code}"
  | none => "None"

/-- The beginning of what the command said. -/
def ExecResult.excerpt (r : ExecResult) : String := .ofList ((strip r.output).toList.take 500)

/-- `_apply_mods`: copy each mod into one rank's container and run its `run.sh`. -/
def applyMods (address name workdir : String) : List String → Op Unit
  | [] => return
  | mod :: mods => do
    let (modName, files) ← node .create "" (.resolveMod mod)
    let remote := s!"{modsDir}/{modName}"
    let _ ← node .create address (.exec name (.makeDirectory remote))
    copyAll name remote address files
    let result ← node .create address (.exec name (.runMod remote workdir))
    if result.ok then
      applyMods address name workdir mods
    else
      .raise (.native s!"mod '{mod}' failed (exit {result.exit}): {result.excerpt}")

/-- The bind sources that could not be made, when there are any to make. -/
def unmadeMounts (rankPlan : RankPlan) : Op (List String) := do
  if rankPlan.container.mounts = [] then
    return []
  match ← (node .create rankPlan.node (.ensureDirectories rankPlan.container.mounts)).attempt with
  | .error _ => return []
  | .ok unmade => return unmade

/-- The warning about bind sources that could not be made. -/
def mountWarnings (rankPlan : RankPlan) (unmade : List String) : List String :=
  if unmade = [] then [] else
    [s!"could not create {joined unmade} on {orThisMachine rankPlan.node}; docker will " ++
      "create them as root, which breaks later writes to the cache"]

/-- The part of `_create_rank` once the container is there. -/
def modRank (plan : DeployPlan) (rankPlan : RankPlan) : Op Unit := do
  let spec := rankPlan.container
  publish .containerStarted plan.deploymentId s!"container {spec.name} started from {spec.image}"
  applyMods rankPlan.node spec.name
    (if plan.workdir = "" then "/workspace" else plan.workdir) plan.mods
  if plan.mods ≠ [] then
    publish .modsApplied plan.deploymentId s!"applied {plan.mods.length}/{plan.mods.length} mod(s)"

/-- `_create_rank`: create one rank's idle container and apply the mods to it. Answers the warnings
it adds. -/
def createRank (plan : DeployPlan) (rankPlan : RankPlan) : Op (List String) := do
  let spec := rankPlan.container
  let unmade ← unmadeMounts rankPlan
  match ← (node .create rankPlan.node (.runContainer spec.image spec.name spec.labels)).attempt with
  | .error x => .raise (.native s!"could not start container {spec.name}: {x.text}")
  | .ok _ =>
    modRank plan rankPlan
    return mountWarnings rankPlan unmade

/-- `_deploy_script`: copy this rank's rendered script in and exec it detached. -/
def deployScript (rankPlan : RankPlan) : Op Unit := do
  let name := rankPlan.container.name
  if ← node .launch rankPlan.node (.copyTo name scriptPath) then
    let _ ← node .launch rankPlan.node (.exec name .chmodScript)
    let _ ← node .launch rankPlan.node (.exec name .launch)
  else
    .raise (.native s!"could not copy the launch script into {name}")

/-- `_launch_rank`: exec one rank's rendered script in the container already created for it. -/
def launchRank (rankPlan : RankPlan) : Op Unit := do
  match ← (deployScript rankPlan).attempt with
  | .ok _ => return
  | .error (.native text) => .raise (.native text)
  | .error x => .raise (.native
      (s!"could not launch {rankPlan.container.name} on {orThisMachine rankPlan.node}: " ++ x.text))

/-! ## Waiting for the workers -/

/-- `logs_for_container` -/
def logsForContainer (phase : Phase) (address name : String) : Op String := do
  match ← (node phase address (.getLogs name)).attempt with
  | .ok text => return text
  | .error x => return s!"Failed to read container logs: {x.text}"

/-- `rank_plan.node or rank_plan.host` -/
def RankPlan.dialled (r : RankPlan) : String := if r.node = "" then r.host else r.node

/-- One round of `_wait_rpc_workers`: the workers that are still not listening. -/
def rpcRound (port : Nat) : List RankPlan → Op (List RankPlan)
  | [] => return []
  | rankPlan :: ranks => do
    if ← invoke (.rpcListening rankPlan.dialled port) then
      rpcRound port ranks
    else
      let name := rankPlan.container.name
      node .rpc rankPlan.node .services
      match ← (node .rpc rankPlan.node (.containerStatus name)).attempt with
      | .error _ => return rankPlan :: (← rpcRound port ranks)
      | .ok status =>
        if status.running then
          return rankPlan :: (← rpcRound port ranks)
        else
          let logs ← logsForContainer .diagnosis rankPlan.node name
          .raise (.native
            (s!"container {name} on {orThisMachine rankPlan.node} " ++
              s!"exited before it began serving RPC on port {port} " ++
              s!"({status.status}). Last log lines:\n{logs}"))

/-- Ninety sleeps of a second reach the deadline of ninety seconds. -/
def rpcPolls : Nat := 91

/-- Why the head was not started: the workers that never listened. -/
def rpcDeadlineMessage (port : Nat) (pending : List RankPlan) : String :=
  let named := (pending.insertionSort fun a b ↦ a.rank ≤ b.rank).map fun r ↦
    s!"{r.dialled} (rank {r.rank})"
  s!"{joined named} did not accept a connection on RPC port {port} " ++
    "within 90s, so rank zero was not started. llama.cpp " ++
    "treats an RPC device it cannot reach as one that is not " ++
    "there: a head launched now would load the whole model onto " ++
    "its own GPU and serve from one machine while this record " ++
    "said several. Check that the worker's container is running " ++
    s!"and that port {port} is reachable from the control plane"

/-- The rounds of `_wait_rpc_workers` that are left before the deadline has passed for certain. -/
def rpcRounds (port : Nat) (pending : List RankPlan) : Nat → Op Unit
  | 0 => .raise (.native (rpcDeadlineMessage port pending))
  | polls + 1 => do
    let waiting ← rpcRound port pending
    if waiting = [] then
      return
    if ← invoke .deadlinePassed then
      .raise (.native (rpcDeadlineMessage port waiting))
    else
      rpcRounds port waiting polls

/-- `_wait_rpc_workers`: hold rank zero back until every worker's RPC port answers. -/
def waitRpcWorkers (plan : DeployPlan) : Op Unit :=
  match plan.rpcPort with
  | none | some 0 => return
  | some port =>
    if plan.nodeCount ≤ 1 then return
    else rpcRounds port (plan.rankPlans.filter fun r ↦ !r.isHead) rpcPolls

/-! ## Waiting for readiness -/

section
variable (env : Env)

/-- `serve_process_alive`: `none` is a probe that could not answer. -/
def serveProcessAlive (address name command : String) : Op (Option Bool) := do
  match ← (node .ready address (.exec name (.probe (env.serveProgram command)))).attempt with
  | .error _ => return none
  | .ok result =>
    return if result.returncode = some 0 then some true
      else if result.returncode = some 1 then some false
      else none

/-- `_container_exit_message` -/
def containerExitMessage (rankPlan : RankPlan) (status : Presence) : Op String := do
  let name := rankPlan.container.name
  let coda := match status.exitCode with
    | some code => s!" with exit code {code}"
    | none => ""
  let tail ← logsForContainer .diagnosis rankPlan.node name
  return s!"container {name} on {orThisMachine rankPlan.node} " ++
    s!"exited before the engine became ready{coda} " ++
    s!"({status.status}). Last log lines:\n{tail}"

/-- `_serve_process_gone_message` -/
def serveProcessGoneMessage (rankPlan : RankPlan) : Op String := do
  let name := rankPlan.container.name
  let served := env.serveProgram rankPlan.command
  let program := if served = "" then "the engine" else served
  let tail ← logsForContainer .diagnosis rankPlan.node name
  return s!"the serve process in {name} on {orThisMachine rankPlan.node} " ++
    s!"is gone: {program} exited before the engine became ready, and the " ++
    "container is still up because what it runs is a keepalive — the " ++
    s!"engine is an exec inside it. Last log lines:\n{tail}"

/-- The part of `_readiness_deadline_message` that may raise. -/
def headTail (plan : DeployPlan) : Op String := do
  node .diagnosis plan.head.node .services
  logsForContainer .diagnosis plan.head.node plan.head.container.name

/-- Who answered in the engine's place, for the message. -/
def usurper (plan : DeployPlan) : Op String := do
  if plan.servedModel = "" then
    return ""
  match ← invoke (.modelsAnswering plan.readinessUrl) with
  | none => return ""
  | some answered =>
    return if answered = [] || plan.servedModel ∈ answered then "" else
      s!"; port {plan.port} answered for {joined answered}, " ++
        s!"not {plan.servedModel} — another server holds it"

/-- `_readiness_deadline_message`: why the wait ended, with the engine's own last words. -/
def readinessDeadlineMessage (plan : DeployPlan) : Op String := do
  let message := s!"engine did not become ready within {env.readyTimeout}s at " ++
    plan.readinessUrl ++ (← usurper plan)
  match ← (headTail plan).attempt with
  | .error _ => return message
  | .ok tail =>
    return if strip tail = "" then message else s!"{message}. Last log lines:\n{tail}"

/-- One round of `_wait_ready` over the ranks, failing fast when one has stopped serving. -/
def readyRound : List RankPlan → Op Unit
  | [] => return
  | rankPlan :: ranks => do
    node .ready rankPlan.node .services
    let name := rankPlan.container.name
    match ← (node .ready rankPlan.node (.containerStatus name)).attempt with
    | .error _ => readyRound ranks
    | .ok status =>
      if !status.running then
        .raise (.native (← containerExitMessage rankPlan status))
      else if (← serveProcessAlive env rankPlan.node name rankPlan.command) = some false then
        .raise (.native (← serveProcessGoneMessage env rankPlan))
      else
        readyRound ranks

/-- The rounds of `_wait_ready` that are left before the deadline has passed for certain. -/
def readyRounds (plan : DeployPlan) : Nat → Op Unit
  | 0 => do .raise (.native (← readinessDeadlineMessage env plan))
  | polls + 1 => do
    if ← deadlinePassed then
      .raise (.native (← readinessDeadlineMessage env plan))
    else
      readyRound env plan.rankPlans
      if ← invoke (.probeReady plan.readinessUrl plan.servedModel) then
        return
      readyRounds plan polls

/-- `_wait_ready`: poll rank zero's readiness, every two seconds until the deadline. -/
def waitReady (plan : DeployPlan) : Op Unit := readyRounds env plan ((env.readyTimeout + 1) / 2)

end

/-! ## Starting -/

/-- How a phase of `start` came out: it goes on, or `start` has its answer. -/
inductive Progress (α : Type)
  | go (a : α)
  | done (record : Record)

section
variable (env : Env) (plan : DeployPlan) (record : Record)

/-- `_fail` -/
def fail (message : String) (remains : Remains) : Op Record := do
  let updated ← recordError plan.deploymentId message
    { orphans := some remains.orphans, finalLogs := some remains.logs }
  return updated.getD
    { record with status := .error, errorMessage := some (errorText message) }

/-- `_abort`: tear down every rank touched, and the one that failed. -/
def abort (touched : List RankPlan) (rankPlan : RankPlan) (x : Exn) (phase : String) :
    Op Record := do
  let pending := if rankPlan ∈ touched then touched else touched ++ [rankPlan]
  let remains ← teardownEntries (pending.map rankRecord)
  fail plan record
    (s!"rank {rankPlan.rank} of {plan.nodeCount} on " ++
      s!"{orThisMachine rankPlan.node} failed to {phase}, so the " ++
      s!"whole deployment was torn down: {x.text}")
    remains

/-- Settling a record `stopped`, as a deliberate teardown. -/
def settleStopped (message : String) : Op Record := do
  publish .deploymentStopped plan.deploymentId message
  let updated ← updateRecord plan.deploymentId
    { status := some .stopped, stoppedAt := some (some (some (← now))) }
  return updated.getD { record with status := .stopped }

/-- `_cancelled`: a stop or delete arrived after the pull. -/
def cancelled (touched : List RankPlan) : Op Record := do
  if touched ≠ [] then
    let _ ← teardownEntries (touched.map rankRecord)
  settleStopped plan record s!"deploy of {plan.deploymentId} cancelled by teardown"

/-- The reap phase. -/
def reapPhase : Op (Progress Unit) := do
  match ← (reapEarlierGenerations plan).attempt with
  | .ok _ => return .go ()
  | .error (.native text) =>
    let r ← fail plan record text {}
    return .done r
  | .error x =>
    let r ← fail plan record s!"could not reach the nodes for {plan.deploymentId}: {x.text}" {}
    return .done r

/-- What the pull phase came to, once it has ended. -/
def pullEnded (plan : DeployPlan) : Except Exn Unit → Op (Progress DeployPlan)
  | .ok _ => return .go plan
  | .error (.pullCancelled _) => do
    let r ← settleStopped plan record s!"pull of {plan.container.image} cancelled by teardown"
    return .done r
  | .error (.native text) => do
    let r ← fail plan record text {}
    return .done r
  | .error x => do
    let r ← fail plan record s!"could not pull image {plan.container.image}: {x.text}" {}
    return .done r

/-- The pull phase: the plan goes on pointed at the images pulled. -/
def pullPhase : Op (Progress DeployPlan) := do
  let (plan, outcome) ← pullEverywhere env plan plan.pullTargets
  pullEnded record plan outcome

/-- Resolving a rank's node and creating the rank. -/
def createOn (rankPlan : RankPlan) : Op (List String) := do
  node .create rankPlan.node .services
  createRank plan rankPlan

/-- The create phase: every rank in turn, with the ranks touched and the warnings so far. -/
def createRanks : (touched : List RankPlan) → (warnings : List String) → List RankPlan →
    Op (Progress (List RankPlan × List String))
  | touched, warnings, [] => return .go (touched, warnings)
  | touched, warnings, rankPlan :: ranks => do
    match ← (createOn plan rankPlan).attempt with
    | .error (.native text) =>
      let r ← abort plan record touched rankPlan (.native text) "start"
      return .done r
    | .error x => .raise x
    | .ok more => createRanks (touched ++ [rankPlan]) (warnings ++ more) ranks

/-- The head is launched against evidence that the workers answer. -/
def waitIfHead (rankPlan : RankPlan) : Op Unit :=
  if rankPlan.isHead then waitRpcWorkers plan else return

/-- Launching a rank on its node, the head only once the workers answer. -/
def launchOn (rankPlan : RankPlan) : Op Unit := do
  waitIfHead plan rankPlan
  node .launch rankPlan.node .services
  launchRank rankPlan

/-- The launch phase: workers first, then the head. -/
def launchRanks (touched : List RankPlan) : List RankPlan → Op (Progress Unit)
  | [] => return .go ()
  | rankPlan :: ranks => do
    match ← (launchOn plan rankPlan).attempt with
    | .error (.native text) =>
      let r ← abort plan record touched rankPlan (.native text) "launch"
      return .done r
    | .error x => .raise x
    | .ok _ => launchRanks touched ranks

/-- The section under the lifecycle lock: create, launch, and write that it was done. -/
def launchPhase : Op (Progress (Option Record)) := do
  if ← teardownRequested env plan.deploymentId then
    let r ← cancelled plan record []
    return .done r
  match ← createRanks plan record [] plan.warnings plan.teardownOrder with
  | .done r => return .done r
  | .go (touched, warnings) =>
    if ← teardownRequested env plan.deploymentId then
      let r ← cancelled plan record touched
      return .done r
    match ← launchRanks plan record touched plan.startOrder with
    | .done r => return .done r
    | .go _ =>
      let launched ← updateRecord plan.deploymentId
        { status := some .starting, startedAt := some (some (← now)), warnings := some warnings }
      publish .deploymentServing plan.deploymentId
        s!"launch script running in {plan.container.name}"
      return .go launched

/-- Settling a gang that never became ready, unless a teardown settled it first. -/
def settleUnready (x : Exn) : Op Record :=
  withLock plan.deploymentId do
    if ← isTornDown env plan.deploymentId then
      return (← getDeployment env plan.deploymentId).getD { record with status := .stopped }
    return (← failLaunchedGang plan x.text).getD
      { record with status := .error, errorMessage := some (errorText x.text) }

/-- Recording that the engine was seen serving, unless a teardown settled the record first. -/
def settleReady : Op Record :=
  withLock plan.deploymentId do
    if ← isTornDown env plan.deploymentId then
      return (← getDeployment env plan.deploymentId).getD { record with status := .stopped }
    publish .deploymentReady plan.deploymentId
      s!"{plan.recipeId} is serving on port {plan.port}"
    return (← updateRecord plan.deploymentId
      { status := some .running, readyAt := some (some (← now)), errorMessage := some none }).getD
        record

/-- The readiness phase. -/
def readyPhase : Op Record := do
  match ← (waitReady env plan).attempt with
  | .ok _ => settleReady env plan record
  | .error (.native text) => settleUnready env plan record (.native text)
  | .error x => .raise x

end

section
variable (env : Env)

/-- Everything after the reap and the pull. -/
def startPulled (plan : DeployPlan) (record : Record) (wait : Bool) : Op Record := do
  match ← withLock plan.deploymentId (launchPhase env plan record) with
  | .done r => return r
  | .go launched => if wait then readyPhase env plan record else return launched.getD record

/-- `start`: run the plan, one rank at a time. -/
def start (plan : DeployPlan) (wait : Bool) (initialStatus : Status) : Op Record := do
  let record ← persistPlannedRecord plan initialStatus
  publish .deploymentPlanned plan.deploymentId
    s!"planned {plan.recipeId} on {plan.engine}/{plan.variant}"
  match ← reapPhase plan record with
  | .done r => return r
  | .go _ =>
    match ← pullPhase env plan record with
    | .done r => return r
    | .go plan => startPulled env plan record wait

end

end SparkPulse.Runtime
