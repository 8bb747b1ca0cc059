import SparkPulse.Runtime.Lifecycle

/-!
# Routine calls

Almost everything the runtime does in the life of one deployment is of no consequence to the
others, and creates and launches nothing: it reads, asks nodes, removes containers, publishes, and
updates fields of its own record. Here each function is shown to make no other calls. What it takes
to start a gang apart from this is three calls: `run_container`, the exec of the launch script, and
the lifecycle lock.
-/

namespace SparkPulse.Runtime

open Program Prog

/-- What the routine calls of a deployment may touch: the nodes, in these phases of its life, and
the fields of its record, by these patches. -/
structure Scope where
  id : String
  phases : Phase → Prop
  patches : Patch → Prop

namespace Scope

/-- Every phase and every patch. -/
def all (id : String) : Scope := ⟨id, fun _ ↦ True, fun _ ↦ True⟩

/-- The scope has every patch that settles a record, one way or the other. -/
def Settles (s : Scope) : Prop :=
  ∀ p : Patch, p.sync = none → p.syncIntent = none →
    (p.status = some .error ∨ p.status = some .stopped) → s.patches p

/-- The scope has every patch that moves a record through a pull. -/
def Pulls (s : Scope) : Prop :=
  s.phases .pull ∧ ∀ p : Patch, p.sync = none → p.syncIntent = none →
    (p.status = some .pulling ∨ p.status = some .starting) → s.patches p

theorem Settles.all (id : String) : (Scope.all id).Settles := fun _ _ _ _ ↦ trivial

theorem Pulls.all (id : String) : (Scope.all id).Pulls := ⟨trivial, fun _ _ _ _ ↦ trivial⟩

end Scope

/-- A call in the life of a deployment that creates and launches nothing, takes no lock, and writes
at most fields of its own record; a repair of a command line may be to any record. -/
def Routine (s : Scope) : Call → Prop
  | .rows | .row _ | .now | .deadlinePassed | .isExpired _ | .rpcListening .. | .probeReady ..
  | .modelsAnswering _ | .bytesTransferred | .publish .. | .pullCancelRequested _ => True
  | .updateRow _ p => ∃ command, p = { launchCommand := some command }
  | .updateRecord i p => i = s.id ∧ s.patches p
  | .registerPull i | .unregisterPull i => i = s.id ∧ s.phases .pull
  | .node _ _ (.runContainer ..) | .node _ _ (.exec _ .launch) => False
  | .node phase _ _ => s.phases phase
  | _ => False

theorem Routine.phase {s : Scope} {phase : Phase} {address : String} {op : NodeOp}
    (h : Routine s (.node phase address op)) : s.phases phase := by
  cases op
  case runContainer => exact absurd h id
  case exec name command => cases command <;> first | exact h | exact absurd h id
  all_goals exact h

theorem uses_node {A : Call → Prop} {phase : Phase} {address : String} {op : NodeOp}
    (h : A (.node phase address op)) : (node phase address op).Uses A :=
  (uses_call.mpr h).bind fun outcome ↦ by cases outcome <;> trivial

theorem invoke_uses {A : Call → Prop} (c : Call) (h : A c) : (invoke c).Uses A := uses_call.mpr h

variable {s : Scope} {env : Env}

section Persistence

theorem now_uses : now.Uses (Routine s) := uses_call.mpr trivial

theorem publish_uses {kind : EventType} {i text : String} :
    (publish kind i text).Uses (Routine s) := uses_call.mpr trivial

theorem updateRecord_uses {p : Patch} (h : s.patches p) : (updateRecord s.id p).Uses (Routine s) :=
  uses_call.mpr ⟨rfl, h⟩

/-- A load repairs, and makes no other calls on the rows it has read. -/
theorem repairLoaded_uses_of {A : Call → Prop}
    (hA : ∀ id command, A (.updateRow id { launchCommand := some command })) (rs : List Record) :
    (repairLoaded env rs).Uses A := by
  induction rs with
  | nil => exact uses_pure
  | cons r rs ih =>
    rw [repairLoaded]
    split
    · exact ih.bind fun _ ↦ uses_pure
    next command _ =>
      refine .ite (fun _ ↦ ?_) fun _ ↦ ih.bind fun _ ↦ uses_pure
      exact (uses_call.mpr (hA r.id command)).bind fun _ ↦ ih.bind fun _ ↦ uses_pure

theorem repairLoaded_uses (rs : List Record) : (repairLoaded env rs).Uses (Routine s) :=
  repairLoaded_uses_of (fun _ command ↦ ⟨command, rfl⟩) rs

theorem loadRecords_uses : (loadRecords env).Uses (Routine s) :=
  (uses_call.mpr trivial).bind repairLoaded_uses

theorem getDeployment_uses {i : String} : (getDeployment env i).Uses (Routine s) :=
  loadRecords_uses.bind fun _ ↦ uses_pure

theorem isTornDown_uses {i : String} : (isTornDown env i).Uses (Routine s) :=
  getDeployment_uses.bind fun r ↦ by cases r <;> exact uses_pure

theorem pullCancelRequested_uses {i : String} : (pullCancelRequested i).Uses (Routine s) :=
  uses_call.mpr trivial

theorem teardownRequested_uses {i : String} : (teardownRequested env i).Uses (Routine s) :=
  pullCancelRequested_uses.bind fun _ ↦ .ite (fun _ ↦ uses_pure) fun _ ↦ isTornDown_uses

theorem recordError_uses {message : String} {p : Patch} (hs : s.Settles)
    (hp : p.sync = none ∧ p.syncIntent = none) : (recordError s.id message p).Uses (Routine s) :=
  publish_uses.bind fun _ ↦ now_uses.bind fun _ ↦
    updateRecord_uses (hs _ hp.1 hp.2 (.inl rfl))

end Persistence

section Teardown

theorem confirmGone_uses {phase : Phase} {address name : String} (h : s.phases phase)
    (polls : Nat) : (confirmGone phase address name polls).Uses (Routine s) := by
  induction polls with
  | zero => exact uses_pure
  | succ polls ih =>
    refine (uses_node h).bind fun p ↦ .ite (fun _ ↦ uses_pure) fun _ ↦ ?_
    exact (uses_call.mpr trivial).bind fun _ ↦ .ite (fun _ ↦ uses_pure) fun _ ↦ ih

theorem finalLogs_uses {phase : Phase} {address name : String} (h : s.phases phase) :
    (finalLogs phase address name).Uses (Routine s) :=
  (uses_node h).attempt.bind fun answer ↦ by cases answer <;> exact uses_pure

theorem orphan_uses {entry : RankEntry} {reason : String} :
    (orphan entry reason).Uses (Routine s) := now_uses.bind fun _ ↦ uses_pure

theorem reap_uses {address name : String} (h : s.phases .reap) :
    (reap address name).Uses (Routine s) := by
  refine (uses_node h).bind fun _ ↦ (confirmGone_uses h _).bind fun _ ↦ ?_
  exact .ite (fun _ ↦ uses_raise) fun _ ↦ uses_pure

theorem staleNames_uses {plan : DeployPlan} {r : RankPlan} (h : s.phases .reap) :
    (staleNames plan r).Uses (Routine s) := by
  refine (uses_node h).attempt.bind fun listing ↦ ?_
  cases listing with
  | error x => exact uses_raise
  | ok containers =>
    refine .ite (fun _ ↦ uses_pure) fun _ ↦ (uses_node h).attempt.bind fun answer ↦ ?_
    cases answer <;> exact uses_pure

theorem reapAll_uses {address : String} (h : s.phases .reap) (names : List String) :
    (reapAll address names).Uses (Routine s) := by
  induction names with
  | nil => exact uses_pure
  | cons name names ih => exact (reap_uses h).bind fun _ ↦ ih

theorem reapRanks_uses {plan : DeployPlan} (h : s.phases .reap) (ranks : List RankPlan) :
    (reapRanks plan ranks).Uses (Routine s) := by
  induction ranks with
  | nil => exact uses_pure
  | cons r ranks ih =>
    refine (uses_node h).bind fun _ ↦ (staleNames_uses h).bind fun names ↦ ?_
    exact (reapAll_uses h names).bind fun _ ↦ ih

variable (h : s.phases .teardown)
include h

theorem teardownEntry_uses {entry : RankEntry} : (teardownEntry entry).Uses (Routine s) := by
  refine .ite (fun _ ↦ uses_pure) fun _ ↦ (finalLogs_uses h).bind fun logs ↦ ?_
  refine (uses_node h).attempt.bind fun stopped ↦ ?_
  cases stopped with
  | error x => exact orphan_uses.bind fun _ ↦ uses_pure
  | ok _ =>
    refine (confirmGone_uses h _).attempt.bind fun gone ↦ ?_
    rcases gone with x | gone
    · exact orphan_uses.bind fun _ ↦ uses_pure
    · cases gone
      · exact orphan_uses.bind fun _ ↦ uses_pure
      · exact uses_pure

theorem teardownRank_uses {entry : RankEntry} : (teardownRank entry).Uses (Routine s) := by
  refine (uses_node h).attempt.bind fun reached ↦ ?_
  cases reached with
  | error x => exact orphan_uses.bind fun _ ↦ uses_pure
  | ok _ => exact teardownEntry_uses h

theorem teardownInOrder_uses (entries : List RankEntry) :
    (teardownInOrder entries).Uses (Routine s) := by
  induction entries with
  | nil => exact uses_pure
  | cons entry entries ih =>
    exact (teardownRank_uses h).bind fun _ ↦ ih.bind fun _ ↦ uses_pure

theorem teardownEntries_uses {entries : List RankEntry} :
    (teardownEntries entries).Uses (Routine s) := teardownInOrder_uses h _

theorem failLaunchedGang_uses {plan : DeployPlan} {message : String}
    (hid : s.id = plan.deploymentId) (hs : s.Settles) :
    (failLaunchedGang plan message).Uses (Routine s) := by
  rw [failLaunchedGang, ← hid]
  exact (teardownEntries_uses h).bind fun _ ↦ recordError_uses hs ⟨rfl, rfl⟩

end Teardown

section Pull

variable (h : s.phases .pull)
include h

theorem registryCopy_uses {ref : String} : (registryCopy ref).Uses (Routine s) :=
  (uses_node h).attempt.bind fun answer ↦ by cases answer <;> exact uses_pure

theorem imageOnNode_uses {address ref : String} : (imageOnNode address ref).Uses (Routine s) := by
  refine (uses_node h).bind fun _ ↦ .ite (fun _ ↦ uses_pure) fun _ ↦ ?_
  refine (registryCopy_uses h).bind fun copy ↦ .ite (fun _ ↦ uses_pure) fun _ ↦ ?_
  exact (uses_node h).bind fun _ ↦ .ite (fun _ ↦ uses_pure) fun _ ↦ uses_pure

theorem consultRegistry_uses {address ref copy : String} :
    (consultRegistry env address ref copy).Uses (Routine s) := by
  refine (uses_node h).bind fun _ ↦ .ite (fun _ ↦ uses_pure) fun _ ↦ ?_
  refine .ite (fun _ ↦ uses_pure) fun _ ↦ (uses_node h).bind fun _ ↦ uses_pure

theorem relayedSource_uses {address ref : String} :
    (relayedSource env address ref).Uses (Routine s) := by
  refine (registryCopy_uses h).bind fun copy ↦ .ite (fun _ ↦ uses_pure) fun _ ↦ ?_
  exact (consultRegistry_uses h).attempt.bind fun source ↦ by cases source <;> exact uses_pure

theorem imageMissing_uses {ref : String} (addresses : List String) :
    (imageMissing ref addresses).Uses (Routine s) := by
  induction addresses with
  | nil => exact uses_pure
  | cons address addresses ih =>
    have hone : (imageMissingOn ref address).Uses (Routine s) :=
      (uses_node h).bind fun _ ↦ (imageOnNode_uses h).bind fun _ ↦ uses_pure
    refine hone.attempt.bind fun missing ↦ ?_
    rcases missing with x | missing
    · exact ih
    · cases missing
      · exact ih
      · exact uses_pure

theorem pullWithRetries_uses {id address ref location : String} (left : Nat) :
    (pullWithRetries env id address ref location left).Uses (Routine s) := by
  induction left with
  | zero => exact uses_raise
  | succ left ih =>
    have hfailed : ∀ x, (do
        if ← teardownRequested env id then
          .raise (.pullCancelled s!"pull of {ref} cancelled")
        else
          let tried := pullAttempts - left
          if 0 < left then
            publish .imagePullProgress id
              (s!"pull of {ref} on {location} failed ({x.text}); retrying in " ++
                s!"{pullRetryBackoffSeconds tried}s — attempt {tried + 1} of {pullAttempts}")
            pullWithRetries env id address ref location left
          else
            let message := pullFailureMessage ref location tried (← invoke .bytesTransferred) x
            publish .imagePullFailed id message
            .raise (.native message) : Op Unit).Uses (Routine s) := by
      intro x
      refine teardownRequested_uses.bind fun _ ↦ .ite (fun _ ↦ uses_raise) fun _ ↦ ?_
      refine .ite (fun _ ↦ publish_uses.bind fun _ ↦ ih) fun _ ↦ ?_
      exact (uses_call.mpr trivial).bind fun _ ↦ publish_uses.bind fun _ ↦ uses_raise
    refine (uses_node h).attempt.bind fun outcome ↦ ?_
    rcases outcome with x | _
    · cases x with
      | pullCancelled text => exact publish_uses.bind fun _ ↦ uses_raise
      | native text => exact hfailed _
      | pullStalled text => exact hfailed _
      | other text => exact hfailed _
    · exact uses_pure

theorem pullFromRegistry_uses {id address ref location : String} :
    (pullFromRegistry env id address ref location).Uses (Routine s) := by
  refine (relayedSource_uses h).bind fun source ↦ ?_
  rcases source with _ | ⟨copy, relay⟩
  · exact uses_pure
  have hfailed : ∀ x : Exn, (do
      if ← teardownRequested env id then
        .raise (.pullCancelled s!"pull of {copy} cancelled")
      else
        publish .imagePullProgress id
          (s!"could not pull {copy} from the control node's registry on " ++
            s!"{location} ({x.text}); pulling {ref} from its own registry instead")
        return "" : Op String).Uses (Routine s) := fun x ↦
    teardownRequested_uses.bind fun _ ↦ .ite (fun _ ↦ uses_raise) fun _ ↦
      publish_uses.bind fun _ ↦ uses_pure
  refine (uses_node h).attempt.bind fun outcome ↦ ?_
  rcases outcome with x | _
  · cases x with
    | pullCancelled text => exact uses_raise
    | native text => exact hfailed (.native text)
    | pullStalled text => exact hfailed (.pullStalled text)
    | other text => exact hfailed (.other text)
  · exact uses_pure

theorem pullSomewhere_uses {id address ref location : String} :
    (pullSomewhere env id address ref location).Uses (Routine s) := by
  refine (pullFromRegistry_uses h).bind fun _ ↦ .ite (fun _ ↦ uses_pure) fun _ ↦ ?_
  exact (pullWithRetries_uses h _).bind fun _ ↦ uses_pure

omit h

theorem pullMissing_uses {address ref location : String} (hs : s.Pulls) :
    (pullMissing env s.id address ref location).Uses (Routine s) := by
  have hregister : (invoke (.registerPull s.id)).Uses (Routine s) := uses_call.mpr ⟨rfl, hs.1⟩
  have hunregister : (invoke (.unregisterPull s.id)).Uses (Routine s) := uses_call.mpr ⟨rfl, hs.1⟩
  have hpulling := updateRecord_uses (hs.2 { status := some .pulling } rfl rfl (.inl rfl))
  have hstarting := updateRecord_uses
    (hs.2 { status := some .starting, imagePresent := some true } rfl rfl (.inr rfl))
  refine hpulling.bind fun _ ↦ publish_uses.bind fun _ ↦ hregister.bind fun _ ↦ ?_
  refine ((pullSomewhere_uses hs.1).ensure hunregister).bind fun _ ↦ ?_
  exact publish_uses.bind fun _ ↦ hstarting.bind fun _ ↦ uses_pure

theorem pullOnto_uses {address ref : String} (hs : s.Pulls) :
    (pullOnto env s.id address ref).Uses (Routine s) := by
  refine (uses_node hs.1).bind fun _ ↦ (imageOnNode_uses hs.1).attempt.bind fun present ↦ ?_
  cases present with
  | ok present => exact .ite (fun _ ↦ uses_pure) fun _ ↦ pullMissing_uses hs
  | error x => exact pullMissing_uses hs

theorem pullEverywhere_uses {plan : DeployPlan} (hid : s.id = plan.deploymentId) (hs : s.Pulls)
    (addresses : List String) : (pullEverywhere env plan addresses).Uses (Routine s) := by
  induction addresses generalizing plan with
  | nil => exact uses_pure
  | cons address addresses ih =>
    rw [pullEverywhere, ← hid]
    refine (pullOnto_uses hs).attempt.bind fun outcome ↦ ?_
    cases outcome with
    | error x => exact uses_pure
    | ok image => exact @ih (plan.runFrom address image) hid

end Pull

section Waiting

theorem logsForContainer_uses {phase : Phase} {address name : String} (h : s.phases phase) :
    (logsForContainer phase address name).Uses (Routine s) :=
  (uses_node h).attempt.bind fun answer ↦ by cases answer <;> exact uses_pure

theorem rpcRound_uses {port : Nat} (h : s.phases .rpc) (hd : s.phases .diagnosis)
    (ranks : List RankPlan) : (rpcRound port ranks).Uses (Routine s) := by
  induction ranks with
  | nil => exact uses_pure
  | cons r ranks ih =>
    refine (uses_call.mpr trivial).bind fun _ ↦ .ite (fun _ ↦ ih) fun _ ↦ ?_
    refine (uses_node h).bind fun _ ↦ (uses_node h).attempt.bind fun answer ↦ ?_
    cases answer with
    | error x => exact ih.bind fun _ ↦ uses_pure
    | ok status =>
      refine .ite (fun _ ↦ ih.bind fun _ ↦ uses_pure) fun _ ↦ ?_
      exact (logsForContainer_uses hd).bind fun _ ↦ uses_raise

theorem rpcRounds_uses {port : Nat} {pending : List RankPlan} (h : s.phases .rpc)
    (hd : s.phases .diagnosis) (polls : Nat) : (rpcRounds port pending polls).Uses (Routine s) := by
  induction polls generalizing pending with
  | zero => exact uses_raise
  | succ polls ih =>
    refine (rpcRound_uses h hd pending).bind fun waiting ↦ .ite (fun _ ↦ uses_pure) fun _ ↦ ?_
    exact (uses_call.mpr trivial).bind fun _ ↦ .ite (fun _ ↦ uses_raise) fun _ ↦ ih

theorem waitRpcWorkers_uses {plan : DeployPlan} (h : s.phases .rpc) (hd : s.phases .diagnosis) :
    (waitRpcWorkers plan).Uses (Routine s) := by
  unfold waitRpcWorkers
  split
  · exact uses_pure
  · exact uses_pure
  · exact .ite (fun _ ↦ uses_pure) fun _ ↦ rpcRounds_uses h hd _

theorem waitIfHead_uses {plan : DeployPlan} {r : RankPlan} (h : s.phases .rpc)
    (hd : s.phases .diagnosis) : (waitIfHead plan r).Uses (Routine s) :=
  .ite (fun _ ↦ waitRpcWorkers_uses h hd) fun _ ↦ uses_pure

theorem serveProcessAlive_uses {address name command : String} (h : s.phases .ready) :
    (serveProcessAlive env address name command).Uses (Routine s) :=
  (uses_node h).attempt.bind fun answer ↦ by cases answer <;> exact uses_pure

theorem usurper_uses {plan : DeployPlan} : (usurper plan).Uses (Routine s) := by
  refine .ite (fun _ ↦ uses_pure) fun _ ↦ (uses_call.mpr trivial).bind fun answered ↦ ?_
  cases answered <;> exact uses_pure

theorem readinessDeadlineMessage_uses {plan : DeployPlan} (hd : s.phases .diagnosis) :
    (readinessDeadlineMessage env plan).Uses (Routine s) := by
  have htail : (headTail plan).Uses (Routine s) :=
    (uses_node hd).bind fun _ ↦ logsForContainer_uses hd
  refine usurper_uses.bind fun _ ↦ htail.attempt.bind fun answer ↦ ?_
  cases answer <;> exact uses_pure

theorem readyRound_uses (h : s.phases .ready) (hd : s.phases .diagnosis) (ranks : List RankPlan) :
    (readyRound env ranks).Uses (Routine s) := by
  induction ranks with
  | nil => exact uses_pure
  | cons r ranks ih =>
    refine (uses_node h).bind fun _ ↦ (uses_node h).attempt.bind fun answer ↦ ?_
    cases answer with
    | error x => exact ih
    | ok status =>
      refine .ite (fun _ ↦ ?_) fun _ ↦ (serveProcessAlive_uses h).bind fun _ ↦ ?_
      · exact ((logsForContainer_uses hd).bind fun _ ↦ uses_pure).bind fun _ ↦ uses_raise
      · refine .ite (fun _ ↦ ?_) fun _ ↦ ih
        exact ((logsForContainer_uses hd).bind fun _ ↦ uses_pure).bind fun _ ↦ uses_raise

theorem readyRounds_uses {plan : DeployPlan} (h : s.phases .ready) (hd : s.phases .diagnosis)
    (polls : Nat) : (readyRounds env plan polls).Uses (Routine s) := by
  induction polls with
  | zero => exact (readinessDeadlineMessage_uses hd).bind fun _ ↦ uses_raise
  | succ polls ih =>
    refine (uses_call.mpr trivial).bind fun _ ↦ .ite (fun _ ↦ ?_) fun _ ↦ ?_
    · exact (readinessDeadlineMessage_uses hd).bind fun _ ↦ uses_raise
    · refine (readyRound_uses h hd _).bind fun _ ↦ (uses_call.mpr trivial).bind fun _ ↦ ?_
      exact .ite (fun _ ↦ uses_pure) fun _ ↦ ih

theorem waitReady_uses {plan : DeployPlan} (h : s.phases .ready) (hd : s.phases .diagnosis) :
    (waitReady env plan).Uses (Routine s) := readyRounds_uses h hd _

end Waiting

section Start

theorem copyAll_uses {name remote address : String} (h : s.phases .create) (paths : List String) :
    (copyAll name remote address paths).Uses (Routine s) := by
  induction paths with
  | nil => exact uses_pure
  | cons path paths ih => exact (uses_node h).bind fun _ ↦ ih

theorem applyMods_uses {address name workdir : String} (h : s.phases .create)
    (mods : List String) : (applyMods address name workdir mods).Uses (Routine s) := by
  induction mods with
  | nil => exact uses_pure
  | cons mod mods ih =>
    refine (uses_node h).bind fun _ ↦ (uses_node h).bind fun _ ↦ ?_
    refine (copyAll_uses h _).bind fun _ ↦ (uses_node h).bind fun _ ↦ ?_
    exact .ite (fun _ ↦ ih) fun _ ↦ uses_raise

theorem unmadeMounts_uses {r : RankPlan} (h : s.phases .create) :
    (unmadeMounts r).Uses (Routine s) := by
  refine .ite (fun _ ↦ uses_pure) fun _ ↦ (uses_node h).attempt.bind fun answer ↦ ?_
  cases answer <;> exact uses_pure

variable {plan : DeployPlan} {record : Record}

theorem modRank_uses {r : RankPlan} (h : s.phases .create) : (modRank plan r).Uses (Routine s) :=
  publish_uses.bind fun _ ↦ (applyMods_uses h _).bind fun _ ↦
    .ite (fun _ ↦ publish_uses) fun _ ↦ uses_pure

variable (hid : s.id = plan.deploymentId) (hs : s.Settles)
include hid hs

theorem fail_uses {message : String} {remains : Remains} :
    (fail plan record message remains).Uses (Routine s) := by
  rw [fail, ← hid]
  exact (recordError_uses hs ⟨rfl, rfl⟩).bind fun _ ↦ uses_pure

theorem abort_uses {touched : List RankPlan} {r : RankPlan} {x : Exn} {phase : String}
    (h : s.phases .teardown) : (abort plan record touched r x phase).Uses (Routine s) :=
  (teardownEntries_uses h).bind fun _ ↦ fail_uses hid hs

theorem settleStopped_uses {message : String} :
    (settleStopped plan record message).Uses (Routine s) := by
  rw [settleStopped, ← hid]
  exact publish_uses.bind fun _ ↦ now_uses.bind fun _ ↦
    (updateRecord_uses (hs _ rfl rfl (.inr rfl))).bind fun _ ↦ uses_pure

theorem cancelled_uses {touched : List RankPlan} (h : s.phases .teardown) :
    (cancelled plan record touched).Uses (Routine s) :=
  .ite (fun _ ↦ (teardownEntries_uses h).bind fun _ ↦ settleStopped_uses hid hs)
    fun _ ↦ settleStopped_uses hid hs

theorem pullEnded_uses (outcome : Except Exn Unit) :
    (pullEnded record plan outcome).Uses (Routine s) := by
  rcases outcome with x | _
  · cases x
    case pullCancelled => exact (settleStopped_uses hid hs).bind fun _ ↦ uses_pure
    all_goals exact (fail_uses hid hs).bind fun _ ↦ uses_pure
  · exact uses_pure

end Start

end SparkPulse.Runtime
