import SparkPulse.Runtime.Ports
import SparkPulse.Runtime.Routine

/-!
# What requests are composed of

A request is put together from few things: calls that write no record, the repairs of a load, updates
that move a record on, updates that settle one with the time they are made at, and the drop of a
record. A class of programs that has these and is closed under composition has all of a request but
the writing of the plan's record. Each argument about requests chooses its class; the walk over the
code is made here once.
-/

namespace SparkPulse.Runtime

open Program Prog

/-- The patch moves a record on: to a status that is not final. -/
def Moving (p : Patch) : Prop := ∃ status, p.status = some status ∧ status.finished = false

/-- The patch settles a record, at a time. -/
def SettlesAt (t : String) (p : Patch) : Prop :=
  (∃ status, p.status = some status ∧ status.finished = true) ∧ p.stoppedAt = some (some (some t))

/-- A class of programs that is closed under composition and has what requests are made of. -/
structure Composes (K : (α : Type) → Op α → Prop) : Prop where
  pure {α : Type} (a : α) : K α (pure a)
  raise {α : Type} (x : Exn) : K α (.raise x)
  bind {α β : Type} {p : Op α} {f : α → Op β} : K α p → (∀ a, K β (f a)) → K β (p >>= f)
  attempt {α : Type} {p : Op α} : K α p → K _ p.attempt
  asks (c : Call) : c.writes = false → K _ (invoke c)
  repairs (id command : String) : K _ (updateRow id { launchCommand := some command })
  moves (id : String) {p : Patch} : Moving p → K _ (updateRecord id p)
  settles (id : String) {β : Type} {p : String → Patch} {f : Option Record → Op β} :
    (∀ t, SettlesAt t (p t)) → (∀ r, K β (f r)) → K β (do f (← updateRecord id (p (← now))))
  drops (id : String) : K _ (invoke (.dropRecord id))

namespace Composes

variable {K : (α : Type) → Op α → Prop} (hK : Composes K) {α : Type} {env : Env}
  {plan : DeployPlan} {record : Record} {id : String}
include hK

omit hK in
theorem ite (_ : Composes K) {c : Prop} [Decidable c] {p q : Op α} (h : K α p) (h' : K α q) :
    K α (if c then p else q) := by
  split_ifs
  · exact h
  · exact h'

theorem ensure {p : Op α} {cleanup : Op Unit} (h : K α p) (hc : K _ cleanup) :
    K α (p.ensure cleanup) :=
  hK.bind (hK.attempt h) fun outcome ↦ hK.bind hc fun _ ↦ by
    rcases outcome with x | a
    · exact hK.raise x
    · exact hK.pure a

theorem node {phase : Phase} {address : String} (op : NodeOp) :
    K _ (Runtime.node phase address op) :=
  hK.bind (hK.asks (.node phase address op) rfl) fun outcome ↦ by
    rcases outcome with x | a
    · exact hK.raise x
    · exact hK.pure a

theorem publish {kind : EventType} {text : String} : K _ (Runtime.publish kind id text) :=
  hK.asks (.publish kind id text) rfl

theorem withLock {p : Op α} (h : K α p) : K α (Runtime.withLock id p) :=
  hK.bind (hK.asks (.acquire id) rfl) fun _ ↦ hK.ensure h (hK.asks (.release id) rfl)

omit hK in
/-- The routine calls that move a record at most. -/
def movingScope (id : String) : Scope := ⟨id, fun _ ↦ True, Moving⟩

omit hK in
theorem pulls_movingScope (id : String) : (movingScope id).Pulls := by
  refine ⟨trivial, fun p _ _ hp ↦ ?_⟩
  rcases hp with hp | hp
  · exact ⟨_, hp, rfl⟩
  · exact ⟨_, hp, rfl⟩

theorem of_routine (i : String) {p : Op α} (h : p.Uses (Routine (movingScope i))) : K α p := by
  induction p with
  | ret a => exact hK.pure a
  | raise x => exact hK.raise x
  | op c k ih =>
    have hcall : K _ (invoke c) := by
      have hc := h.1
      cases c with
      | updateRow i p =>
        obtain ⟨command, rfl⟩ := hc
        exact hK.repairs i command
      | updateRecord i p => exact hK.moves i hc.2
      | persist r => exact hc.elim
      | save loaded records => exact hc.elim
      | dropRecord i => exact hc.elim
      | deleteMany ids => exact hc.elim
      | _ => exact hK.asks _ rfl
    exact hK.bind hcall fun r ↦ ih r (h.2 r)

/-! ## Settling a record -/

theorem getDeployment : K _ (Runtime.getDeployment env id) :=
  hK.of_routine id getDeployment_uses

theorem isTornDown : K _ (Runtime.isTornDown env id) := hK.of_routine id isTornDown_uses

theorem teardownEntries {entries : List RankEntry} : K _ (Runtime.teardownEntries entries) :=
  hK.of_routine "" (teardownEntries_uses trivial)

theorem recordError {message : String} {fields : Patch} :
    K _ (Runtime.recordError id message fields) :=
  hK.bind hK.publish fun _ ↦
    hK.settles id (fun _ ↦ ⟨⟨.error, rfl, rfl⟩, rfl⟩) fun _ ↦ hK.pure _

theorem failLaunchedGang {message : String} : K _ (Runtime.failLaunchedGang plan message) :=
  hK.bind hK.teardownEntries fun _ ↦ hK.recordError

theorem fail {message : String} {remains : Remains} :
    K _ (Runtime.fail plan record message remains) :=
  hK.bind hK.recordError fun _ ↦ hK.pure _

theorem abort {touched : List RankPlan} {r : RankPlan} {x : Exn} {phase : String} :
    K _ (Runtime.abort plan record touched r x phase) :=
  hK.bind hK.teardownEntries fun _ ↦ hK.fail

theorem settleStopped {message : String} : K _ (Runtime.settleStopped plan record message) := by
  refine hK.bind hK.publish fun _ ↦ hK.settles plan.deploymentId (fun _ ↦ ?_) fun _ ↦ hK.pure _
  exact ⟨⟨.stopped, rfl, rfl⟩, rfl⟩

theorem cancelled {touched : List RankPlan} : K _ (Runtime.cancelled plan record touched) :=
  hK.ite (hK.bind hK.teardownEntries fun _ ↦ hK.settleStopped) hK.settleStopped

/-! ## Starting -/

theorem reapPhase : K _ (Runtime.reapPhase plan record) := by
  refine hK.bind (hK.attempt (hK.of_routine "" (reapRanks_uses trivial _)))
    fun outcome ↦ ?_
  rcases outcome with x | _
  · cases x <;> exact hK.bind hK.fail fun _ ↦ hK.pure _
  · exact hK.pure _

theorem pullPhase : K _ (Runtime.pullPhase env plan record) := by
  refine hK.bind (hK.of_routine plan.deploymentId (pullEverywhere_uses (s := movingScope plan.deploymentId) rfl
    (pulls_movingScope _) _)) fun pulled ↦ ?_
  rcases pulled with ⟨plan, x | _⟩
  · cases x
    case pullCancelled => exact hK.bind hK.settleStopped fun _ ↦ hK.pure _
    all_goals exact hK.bind hK.fail fun _ ↦ hK.pure _
  · exact hK.pure _

theorem createRank {r : RankPlan} : K _ (Runtime.createRank plan r) := by
  have hmounts : K _ (unmadeMounts r) :=
    hK.of_routine "" (unmadeMounts_uses trivial)
  refine hK.bind hmounts fun unmade ↦ hK.bind (hK.attempt (hK.node (.runContainer _ _ _))) fun started ↦ ?_
  rcases started with x | _
  · exact hK.raise _
  · have hmods : K _ (modRank plan r) := hK.of_routine "" (modRank_uses trivial)
    exact hK.bind hmods fun _ ↦ hK.pure _

theorem launchRank {r : RankPlan} : K _ (Runtime.launchRank r) := by
  have hscript : K _ (deployScript r) :=
    hK.bind (hK.node (.copyTo _ _)) fun _ ↦ hK.ite
      (hK.bind (hK.node (.exec _ .chmodScript)) fun _ ↦
        hK.bind (hK.node (.exec _ .launch)) fun _ ↦ hK.pure _) (hK.raise _)
  refine hK.bind (hK.attempt hscript) fun outcome ↦ ?_
  rcases outcome with (_ | _ | _ | _) | _
  case ok => exact hK.pure _
  all_goals exact hK.raise _

theorem createRanks (ranks touched : List RankPlan) (warnings : List String) :
    K _ (Runtime.createRanks plan record touched warnings ranks) := by
  induction ranks generalizing touched warnings with
  | nil => exact hK.pure _
  | cons r ranks ih =>
    have hone : K _ (createOn plan r) := hK.bind (hK.node .services) fun _ ↦ hK.createRank
    refine hK.bind (hK.attempt hone) fun outcome ↦ ?_
    rcases outcome with (_ | _ | _ | _) | more
    case error.native => exact hK.bind hK.abort fun _ ↦ hK.pure _
    case ok => exact ih _ _
    all_goals exact hK.raise _

theorem launchRanks {touched : List RankPlan} (ranks : List RankPlan) :
    K _ (Runtime.launchRanks plan record touched ranks) := by
  induction ranks with
  | nil => exact hK.pure _
  | cons r ranks ih =>
    have hwait : K _ (waitIfHead plan r) :=
      hK.of_routine "" (waitIfHead_uses trivial trivial)
    have hone : K _ (launchOn plan r) :=
      hK.bind hwait fun _ ↦ hK.bind (hK.node .services) fun _ ↦ hK.launchRank
    refine hK.bind (hK.attempt hone) fun outcome ↦ ?_
    rcases outcome with (_ | _ | _ | _) | _
    case error.native => exact hK.bind hK.abort fun _ ↦ hK.pure _
    case ok => exact ih
    all_goals exact hK.raise _

theorem launchPhase : K _ (Runtime.launchPhase env plan record) := by
  have hasked : K _ (teardownRequested env plan.deploymentId) :=
    hK.of_routine "" teardownRequested_uses
  refine hK.bind hasked fun _ ↦ hK.ite (hK.bind hK.cancelled fun _ ↦ hK.pure _) ?_
  refine hK.bind (hK.createRanks _ _ _) fun progress ↦ ?_
  rcases progress with ⟨touched, warnings⟩ | r
  · refine hK.bind hasked fun _ ↦ hK.ite (hK.bind hK.cancelled fun _ ↦ hK.pure _) ?_
    refine hK.bind (hK.launchRanks _) fun progress ↦ ?_
    rcases progress with _ | r
    · refine hK.bind (hK.asks .now rfl) fun _ ↦ ?_
      exact hK.bind (hK.moves _ ⟨.starting, rfl, rfl⟩) fun _ ↦ hK.bind hK.publish fun _ ↦ hK.pure _
    · exact hK.pure _
  · exact hK.pure _

theorem waitReady : K _ (Runtime.waitReady env plan) :=
  hK.of_routine "" (waitReady_uses trivial trivial)

/-- What is done once the gang is ready, or is not going to be, unless it was torn down. -/
theorem unlessTornDown {kept other : Op α} (hkept : K α kept) (hother : K α other) :
    K α (Runtime.withLock id do if ← Runtime.isTornDown env id then kept else other) :=
  hK.withLock (hK.bind hK.isTornDown fun _ ↦ hK.ite hkept hother)

theorem readyPhase : K _ (Runtime.readyPhase env plan record) := by
  refine hK.bind (hK.attempt hK.waitReady) fun outcome ↦ ?_
  rcases outcome with (_ | _ | _ | _) | _
  case error.native =>
    exact hK.unlessTornDown (hK.bind hK.getDeployment fun _ ↦ hK.pure _)
      (hK.bind hK.failLaunchedGang fun _ ↦ hK.pure _)
  case ok =>
    refine hK.unlessTornDown (hK.bind hK.getDeployment fun _ ↦ hK.pure _) ?_
    refine hK.bind hK.publish fun _ ↦ hK.bind (hK.asks .now rfl) fun _ ↦ ?_
    exact hK.bind (hK.moves _ ⟨.running, rfl, rfl⟩) fun _ ↦ hK.pure _
  all_goals exact hK.raise _

theorem startPulled {wait : Bool} : K _ (Runtime.startPulled env plan record wait) := by
  refine hK.bind (hK.withLock hK.launchPhase) fun progress ↦ ?_
  rcases progress with launched | r
  · exact hK.ite hK.readyPhase (hK.pure _)
  · exact hK.pure _

theorem watch : K _ (Runtime.watch env plan) := by
  refine hK.bind (hK.attempt hK.waitReady) fun outcome ↦ ?_
  rcases outcome with (_ | _ | _ | _) | _
  case error.native =>
    exact hK.unlessTornDown (hK.pure _) (hK.bind hK.failLaunchedGang fun _ ↦ hK.pure _)
  case ok =>
    refine hK.unlessTornDown (hK.pure _) (hK.bind (hK.asks .now rfl) fun _ ↦ ?_)
    exact hK.bind (hK.moves _ ⟨.running, rfl, rfl⟩) fun _ ↦ hK.bind hK.publish fun _ ↦ hK.pure _
  all_goals exact hK.raise _

/-! ## Stopping and deleting -/

theorem stopDeployment : K _ (Runtime.stopDeployment env id) := by
  have hlocked : K _ (stopLocked env id) := by
    refine hK.bind hK.getDeployment fun found ↦ ?_
    rcases found with _ | r
    · exact hK.pure _
    · refine hK.bind hK.teardownEntries fun _ ↦ hK.bind hK.publish fun _ ↦ ?_
      exact hK.settles id (fun _ ↦ ⟨⟨.stopped, rfl, rfl⟩, rfl⟩) fun _ ↦ hK.pure _
  refine hK.bind hK.getDeployment fun found ↦ ?_
  rcases found with _ | r
  · exact hK.pure _
  · exact hK.bind (hK.asks (.cancelPull id) rfl) fun _ ↦ hK.withLock hlocked

theorem deleteDeployment : K _ (Runtime.deleteDeployment env id) := by
  have hlocked : K _ (deleteLocked env id) := by
    refine hK.bind hK.getDeployment fun found ↦ ?_
    rcases found with _ | r
    · exact hK.pure _
    · exact hK.bind hK.stopDeployment fun _ ↦ hK.ite (hK.pure _) (hK.drops id)
  refine hK.bind hK.getDeployment fun found ↦ ?_
  rcases found with _ | r
  · exact hK.pure _
  · exact hK.bind (hK.asks (.cancelPull id) rfl) fun _ ↦ hK.withLock hlocked

/-! ## Requests -/

theorem planDeployment {planner : Planner} {listeners : List Listeners} :
    K _ (Runtime.planDeployment env planner listeners) := by
  refine hK.bind (hK.of_routine "" loadRecords_uses) fun records ↦ ?_
  split
  · exact hK.raise _
  · have hgeneration : K _ (nextGeneration env planner.deploymentId) :=
      hK.bind hK.getDeployment fun found ↦ by
        rcases found with _ | r
        · exact hK.pure _
        · exact hK.pure _
    refine hK.bind hgeneration fun generation ↦ ?_
    split
    · exact hK.raise _
    · exact hK.pure _

/-- A start is the writing of the plan's record, and then of the class. -/
theorem exists_start {wait : Bool} {status : Status} : ∃ f : Record → Op Record,
    Runtime.start env plan wait status = persistPlannedRecord plan status >>= f ∧
      ∀ record, K _ (f record) := by
  refine ⟨_, rfl, fun record ↦ hK.bind hK.publish fun _ ↦ hK.bind hK.reapPhase fun progress ↦ ?_⟩
  rcases progress with _ | r
  · refine hK.bind hK.pullPhase fun progress ↦ ?_
    rcases progress with plan | r
    · exact hK.startPulled
    · exact hK.pure _
  · exact hK.pure _

section
variable (hpersist : ∀ plan status, status.finished = false → K _ (persistPlannedRecord plan status))
include hpersist

theorem start {wait : Bool} {status : Status} (hstatus : status.finished = false) :
    K _ (Runtime.start env plan wait status) := by
  obtain ⟨f, heq, hf⟩ := @exists_start K hK env plan wait status
  rw [heq]
  exact hK.bind (hpersist plan status hstatus) hf

theorem createDeployment : K _ (Runtime.createDeployment env plan) := by
  have hmissing : K _ (imageMissing plan.upstreamRef plan.pullTargets) :=
    hK.of_routine "" (imageMissing_uses trivial _)
  refine hK.bind hmissing fun missing ↦ hK.ite ?_ ?_
  · refine hK.bind (hpersist plan .pulling rfl) fun _ ↦ ?_
    refine hK.bind (hK.attempt (hK.start hpersist rfl)) fun outcome ↦ ?_
    rcases outcome with x | started
    · exact hK.bind hK.isTornDown fun _ ↦ hK.ite (hK.pure _)
        (hK.bind hK.recordError fun _ ↦ hK.pure _)
    · exact hK.ite (hK.pure _) hK.watch
  · exact hK.bind (hK.start hpersist rfl) fun _ ↦ hK.ite (hK.pure _) hK.watch

theorem request (request : Request) : K _ (request.program env) := by
  rcases request with ⟨planner, listeners, wait⟩ | id | id
  · refine hK.bind hK.planDeployment fun plan ↦ hK.ite ?_ ?_
    · exact hK.bind (hK.start hpersist rfl) fun _ ↦ hK.pure _
    · exact hK.createDeployment hpersist
  · exact hK.bind hK.stopDeployment fun _ ↦ hK.pure _
  · exact hK.bind hK.deleteDeployment fun _ ↦ hK.pure _

end

end Composes

end SparkPulse.Runtime
