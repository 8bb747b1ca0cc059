import SparkPulse.Program.Threads
import SparkPulse.Runtime.World

/-!
# The calls of the runtime

Everything the runtime does to the world it does by one of these calls: a transaction of the record
store, a step on the table of pulls, taking or giving back a lifecycle lock, an operation on a
node. Between two calls anything else may happen; a call is one step.

A call on a node is answered by the node, and the answers are unconstrained but for what they claim
about containers: a `missing` is true when it is given, a container reported present is there, a
listing is complete. A stop may remove the container or not, whatever it answers, and a
`run_container` that raises may have created it.
-/

namespace SparkPulse.Runtime

open Program Transition

/-! ## Calls and their replies -/

/-- `ExecResult` -/
structure ExecResult where
  returncode : Option Int
  output : String := ""
  deriving DecidableEq, Repr

def ExecResult.ok (r : ExecResult) : Bool := r.returncode = some 0

@[reducible] def NodeOp.Reply : NodeOp → Type
  | services | stopContainer _ | runContainer .. | pullImage .. => Unit
  | listManaged _ => List (Container × String)
  | containerStatus _ => Presence
  | getLogs _ | loopbackReference _ | nodeReference _ | relayTarget => String
  | ensureDirectories _ => List String
  | exec .. => ExecResult
  | copyTo .. | imageExists _ => Bool
  | resolveMod _ => String × List String

inductive Call
  -- the record store
  | rows
  | row (id : String)
  | updateRow (id : String) (p : Patch)
  | updateRecord (id : String) (p : Patch)
  | persist (record : Record)
  /-- A whole-set save of `records`, by a caller that changed them from what it loaded. -/
  | save (loaded records : List Record)
  | dropRecord (id : String)
  | deleteMany (ids : List String)
  -- the table of pulls
  | registerPull (id : String)
  | unregisterPull (id : String)
  | cancelPull (id : String)
  | pullCancelRequested (id : String)
  -- the lifecycle lock
  | acquire (id : String)
  | release (id : String)
  -- the clock
  | now
  | deadlinePassed
  | isExpired (stoppedAt : String)
  -- probes from the control plane, which answer rather than raise
  | rpcListening (address : String) (port : Nat)
  | probeReady (url model : String)
  | modelsAnswering (url : String)
  | bytesTransferred
  | publish (kind : EventType) (id text : String)
  /-- Add to the trace what the caller of a request sees of it. -/
  | note (e : Event)
  | node (phase : Phase) (address : String) (op : NodeOp)
  deriving DecidableEq

@[reducible] def Call.Ret : Call → Type
  | rows => List Record
  | row _ | updateRow .. | updateRecord .. => Option Record
  | persist _ | save .. | registerPull _ | unregisterPull _ | acquire _ | release _ | publish ..
  | note _ => Unit
  | dropRecord _ | cancelPull _ | pullCancelRequested _ | deadlinePassed | isExpired _
  | rpcListening .. | probeReady .. => Bool
  | deleteMany _ => Nat
  | now | bytesTransferred => String
  | modelsAnswering _ => Option (List String)
  | node _ _ op => Except Exn op.Reply

/-- A program of the runtime. -/
abbrev Op := Prog Call Call.Ret Exn

/-- Make one call. -/
abbrev invoke (c : Call) : Op c.Ret := Prog.call c

/-! ## Answers -/

/-- What the schedule decides about one call. Each call reads the fields it needs. -/
structure Answer where
  raises : Option Exn := none
  took : Bool := true
  yes : Bool := true
  text : String := ""
  texts : List String := []
  listing : Option (List String) := none
  presence : Presence := .missing
  /-- The status a listed container is reported with. -/
  status : String → String := fun _ ↦ "running"
  /-- The containers that have gone by themselves when a node lists what it has. -/
  vanished : List String := []
  returncode : Option Int := some 0

namespace NodeOp

/-- What an operation that raises may have done. -/
def attempted (machine : String) (op : NodeOp) (a : Answer) (w : World) : World :=
  match op with
  | stopContainer name =>
    if a.took then { w with containers := w.without machine name } else w
  | runContainer image name labels =>
    if a.took ∧ w.has machine name = false then
      { w with containers := ⟨machine, name, image, labels⟩ :: w.containers }.log
        (.created machine name labels)
    else w
  | exec name .launch => w.log (.launched machine name)
  | _ => w

/-- The label filter of a listing: a container of one deployment, or of any. -/
def selects (deployment : Option String) (c : Container) : Bool :=
  c.labels.deployment.isSome ∧ (deployment = none ∨ c.labels.deployment = deployment)

/-- The containers a node lists. -/
def listed (machine : String) (deployment : Option String) (a : Answer) (w : World) :
    List Container :=
  w.containers.filter fun c ↦ c.machine = machine ∧ c.name ∉ a.vanished ∧ selects deployment c

/-- The reply of an operation that does not raise, and what it did. -/
def answered (machine : String) : (op : NodeOp) → Answer → World → Option (op.Reply × World)
  | services, _, w => some ((), w)
  | listManaged deployment, a, w =>
    some ((listed machine deployment a w).map fun c ↦ (c, a.status c.name),
      { w with containers := w.containers.filter fun c ↦
          ¬(c.machine = machine ∧ c.name ∈ a.vanished) }.log
        (.listed machine deployment ((listed machine deployment a w).map Container.name)))
  | containerStatus name, a, w =>
    match a.presence with
    | .missing => some (.missing,
        { w with containers := w.without machine name }.log (.gone machine name))
    | .unknown => some (.unknown, w)
    | .present status running exitCode =>
      if w.has machine name then some (.present status running exitCode, w) else none
  | stopContainer name, a, w => some ((), attempted machine (.stopContainer name) a w)
  | getLogs _, a, w => some (a.text, w)
  | ensureDirectories _, a, w => some (a.texts, w)
  | runContainer image name labels, a, w =>
    if a.took ∧ w.has machine name = false then
      some ((), attempted machine (.runContainer image name labels) a w)
    else none
  | exec name command, a, w =>
    some (⟨a.returncode, a.text⟩, attempted machine (.exec name command) a w)
  | copyTo _ _, a, w => some (a.yes, w)
  | imageExists _, a, w => some (a.yes, w)
  | pullImage _ _, _, w => some ((), w)
  | resolveMod _, a, w => some ((a.text, a.texts), w)
  | loopbackReference _, a, w => some (a.text, w)
  | nodeReference _, a, w => some (a.text, w)
  | relayTarget, a, w => some (a.text, w)

end NodeOp

/-! ## Effects -/

namespace World

variable (env : Env)

/-- The repairs a load makes. -/
def repair (w : World) : World :=
  w.commit (w.store.repairDelta env.redact) (w.store.repair env.redact)

/-- Take the lock of a deployment, once more when it is already held; wait while another has it. -/
def acquire (w : World) (tid : Tid) (id : String) : Option World :=
  match w.locks id with
  | none => some { w with locks := Function.update w.locks id (some (tid, 1)) }
  | some (holder, depth) =>
    if holder = tid then
      some { w with locks := Function.update w.locks id (some (tid, depth + 1)) }
    else none

/-- Give the lock of a deployment back once. -/
def release (w : World) (tid : Tid) (id : String) : Option World :=
  match w.locks id with
  | none => none
  | some (holder, depth) =>
    if holder = tid then
      some { w with
        locks := Function.update w.locks id (if depth ≤ 1 then none else some (tid, depth - 1)) }
    else none

end World

/-- The reply to a call and the world it leaves; `none` when the answer is not one the call can be
given, or it has to wait. -/
def Call.exec (env : Env) (tid : Tid) (w : World) : (c : Call) → Answer → Option (c.Ret × World)
  | .rows, _ => some (w.store.rows, w.log (.rowsRead tid))
  | .row id, _ => some (w.store.get id, w)
  | .updateRow id p, _ =>
    some ((w.store.get id).map p.apply,
      (w.commit (Delta.single id (.patch p)) (w.store.update id p)).log (.rowUpdated tid id p))
  | .updateRecord id p, _ =>
    some ((w.store.updateRecord env.redact id p).1,
      (w.repair env).commit (Delta.single id (.patch p)) (w.store.updateRecord env.redact id p).2)
  | .persist record, _ =>
    some ((), ((w.repair env).commit (Store.putDelta record)
      (w.store.persist env.redact record)).log (.persisted record.id))
  | .save loaded records, _ =>
    some ((), w.commit (Store.saveDelta loaded records) (w.store.save records))
  | .dropRecord id, _ =>
    some ((w.store.dropRecord env.redact id).1,
      (w.repair env).commit (Delta.single id .drop) (w.store.dropRecord env.redact id).2)
  | .deleteMany ids, _ =>
    some ((ids.filter fun id ↦ (w.store.get id).isSome).length,
      w.commit (Store.deleteDelta ids) (w.store.deleteMany ids))
  | .registerPull id, _ => some ((), { w with pulls := Function.update w.pulls id (some false) })
  | .unregisterPull id, _ => some ((), { w with pulls := Function.update w.pulls id none })
  | .cancelPull id, _ =>
    match w.pulls id with
    | none => some (false, w)
    | some _ => some (true, { w with pulls := Function.update w.pulls id (some true) })
  | .pullCancelRequested id, _ => some ((w.pulls id).getD false, w)
  | .acquire id, _ => (w.acquire tid id).map fun w' ↦ ((), w')
  | .release id, _ => (w.release tid id).map fun w' ↦ ((), w')
  | .now, a => if a.text = "" then none else some (a.text, w)
  | .deadlinePassed, a => some (a.yes, w)
  | .isExpired _, a => some (a.yes, w)
  | .rpcListening _ _, a => some (a.yes, w)
  | .probeReady _ _, a => some (a.yes, w)
  | .modelsAnswering _, a => some (a.listing, w)
  | .bytesTransferred, a => some (a.text, w)
  | .publish kind id text, _ => some ((), w.log (.published kind id text))
  | .note e, _ => some ((), w.log e)
  | .node phase address op, a =>
    match a.raises with
    | some x => some (.error x, (op.attempted (env.machine address) a w).log (.raised phase op x))
    | none => (op.answered (env.machine address) a w).map fun r ↦ (.ok r.1, r.2)

/-! ## What calls leave alone -/

/-- Only the machines and the trace differ. -/
structure World.Quiet (w w' : World) : Prop where
  store : w'.store = w.store
  commits : w'.commits = w.commits
  pulls : w'.pulls = w.pulls
  locks : w'.locks = w.locks

namespace World.Quiet

variable {u v w : World}

theorem refl (w : World) : w.Quiet w := ⟨rfl, rfl, rfl, rfl⟩

theorem trans (huv : u.Quiet v) (hvw : v.Quiet w) : u.Quiet w :=
  ⟨hvw.store.trans huv.store, hvw.commits.trans huv.commits, hvw.pulls.trans huv.pulls,
    hvw.locks.trans huv.locks⟩

theorem log (h : u.Quiet v) (e : Event) : u.Quiet (v.log e) := ⟨h.store, h.commits, h.pulls, h.locks⟩

end World.Quiet

namespace NodeOp

variable {machine : String} {op : NodeOp} {a : Answer} {w w' : World}

theorem quiet_attempted (machine : String) (op : NodeOp) (a : Answer) (w : World) :
    w.Quiet (op.attempted machine a w) := by
  unfold attempted
  split <;> (try split_ifs) <;> exact ⟨rfl, rfl, rfl, rfl⟩

theorem quiet_answered {r : op.Reply} (h : op.answered machine a w = some (r, w')) :
    w.Quiet w' := by
  cases op <;> simp only [answered] at h
  case containerStatus name =>
    split at h
    · cases h
      exact ⟨rfl, rfl, rfl, rfl⟩
    · cases h
      exact .refl w
    · split_ifs at h
      cases h
      exact .refl w
  case runContainer image name labels =>
    split_ifs at h
    cases h
    exact quiet_attempted machine _ a w
  all_goals
    cases h
    first | exact .refl w | exact quiet_attempted machine _ a w | exact ⟨rfl, rfl, rfl, rfl⟩

end NodeOp

namespace Call

variable {env : Env} {i : Tid} {w w' : World} {a : Answer}

/-- Operations on nodes leave everything on the control plane alone. -/
theorem quiet_node {phase : Phase} {address : String} {op : NodeOp}
    {r : (Call.node phase address op).Ret}
    (h : (Call.node phase address op).exec env i w a = some (r, w')) : w.Quiet w' := by
  simp only [exec] at h
  split at h
  · cases h
    exact (NodeOp.quiet_attempted _ op a w).log _
  · obtain ⟨⟨r', w''⟩, hr, heq⟩ := Option.map_eq_some_iff.mp h
    cases heq
    exact NodeOp.quiet_answered hr

/-- Whether a call writes records. -/
def writes : Call → Bool
  | updateRow .. | updateRecord .. | persist _ | save .. | dropRecord _ | deleteMany _ => true
  | _ => false

/-- A call that writes no records leaves them alone. -/
theorem records_of_exec {c : Call} {r : c.Ret} (h : c.exec env i w a = some (r, w'))
    (hc : c.writes = false) : w'.store = w.store ∧ w'.commits = w.commits := by
  cases c
  case node => exact ⟨(quiet_node h).store, (quiet_node h).commits⟩
  case acquire id =>
    obtain ⟨w'', hw, heq⟩ := Option.map_eq_some_iff.mp h
    cases heq
    unfold World.acquire at hw
    split at hw
    · cases hw
      exact ⟨rfl, rfl⟩
    · split_ifs at hw
      cases hw
      exact ⟨rfl, rfl⟩
  case release id =>
    obtain ⟨w'', hw, heq⟩ := Option.map_eq_some_iff.mp h
    cases heq
    unfold World.release at hw
    split at hw
    · cases hw
    · split_ifs at hw
      all_goals
        cases hw
        exact ⟨rfl, rfl⟩
  case cancelPull id =>
    simp only [exec] at h
    split at h <;> cases h <;> exact ⟨rfl, rfl⟩
  case now =>
    simp only [exec] at h
    split_ifs at h
    cases h
    exact ⟨rfl, rfl⟩
  all_goals first
    | (cases h; exact ⟨rfl, rfl⟩)
    | cases hc

end Call

end SparkPulse.Runtime
