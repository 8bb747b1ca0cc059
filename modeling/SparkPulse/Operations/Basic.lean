import SparkPulse.Reconciler.Sweep

/-!
# Operations

What a control plane does to its deployments, request by request: the operations of the runtime and
the reconciler, and sessions of them. Several threads each run a session; what one of them raises
ends that operation and not the session.
-/

namespace SparkPulse

open Program Prog SparkPulse.Runtime Reconciler

/-- One operation on the deployments. -/
inductive Operation
  /-- `create_deployment`, for a plan of a new deployment or of an earlier one -/
  | deploy (plan : DeployPlan)
  | stop (id : String)
  | delete (id : String)
  | list
  | sweepOrphans (only : Option String)
  | reconcile
  | mark (id state reason : String) (intent : Option String)
  | purgeExpired
  /-- `_update_record`, as a background thread calls it -/
  | updateRecord (id : String) (p : Patch)
  | persistPlannedRecord (plan : DeployPlan) (status : Status)

namespace Operation

variable (env : Env)

/-- What an operation runs. -/
def program : Operation → Op Unit
  | deploy plan => createDeployment env plan
  | stop id => do let _ ← stopDeployment env id
  | delete id => do let _ ← deleteDeployment env id
  | list => do let _ ← listDeployments env
  | sweepOrphans only => do let _ ← Runtime.sweepOrphans env only
  | reconcile => do let _ ← sweep env
  | mark id state reason intent => do let _ ← Reconciler.mark id state reason intent
  | purgeExpired => do let _ ← Runtime.purgeExpired (← loadRecords env)
  | updateRecord id p => do let _ ← Runtime.updateRecord id p
  | persistPlannedRecord plan status => do let _ ← Runtime.persistPlannedRecord plan status

/-- One operation after another. -/
def session : List Operation → Op Unit
  | [] => return
  | o :: os => do
    let _ ← (o.program env).attempt
    session os

end Operation

/-- Any number of threads, each running a session. -/
def Sessions (env : Env) (s : Threads Tid Call.Ret Exn Unit World) : Prop :=
  ∀ i, ∃ os, s.pool i = Operation.session env os

/-- The interleavings of sessions, from an initial condition on the world. -/
def control (env : Env) (I : World → Prop) :
    Transition.System (Threads Tid Call.Ret Exn Unit World) (Tid × Answer) :=
  Threads.system (Call.exec env) fun s ↦ Sessions env s ∧ I s.world

end SparkPulse
