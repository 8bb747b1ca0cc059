import SparkPulse.Jobs.Basic
import SparkPulse.Program.After
import SparkPulse.Runtime.Routine

/-!
# Pulls that come back cancelled

What the callers of a pull make of a node that answers it with `PullCancelled`. A deploy goes past
its retries and the upstream registry, settles its record `stopped` and has its answer; the job of a
pull ends `cancelled`. Neither does anything else that a reader of its record could take for a
failure.
-/

open Program Prog

namespace SparkPulse.Runtime

/-! ## Deploys -/

/-- A node answers a pull with `PullCancelled`. -/
def PullCut : ∀ e : Call, e.Ret → Prop
  | .node _ _ (.pullImage ..), r => ∃ text, r = .error (.pullCancelled text)
  | _, _ => False

/-- Calls that record a teardown, or nothing. -/
def RecordsTeardown : Call → Prop
  | .updateRecord _ p => p.status = some .stopped ∧ p.errorMessage = none
  | .publish kind _ _ => kind = .imagePullCancelled ∨ kind = .deploymentStopped
  | .unregisterPull _ | .now => True
  | _ => False

/-- Calls that are no pulls. -/
def NoPull (e : Call) : Prop := ∀ r, ¬PullCut e r

/-- The rest of a pull that was cancelled: it raises `PullCancelled`. -/
def EndsCancelled {α : Type} (p : Op α) : Prop :=
  p.Ends RecordsTeardown (fun _ ↦ False) fun x ↦ x.isPullCancelled

/-- The same, where what is raised is looked at. -/
def CaughtCancelled {α : Type} (p : Op (Except Exn α)) : Prop :=
  p.Ends RecordsTeardown (fun r ↦ ∃ text, r = .error (.pullCancelled text)) fun _ ↦ False

theorem exists_of_isPullCancelled {x : Exn} (h : x.isPullCancelled) :
    ∃ text, x = .pullCancelled text := by
  rcases x with text | text | text | text
  case pullCancelled => exact ⟨text, rfl⟩
  all_goals cases h

section
variable {α β : Type} {p : Op α}

theorem EndsCancelled.attempt (h : EndsCancelled p) : CaughtCancelled p.attempt :=
  Ends.attempt h (fun _ ↦ False.elim) fun _ hx ↦
    (exists_of_isPullCancelled hx).imp fun _ ↦ congrArg Except.error

theorem EndsCancelled.bind (h : EndsCancelled p) {f : α → Op β} : EndsCancelled (p >>= f) :=
  Ends.bind h fun _ ↦ False.elim

/-- What a handler raises for a pull that was cancelled, the whole raises. -/
theorem CaughtCancelled.bind {p : Op (Except Exn α)} (h : CaughtCancelled p)
    {f : Except Exn α → Op β} (hf : ∀ text, EndsCancelled (f (.error (.pullCancelled text)))) :
    EndsCancelled (p >>= f) := by
  have hp : p.Ends RecordsTeardown (fun r ↦ ∃ text, r = .error (.pullCancelled text))
      fun x : Exn ↦ x.isPullCancelled := h.mono (fun _ ↦ id) fun _ ↦ False.elim
  refine hp.bind fun r hr ↦ ?_
  obtain ⟨text, rfl⟩ := hr
  exact hf text

end

section
variable (env : Env) {id address ref location : String}

theorem node_pullImage_after {relay : Option String} :
    (node .pull address (.pullImage ref relay)).After PullCut EndsCancelled := by
  have hcall : (invoke (.node .pull address (.pullImage ref relay))).After PullCut fun q ↦
      ∃ text, q = .ret (.error (.pullCancelled text)) :=
    after_call fun r ⟨text, hr⟩ ↦ ⟨text, hr ▸ rfl⟩
  refine hcall.bind ?_ fun outcome ↦ ?_
  · rintro _ ⟨text, rfl⟩
    exact ends_raise.mpr rfl
  · rcases outcome with _ | _ <;> trivial

/-- Calls on the store, on the table of pulls and to publish. -/
theorem noPull_of_routine {e : Call} (h : Routine ⟨id, fun _ ↦ False, fun _ ↦ True⟩ e) :
    NoPull e := by
  intro r hr
  rcases e with _ | _ | _ | _ | _ | _ | _ | _ | _ | _ | _ | _ | _ | _ | _ | _ | _ | _ | _ | _ |
    _ | _ | _ | ⟨phase, address, op⟩
  case node => exact h.phase
  all_goals exact hr

theorem node_noPull {phase : Phase} {op : NodeOp} (h : ∀ ref relay, op ≠ .pullImage ref relay) :
    (node phase address op).Uses NoPull := by
  refine uses_node fun r hr ↦ ?_
  rcases op with _ | _ | _ | _ | _ | _ | _ | _ | _ | _ | ⟨ref, relay⟩ | _ | _ | _ | _
  case pullImage => exact h ref relay rfl
  all_goals exact hr

theorem registryCopy_noPull : (registryCopy ref).Uses NoPull :=
  (node_noPull fun _ _ h ↦ by cases h).attempt.bind fun answer ↦ by
    rcases answer with _ | _ <;> exact uses_pure

theorem imageOnNode_noPull : (imageOnNode address ref).Uses NoPull := by
  refine (node_noPull fun _ _ h ↦ by cases h).bind fun _ ↦ .ite (fun _ ↦ uses_pure) fun _ ↦ ?_
  refine registryCopy_noPull.bind fun copy ↦ .ite (fun _ ↦ uses_pure) fun _ ↦ ?_
  exact (node_noPull fun _ _ h ↦ by cases h).bind fun _ ↦ .ite (fun _ ↦ uses_pure) fun _ ↦ uses_pure

theorem relayedSource_noPull : (relayedSource env address ref).Uses NoPull := by
  refine registryCopy_noPull.bind fun copy ↦ .ite (fun _ ↦ uses_pure) fun _ ↦ ?_
  have hconsult : (consultRegistry env address ref copy).Uses NoPull := by
    refine (node_noPull fun _ _ h ↦ by cases h).bind fun _ ↦ .ite (fun _ ↦ uses_pure) fun _ ↦ ?_
    refine .ite (fun _ ↦ uses_pure) fun _ ↦ ?_
    exact (node_noPull fun _ _ h ↦ by cases h).bind fun _ ↦ uses_pure
  exact hconsult.attempt.bind fun source ↦ by rcases source with _ | _ <;> exact uses_pure

theorem teardownRequested_noPull : (teardownRequested env id).Uses NoPull :=
  teardownRequested_uses.mono fun _ (h : Routine ⟨id, _, _⟩ _) ↦ noPull_of_routine h

theorem publish_noPull {kind : EventType} {text : String} : (publish kind id text).Uses NoPull :=
  uses_call.mpr fun _ ↦ False.elim

theorem pullWithRetries_after (left : Nat) :
    (pullWithRetries env id address ref location left).After PullCut EndsCancelled := by
  induction left with
  | zero => trivial
  | succ left ih =>
    -- What follows any other failure.
    have hfailed : ∀ x : Exn, (do
        if ← teardownRequested env id then
          .raise (.pullCancelled s!"pull of {ref} cancelled")
        else
          let tried := pullAttempts - left
          if 0 < left then
            publish .imagePullProgress id
              (s!"pull of {ref} on {location} failed ({x.text}); retrying in " ++
                s!"{pullRetryBackoffSeconds tried}s — attempt {tried + 1} of {pullAttempts}")
            pullWithRetries env id address ref location left
          else
            let message := pullFailureMessage ref location tried (← invoke .bytesTransferred) x
            publish .imagePullFailed id message
            .raise (.native message) : Op Unit).After PullCut EndsCancelled := by
      intro x
      refine (teardownRequested_noPull env).after_bind fun _ ↦ .ite (fun _ ↦ trivial) fun _ ↦
        .ite (fun _ ↦ publish_noPull.after_bind fun _ ↦ ih) fun _ ↦ ?_
      have hbytes : (invoke .bytesTransferred).Uses NoPull := uses_call.mpr fun _ ↦ False.elim
      exact hbytes.after_bind fun _ ↦ publish_noPull.after_bind fun _ ↦ trivial
    refine (node_pullImage_after.attempt fun _ ↦ EndsCancelled.attempt).bind
      (fun q hq ↦ hq.bind fun text ↦ ?_) fun outcome ↦ ?_
    · exact ends_call_bind (.inl rfl) fun _ ↦ rfl
    · rcases outcome with (text | text | text | text) | _
      · exact hfailed (.native text)
      · exact publish_noPull.after_bind fun _ ↦ trivial
      · exact hfailed (.pullStalled text)
      · exact hfailed (.other text)
      · trivial

theorem pullFromRegistry_after :
    (pullFromRegistry env id address ref location).After PullCut EndsCancelled := by
  refine (relayedSource_noPull env).after_bind fun source ↦ ?_
  rcases source with _ | ⟨copy, relay⟩
  · trivial
  have hfailed : ∀ x : Exn, (do
      if ← teardownRequested env id then
        .raise (.pullCancelled s!"pull of {copy} cancelled")
      else
        publish .imagePullProgress id
          (s!"could not pull {copy} from the control node's registry on " ++
            s!"{location} ({x.text}); pulling {ref} from its own registry instead")
        return "" : Op String).After PullCut EndsCancelled := fun x ↦
    (teardownRequested_noPull env).after_bind fun _ ↦ .ite (fun _ ↦ trivial) fun _ ↦
      publish_noPull.after_bind fun _ ↦ trivial
  refine (node_pullImage_after.attempt fun _ ↦ EndsCancelled.attempt).bind
    (fun q hq ↦ hq.bind fun text ↦ rfl) fun outcome ↦ ?_
  rcases outcome with (text | text | text | text) | _
  · exact hfailed (.native text)
  · trivial
  · exact hfailed (.pullStalled text)
  · exact hfailed (.other text)
  · trivial

theorem pullSomewhere_after :
    (pullSomewhere env id address ref location).After PullCut EndsCancelled := by
  refine (pullFromRegistry_after env).bind (fun _ hq ↦ hq.bind) fun _ ↦
    .ite (fun _ ↦ trivial) fun _ ↦ ?_
  exact (pullWithRetries_after env _).bind (fun _ hq ↦ hq.bind) fun _ ↦ trivial

theorem pullMissing_after :
    (pullMissing env id address ref location).After PullCut EndsCancelled := by
  have hunregister : (invoke (.unregisterPull id)).Ends RecordsTeardown (fun _ ↦ True)
      fun x ↦ x.isPullCancelled := ends_call_bind trivial fun _ ↦ trivial
  refine uses_call.mpr (fun _ ↦ False.elim) |>.after_bind fun _ ↦ ?_
  refine publish_noPull.after_bind fun _ ↦ ?_
  refine uses_call.mpr (fun _ ↦ False.elim) |>.after_bind fun _ ↦ ?_
  refine ((pullSomewhere_after env).ensure (Q := EndsCancelled)
    (fun q hq ↦ hq.ensure hunregister) (uses_call.mpr fun _ ↦ False.elim)).bind
      (fun _ hq ↦ hq.bind) fun _ ↦ ?_
  refine publish_noPull.after_bind fun _ ↦ ?_
  exact uses_call.mpr (fun _ ↦ False.elim) |>.after_bind fun _ ↦ trivial

theorem pullOnto_after : (pullOnto env id address ref).After PullCut EndsCancelled := by
  refine (node_noPull fun _ _ h ↦ by cases h).after_bind fun _ ↦ ?_
  refine imageOnNode_noPull.attempt.after_bind fun present ↦ ?_
  rcases present with _ | present
  · exact pullMissing_after env
  · exact .ite (fun _ ↦ trivial) fun _ ↦ pullMissing_after env

theorem pullEverywhere_after (plan : DeployPlan) (addresses : List String) :
    (pullEverywhere env plan addresses).After PullCut fun q ↦
      q.Ends RecordsTeardown (fun r ↦ ∃ text, r.2 = .error (.pullCancelled text)) fun _ ↦ False := by
  induction addresses generalizing plan with
  | nil => trivial
  | cons address addresses ih =>
    refine ((pullOnto_after env).attempt fun _ ↦ EndsCancelled.attempt).bind (fun q hq ↦ ?_)
      fun outcome ↦ ?_
    · refine Ends.bind hq fun r hr ↦ ?_
      obtain ⟨text, rfl⟩ := hr
      exact ⟨text, rfl⟩
    · rcases outcome with x | image
      · trivial
      · exact ih _

/-- **A pull that comes back cancelled is recorded as a teardown.** After a node answered a pull of a
deploy with `PullCancelled`, the phase records its record stopped, publishes nothing but that, and
has its answer. -/
theorem pullPhase_after (plan : DeployPlan) (record : Record) :
    (pullPhase env plan record).After PullCut fun q ↦
      q.Ends RecordsTeardown (fun r ↦ ∃ record, r = .done record) fun _ ↦ False := by
  refine (pullEverywhere_after env plan _).bind (fun q hq ↦ ?_) fun r ↦ ?_
  · refine Ends.bind hq fun r hr ↦ ?_
    obtain ⟨plan, outcome⟩ := r
    obtain ⟨text, rfl⟩ := hr
    refine ends_call_bind (.inr rfl) fun _ ↦ ends_call_bind trivial fun _ ↦ ?_
    exact ends_call_bind ⟨rfl, rfl⟩ fun _ ↦ ⟨_, rfl⟩
  · have huses : (pullEnded record r.1 r.2).Uses
        (Routine ⟨r.1.deploymentId, fun _ ↦ False, fun _ ↦ True⟩) :=
      pullEnded_uses rfl (fun _ _ _ _ ↦ trivial) r.2
    exact (huses.mono fun _ ↦ noPull_of_routine).after

end

end SparkPulse.Runtime

/-! ## Jobs -/

namespace SparkPulse.Jobs

/-- The daemon's node answers the pull with `PullCancelled`. -/
def PullCut : ∀ c : Call, c.Ret → Prop
  | .pullImage _, r => r = .error .cancelled
  | _, _ => False

/-- Calls that record a cancellation, or nothing. -/
def RecordsCancelled : Call → Prop
  | .set _ fields => fields.status = some .cancelled ∧ fields.error = none
  | .uncancel _ => True
  | _ => False

theorem set_noPull {id : JobId} {fields : Fields} :
    (setAndPublish .pull id fields).Uses fun c ↦ ∀ r, ¬PullCut c r := by
  refine (uses_call.mpr fun _ ↦ False.elim).bind fun job ↦ ?_
  rcases job with _ | job
  · trivial
  · trivial

/-- **A pull that comes back cancelled ends its job as cancelled.** -/
theorem runPull_after (id : JobId) :
    (runPull id).After PullCut fun q ↦
      q.Ends RecordsCancelled (fun _ ↦ True) fun _ ↦ False := by
  refine uses_call.mpr (fun _ ↦ False.elim) |>.after_bind fun job ↦ ?_
  rcases job with _ | job
  · trivial
  refine uses_call.mpr (fun _ ↦ False.elim) |>.after_bind fun cancelled ↦ ?_
  refine .ite (fun _ ↦ ?_) fun _ ↦ set_noPull.after_bind fun _ ↦ ?_
  · exact set_noPull.after_bind fun _ ↦ uses_call.mpr (fun _ ↦ False.elim) |>.after
  refine uses_call.mpr (fun _ ↦ False.elim) |>.after_bind fun _ ↦ ?_
  have hcall : (invoke (.pullImage job.subject)).After PullCut fun q ↦
      q = .ret (.error .cancelled) := after_call fun r hr ↦ hr ▸ rfl
  refine hcall.bind ?_ fun outcome ↦ ?_
  · rintro _ rfl
    refine ends_call_bind ⟨rfl, rfl⟩ fun settled ↦ ?_
    rcases settled with _ | settled
    · exact ends_call_bind trivial fun _ ↦ trivial
    · exact ends_call_bind trivial fun _ ↦ trivial
  · rcases outcome with exc | ⟨done, total, imageId⟩
    · refine Uses.after_bind ?_ fun _ ↦ uses_call.mpr (fun _ ↦ False.elim) |>.after
      refine .ite (fun _ ↦ set_noPull.bind fun _ ↦ trivial) fun _ ↦ ?_
      refine (uses_call.mpr fun _ ↦ False.elim).bind fun _ ↦ .ite (fun _ ↦ ?_) fun _ ↦ ?_
      · exact set_noPull.bind fun _ ↦ trivial
      · exact set_noPull.bind fun _ ↦ trivial
    · exact set_noPull.after_bind fun _ ↦ uses_call.mpr (fun _ ↦ False.elim) |>.after

end SparkPulse.Jobs
