import SparkPulse.Runtime.GangStart
import SparkPulse.Runtime.Frame

/-!
# How a start ends

A start that does not come up has to settle its record, say why, and account for every container it
created. It does, unless an exception gets past the handlers: once the pull is over they catch
`NativeRuntimeError` alone, and resolving a node's service, or what applying a mod asks of a node,
may raise anything. `Escaped` says of a trace that this has happened, and it is exactly what decides
whether a start is settled when it ends.

The argument has two halves. A program is `Faithful` when the exceptions that leave it are the ones
that escaped, and all others have been made into `NativeRuntimeError`; this is followed through the
phases by the rules of sequencing. What is outstanding is confined to the ranks touched so far, so
the teardown that settles a failure, which removes these ranks or files them as orphans, covers it.
-/

namespace SparkPulse.Runtime

open Program Prog Transition

/-! ## What is outstanding, and what escapes -/

/-- The containers created and not since reported gone. -/
def outstanding : List Event → List (String × String)
  | [] => []
  | .created machine name _ :: earlier => (machine, name) :: outstanding earlier
  | .gone machine name :: earlier => (outstanding earlier).filter (· ≠ (machine, name))
  | _ :: earlier => outstanding earlier

/-- The operations of which `start` handles a `NativeRuntimeError` and nothing else. -/
def unguarded : Phase → NodeOp → Bool
  | .create, .ensureDirectories _ | .create, .runContainer .. => false
  | .create, _ | .rpc, .services | .launch, .services | .ready, .services => true
  | _, _ => false

/-- An exception that no handler of `start` catches. -/
def Event.escapes : Event → Bool
  | raised phase asked x => unguarded phase asked && !x.isNative
  | _ => false

/-- An exception has got past the handlers. -/
def Escaped (trace : List Event) : Prop := ∃ e ∈ trace, e.escapes

theorem mem_outstanding_append {new earlier : List Event} (hnew : ∀ e ∈ new, e.starts = false)
    {c : String × String} (hc : c ∈ outstanding (new ++ earlier)) : c ∈ outstanding earlier := by
  induction new with
  | nil => exact hc
  | cons e new ih =>
    have he := hnew e (by simp)
    have hrest : c ∈ outstanding (new ++ earlier) → c ∈ outstanding earlier :=
      ih fun e' he' ↦ hnew e' (by simp [he'])
    cases e with
    | created => cases he
    | gone machine name => exact hrest (List.mem_filter.mp hc).1
    | _ => exact hrest hc

theorem World.Shrinks.outstanding_subset {w w' : World} (h : w.Shrinks w') :
    outstanding w'.trace ⊆ outstanding w.trace := by
  obtain ⟨new, hnew, hstarts⟩ := h.trace
  rw [hnew]
  exact fun c ↦ mem_outstanding_append hstarts

/-- Nothing escapes in phases whose operations are all guarded. -/
theorem Frame.not_escaped {s : Scope} {w w' : World}
    (hs : ∀ phase op, s.phases phase → unguarded phase op = false) (h : Frame s w w')
    (hw : ¬Escaped w.trace) : ¬Escaped w'.trace := by
  rintro ⟨e, he, hescapes⟩
  cases e with
  | raised phase op x =>
    rcases h.raised phase op x he with hmem | hphase
    · exact hw ⟨_, hmem, hescapes⟩
    · rw [Event.escapes, hs phase op hphase] at hescapes
      cases hescapes
  | _ => cases hescapes

/-! ## Faithful programs -/

/-- A program with nobody else about, of whose single calls nothing is asked. -/
abbrev solo (env : Env) : Setting Call.Ret World := alone env fun _ _ ↦ True

/-- An operation that raises nothing that could escape, whatever it raises. -/
def Guarded : Call → Prop
  | .node phase _ asked => unguarded phase asked = false
  | .note _ => False
  | _ => True

/-- The exceptions that leave the program are the ones that escaped, and else
`NativeRuntimeError`. -/
def Faithful {α : Type} (env : Env) (p : Op α) : Prop :=
  ∀ w, ¬Escaped w.trace → p.Safe (solo env) (fun _ w' ↦ ¬Escaped w'.trace)
    (fun x w' ↦ Escaped w'.trace ↔ x.isNative = false) w

section
variable {α β : Type} {env : Env} {p : Op α}

theorem not_escaped_of_exec {i : Tid} {w w' : World} {a : Answer} {c : Call} {r : c.Ret}
    (h : c.exec env i w a = some (r, w')) (hc : Guarded c) (hw : ¬Escaped w.trace) :
    ¬Escaped w'.trace := by
  rintro ⟨e, he, hescapes⟩
  cases e with
  | raised phase op x =>
    have hnote : ∀ e, c ≠ .note e := by
      rintro e rfl
      exact hc
    rcases Call.raised_of_exec h hnote he with hmem | ⟨address, rfl⟩
    · exact hw ⟨_, hmem, hescapes⟩
    · have hguarded : unguarded phase op = false := hc
      rw [Event.escapes, hguarded] at hescapes
      cases hescapes
  | _ => cases hescapes

/-- Guarded calls let nothing escape. -/
theorem safe_guarded (h : p.Uses Guarded) {w : World} (hw : ¬Escaped w.trace) :
    p.Safe (solo env) (fun _ w' ↦ ¬Escaped w'.trace) (fun _ w' ↦ ¬Escaped w'.trace) w := by
  refine h.safe (fun v w hv hvw ↦ hvw ▸ hv) (fun u c r v hc hu ↦ ?_) hw
  rintro ⟨a, ha⟩
  exact ⟨trivial, not_escaped_of_exec ha hc hu⟩

theorem faithful_of_guarded (h : p.Uses Guarded) (hr : p.Raises fun x ↦ x.isNative) :
    Faithful env p := by
  intro w hw
  refine (hr.safe (safe_guarded h hw)).mono (fun _ _ hw' ↦ hw') fun x w' ⟨hx, hw'⟩ ↦ ?_
  rw [hx]
  exact ⟨fun h ↦ absurd h hw', fun h ↦ nomatch h⟩

theorem faithful_pure {a : α} : Faithful env (pure a : Op α) := fun _ hw ↦ hw

theorem faithful_raise {text : String} : Faithful env (.raise (.native text) : Op α) :=
  fun _ hw ↦ ⟨fun h ↦ absurd h hw, fun h ↦ nomatch h⟩

theorem Faithful.bind {f : α → Op β} (h : Faithful env p) (hf : ∀ a, Faithful env (f a)) :
    Faithful env (p >>= f) := by
  intro w hw
  rw [safe_bind]
  exact (h w hw).mono (fun a w' hw' ↦ hf a w' hw') fun _ _ hx ↦ hx

theorem Faithful.ite {c : Prop} [Decidable c] {q : Op α} (h : c → Faithful env p)
    (h' : ¬c → Faithful env q) : Faithful env (if c then p else q) := by
  split_ifs with hc
  · exact h hc
  · exact h' hc

/-- An unguarded operation either raises a `NativeRuntimeError` or lets its exception escape. -/
theorem faithful_node {phase : Phase} {address : String} {op : NodeOp}
    (h : unguarded phase op = true) : Faithful env (node phase address op) := by
  intro w hw
  refine safe_node (fun _ _ _ _ ↦ trivial) (fun r w' a ha ↦ ?_) fun x a ↦ ?_
  · rintro ⟨e, he, hescapes⟩
    cases e with
    | raised phase op x => exact hw ⟨_, NodeOp.raised_answered ha he, hescapes⟩
    | _ => cases hescapes
  · constructor
    · rintro ⟨e, he, hescapes⟩
      rcases List.mem_cons.mp he with rfl | he
      · rw [Event.escapes, h] at hescapes
        simpa using hescapes
      · cases e with
        | raised phase op x => exact absurd ⟨_, NodeOp.raised_attempted he, hescapes⟩ hw
        | _ => cases hescapes
    · intro hx
      refine ⟨_, List.mem_cons_self, ?_⟩
      rw [Event.escapes, h, hx]
      rfl

theorem guarded_node {phase : Phase} {address : String} {op : NodeOp}
    (h : unguarded phase op = false) : (node phase address op).Uses Guarded := uses_node h

/-- A guarded operation whose exception is handled on the spot. -/
theorem faithful_attempt {phase : Phase} {address : String} {op : NodeOp}
    (h : unguarded phase op = false) : Faithful env (node phase address op).attempt :=
  faithful_of_guarded (guarded_node h).attempt (raises_attempt _)

end

/-! ## The phases are faithful -/

section
variable {env : Env} {plan : DeployPlan}

theorem guarded_of_routine {s : Scope}
    (hs : ∀ phase asked, s.phases phase → unguarded phase asked = false) {α : Type} {p : Op α}
    (h : p.Uses (Routine s)) : p.Uses Guarded := by
  refine h.mono fun c hc ↦ ?_
  cases c
  case node phase address asked => exact hs phase asked hc.phase
  case note e => exact absurd hc id
  all_goals trivial

/-- A scope of one phase, and of no patches. -/
def Scope.only (phase : Phase) : Scope := ⟨"", (· = phase), fun _ ↦ False⟩

theorem unguarded_diagnosis {phase : Phase} {asked : NodeOp} (h : phase = .diagnosis) :
    unguarded phase asked = false := by
  subst h
  rfl

theorem logsForContainer_guarded {address name : String} :
    (logsForContainer .diagnosis address name).Uses Guarded :=
  guarded_of_routine (s := .only .diagnosis) (fun _ _ ↦ unguarded_diagnosis)
    (logsForContainer_uses rfl)

theorem logsForContainer_raises {P : Exn → Prop} {phase : Phase} {address name : String} :
    (logsForContainer phase address name).Raises P :=
  (raises_attempt _).bind fun answer ↦ by cases answer <;> exact raises_pure

theorem faithful_logs {address name : String} :
    Faithful env (logsForContainer .diagnosis address name) :=
  faithful_of_guarded logsForContainer_guarded logsForContainer_raises

theorem faithful_invoke {c : Call} (h : Guarded c) : Faithful env (invoke c) :=
  faithful_of_guarded (invoke_uses c h) raises_call

/-! ### Waiting for the workers -/

theorem faithful_rpcRound {port : Nat} (ranks : List RankPlan) :
    Faithful env (rpcRound port ranks) := by
  induction ranks with
  | nil => exact faithful_pure
  | cons r ranks ih =>
    rw [rpcRound]
    refine (faithful_invoke (c := .rpcListening r.dialled port) trivial).bind fun _ ↦ ?_
    refine .ite (fun _ ↦ ih) fun _ ↦ ?_
    refine (faithful_node rfl).bind fun _ ↦ (faithful_attempt rfl).bind fun answer ↦ ?_
    cases answer with
    | error x => exact ih.bind fun _ ↦ faithful_pure
    | ok status =>
      refine .ite (fun _ ↦ ih.bind fun _ ↦ faithful_pure) fun _ ↦ ?_
      exact faithful_logs.bind fun _ ↦ faithful_raise

theorem faithful_rpcRounds {port : Nat} (polls : Nat) (pending : List RankPlan) :
    Faithful env (rpcRounds port pending polls) := by
  induction polls generalizing pending with
  | zero => exact faithful_raise
  | succ polls ih =>
    rw [rpcRounds]
    refine (faithful_rpcRound pending).bind fun waiting ↦ .ite (fun _ ↦ faithful_pure) fun _ ↦ ?_
    refine (faithful_invoke (c := .deadlinePassed) trivial).bind fun _ ↦ ?_
    exact .ite (fun _ ↦ faithful_raise) fun _ ↦ ih waiting

theorem faithful_waitIfHead {r : RankPlan} : Faithful env (waitIfHead plan r) := by
  refine .ite (fun _ ↦ ?_) fun _ ↦ faithful_pure
  rw [waitRpcWorkers]
  split
  · exact faithful_pure
  · exact faithful_pure
  · exact .ite (fun _ ↦ faithful_pure) fun _ ↦ faithful_rpcRounds _ _

/-! ### Launching -/

theorem launchRank_guarded {r : RankPlan} : (launchRank r).Uses Guarded := by
  have hdeploy : (deployScript r).Uses Guarded := by
    refine (guarded_node rfl).bind fun copied ↦ .ite (fun _ ↦ ?_) fun _ ↦ uses_raise
    exact (guarded_node rfl).bind fun _ ↦ (guarded_node rfl).bind fun _ ↦ uses_pure
  refine hdeploy.attempt.bind fun outcome ↦ ?_
  rcases outcome with x | _
  · cases x <;> exact uses_raise
  · exact uses_pure

theorem launchRank_raises {r : RankPlan} : (launchRank r).Raises fun x ↦ x.isNative := by
  refine (raises_attempt _).bind fun outcome ↦ ?_
  rcases outcome with x | _
  · cases x <;> exact rfl
  · exact raises_pure

theorem faithful_launchOn {r : RankPlan} : Faithful env (launchOn plan r) :=
  faithful_waitIfHead.bind fun _ ↦ (faithful_node rfl).bind fun _ ↦
    faithful_of_guarded launchRank_guarded launchRank_raises

/-! ### Creating -/

theorem faithful_copyAll {name remote address : String} (paths : List String) :
    Faithful env (copyAll name remote address paths) := by
  induction paths with
  | nil => exact faithful_pure
  | cons path paths ih => exact (faithful_node rfl).bind fun _ ↦ ih

theorem faithful_applyMods {address name workdir : String} (mods : List String) :
    Faithful env (applyMods address name workdir mods) := by
  induction mods with
  | nil => exact faithful_pure
  | cons mod mods ih =>
    refine (faithful_node rfl).bind fun _ ↦ (faithful_node rfl).bind fun _ ↦ ?_
    refine (faithful_copyAll _).bind fun _ ↦ (faithful_node rfl).bind fun _ ↦ ?_
    exact .ite (fun _ ↦ ih) fun _ ↦ faithful_raise

theorem faithful_publish {kind : EventType} {id text : String} :
    Faithful env (publish kind id text) := faithful_invoke trivial

theorem faithful_createOn {r : RankPlan} : Faithful env (createOn plan r) := by
  have hmounts : Faithful env (unmadeMounts r) := by
    refine .ite (fun _ ↦ faithful_pure) fun _ ↦ (faithful_attempt rfl).bind fun answer ↦ ?_
    cases answer <;> exact faithful_pure
  have hmods : Faithful env (modRank plan r) :=
    faithful_publish.bind fun _ ↦ (faithful_applyMods _).bind fun _ ↦
      .ite (fun _ ↦ faithful_publish) fun _ ↦ faithful_pure
  refine (faithful_node rfl).bind fun _ ↦ ?_
  rw [createRank]
  refine hmounts.bind fun unmade ↦ (faithful_attempt rfl).bind fun outcome ↦ ?_
  cases outcome with
  | error x => exact faithful_raise
  | ok _ => exact hmods.bind fun _ ↦ faithful_pure

/-! ### Waiting for readiness -/

theorem faithful_deadlineMessage : Faithful env (readinessDeadlineMessage env plan) := by
  have huses : (readinessDeadlineMessage env plan).Uses Guarded :=
    guarded_of_routine (s := .only .diagnosis) (fun _ _ ↦ unguarded_diagnosis)
      (readinessDeadlineMessage_uses rfl)
  refine faithful_of_guarded huses ?_
  have husurper : (usurper plan).Raises fun x ↦ x.isNative := by
    refine .ite (fun _ ↦ raises_pure) fun _ ↦ raises_call.bind fun answered ↦ ?_
    cases answered <;> exact raises_pure
  refine husurper.bind fun _ ↦ (raises_attempt _).bind fun answer ↦ ?_
  cases answer <;> exact raises_pure

theorem faithful_readyRound (ranks : List RankPlan) : Faithful env (readyRound env ranks) := by
  induction ranks with
  | nil => exact faithful_pure
  | cons r ranks ih =>
    have hprobe : Faithful env
        (serveProcessAlive env r.node r.container.name r.command) := by
      refine (faithful_attempt rfl).bind fun answer ↦ ?_
      cases answer <;> exact faithful_pure
    refine (faithful_node rfl).bind fun _ ↦ (faithful_attempt rfl).bind fun answer ↦ ?_
    cases answer with
    | error x => exact ih
    | ok status =>
      refine .ite (fun _ ↦ ?_) fun _ ↦ hprobe.bind fun _ ↦ ?_
      · exact (faithful_logs.bind fun _ ↦ faithful_pure).bind fun _ ↦ faithful_raise
      · refine .ite (fun _ ↦ ?_) fun _ ↦ ih
        exact (faithful_logs.bind fun _ ↦ faithful_pure).bind fun _ ↦ faithful_raise

theorem faithful_readyRounds (polls : Nat) : Faithful env (readyRounds env plan polls) := by
  induction polls with
  | zero => exact faithful_deadlineMessage.bind fun _ ↦ faithful_raise
  | succ polls ih =>
    rw [readyRounds]
    refine (faithful_invoke (c := .deadlinePassed) trivial).bind fun _ ↦ .ite (fun _ ↦ ?_) fun _ ↦ ?_
    · exact faithful_deadlineMessage.bind fun _ ↦ faithful_raise
    · refine (faithful_readyRound _).bind fun _ ↦ ?_
      refine (faithful_invoke (c := .probeReady plan.readinessUrl plan.servedModel) trivial).bind
        fun _ ↦ ?_
      exact .ite (fun _ ↦ faithful_pure) fun _ ↦ ih

theorem faithful_waitReady : Faithful env (waitReady env plan) := faithful_readyRounds _

end

/-! ## Teardown covers what is outstanding -/

section
variable {env : Env}

/-- A wait for a container to go that ends well leaves it outstanding no more. -/
theorem confirmGone_cleared {phase : Phase} {address name : String} (polls : Nat) (w : World) :
    (confirmGone phase address name polls).Safe (solo env)
      (fun gone w' ↦ gone = true → (env.machine address, name) ∉ outstanding w'.trace)
      (fun _ _ ↦ True) w := by
  induction polls generalizing w with
  | zero => exact fun h ↦ absurd h (by decide)
  | succ polls ih =>
    rw [confirmGone, safe_bind]
    refine safe_node (fun _ _ _ _ ↦ trivial) (fun p w' a ha ↦ ?_) fun _ _ ↦ trivial
    split_ifs with hgone
    · have hp : p = .missing := by simpa [isConfirmedGone] using hgone
      subst hp
      intro _
      simp only [NodeOp.answered] at ha
      split at ha
      · cases ha
        simp [outstanding]
      · cases ha
      · split_ifs at ha
        cases ha
    · rw [safe_bind, deadlinePassed, safe_invoke]
      intro late w'' a' ha'
      refine ⟨trivial, ?_⟩
      split_ifs
      · exact fun h ↦ absurd h (by decide)
      · exact ih w''

/-- An orphan is filed for an entry. -/
def FiledAs (o : Orphan) (entry : RankEntry) : Prop :=
  o.node = entry.node ∧ o.containerName = entry.containerName

theorem orphan_filed {entry : RankEntry} {reason : String} (w : World) :
    (orphan entry reason).Safe (solo env) (fun o _ ↦ FiledAs o entry) (fun _ _ ↦ False) w := by
  rw [orphan, now, safe_bind, safe_invoke]
  exact fun _ _ _ _ ↦ ⟨trivial, rfl, rfl⟩

theorem safe_solo_true {α : Type} (p : Op α) (w : World) :
    p.Safe (solo env) (fun _ _ ↦ True) (fun _ _ ↦ True) w := by
  induction p generalizing w with
  | ret | raise => trivial
  | op c k ih => exact fun _ _ r w' _ ↦ ⟨trivial, ih r w'⟩

/-- A torn down rank is outstanding no more, or its orphan is filed. -/
theorem teardownEntry_covers {entry : RankEntry} (hname : entry.containerName ≠ "") (w : World) :
    (teardownEntry entry).Safe (solo env)
      (fun left w' ↦ (env.machine entry.node, entry.containerName) ∈ outstanding w'.trace →
        ∃ o ∈ left.1, FiledAs o entry) (fun _ _ ↦ True) w := by
  have horphan : ∀ reason logs w, (do
      return (some (← orphan entry reason), logs) : Op (Option Orphan × String)).Safe (solo env)
        (fun left w' ↦ (env.machine entry.node, entry.containerName) ∈ outstanding w'.trace →
          ∃ o ∈ left.1, FiledAs o entry) (fun _ _ ↦ True) w := by
    intro reason logs w
    rw [safe_bind]
    exact (orphan_filed w).mono (fun o _ ho _ ↦ ⟨o, rfl, ho⟩) fun _ _ _ ↦ trivial
  rw [teardownEntry]
  simp only [if_neg hname]
  rw [safe_bind]
  refine (safe_solo_true _ w).mono (fun logs w₁ _ ↦ ?_) fun _ _ _ ↦ trivial
  rw [safe_bind, safe_attempt]
  refine (safe_solo_true _ w₁).mono (fun _ w₂ _ ↦ ?_) fun x w₂ _ ↦ horphan _ logs w₂
  rw [safe_bind, safe_attempt]
  refine (confirmGone_cleared _ w₂).mono (fun gone w₃ hgone ↦ ?_) fun x w₃ _ ↦ horphan _ logs w₃
  cases gone with
  | true => exact fun h ↦ absurd h (hgone rfl)
  | false => exact horphan _ logs w₃

theorem teardownRank_covers {entry : RankEntry} (hname : entry.containerName ≠ "") (w : World) :
    (teardownRank entry).Safe (solo env)
      (fun left w' ↦ (env.machine entry.node, entry.containerName) ∈ outstanding w'.trace →
        ∃ o ∈ left.1, FiledAs o entry) (fun _ _ ↦ True) w := by
  rw [teardownRank, safe_bind, safe_attempt]
  refine (safe_solo_true _ w).mono (fun _ w₁ _ ↦ teardownEntry_covers hname w₁) fun x w₁ _ ↦ ?_
  dsimp only
  rw [safe_bind]
  exact (orphan_filed w₁).mono (fun o _ ho _ ↦ ⟨o, rfl, ho⟩) fun _ _ _ ↦ trivial

theorem teardownInOrder_covers (entries : List RankEntry) (w : World) :
    (teardownInOrder entries).Safe (solo env)
      (fun remains w' ↦ ∀ entry ∈ entries, entry.containerName ≠ "" →
        (env.machine entry.node, entry.containerName) ∈ outstanding w'.trace →
          ∃ o ∈ remains.orphans, FiledAs o entry) (fun _ _ ↦ True) w := by
  induction entries generalizing w with
  | nil => exact fun _ h ↦ absurd h List.not_mem_nil
  | cons entry entries ih =>
    rw [teardownInOrder, safe_bind]
    have hrank : (teardownRank entry).Safe (solo env) (fun left w' ↦ entry.containerName ≠ "" →
        (env.machine entry.node, entry.containerName) ∈ outstanding w'.trace →
          ∃ o ∈ left.1, FiledAs o entry) (fun _ _ ↦ True) w := by
      by_cases hname : entry.containerName = ""
      · exact (safe_solo_true _ w).mono (fun _ _ _ h ↦ absurd hname h) fun _ _ h ↦ h
      · exact (teardownRank_covers hname w).mono (fun _ _ h _ ↦ h) fun _ _ h ↦ h
    refine hrank.mono (fun left w₁ hleft ↦ ?_) fun _ _ _ ↦ trivial
    have hkept : (teardownInOrder entries).Safe (solo env)
        (fun _ w' ↦ Frame (.only .teardown) w₁ w') (fun _ w' ↦ Frame (.only .teardown) w₁ w') w₁ :=
      safe_frame (teardownInOrder_uses rfl entries) (fun _ _ _ ↦ trivial) w₁
    rw [safe_bind]
    refine ((ih w₁).and hkept).mono (fun rest w₂ ⟨hrest, hframe⟩ ↦ ?_) fun _ _ _ ↦ trivial
    intro entry' hmem hname hout
    rcases List.mem_cons.mp hmem with rfl | hmem
    · obtain ⟨o, ho, hfiled⟩ := hleft hname (hframe.shrinks.outstanding_subset hout)
      exact ⟨o, List.mem_append_left _ (Option.mem_toList.mpr ho), hfiled⟩
    · obtain ⟨o, ho, hfiled⟩ := hrest entry' hmem hname hout
      exact ⟨o, List.mem_append_right _ ho, hfiled⟩

theorem orphan_raises {P : Exn → Prop} {entry : RankEntry} {reason : String} :
    (orphan entry reason).Raises P := raises_call.bind fun _ ↦ raises_pure

theorem teardownEntry_raises {P : Exn → Prop} {entry : RankEntry} :
    (teardownEntry entry).Raises P := by
  refine .ite (fun _ ↦ raises_pure) fun _ ↦ ?_
  refine ((raises_attempt _).bind fun answer ↦ ?_).bind fun logs ↦ ?_
  · cases answer <;> exact raises_pure
  refine (raises_attempt _).bind fun stopped ↦ ?_
  cases stopped with
  | error x => exact orphan_raises.bind fun _ ↦ raises_pure
  | ok _ =>
    refine (raises_attempt _).bind fun gone ↦ ?_
    rcases gone with x | gone
    · exact orphan_raises.bind fun _ ↦ raises_pure
    · cases gone
      · exact orphan_raises.bind fun _ ↦ raises_pure
      · exact raises_pure

/-- A teardown raises nothing. -/
theorem teardownInOrder_raises {P : Exn → Prop} (entries : List RankEntry) :
    (teardownInOrder entries).Raises P := by
  induction entries with
  | nil => exact raises_pure
  | cons entry entries ih =>
    have hrank : (teardownRank entry).Raises P := by
      refine (raises_attempt _).bind fun reached ↦ ?_
      cases reached with
      | error x => exact orphan_raises.bind fun _ ↦ raises_pure
      | ok _ => exact teardownEntry_raises
    exact hrank.bind fun _ ↦ ih.bind fun _ ↦ raises_pure

/-- The rule of a teardown: it covers what it was asked to tear down, and raises nothing. -/
theorem teardownEntries_covers (entries : List RankEntry) (w : World) :
    (teardownEntries entries).Safe (solo env)
      (fun remains w' ↦ Frame (.only .teardown) w w' ∧
        ∀ entry ∈ entries, entry.containerName ≠ "" →
          (env.machine entry.node, entry.containerName) ∈ outstanding w'.trace →
            ∃ o ∈ remains.orphans, FiledAs o entry) (fun _ _ ↦ False) w := by
  have hraises : (teardownEntries entries).Raises fun _ ↦ False := teardownInOrder_raises _
  have hkept : (teardownEntries entries).Safe (solo env)
      (fun _ w' ↦ Frame (.only .teardown) w w') (fun _ w' ↦ Frame (.only .teardown) w w') w :=
    safe_frame (teardownEntries_uses rfl) (fun _ _ _ ↦ trivial) w
  refine (hraises.safe (hkept.and (teardownInOrder_covers _ w))).mono (fun remains w' h ↦ ?_)
    fun _ _ h ↦ h.1
  refine ⟨h.1, fun entry hentry ↦ h.2 entry ?_⟩
  exact (List.perm_insertionSort _ entries).mem_iff.mpr hentry

end

/-! ## Settling -/

/-- The record says how the attempt ended, and accounts for what it left. -/
def Settled (env : Env) (plan : DeployPlan) (w : World) : Prop :=
  ∃ r, w.store.get plan.deploymentId = some r ∧
    ((r.status = .error ∧ ∃ message, r.errorMessage = some message ∧ message ≠ "") ∨
      (r.status = .stopped ∧ ∃ text, text ≠ "" ∧
        .published .deploymentStopped plan.deploymentId text ∈ w.trace)) ∧
    ∀ c ∈ outstanding w.trace, ∃ o ∈ r.orphans, (env.machine o.node, o.containerName) = c

section
variable {env : Env} {plan : DeployPlan} {record : Record} {w : World}

theorem safe_publish {kind : EventType} {id text : String} {Q : Unit → World → Prop}
    {X : Exn → World → Prop} (h : Q () (w.log (.published kind id text))) :
    (publish kind id text).Safe (solo env) Q X w := by
  rw [publish, safe_invoke]
  intro _ w' a ha
  cases ha
  exact ⟨trivial, h⟩

theorem safe_now {Q : String → World → Prop} {X : Exn → World → Prop} (h : ∀ t, Q t w) :
    now.Safe (solo env) Q X w := by
  rw [now, safe_invoke]
  intro t w' a ha
  simp only [Call.exec] at ha
  split_ifs at ha
  cases ha
  exact ⟨trivial, h _⟩

/-- A patch of a stored record. -/
theorem safe_updateRecord {id : String} {p : Patch} {r : Record}
    (hr : w.store.get id = some r) {Q : Option Record → World → Prop} {X : Exn → World → Prop}
    (h : ∀ w', w'.store.get id = some (p.apply (Store.redacted env.redact r)) →
      w'.trace = w.trace → Q (some (p.apply (Store.redacted env.redact r))) w') :
    (updateRecord id p).Safe (solo env) Q X w := by
  rw [updateRecord, safe_invoke]
  intro o w' a ha
  obtain ⟨rfl, rfl⟩ := Prod.mk.inj (Option.some.inj ha)
  refine ⟨trivial, ?_⟩
  have hget : (w.store.updateRecord env.redact id p).2.get id =
      some (p.apply (Store.redacted env.redact r)) := by
    rw [Store.get_updateRecord, Store.get_update_self, Store.get_repair, hr]
    rfl
  rw [Store.updateRecord_fst, Store.get_repair, hr]
  exact h _ hget rfl

theorem not_escaped_log {e : Event} (he : e.escapes = false) (hw : ¬Escaped w.trace) :
    ¬Escaped (w.log e).trace := by
  rintro ⟨e', he', hescapes⟩
  rcases List.mem_cons.mp he' with rfl | he'
  · rw [he] at hescapes
    cases hescapes
  · exact hw ⟨e', he', hescapes⟩

/-- Recording an error settles, with orphans for all that is outstanding. -/
theorem recordError_settles {message : String} {remains : Remains} {r : Record}
    (hr : w.store.get plan.deploymentId = some r) (hw : ¬Escaped w.trace)
    (hcover : ∀ c ∈ outstanding w.trace, ∃ o ∈ remains.orphans,
      (env.machine o.node, o.containerName) = c) :
    (recordError plan.deploymentId message
      { orphans := some remains.orphans, finalLogs := some remains.logs }).Safe (solo env)
        (fun _ w' ↦ Settled env plan w' ∧ ¬Escaped w'.trace) (fun _ _ ↦ False) w := by
  have hlogged : (w.log (.published .deploymentError plan.deploymentId
      (errorText message))).store.get plan.deploymentId = some r := hr
  rw [recordError, safe_bind]
  refine safe_publish ?_
  rw [safe_bind]
  refine safe_now fun t ↦ ?_
  refine safe_updateRecord hlogged fun w' hget htrace ↦ ?_
  rw [htrace]
  refine ⟨⟨_, hget, .inl ⟨rfl, _, rfl, errorText_ne_empty message⟩, ?_⟩, not_escaped_log rfl hw⟩
  rw [htrace]
  exact hcover

theorem fail_settles {message : String} {remains : Remains} {r : Record}
    (hr : w.store.get plan.deploymentId = some r) (hw : ¬Escaped w.trace)
    (hcover : ∀ c ∈ outstanding w.trace, ∃ o ∈ remains.orphans,
      (env.machine o.node, o.containerName) = c) :
    (fail plan record message remains).Safe (solo env)
      (fun _ w' ↦ Settled env plan w' ∧ ¬Escaped w'.trace) (fun _ _ ↦ False) w := by
  rw [fail, safe_bind]
  exact (recordError_settles hr hw hcover).mono (fun _ _ h ↦ h) fun _ _ h ↦ h

/-- A deliberate end settles, with a message, when nothing is outstanding. -/
theorem settleStopped_settles {message : String} {r : Record} (hmessage : message ≠ "")
    (hr : w.store.get plan.deploymentId = some r) (hw : ¬Escaped w.trace)
    (hnone : outstanding w.trace = []) :
    (settleStopped plan record message).Safe (solo env)
      (fun _ w' ↦ Settled env plan w' ∧ ¬Escaped w'.trace) (fun _ _ ↦ False) w := by
  have hlogged : (w.log (.published .deploymentStopped plan.deploymentId
      message)).store.get plan.deploymentId = some r := hr
  rw [settleStopped, safe_bind]
  refine safe_publish ?_
  rw [safe_bind]
  refine safe_now fun t ↦ ?_
  rw [safe_bind]
  refine safe_updateRecord hlogged fun w' hget htrace ↦ ?_
  rw [safe_pure, htrace]
  refine ⟨⟨_, hget, .inr ⟨rfl, message, hmessage, ?_⟩, ?_⟩, not_escaped_log rfl hw⟩
  · rw [htrace]
    exact List.mem_cons_self
  · have hkept : outstanding w'.trace = [] := htrace ▸ hnone
    rw [hkept]
    exact fun c hc ↦ absurd hc List.not_mem_nil

/-! ## Under way -/

/-- The attempt is neither settled nor up. -/
def Open (id : String) (w : World) : Prop :=
  ∃ r, w.store.get id = some r ∧ (r.status = .pulling ∨ r.status = .starting)

/-- What is outstanding are containers of these ranks. -/
def Confined (env : Env) (ranks : List RankPlan) (w : World) : Prop :=
  ∀ c ∈ outstanding w.trace, ∃ r ∈ ranks, (env.machine r.node, r.container.name) = c

/-- Open, and confined to these ranks. -/
structure Underway (env : Env) (plan : DeployPlan) (ranks : List RankPlan) (w : World) : Prop where
  isOpen : Open plan.deploymentId w
  confined : Confined env ranks w

/-- The patches of a record under way. -/
def Scope.Keeps (s : Scope) : Prop :=
  ∀ p, s.patches p → p.status = none ∨ p.status = some .pulling ∨ p.status = some .starting

theorem Open.of_rel {s : Scope} (hs : s.Keeps) {id : String} {w' : World}
    (h : Option.Rel (Evolves s) (w.store.get id) (w'.store.get id)) (hw : Open id w) :
    Open id w' := by
  obtain ⟨r, hr, hstatus⟩ := hw
  rw [hr] at h
  cases hget : w'.store.get id with
  | none =>
    rw [hget] at h
    cases h
  | some r' =>
    rw [hget] at h
    cases h with
    | some hevolves =>
      refine ⟨r', hget, hevolves.invariant (I := fun r ↦ r.status = .pulling ∨ r.status = .starting)
        (fun _ _ h ↦ h) (fun r p hp hr ↦ ?_) hstatus⟩
      rcases hs p hp with h | h | h <;> simp [Patch.apply, h, hr]

theorem Underway.of_frame {s : Scope} (hs : s.Keeps) {ranks : List RankPlan} {w' : World}
    (h : Frame s w w') (hw : Underway env plan ranks w) : Underway env plan ranks w' where
  isOpen := .of_rel hs (h.store _) hw.isOpen
  confined c hc := hw.confined c (h.shrinks.outstanding_subset hc)

theorem Underway.mono {ranks ranks' : List RankPlan} (h : ranks ⊆ ranks')
    (hw : Underway env plan ranks w) : Underway env plan ranks' w where
  isOpen := hw.isOpen
  confined c hc := by
    obtain ⟨r, hr, hname⟩ := hw.confined c hc
    exact ⟨r, h hr, hname⟩

/-- Tearing down the ranks that what is outstanding is confined to settles the attempt. -/
theorem abort_settles {touched : List RankPlan} {r : RankPlan} {x : Exn} {phase : String}
    (htouched : ∀ r' ∈ touched ++ [r], r' ∈ plan.rankPlans)
    (hw : Underway env plan (touched ++ [r]) w) (hcalm : ¬Escaped w.trace) :
    (abort plan record touched r x phase).Safe (solo env)
      (fun _ w' ↦ Settled env plan w' ∧ ¬Escaped w'.trace) (fun _ _ ↦ False) w := by
  rw [abort, safe_bind]
  refine (teardownEntries_covers _ w).mono (fun remains w' ⟨hframe, hcovers⟩ ↦ ?_) fun _ _ h ↦ h
  have hw' := hw.of_frame (s := .only .teardown) (fun _ h ↦ h.elim) hframe
  obtain ⟨r₀, hr₀, -⟩ := hw'.isOpen
  have hguarded : ∀ phase asked, (Scope.only .teardown).phases phase →
      unguarded phase asked = false := by
    rintro _ _ rfl
    rfl
  refine fail_settles hr₀ (hframe.not_escaped hguarded hcalm) fun c hc ↦ ?_
  obtain ⟨r', hr', hname⟩ := hw'.confined c hc
  have hmade := plan.made r' (htouched r' hr')
  have hpending : rankRecord r' ∈
      (if r ∈ touched then touched else touched ++ [r]).map rankRecord := by
    refine List.mem_map_of_mem ?_
    split_ifs with h
    · rcases List.mem_append.mp hr' with hr' | hr'
      · exact hr'
      · rwa [List.mem_singleton.mp hr']
    · exact hr'
  have hne : (rankRecord r').containerName ≠ "" := by
    rw [rankRecord, hmade.name]
    exact rankContainerName_ne_empty _ _ _
  obtain ⟨o, ho, hnode, hcontainer⟩ := hcovers _ hpending hne (hname ▸ hc)
  refine ⟨o, ho, ?_⟩
  rw [hnode, hcontainer]
  exact hname

end

/-! ## The create and launch phases -/

/-- A start alone, in the phases under the lock: nobody has asked it to stop. -/
structure Started (env : Env) (plan : DeployPlan) (ranks : List RankPlan) (w : World) : Prop
    extends Underway env plan ranks w where
  unasked : (w.pulls plan.deploymentId).getD false = false

/-- The scope of the phases under the lock. -/
def Scope.locked : Scope := ⟨"", (· ≠ .pull), fun _ ↦ False⟩

section
variable {env : Env} {plan : DeployPlan} {record : Record} {w w' : World} {ranks : List RankPlan}

theorem Started.of_frame (h : Frame .locked w w') (hw : Started env plan ranks w) :
    Started env plan ranks w' where
  toUnderway := hw.toUnderway.of_frame (s := .locked) (fun _ h ↦ h.elim) h
  unasked := by
    rw [h.pulls (fun hs ↦ hs rfl)]
    exact hw.unasked

/-- An operation on a node leaves a record under way, but for what it creates. -/
theorem Started.of_node {phase : Phase} {address : String} {op : NodeOp}
    {r : (Call.node phase address op).Ret} {a : Answer} {i : Tid}
    (h : (Call.node phase address op).exec env i w a = some (r, w'))
    (hout : ∀ c ∈ outstanding w'.trace, c ∈ outstanding w.trace ∨
      ∃ r ∈ ranks, (env.machine r.node, r.container.name) = c)
    (hw : Started env plan ranks w) : Started env plan ranks w' where
  isOpen := by
    obtain ⟨r₀, hr₀, hstatus⟩ := hw.isOpen
    exact ⟨r₀, (Call.quiet_node h).store ▸ hr₀, hstatus⟩
  confined c hc := (hout c hc).elim (hw.confined c) id
  unasked := by
    rw [(Call.quiet_node h).pulls]
    exact hw.unasked

theorem outstanding_of_runContainer {phase : Phase} {address image name : String}
    {labels : Labels} {r : Except Exn Unit} {a : Answer} {i : Tid}
    (h : (Call.node phase address (.runContainer image name labels)).exec env i w a =
      some (r, w')) {c : String × String} (hc : c ∈ outstanding w'.trace) :
    c ∈ outstanding w.trace ∨ (env.machine address, name) = c := by
  have hattempt : ∀ c ∈ outstanding
      ((NodeOp.runContainer image name labels).attempted (env.machine address) a w).trace,
      c ∈ outstanding w.trace ∨ (env.machine address, name) = c := by
    intro c hc
    simp only [NodeOp.attempted] at hc
    split_ifs at hc
    · rcases List.mem_cons.mp hc with rfl | hc
      · exact .inr rfl
      · exact .inl hc
    · exact .inl hc
  simp only [Call.exec] at h
  split at h
  · cases h
    exact hattempt c hc
  · obtain ⟨⟨r', w''⟩, hr, heq⟩ := Option.map_eq_some_iff.mp h
    cases heq
    simp only [NodeOp.answered] at hr
    split_ifs at hr
    cases hr
    exact hattempt c hc

theorem outstanding_of_launch {phase : Phase} {address name : String}
    {r : Except Exn ExecResult} {a : Answer} {i : Tid}
    (h : (Call.node phase address (.exec name .launch)).exec env i w a = some (r, w')) :
    outstanding w'.trace = outstanding w.trace := by
  simp only [Call.exec] at h
  split at h <;> cases h <;> rfl

/-- A rank that is being created adds its container to what is outstanding, and no other. -/
theorem createOn_started {r : RankPlan} {touched : List RankPlan}
    (hw : Started env plan touched w) :
    (createOn plan r).Safe (solo env) (fun _ w' ↦ Started env plan (touched ++ [r]) w')
      (fun _ w' ↦ Started env plan (touched ++ [r]) w') w := by
  have huses : (createOn plan r).Uses fun c ↦ Routine .locked c ∨
      ∃ image labels, c = .node .create r.node (.runContainer image r.container.name labels) := by
    have hlocked {α : Type} {p : Op α} (h : p.Uses (Routine .locked)) : p.Uses fun c ↦
        Routine .locked c ∨ ∃ image labels,
          c = .node .create r.node (.runContainer image r.container.name labels) :=
      h.mono fun _ ↦ .inl
    have hrun {image : String} {labels : Labels} :
        (node .create r.node (.runContainer image r.container.name labels)).Uses fun c ↦
          Routine .locked c ∨ ∃ image labels,
            c = .node .create r.node (.runContainer image r.container.name labels) :=
      uses_node (.inr ⟨image, labels, rfl⟩)
    have hphase : Scope.locked.phases .create := fun h ↦ nomatch h
    refine Uses.bind (hlocked (uses_node hphase)) fun _ ↦ ?_
    rw [createRank]
    refine (hlocked (unmadeMounts_uses hphase)).bind fun _ ↦ hrun.attempt.bind fun outcome ↦ ?_
    cases outcome with
    | error x => exact uses_raise
    | ok _ => exact (hlocked (modRank_uses hphase)).bind fun _ ↦ uses_pure
  have hinit : Started env plan (touched ++ [r]) w :=
    { toUnderway := hw.toUnderway.mono (List.subset_append_left _ _), unasked := hw.unasked }
  refine huses.safe (fun v w hv hvw ↦ hvw ▸ hv) (fun u c res v hc hu ↦ ?_) hinit
  rintro ⟨a, ha⟩
  refine ⟨trivial, ?_⟩
  rcases hc with hc | ⟨image, labels, rfl⟩
  · exact hu.of_frame (frame_of_exec ha hc)
  · refine hu.of_node ha fun c hc ↦ ?_
    rcases outstanding_of_runContainer ha hc with hc | hc
    · exact .inl hc
    · exact .inr ⟨r, by simp, hc⟩

/-- The create phase ends with all ranks created, or settled, or escaped. -/
theorem createRanks_settles (ranks touched : List RankPlan) (warnings : List String)
    (hmem : ∀ r ∈ touched ++ ranks, r ∈ plan.rankPlans) {w : World}
    (hw : Started env plan touched w) (hcalm : ¬Escaped w.trace) :
    (createRanks plan record touched warnings ranks).Safe (solo env)
      (fun progress w' ↦ ¬Escaped w'.trace ∧ match progress with
        | .done _ => Settled env plan w'
        | .go a => a.1 = touched ++ ranks ∧ Started env plan (touched ++ ranks) w')
      (fun _ w' ↦ Open plan.deploymentId w' ∧ Escaped w'.trace) w := by
  induction ranks generalizing touched warnings w with
  | nil =>
    rw [List.append_nil]
    exact ⟨hcalm, rfl, hw⟩
  | cons r ranks ih =>
    rw [createRanks, safe_bind, safe_attempt]
    refine ((faithful_createOn w hcalm).and (createOn_started hw)).mono
      (fun more w₁ hw₁ ↦ ?_) fun x w₁ hw₁ ↦ ?_
    · obtain ⟨hcalm₁, hw₁⟩ := hw₁
      have hrest := ih (touched ++ [r]) (warnings ++ more) (by simpa using hmem) hw₁ hcalm₁
      rwa [List.append_assoc, List.singleton_append] at hrest
    · obtain ⟨hx, hw₁⟩ := hw₁
      have hnative : ∀ text, x = .native text → ¬Escaped w₁.trace := by
        rintro text rfl h
        cases hx.mp h
      cases x with
      | native text =>
        rw [safe_bind]
        have htouched : ∀ r' ∈ touched ++ [r], r' ∈ plan.rankPlans := fun r' hr' ↦
          hmem r' (by simp only [List.mem_append, List.mem_singleton] at hr'; simp; tauto)
        exact (abort_settles htouched hw₁.toUnderway (hnative text rfl)).mono
          (fun _ _ h ↦ ⟨h.2, h.1⟩) fun _ _ h ↦ h.elim
      | _ => exact ⟨hw₁.isOpen, hx.mpr rfl⟩

/-- Launching creates nothing. -/
theorem launchOn_started {r : RankPlan} (hw : Started env plan ranks w) :
    (launchOn plan r).Safe (solo env) (fun _ w' ↦ Started env plan ranks w')
      (fun _ w' ↦ Started env plan ranks w') w := by
  have huses : (launchOn plan r).Uses fun c ↦ Routine .locked c ∨
      c = .node .launch r.node (.exec r.container.name .launch) := by
    have hlocked {α : Type} {p : Op α} (h : p.Uses (Routine .locked)) : p.Uses fun c ↦
        Routine .locked c ∨ c = .node .launch r.node (.exec r.container.name .launch) :=
      h.mono fun _ ↦ .inl
    have hexec : (node .launch r.node (.exec r.container.name .launch)).Uses fun c ↦
        Routine .locked c ∨ c = .node .launch r.node (.exec r.container.name .launch) :=
      uses_node (.inr rfl)
    have hphase {phase : Phase} (h : phase ≠ .pull) : Scope.locked.phases phase := h
    refine (hlocked (waitIfHead_uses (hphase nofun) (hphase nofun))).bind fun _ ↦ ?_
    refine Uses.bind (hlocked (uses_node (hphase nofun))) fun _ ↦ ?_
    have hdeploy : (deployScript r).Uses fun c ↦ Routine .locked c ∨
        c = .node .launch r.node (.exec r.container.name .launch) := by
      refine Uses.bind (hlocked (uses_node (hphase nofun))) fun copied ↦ ?_
      refine .ite (fun _ ↦ ?_) fun _ ↦ uses_raise
      exact Uses.bind (hlocked (uses_node (hphase nofun))) fun _ ↦ hexec.bind fun _ ↦ uses_pure
    refine hdeploy.attempt.bind fun outcome ↦ ?_
    rcases outcome with x | _
    · cases x <;> exact uses_raise
    · exact uses_pure
  refine huses.safe (fun v w hv hvw ↦ hvw ▸ hv) (fun u c res v hc hu ↦ ?_) hw
  rintro ⟨a, ha⟩
  refine ⟨trivial, ?_⟩
  rcases hc with hc | rfl
  · exact hu.of_frame (frame_of_exec ha hc)
  · exact hu.of_node ha fun c hc ↦ .inl (outstanding_of_launch ha ▸ hc)

/-- A rank whose launch ends well is launched, and what was stays launched. -/
theorem launchOn_launched {r : RankPlan} {launched : List RankPlan}
    (hlaunched : ∀ r' ∈ launched, Launched env w.trace r') :
    (launchOn plan r).Safe (solo env)
      (fun _ w' ↦ ∀ r' ∈ launched ++ [r], Launched env w'.trace r') (fun _ _ ↦ True) w := by
  have hlasting : Lasting fun w ↦ ∀ r' ∈ launched, Launched env w.trace r' :=
    fun _ _ h hw r' hr' ↦ h.subset (hw r' hr')
  have hkept {α : Type} {p : Op α} {w : World} (hw : ∀ r' ∈ launched, Launched env w.trace r') :
      p.Safe (solo env) (fun _ w' ↦ ∀ r' ∈ launched, Launched env w'.trace r')
        (fun _ w' ↦ ∀ r' ∈ launched, Launched env w'.trace r') w := by
    have huses : p.Uses fun _ ↦ True := by
      induction p with
      | ret | raise => trivial
      | op c k ih => exact ⟨trivial, ih⟩
    refine huses.safe (fun v w hv hvw ↦ hvw ▸ hv) (fun u c res v _ hu ↦ ?_) hw
    rintro ⟨a, ha⟩
    exact ⟨trivial, hlasting u v (Call.trace_suffix ha) hu⟩
  have hdeploy : ∀ w, (deployScript r).Safe (solo env) (fun _ w' ↦ Launched env w'.trace r)
      (fun _ _ ↦ True) w := by
    intro w
    rw [deployScript, safe_bind]
    refine (safe_solo_true _ w).mono (fun copied w₁ _ ↦ ?_) fun _ _ _ ↦ trivial
    split_ifs
    · rw [safe_bind]
      refine (safe_solo_true _ w₁).mono (fun _ w₂ _ ↦ ?_) fun _ _ _ ↦ trivial
      rw [safe_bind]
      refine safe_node (fun _ _ _ _ ↦ trivial) (fun _ w₃ a ha ↦ ?_) fun _ _ ↦ trivial
      cases ha
      exact List.mem_cons_self
    · trivial
  have hrank : (launchOn plan r).Safe (solo env) (fun _ w' ↦ Launched env w'.trace r)
      (fun _ _ ↦ True) w := by
    rw [launchOn, safe_bind]
    refine (safe_solo_true _ w).mono (fun _ w₁ _ ↦ ?_) fun _ _ _ ↦ trivial
    rw [safe_bind]
    refine (safe_solo_true _ w₁).mono (fun _ w₂ _ ↦ ?_) fun _ _ _ ↦ trivial
    rw [launchRank, safe_bind, safe_attempt]
    refine (hdeploy w₂).mono (fun _ w₃ h ↦ h) fun x w₃ _ ↦ ?_
    cases x <;> trivial
  refine (hrank.and (hkept hlaunched)).mono (fun _ w' h r' hr' ↦ ?_) fun _ _ _ ↦ trivial
  rcases List.mem_append.mp hr' with hr' | hr'
  · exact h.2 r' hr'
  · rw [List.mem_singleton.mp hr']
    exact h.1

theorem launchRanks_settles (ranks launched : List RankPlan)
    (hmem : ∀ r ∈ ranks, r ∈ plan.rankPlans) {w : World}
    (hlaunched : ∀ r ∈ launched, Launched env w.trace r)
    (hw : Started env plan plan.rankPlans w) (hcalm : ¬Escaped w.trace) :
    (launchRanks plan record plan.rankPlans ranks).Safe (solo env)
      (fun progress w' ↦ ¬Escaped w'.trace ∧ match progress with
        | .done _ => Settled env plan w'
        | .go _ => Started env plan plan.rankPlans w' ∧
            ∀ r ∈ launched ++ ranks, Launched env w'.trace r)
      (fun _ w' ↦ Open plan.deploymentId w' ∧ Escaped w'.trace) w := by
  induction ranks generalizing launched w with
  | nil =>
    rw [List.append_nil]
    exact ⟨hcalm, hw, hlaunched⟩
  | cons r ranks ih =>
    rw [launchRanks, safe_bind, safe_attempt]
    have hr : r ∈ plan.rankPlans := hmem r (by simp)
    refine ((faithful_launchOn w hcalm).and ((launchOn_started hw).and
      (launchOn_launched hlaunched))).mono (fun _ w₁ hw₁ ↦ ?_) fun x w₁ hw₁ ↦ ?_
    · obtain ⟨hcalm₁, hw₁, hl₁⟩ := hw₁
      have hrest := ih (launched ++ [r]) (fun r' hr' ↦ hmem r' (by simp [hr'])) hl₁ hw₁ hcalm₁
      rwa [List.append_assoc, List.singleton_append] at hrest
    · obtain ⟨hx, hw₁, -⟩ := hw₁
      have hnative : ∀ text, x = .native text → ¬Escaped w₁.trace := by
        rintro text rfl h
        cases hx.mp h
      cases x with
      | native text =>
        rw [safe_bind]
        have htouched : ∀ r' ∈ plan.rankPlans ++ [r], r' ∈ plan.rankPlans := by
          intro r' hr'
          rcases List.mem_append.mp hr' with hr' | hr'
          · exact hr'
          · rwa [List.mem_singleton.mp hr']
        exact (abort_settles htouched (hw₁.toUnderway.mono (List.subset_append_left _ _))
          (hnative text rfl)).mono (fun _ _ h ↦ ⟨h.2, h.1⟩) fun _ _ h ↦ h.elim
      | _ => exact ⟨hw₁.isOpen, hx.mpr rfl⟩

end

/-! ## The whole start -/

/-- The attempt came up: every rank is launched, and the record says so. -/
structure CameUp (env : Env) (plan : DeployPlan) (wait : Bool) (w : World) : Prop where
  launched : ∀ r ∈ plan.rankPlans, Launched env w.trace r
  record : ∃ r, w.store.get plan.deploymentId = some r ∧
    r.status = if wait then .running else .starting

section
variable {env : Env} {plan : DeployPlan} {record : Record} {w : World}

theorem safe_isTornDown {id : String} (hw : Open id w) :
    (isTornDown env id).Safe (solo env) (fun b w' ↦ b = false ∧ Frame .locked w w')
      (fun _ _ ↦ False) w := by
  obtain ⟨r, hr, hstatus⟩ := hw
  rw [isTornDown, safe_bind]
  refine (safe_getDeployment (s := .locked) (fun _ _ _ ↦ trivial) w).mono
    (fun o w' ⟨ho, hframe⟩ ↦ ?_) fun _ _ h ↦ h
  rw [hr] at ho
  subst ho
  refine ⟨?_, hframe⟩
  have hkept : (Store.redacted env.redact r).status = r.status := by
    unfold Store.redacted
    split <;> rfl
  rcases hstatus with h | h <;> simp [hkept, h]

theorem safe_teardownRequested {id : String} (hw : Open id w) :
    (teardownRequested env id).Safe (solo env)
      (fun b w' ↦ b = (w.pulls id).getD false ∧ Frame .locked w w') (fun _ _ ↦ False) w := by
  rw [teardownRequested, pullCancelRequested, safe_bind, safe_invoke]
  intro b w' a ha
  cases ha
  refine ⟨trivial, ?_⟩
  cases (w.pulls id).getD false with
  | true => exact ⟨rfl, .refl w⟩
  | false => exact safe_isTornDown hw

theorem Frame.locked_not_escaped {phase : Phase} {w' : World} (h : Frame (.only phase) w w')
    (hphase : ∀ asked, unguarded phase asked = false) (hw : ¬Escaped w.trace) :
    ¬Escaped w'.trace := h.not_escaped (by rintro _ _ rfl; exact hphase _) hw

/-- What reads records raises nothing. -/
theorem safe_asked {α : Type} {p : Op α} (h : p.Uses Guarded) {Q : α → World → Prop}
    (hp : p.Safe (solo env) Q (fun _ _ ↦ False) w) (hw : ¬Escaped w.trace) :
    p.Safe (solo env) (fun a w' ↦ Q a w' ∧ ¬Escaped w'.trace) (fun _ _ ↦ False) w :=
  (hp.and (safe_guarded h hw)).mono (fun _ _ h ↦ h) fun _ _ h ↦ h.1

theorem guarded_asked {id : String} : (teardownRequested env id).Uses Guarded :=
  guarded_of_routine (s := ⟨"", fun _ ↦ False, fun _ ↦ False⟩) (fun _ _ h ↦ h.elim)
    teardownRequested_uses

theorem guarded_isTornDown {id : String} : (isTornDown env id).Uses Guarded :=
  guarded_of_routine (s := ⟨"", fun _ ↦ False, fun _ ↦ False⟩) (fun _ _ h ↦ h.elim)
    isTornDown_uses

theorem cancelled_message_ne_empty (id : String) :
    s!"deploy of {id} cancelled by teardown" ≠ "" := by
  intro h
  have hempty : "deploy of " ++ id ++ " cancelled by teardown" = "" := h
  rw [String.append_eq_empty_iff] at hempty
  exact absurd hempty.2 (by decide)

theorem outstanding_eq_nil (hw : Underway env plan [] w) : outstanding w.trace = [] := by
  rw [List.eq_nil_iff_forall_not_mem]
  intro c hc
  obtain ⟨r, hr, -⟩ := hw.confined c hc
  exact List.not_mem_nil hr

/-- The section under the lock. -/
theorem launchPhase_settles (hw : Underway env plan [] w) (hcalm : ¬Escaped w.trace) :
    (launchPhase env plan record).Safe (solo env)
      (fun progress w' ↦ ¬Escaped w'.trace ∧ match progress with
        | .done _ => Settled env plan w'
        | .go _ => Underway env plan plan.rankPlans w' ∧ CameUp env plan false w')
      (fun _ w' ↦ Open plan.deploymentId w' ∧ Escaped w'.trace) w := by
  rw [launchPhase, safe_bind]
  refine (safe_asked guarded_asked (safe_teardownRequested hw.isOpen) hcalm).mono
    (fun asked w₁ h₁ ↦ ?_) fun _ _ h ↦ h.elim
  obtain ⟨⟨hasked, hframe₁⟩, hcalm₁⟩ := h₁
  have hw₁ : Underway env plan [] w₁ := hw.of_frame (s := .locked) (fun _ h ↦ h.elim) hframe₁
  split_ifs with h
  · -- nothing has been created yet
    obtain ⟨r₀, hr₀, -⟩ := hw₁.isOpen
    rw [safe_bind, cancelled, if_neg (by simp)]
    exact (settleStopped_settles (cancelled_message_ne_empty _) hr₀ hcalm₁
      (outstanding_eq_nil hw₁)).mono (fun _ _ h ↦ ⟨h.2, h.1⟩) fun _ _ h ↦ h.elim
  have hstarted : Started env plan [] w₁ := by
    refine { toUnderway := hw₁, unasked := ?_ }
    rw [hframe₁.pulls (fun hs ↦ hs rfl), ← hasked]
    simpa using h
  rw [safe_bind]
  refine (createRanks_settles plan.rankPlans [] plan.warnings (fun _ h ↦ h) hstarted hcalm₁).mono
    (fun progress w₂ h₂ ↦ ?_) fun _ _ h ↦ h
  obtain ⟨hcalm₂, hw₂⟩ := h₂
  cases progress with
  | done r => exact ⟨hcalm₂, hw₂⟩
  | go created =>
    obtain ⟨touched, warnings⟩ := created
    obtain ⟨rfl, hw₂⟩ := hw₂
    rw [List.nil_append] at hw₂
    rw [safe_bind]
    refine (safe_asked guarded_asked (safe_teardownRequested hw₂.isOpen) hcalm₂).mono
      (fun asked w₃ h₃ ↦ ?_) fun _ _ h ↦ h.elim
    obtain ⟨⟨hasked, hframe₃⟩, hcalm₃⟩ := h₃
    have hw₃ := hw₂.of_frame hframe₃
    rw [hw₂.unasked] at hasked
    subst hasked
    rw [if_neg (by decide), safe_bind]
    refine (launchRanks_settles plan.startOrder [] (fun r hr ↦ List.mem_reverse.mp hr)
      (fun _ h ↦ absurd h List.not_mem_nil) hw₃ hcalm₃).mono
        (fun progress w₄ h₄ ↦ ?_) fun _ _ h ↦ h
    obtain ⟨hcalm₄, hw₄⟩ := h₄
    cases progress with
    | done r => exact ⟨hcalm₄, hw₄⟩
    | go _ =>
      obtain ⟨hw₄, hlaunched⟩ := hw₄
      obtain ⟨r₀, hr₀, -⟩ := hw₄.isOpen
      rw [safe_bind]
      refine safe_now fun t ↦ ?_
      rw [safe_bind]
      refine safe_updateRecord hr₀ fun w₅ hget htrace ↦ ?_
      rw [safe_bind]
      refine safe_publish ?_
      rw [safe_pure]
      refine ⟨not_escaped_log rfl (htrace ▸ hcalm₄), ⟨⟨_, hget, .inr rfl⟩, fun c hc ↦ ?_⟩,
        ⟨fun r hr ↦ ?_, _, hget, rfl⟩⟩
      · exact hw₄.confined c (htrace ▸ hc)
      · refine List.mem_cons_of_mem _ ?_
        rw [htrace]
        exact hlaunched r (List.mem_reverse.mpr hr)

/-! ### Readiness -/

theorem acquire_eq {w' : World} {tid : Tid} {id : String} (h : w.acquire tid id = some w') :
    w' = { w with locks := w'.locks } := by
  unfold World.acquire at h
  split at h
  · cases h
    rfl
  · split_ifs at h
    cases h
    rfl

theorem release_eq {w' : World} {tid : Tid} {id : String} (h : w.release tid id = some w') :
    w' = { w with locks := w'.locks } := by
  unfold World.release at h
  split at h
  · cases h
  · split_ifs at h <;> cases h <;> rfl

/-- The rule of a section under the lock: taking and giving it back changes the locks alone. -/
theorem safe_withLock {α : Type} {id : String} {p : Op α} {Q : α → World → Prop}
    {X : Exn → World → Prop} (h : ∀ locks, p.Safe (solo env)
      (fun a w' ↦ ∀ locks, Q a { w' with locks := locks })
      (fun x w' ↦ ∀ locks, X x { w' with locks := locks }) { w with locks := locks }) :
    (withLock id p).Safe (solo env) Q X w := by
  have hrelease {Q : World → Prop} {w : World} (hQ : ∀ locks, Q { w with locks := locks }) :
      (invoke (.release id)).Safe (solo env) (fun _ w' ↦ Q w') X w := by
    rw [safe_invoke]
    intro _ w' a ha
    obtain ⟨w'', hw'', heq⟩ := Option.map_eq_some_iff.mp ha
    cases heq
    rw [release_eq hw'']
    exact ⟨trivial, hQ _⟩
  rw [withLock, safe_bind, safe_invoke]
  intro _ w₁ a ha
  obtain ⟨w₁', hw₁, heq⟩ := Option.map_eq_some_iff.mp ha
  cases heq
  refine ⟨trivial, ?_⟩
  rw [safe_ensure, acquire_eq hw₁]
  exact (h _).mono (fun _ _ hQ ↦ hrelease hQ) fun _ _ hX ↦ hrelease hX

/-- A gang that launched and never became ready is torn down and settled. -/
theorem settleUnready_settles {x : Exn} (hw : Underway env plan plan.rankPlans w)
    (hcalm : ¬Escaped w.trace) :
    (settleUnready env plan record x).Safe (solo env)
      (fun _ w' ↦ ¬Escaped w'.trace ∧ Settled env plan w') (fun _ _ ↦ False) w := by
  refine safe_withLock fun locks ↦ ?_
  rw [safe_bind]
  have hw₀ : Underway env plan plan.rankPlans { w with locks := locks } := ⟨hw.isOpen, hw.confined⟩
  refine (safe_asked guarded_isTornDown (safe_isTornDown hw₀.isOpen) hcalm).mono
    (fun down w₁ h₁ ↦ ?_) fun _ _ h ↦ h.elim
  obtain ⟨⟨hdown, hframe₁⟩, hcalm₁⟩ := h₁
  subst hdown
  have hw₁ := hw₀.of_frame (s := .locked) (fun _ h ↦ h.elim) hframe₁
  rw [if_neg (by decide), safe_bind, failLaunchedGang, safe_bind]
  refine (teardownEntries_covers _ w₁).mono (fun remains w₂ h₂ ↦ ?_)
    fun _ _ h ↦ h.elim
  obtain ⟨hframe₂, hcovers⟩ := h₂
  have hw₂ := hw₁.of_frame (s := .only .teardown) (fun _ h ↦ h.elim) hframe₂
  obtain ⟨r₀, hr₀, -⟩ := hw₂.isOpen
  have hcalm₂ := hframe₂.locked_not_escaped (fun _ ↦ rfl) hcalm₁
  have hcover : ∀ c ∈ outstanding w₂.trace, ∃ o ∈ remains.orphans,
      (env.machine o.node, o.containerName) = c := by
    intro c hc
    obtain ⟨r, hr, hname⟩ := hw₂.confined c hc
    have hne : (rankRecord r).containerName ≠ "" := by
      rw [rankRecord, (plan.made r hr).name]
      exact rankContainerName_ne_empty _ _ _
    obtain ⟨o, ho, hnode, hcontainer⟩ := hcovers _ (List.mem_map_of_mem hr) hne (hname ▸ hc)
    refine ⟨o, ho, ?_⟩
    rw [hnode, hcontainer]
    exact hname
  exact (recordError_settles hr₀ hcalm₂ hcover).mono (fun _ _ h _ ↦ ⟨h.2, h.1⟩)
    fun _ _ h ↦ h.elim

/-- A gang seen serving is recorded as running. -/
theorem settleReady_cameUp (hw : Underway env plan plan.rankPlans w)
    (hlaunched : ∀ r ∈ plan.rankPlans, Launched env w.trace r) (hcalm : ¬Escaped w.trace) :
    (settleReady env plan record).Safe (solo env)
      (fun _ w' ↦ ¬Escaped w'.trace ∧ CameUp env plan true w') (fun _ _ ↦ False) w := by
  refine safe_withLock fun locks ↦ ?_
  rw [safe_bind]
  have hw₀ : Underway env plan plan.rankPlans { w with locks := locks } := ⟨hw.isOpen, hw.confined⟩
  refine (safe_asked guarded_isTornDown (safe_isTornDown hw₀.isOpen) hcalm).mono
    (fun down w₁ ⟨⟨hdown, hframe₁⟩, hcalm₁⟩ ↦ ?_) fun _ _ h ↦ h.elim
  subst hdown
  have hw₁ := hw₀.of_frame (s := .locked) (fun _ h ↦ h.elim) hframe₁
  obtain ⟨r₀, hr₀, -⟩ := hw₁.isOpen
  rw [if_neg (by decide), safe_bind]
  refine safe_publish ?_
  rw [safe_bind]
  refine safe_now fun t ↦ ?_
  rw [safe_bind]
  have hlogged : (w₁.log (.published .deploymentReady plan.deploymentId
    s!"{plan.recipeId} is serving on port {plan.port}")).store.get plan.deploymentId = some r₀ := hr₀
  refine safe_updateRecord hlogged fun w₂ hget htrace ↦ ?_
  refine fun _ ↦ ⟨?_, fun r hr ↦ ?_, _, hget, rfl⟩
  · exact htrace ▸ not_escaped_log rfl hcalm₁
  · change _ ∈ w₂.trace
    rw [htrace]
    exact List.mem_cons_of_mem _ (mem_trace_of_shrinks hframe₁.shrinks (hlaunched r hr))

theorem readyPhase_settles (hw : Underway env plan plan.rankPlans w)
    (hlaunched : ∀ r ∈ plan.rankPlans, Launched env w.trace r) (hcalm : ¬Escaped w.trace) :
    (readyPhase env plan record).Safe (solo env)
      (fun _ w' ↦ ¬Escaped w'.trace ∧ (CameUp env plan true w' ∨ Settled env plan w'))
      (fun _ w' ↦ Open plan.deploymentId w' ∧ Escaped w'.trace) w := by
  have hwait : (waitReady env plan).Safe (solo env) (fun _ w' ↦ Frame .locked w w')
      (fun _ w' ↦ Frame .locked w w') w :=
    safe_frame (waitReady_uses (fun h ↦ nomatch h) fun h ↦ nomatch h) (fun _ _ _ ↦ trivial) w
  rw [readyPhase, safe_bind, safe_attempt]
  refine ((faithful_waitReady w hcalm).and hwait).mono (fun _ w₁ ⟨hcalm₁, hframe₁⟩ ↦ ?_)
    fun x w₁ ⟨hx, hframe₁⟩ ↦ ?_
  · have hw₁ := hw.of_frame (s := .locked) (fun _ h ↦ h.elim) hframe₁
    refine (settleReady_cameUp hw₁ (fun r hr ↦ ?_) hcalm₁).mono (fun _ _ h ↦ ⟨h.1, .inl h.2⟩)
      fun _ _ h ↦ h.elim
    exact mem_trace_of_shrinks hframe₁.shrinks (hlaunched r hr)
  · have hw₁ := hw.of_frame (s := .locked) (fun _ h ↦ h.elim) hframe₁
    have hnative : ∀ text, x = .native text → ¬Escaped w₁.trace := by
      rintro text rfl h
      exact nomatch hx.mp h
    cases x with
    | native text =>
      exact (settleUnready_settles hw₁ (hnative text rfl)).mono (fun _ _ h ↦ ⟨h.1, .inr h.2⟩)
        fun _ _ h ↦ h.elim
    | _ => exact ⟨hw₁.isOpen, hx.mpr rfl⟩

theorem startPulled_settles {wait : Bool} (hw : Underway env plan [] w)
    (hcalm : ¬Escaped w.trace) :
    (startPulled env plan record wait).Safe (solo env)
      (fun _ w' ↦ ¬Escaped w'.trace ∧ (CameUp env plan wait w' ∨ Settled env plan w'))
      (fun _ w' ↦ Open plan.deploymentId w' ∧ Escaped w'.trace) w := by
  rw [startPulled, safe_bind]
  refine safe_withLock fun locks ↦ ?_
  have hw₀ : Underway env plan [] { w with locks := locks } := ⟨hw.isOpen, hw.confined⟩
  refine (launchPhase_settles hw₀ hcalm).mono (fun progress w₁ h₁ locks ↦ ?_) fun _ _ h _ ↦ h
  obtain ⟨hcalm₁, hw₁⟩ := h₁
  cases progress with
  | done r => exact ⟨hcalm₁, .inr hw₁⟩
  | go launched =>
    obtain ⟨hunderway, hup⟩ := hw₁
    cases wait with
    | true =>
      have hw₂ : Underway env plan plan.rankPlans { w₁ with locks := locks } :=
        ⟨hunderway.isOpen, hunderway.confined⟩
      exact readyPhase_settles hw₂ hup.launched hcalm₁
    | false => exact ⟨hcalm₁, .inl ⟨hup.launched, hup.record⟩⟩

end

/-! ### Before the lock -/

section
variable {env : Env} {plan : DeployPlan} {record : Record} {w : World}

/-- Nothing is created, and the record is open. -/
structure Fresh (env : Env) (plan : DeployPlan) (w : World) : Prop where
  underway : Underway env plan [] w
  calm : ¬Escaped w.trace

/-- A program of routine calls in one phase all of whose operations are guarded. -/
theorem safe_fresh {s : Scope} {α : Type} {p : Op α} (hs : s.Keeps)
    (hguarded : ∀ phase asked, s.phases phase → unguarded phase asked = false)
    (h : p.Uses (Routine s)) (hw : Fresh env plan w) :
    p.Safe (solo env) (fun _ w' ↦ Fresh env plan w') (fun _ w' ↦ Fresh env plan w') w :=
  (safe_frame h (fun _ _ _ ↦ trivial) w).mono
    (fun _ _ h ↦ ⟨hw.underway.of_frame hs h, h.not_escaped hguarded hw.calm⟩)
    fun _ _ h ↦ ⟨hw.underway.of_frame hs h, h.not_escaped hguarded hw.calm⟩

/-- A failure before anything is created settles. -/
theorem fail_fresh {message : String} (hw : Fresh env plan w) :
    (fail plan record message {}).Safe (solo env)
      (fun _ w' ↦ Settled env plan w' ∧ ¬Escaped w'.trace) (fun _ _ ↦ False) w := by
  obtain ⟨r₀, hr₀, -⟩ := hw.underway.isOpen
  refine fail_settles hr₀ hw.calm fun c hc ↦ ?_
  rw [outstanding_eq_nil hw.underway] at hc
  exact absurd hc List.not_mem_nil

/-- How a phase before the lock comes out. -/
def Prepared (env : Env) (plan : DeployPlan) {α : Type} (progress : Progress α) (w : World) :
    Prop :=
  match progress with
  | .done _ => Settled env plan w ∧ ¬Escaped w.trace
  | .go _ => Fresh env plan w

theorem reapPhase_prepared (hw : Fresh env plan w) :
    (reapPhase plan record).Safe (solo env) (Prepared env plan) (fun _ _ ↦ False) w := by
  have hguarded : ∀ phase asked, (Scope.only .reap).phases phase →
      unguarded phase asked = false := by
    rintro _ _ rfl
    rfl
  rw [reapPhase, safe_bind, safe_attempt]
  refine (safe_fresh (s := .only .reap) (fun _ h ↦ h.elim) hguarded (reapRanks_uses rfl _) hw).mono
    (fun _ _ h ↦ h) fun x w₁ hw₁ ↦ ?_
  cases x <;>
    exact safe_bind.mpr ((fail_fresh hw₁).mono (fun _ _ h ↦ h) fun _ _ h ↦ h)

/-- The scope of the pull phase: its patches say that the record is pulling, or was. -/
def Scope.pulling (id : String) : Scope where
  id := id
  phases := (· = .pull)
  patches p := p.status = some .pulling ∨ p.status = some .starting

theorem pullPhase_prepared (hw : Fresh env plan w) :
    (pullPhase env plan record).Safe (solo env)
      (fun progress w' ↦ Prepared env plan progress w' ∧
        ∀ p, progress = .go p → Retargeted plan p) (fun _ _ ↦ False) w := by
  have hguarded : ∀ phase asked, (Scope.pulling plan.deploymentId).phases phase →
      unguarded phase asked = false := by
    rintro _ _ rfl
    rfl
  have hpulls : (Scope.pulling plan.deploymentId).Pulls := ⟨rfl, fun _ _ _ h ↦ h⟩
  have hraises (plan : DeployPlan) (addresses : List String) :
      (pullEverywhere env plan addresses).Raises fun _ ↦ False := by
    induction addresses generalizing plan with
    | nil => exact raises_pure
    | cons address addresses ih =>
      refine (raises_attempt _).bind fun outcome ↦ ?_
      cases outcome with
      | error x => exact raises_pure
      | ok image => exact ih _
  have hkept : (pullEverywhere env plan plan.pullTargets).Safe (solo env)
      (fun _ w' ↦ Fresh env plan w') (fun _ w' ↦ Fresh env plan w') w :=
    safe_fresh (fun _ h ↦ .inr h) hguarded (pullEverywhere_uses rfl hpulls _) hw
  rw [pullPhase, safe_bind]
  refine ((pullEverywhere_yields plan.pullTargets .refl).safe ((hraises _ _).safe hkept)).mono
    (fun pulled w₁ h ↦ ?_) fun _ _ h ↦ h.1
  obtain ⟨p, outcome⟩ := pulled
  obtain ⟨hp, hw₁⟩ := h
  have hid : p.deploymentId = plan.deploymentId := (@Retargeted.same env plan w p hp).1
  have hfresh : Fresh env p w₁ :=
    ⟨⟨hid ▸ hw₁.underway.isOpen, hw₁.underway.confined⟩, hw₁.calm⟩
  have hsettled {w : World} (h : Settled env p w) : Settled env plan w := by
    unfold Settled at h ⊢
    rwa [hid] at h
  have hdone : ∀ r p', (Progress.done r : Progress DeployPlan) = .go p' → Retargeted plan p' := by
    intro r p' h
    cases h
  rcases outcome with x | _
  · cases x with
    | pullCancelled text =>
      have hmessage : s!"pull of {p.container.image} cancelled by teardown" ≠ "" := by
        intro h
        have hempty : "pull of " ++ p.container.image ++ " cancelled by teardown" = "" := h
        rw [String.append_eq_empty_iff] at hempty
        exact absurd hempty.2 (by decide)
      obtain ⟨r₀, hr₀, -⟩ := hfresh.underway.isOpen
      have hstop := @settleStopped_settles env p record w₁ _ _ hmessage hr₀ hfresh.calm
        (outstanding_eq_nil hfresh.underway)
      exact safe_bind.mpr (hstop.mono (fun r _ h ↦ ⟨⟨hsettled h.1, h.2⟩, hdone r⟩) fun _ _ h ↦ h)
    | _ =>
      exact safe_bind.mpr ((fail_fresh hfresh).mono
        (fun r _ h ↦ ⟨⟨hsettled h.1, h.2⟩, hdone r⟩) fun _ _ h ↦ h)
  · refine ⟨hw₁, fun p' h ↦ ?_⟩
    cases h
    exact hp

theorem cameUp_of_runFrom {wait : Bool} (node image : String)
    (h : CameUp env (plan.runFrom node image) wait w) : CameUp env plan wait w where
  launched r hr := by
    have hmem : r.runFrom node image ∈ (plan.runFrom node image).rankPlans := List.mem_map_of_mem hr
    simpa [Launched] using h.launched _ hmem
  record := h.record

/-- Pointing ranks at other images changes nothing of how a start ends. -/
theorem Retargeted.cameUp {p : DeployPlan} {wait : Bool} (hp : Retargeted plan p)
    (h : CameUp env p wait w) : CameUp env plan wait w := by
  induction hp with
  | refl => exact h
  | runFrom node image _ ih => exact ih (cameUp_of_runFrom node image h)

/-- A start ends up or settled when nothing has escaped, and else with the record still open. -/
theorem start_settles {wait : Bool} {status : Status}
    (hstatus : status = .pulling ∨ status = .starting) (hw : w.trace = []) :
    (start env plan wait status).Safe (solo env)
      (fun _ w' ↦ ¬Escaped w'.trace ∧ (CameUp env plan wait w' ∨ Settled env plan w'))
      (fun _ w' ↦ Open plan.deploymentId w' ∧ Escaped w'.trace) w := by
  rw [start, persistPlannedRecord, safe_bind, safe_bind, safe_invoke]
  intro _ w₁ a ha
  cases ha
  refine ⟨trivial, ?_⟩
  rw [safe_pure, safe_bind]
  refine safe_publish ?_
  have hget : (w.store.persist env.redact (recordFromPlan plan status)).get plan.deploymentId =
      some (recordFromPlan plan status) := by
    rw [Store.get_persist, recordFromPlan_id, if_pos ⟨rfl, plan.named⟩]
  have hfresh : Fresh env plan ((((w.repair env).commit (Store.putDelta (recordFromPlan plan status))
      (w.store.persist env.redact (recordFromPlan plan status))).log
        (.persisted (recordFromPlan plan status).id)).log (.published .deploymentPlanned
          plan.deploymentId s!"planned {plan.recipeId} on {plan.engine}/{plan.variant}")) := by
    have htrace : (w.repair env).trace = [] := hw
    refine ⟨⟨⟨_, hget, hstatus⟩, fun c hc ↦ ?_⟩, ?_⟩
    · rw [World.log_trace, World.log_trace, World.commit_trace, htrace] at hc
      exact absurd hc List.not_mem_nil
    · refine not_escaped_log rfl (not_escaped_log rfl ?_)
      rw [World.commit_trace, htrace]
      rintro ⟨e, he, -⟩
      exact List.not_mem_nil he
  rw [safe_bind]
  refine (reapPhase_prepared hfresh).mono (fun progress w₂ hw₂ ↦ ?_) fun _ _ h ↦ h.elim
  cases progress with
  | done r => exact ⟨hw₂.2, .inr hw₂.1⟩
  | go _ =>
    rw [safe_bind]
    refine (pullPhase_prepared hw₂).mono (fun progress w₃ h₃ ↦ ?_) fun _ _ h ↦ h.elim
    obtain ⟨hw₃, hp⟩ := h₃
    cases progress with
    | done r => exact ⟨hw₃.2, .inr hw₃.1⟩
    | go p =>
      have hp := hp p rfl
      have hid : p.deploymentId = plan.deploymentId := (@Retargeted.same env plan w p hp).1
      have hunderway : Underway env p [] w₃ :=
        ⟨hid ▸ hw₃.underway.isOpen, hw₃.underway.confined⟩
      refine (startPulled_settles hunderway hw₃.calm).mono (fun _ w₄ h₄ ↦ ?_)
        fun _ w₄ h ↦ ⟨hid ▸ h.1, h.2⟩
      obtain ⟨hcalm, hend⟩ := h₄
      refine ⟨hcalm, hend.imp hp.cameUp fun h ↦ ?_⟩
      unfold Settled at h ⊢
      rwa [hid] at h

end

/-! ## Two starts of one rank

The node is no longer registered when its rank is to be created. -/

private theorem loneEnv_local : decide ("" = "") = true := rfl

private def loneEnv : Env where
  isLocal a := a = ""
  isLocal_empty := loneEnv_local
  redact _ := none
  serveProgram command := command
  controlLabel := ""
  readyTimeout := 900

private theorem lonePlan_named : "x" ≠ "" := by decide

private def lonePlan : DeployPlan where
  deploymentId := "x"
  rankPlans := [{
    rank := 0
    node := "b"
    container := {
      image := "i"
      name := "spark-pulse-x-r0-g1"
      labels := { deployment := some "x", generation := some 1, rank := some 0 } }
    isHead := true }]
  named := lonePlan_named
  manned := by decide
  ranked := by decide
  made := by decide

private def loneStart : Op Record := start loneEnv lonePlan false .starting

/-- Resolving the node raises this, after ten calls that go well. -/
private def loneSchedule (x : Exn) (rest : Nat) : List (Unit × Answer) :=
  List.replicate 10 ((), { text := "t" }) ++ ((), { raises := some x }) ::
    List.replicate rest ((), { text := "t" })

private def hasEnded : Op Record → Bool
  | .op _ _ => false
  | _ => true

private theorem of_hasEnded {p : Op Record} (h : hasEnded p = true) :
    (∃ r, p = .ret r) ∨ ∃ x, p = .raise x := by
  cases p with
  | ret r => exact .inl ⟨r, rfl⟩
  | raise x => exact .inr ⟨x, rfl⟩
  | op c k => cases h

end SparkPulse.Runtime
