import SparkPulse.Runtime.Composition
import SparkPulse.Runtime.Exclusive
import SparkPulse.Runtime.Frame

/-!
# Ports over whole runs

Any number of requests that create, stop and delete deployments, interleaved call by call. A request
makes harmless calls but for the writing of its plan's record, and that record is of a plan whose
port was free when the thread first read the records. So ports stay exclusive as long as every write
is in time, and no longer.
-/

namespace SparkPulse.Runtime

open Program Prog Transition

/-! ## The calls of a request -/

section
variable {α : Type} {env : Env} {plan : DeployPlan} {record : Record}

theorem Routine.harmless {s : Scope} {c : Call} (h : Routine s c) : Harmless c := by
  cases c with
  | updateRow id p =>
    obtain ⟨command, rfl⟩ := h
    exact ⟨command, rfl⟩
  | persist record => exact h.elim
  | save loaded records => exact h.elim
  | deleteMany ids => exact h.elim
  | _ => trivial

theorem harmless_of_routine {p : Op α} {s : Scope} (h : p.Uses (Routine s)) : p.Uses Harmless :=
  h.mono fun _ ↦ Routine.harmless

/-- Programs of harmless calls have all of a request but the writing of the plan's record. -/
theorem composes_harmless : Composes fun _ p ↦ p.Uses Harmless where
  pure _ := uses_pure
  raise _ := uses_raise
  bind := Uses.bind
  attempt := Uses.attempt
  asks c hc := by
    refine invoke_uses c ?_
    cases c <;> trivial
  repairs id command := invoke_uses (.updateRow id _) ⟨command, rfl⟩
  moves id _ _ := invoke_uses (.updateRecord id _) trivial
  settles id _ _ _ _ hf := (invoke_uses .now trivial).bind fun _ ↦
    (invoke_uses (.updateRecord id _) trivial).bind hf
  drops id := invoke_uses (.dropRecord id) trivial

end

/-! ## Threads that deploy -/

section
variable {α : Type} {env : Env} {i : Tid}

/-- The setting of a request: ports stay exclusive, and each thread is left what it read first. -/
abbrev deploying (env : Env) : Tid → Setting Call.Ret Watched :=
  Threads.sharing (Watched.exec env) (timely env) (fun w ↦ Exclusive env w.world.store)
    fun i v w ↦ w.seen i = v.seen i

theorem compatible_deploying : Threads.Compatible (deploying env) :=
  Threads.compatible_sharing (fun _ _ ↦ rfl) fun _ _ _ _ huv hvw ↦ hvw.trans huv

theorem Watched.of_exec {w w' : Watched} {c : Call} {a : Answer} {r : c.Ret}
    (h : Watched.exec env i w c a = some (r, w')) :
    c.exec env i w.world a = some (r, w'.world) ∧ (∀ j, j ≠ i → w'.seen j = w.seen j) ∧
      (w'.seen i = w.seen i ∨ w.seen i = none ∧ c = .rows ∧
        w'.seen i = some w.world.store.rows) := by
  obtain ⟨⟨r', w₁⟩, hexec, heq⟩ := Option.map_eq_some_iff.mp h
  obtain ⟨rfl, rfl⟩ := Prod.mk.inj heq
  refine ⟨hexec, fun j hj ↦ ?_, ?_⟩
  · dsimp only
    split_ifs
    · exact Function.update_of_ne hj _ _
    · rfl
  · dsimp only
    split_ifs with hfirst
    · exact .inr ⟨hfirst.2, hfirst.1, Function.update_self _ _ _⟩
    · exact .inl rfl

/-- Harmless calls keep ports exclusive, and what is known of the first reading. -/
theorem safe_harmless {p : Op α} (h : p.Uses Harmless) {K : Option (List Record) → Prop}
    (hK : ∀ rows, K none → K (some rows)) {w : Watched}
    (hw : Exclusive env w.world.store ∧ K (w.seen i)) :
    p.Safe (deploying env i) (fun _ w ↦ Exclusive env w.world.store ∧ K (w.seen i))
      (fun _ w ↦ Exclusive env w.world.store ∧ K (w.seen i)) w := by
  refine h.safe (P := fun w : Watched ↦ Exclusive env w.world.store ∧ K (w.seen i))
    (fun v w hv hvw ↦ ?_) (fun w c r w' hc hw hperforms ↦ ?_) hw
  · obtain ⟨hexclusive, hseen⟩ := hvw hv.1
    rw [hseen]
    exact ⟨hexclusive, hv.2⟩
  · obtain ⟨hg, a, ha⟩ := hperforms
    obtain ⟨hexec, hothers, hself⟩ := Watched.of_exec ha
    have hexclusive := exclusive_of_harmless hc hg hexec hw.1
    refine ⟨fun _ ↦ ⟨hexclusive, hothers⟩, hexclusive, ?_⟩
    rcases hself with hself | ⟨hnone, -, hself⟩
    · rw [hself]
      exact hw.2
    · rw [hself]
      exact hK _ (hnone ▸ hw.2)

theorem safe_harmless_true {p : Op α} (h : p.Uses Harmless) {w : Watched}
    (hw : Exclusive env w.world.store) :
    p.Safe (deploying env i) (fun _ _ ↦ True) (fun _ _ ↦ True) w :=
  (safe_harmless h (K := fun _ ↦ True) (fun _ _ ↦ trivial) ⟨hw, trivial⟩).mono
    (fun _ _ _ ↦ trivial) fun _ _ _ ↦ trivial

/-- The port of a plan is held by none of the runs on record that the plan's run meets. -/
def Chosen (env : Env) (rows : List Record) (plan : DeployPlan) : Prop :=
  ∀ status : Status, status.finished = false → ∀ q ∈ rows,
    Meets env q (recordFromPlan plan status) →
      ∀ port ∈ apiPort (recordFromPlan plan status), port ∉ heldPorts q

/-- What a thread knows that has planned. -/
def HasPlanned (env : Env) (i : Tid) (plan : DeployPlan) (w : Watched) : Prop :=
  ∃ rows, w.seen i = some rows ∧ Chosen env rows plan

theorem chosen_of_choosePort {d : Draft} {rows : List Record} {listeners : List Listeners}
    {port : ℕ} {warnings : List String} {plan : DeployPlan}
    (h : choosePort env d "" (rows.map (Store.redacted env.redact)) listeners =
      .ok (port, warnings)) (hfits : d.Fits port plan) : Chosen env rows plan := by
  rintro status hstatus q hq ⟨machine, hmachine, hmine⟩ p hp hheld
  have hp : (some plan.port).filter (· ≠ 0) = some p := hp
  obtain ⟨hport, -⟩ := Option.filter_eq_some_iff.mp hp
  obtain rfl : plan.port = p := Option.some.inj hport
  rw [occupied_recordFromPlan hfits hstatus] at hmine
  have halike : Alike env q (Store.redacted env.redact q) := alike_redacted env.redact q
  refine choosePort_free h (mem_takenPorts (List.mem_map_of_mem hq) (.inl rfl) hmine ?_ ?_)
  · rwa [← halike.occupied]
  · rwa [← hfits.port, ← halike.held]

variable {plan : DeployPlan} {w : Watched}

/-- A plan's record may be written as long as the plan is remembered. -/
theorem safe_persist {status : Status} (hstatus : status.finished = false)
    (hw : Exclusive env w.world.store ∧ HasPlanned env i plan w) {X : Exn → Watched → Prop} :
    (persistPlannedRecord plan status).Safe (deploying env i)
      (fun _ w ↦ Exclusive env w.world.store ∧ HasPlanned env i plan w) X w := by
  rw [persistPlannedRecord, safe_bind, safe_call]
  rintro w₁ hrely r w₂ ⟨hg, a, ha⟩
  obtain ⟨hexclusive, hseen⟩ := hrely hw.1
  obtain ⟨hexec, hothers, hself⟩ := Watched.of_exec ha
  obtain ⟨rows, hrows, hchosen⟩ := hw.2
  rw [← hseen] at hrows
  have hintime := hg plan.named
  rw [hrows, Option.getD_some] at hintime
  have hwritten : Exclusive env w₂.world.store := by
    obtain ⟨-, hworld⟩ := Prod.mk.inj (Option.some.inj hexec)
    rw [← hworld]
    exact hexclusive.persist env.redact plan.named (hchosen status hstatus) hintime
  have hsame : w₂.seen i = some rows := by
    rcases hself with hself | ⟨hnone, -, -⟩
    · rw [hself, hrows]
    · rw [hrows] at hnone
      cases hnone
  exact ⟨fun _ ↦ ⟨hwritten, hothers⟩, hwritten, rows, hsame, hchosen⟩

theorem safe_plan {planner : Planner} {listeners : List Listeners}
    (hw : Exclusive env w.world.store ∧ w.seen i = none) :
    (planDeployment env planner listeners).Safe (deploying env i)
      (fun plan w ↦ Exclusive env w.world.store ∧ HasPlanned env i plan w) (fun _ _ ↦ True) w := by
  rw [planDeployment, loadRecords, safe_bind, safe_bind, safe_call]
  rintro w₁ hrely rows w₂ ⟨hg, a, ha⟩
  obtain ⟨hexclusive, hseen⟩ := hrely hw.1
  obtain ⟨hexec, hothers, hself⟩ := Watched.of_exec ha
  have hexclusive₂ : Exclusive env w₂.world.store :=
    exclusive_of_harmless (c := .rows) trivial hg hexec hexclusive
  refine ⟨fun _ ↦ ⟨hexclusive₂, hothers⟩, ?_⟩
  -- this is the first reading of the thread
  have hread : w₂.seen i = some rows := by
    obtain ⟨hrows, -⟩ := Prod.mk.inj (Option.some.inj hexec)
    rcases hself with hself | ⟨-, -, hself⟩
    · have hnone : w₁.seen i = none := hseen.trans hw.2
      obtain ⟨r', -, heq⟩ := Option.map_eq_some_iff.mp ha
      obtain ⟨-, rfl⟩ := Prod.mk.inj heq
      simp [hnone] at hself
    · rw [hself, ← hrows]
  have hkept : ∀ rows', (none : Option (List Record)) = some rows → some rows' = some rows := by
    intro rows' h
    cases h
  have hrepair := @safe_harmless _ env i _
    (harmless_of_routine (@repairLoaded_uses (.all "") env rows)) (· = some rows) hkept w₂
    ⟨hexclusive₂, hread⟩
  refine ((repairLoaded_yields rows).safe hrepair).mono (fun records w₃ hw₃ ↦ ?_)
    fun _ _ _ ↦ trivial
  obtain ⟨rfl, hw₃⟩ := hw₃
  split
  · trivial
  next port warnings hport =>
    rw [safe_bind]
    have hgeneration : (nextGeneration env planner.deploymentId).Uses Harmless :=
      (harmless_of_routine (s := .all "") getDeployment_uses).bind fun found ↦ by
        cases found <;> exact uses_pure
    refine (safe_harmless hgeneration (K := (· = some rows)) hkept hw₃).mono
      (fun generation w₄ hw₄ ↦ ?_) fun _ _ _ ↦ trivial
    split
    · trivial
    next plan hplan =>
      exact ⟨hw₄.1, rows, hw₄.2,
        chosen_of_choosePort hport (planner.fits port warnings generation plan hplan)⟩

theorem safe_start {status : Status} (hstatus : status.finished = false) {wait : Bool}
    (hw : Exclusive env w.world.store ∧ HasPlanned env i plan w) :
    (start env plan wait status).Safe (deploying env i)
      (fun _ w ↦ Exclusive env w.world.store) (fun _ w ↦ Exclusive env w.world.store) w := by
  obtain ⟨rest, hstart, hrest⟩ :=
    @Composes.exists_start _ composes_harmless env plan wait status
  rw [hstart, safe_bind]
  refine (safe_persist hstatus hw (X := fun _ w ↦ Exclusive env w.world.store)).mono
    (fun record w₁ hw₁ ↦ ?_) fun _ _ h ↦ h
  -- nothing that follows the writing of the record claims a port
  exact (safe_harmless (hrest record) (K := fun _ ↦ True) (fun _ _ ↦ trivial) ⟨hw₁.1, trivial⟩).mono
    (fun _ _ h ↦ h.1) fun _ _ h ↦ h.1

theorem safe_create (hw : Exclusive env w.world.store ∧ HasPlanned env i plan w) :
    (createDeployment env plan).Safe (deploying env i) (fun _ _ ↦ True) (fun _ _ ↦ True) w := by
  have hmissing : (imageMissing plan.upstreamRef plan.pullTargets).Uses Harmless :=
    harmless_of_routine (@imageMissing_uses (.all plan.deploymentId) trivial _ plan.pullTargets)
  have hplanned : Exclusive env w.world.store ∧ ∃ rows, w.seen i = some rows ∧
    Chosen env rows plan := hw
  obtain ⟨hexclusive, rows, hrows, hchosen⟩ := hplanned
  have hkept : ∀ rows', (none : Option (List Record)) = some rows → some rows' = some rows :=
    fun _ h ↦ nomatch h
  rw [createDeployment, safe_bind]
  refine (safe_harmless hmissing (K := (· = some rows)) hkept ⟨hexclusive, hrows⟩).mono
    (fun missing w₁ hw₁ ↦ ?_) fun _ _ _ ↦ trivial
  have hw₁ : Exclusive env w₁.world.store ∧ HasPlanned env i plan w₁ :=
    ⟨hw₁.1, rows, hw₁.2, hchosen⟩
  cases missing with
  | true =>
    rw [if_pos rfl, safe_bind]
    refine (safe_persist rfl hw₁).mono (fun _ w₂ hw₂ ↦ ?_) fun _ _ h ↦ h
    rw [pullThenStart, safe_bind, safe_attempt]
    refine (safe_start rfl hw₂).mono (fun started w₃ hw₃ ↦ ?_) fun x w₃ hw₃ ↦ ?_
    · refine safe_harmless_true (.ite (fun _ ↦ uses_pure) fun _ ↦ composes_harmless.watch) hw₃
    · refine safe_harmless_true ?_ hw₃
      refine composes_harmless.isTornDown.bind fun _ ↦ .ite (fun _ ↦ uses_pure) fun _ ↦ ?_
      exact composes_harmless.recordError.bind fun _ ↦ uses_pure
  | false =>
    rw [if_neg Bool.false_ne_true, safe_bind]
    refine (safe_start rfl hw₁).mono (fun started w₂ hw₂ ↦ ?_) fun _ _ _ ↦ trivial
    exact safe_harmless_true (.ite (fun _ ↦ uses_pure) fun _ ↦ composes_harmless.watch) hw₂

theorem safe_request (request : Request)
    (hw : Exclusive env w.world.store ∧ w.seen i = none) :
    (request.program env).Safe (deploying env i) (fun _ _ ↦ True) (fun _ _ ↦ True) w := by
  cases request with
  | create planner listeners wait =>
    rw [Request.program, safe_bind]
    refine (safe_plan hw).mono (fun plan w₁ hw₁ ↦ ?_) fun _ _ h ↦ h
    cases wait with
    | true =>
      rw [if_pos rfl, safe_bind]
      exact (safe_start rfl hw₁).mono (fun _ _ _ ↦ trivial) fun _ _ _ ↦ trivial
    | false =>
      rw [if_neg Bool.false_ne_true]
      exact safe_create hw₁
  | stop id =>
    exact safe_harmless_true (composes_harmless.stopDeployment.bind fun _ ↦ uses_pure) hw.1
  | delete id =>
    exact safe_harmless_true (composes_harmless.deleteDeployment.bind fun _ ↦ uses_pure) hw.1

end

/-! ## Runs -/

/-- Any number of requests, interleaved, from a store whose ports are exclusive. -/
def requests (env : Env) : System (Threads Tid Call.Ret Exn Unit Watched) (Tid × Answer) :=
  Threads.system (Watched.exec env) fun s ↦
    (∀ i, ∃ request : Request, s.pool i = request.program env) ∧
      (∀ i, s.world.seen i = none) ∧ Exclusive env s.world.world.store

section
variable {env : Env} {s t : Threads Tid Call.Ret Exn Unit Watched}

theorem exclusive_of_timely (hs : (requests env).init s)
    (h : (requests env).Steps (Threads.stepGuard (timely env)) s t) :
    Exclusive env t.world.world.store := by
  obtain ⟨hpool, hseen, hexclusive⟩ := hs
  refine (Threads.Poised.sharing_steps (Q := fun _ _ _ ↦ True) (X := fun _ _ _ ↦ True)
    compatible_deploying h hexclusive fun i ↦ ?_).2
  obtain ⟨request, hrequest⟩ := hpool i
  rw [hrequest]
  exact safe_request request ⟨hexclusive, hseen i⟩

/-- **Ports are handed out once, in time.** The runs of requests that go through stores with
exclusive ports only are those whose every write is in time: no plan's record is written after a run
came that it clashes with or beside one that serves on a port of its engine, and no update gives a
run back what another one holds by then. -/
theorem exclusive_iff_timely (hs : (requests env).init s) :
    (requests env).Steps (fun s a ↦ ∀ t, (requests env).next s a = some t →
        Exclusive env t.world.world.store) s t ↔
      (requests env).Steps (Threads.stepGuard (timely env)) s t := by
  constructor
  · intro h
    induction h with
    | refl => exact .refl
    | tail _ hexclusive hnext ih =>
      refine ih.tail ?_ hnext
      obtain ⟨c, k, reply, hpool, ⟨-, a, ha⟩, -⟩ :=
        Threads.next_cases (g := fun _ _ _ ↦ True) (by unfold Threads.stepGuard; split <;> trivial)
          hnext
      rw [Threads.stepGuard, hpool]
      exact timely_of_exclusive (Watched.of_exec ha).1 (hexclusive _ hnext)
  · intro h
    induction h with
    | refl => exact .refl
    | tail hsteps htimely hnext ih =>
      refine ih.tail (fun u hu ↦ ?_) hnext
      exact exclusive_of_timely hs (hsteps.tail htimely hu)

end

/-! ## Two runs of two deploys

Both recipes would like port 8000 on this machine. -/

private theorem portEnv_local : decide ("" = "") = true := rfl

private def portEnv : Env where
  isLocal a := a = ""
  isLocal_empty := portEnv_local
  redact _ := none
  serveProgram command := command
  controlLabel := ""
  readyTimeout := 900

private def portPlan (id : String) (named : id ≠ "") (port generation : ℕ) : DeployPlan where
  deploymentId := id
  port := port
  generation := generation
  rankPlans := [{
    rank := 0
    node := ""
    container := {
      image := "i"
      name := rankContainerName id 0 generation
      labels := { deployment := some id, generation := some generation, rank := some 0 } }
    isHead := true }]
  named := named
  manned := List.cons_ne_nil _ _
  ranked := rfl
  made r hr := by
    obtain rfl := List.mem_singleton.mp hr
    exact ⟨rfl, rfl, rfl, rfl, rfl⟩

private def portPlanner (id : String) (named : id ≠ "") : Planner where
  deploymentId := id
  nodeList := []
  preferred := some 8000
  rendezvousPort := none
  rpcPort := none
  finish port _ generation := .ok (portPlan id named port generation)
  fits port _ generation plan hplan := by
    obtain rfl := Except.ok.inj hplan
    exact ⟨rfl, rfl, rfl, rfl, rfl⟩

private def twoDeploys : Threads Tid Call.Ret Exn Unit Watched where
  pool i := (if i = 0 then Request.create (portPlanner "a" (by decide)) [] false
    else if i = 1 then .create (portPlanner "b" (by decide)) [] false
    else .stop "").program portEnv
  world := { world := { store := ⟨[], List.nodup_nil, Store.named_nil⟩ } }

private theorem twoDeploys_init : (requests portEnv).init twoDeploys := by
  refine ⟨fun i ↦ ⟨_, rfl⟩, fun _ ↦ rfl, fun q hq ↦ ?_⟩
  cases hq

private def noAnswer : Answer := { raises := some (.other "") }

/-- When one plans after the other is on record, it is moved. -/
theorem deployed_apart : ∃ t,
    t.world.world.store.rows.map (fun r ↦ (r.id, r.port)) =
      [("a", some 8000), ("b", some 9000)] ∧
    (requests portEnv).Steps (fun s a ↦ ∀ t, (requests portEnv).next s a = some t →
      Exclusive portEnv t.world.world.store) twoDeploys t := by
  have hrun : ((requests portEnv).runUnder (Threads.stepGuard (timely portEnv)) twoDeploys
      [(0, {}), (0, {}), (0, noAnswer), (0, {}), (1, {}), (1, {}), (1, noAnswer), (1, {})]).any
        (fun t ↦ t.world.world.store.rows.map (fun r ↦ (r.id, r.port)) =
          [("a", some 8000), ("b", some 9000)]) = true := by
    decide +kernel
  obtain ⟨t, ht, hrows⟩ := (Option.any_eq_true _ _).mp hrun
  exact ⟨t, of_decide_eq_true hrows,
    (exclusive_iff_timely twoDeploys_init).mpr (System.steps_of_runUnder ht)⟩

/-- **A port is handed out twice.** Both plan, and then both records are written. -/
theorem deployed_on_one_port : ∃ t, (requests portEnv).Reachable Guard.free t ∧
    t.world.world.store.rows.map (fun r ↦ (r.id, r.port)) =
      [("a", some 8000), ("b", some 8000)] ∧
    ¬Exclusive portEnv t.world.world.store := by
  have hrun : ((requests portEnv).run twoDeploys
      [(0, {}), (0, {}), (1, {}), (1, {}), (0, noAnswer), (0, {}), (1, noAnswer), (1, {})]).any
        (fun t ↦ t.world.world.store.rows.map (fun r ↦ (r.id, r.port)) =
          [("a", some 8000), ("b", some 8000)] ∧ ¬Exclusive portEnv t.world.world.store) =
        true := by
    decide +kernel
  obtain ⟨t, ht, hrows⟩ := (Option.any_eq_true _ _).mp hrun
  obtain ⟨hports, hclash⟩ := of_decide_eq_true hrows
  exact ⟨t, ⟨twoDeploys, twoDeploys_init, System.steps_of_run ht⟩, hports, hclash⟩

end SparkPulse.Runtime
