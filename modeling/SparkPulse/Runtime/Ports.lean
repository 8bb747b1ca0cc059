import SparkPulse.Runtime.Lifecycle

/-!
# The choice of a port

A run whose port nobody pinned gets one that its plan chooses: the recipe's if it is free on every
machine that the run is to occupy, and else the first free one of a range. What is free is read from
the records and asked of the nodes while the run is planned.

A machine is named by its key, as everywhere in the runtime.
-/

namespace SparkPulse.Runtime

open Program Prog

/-! ## Ports in use -/

/-- A port that there is; zero stands for none. -/
def realPort (port : Option ℕ) : Option ℕ := port.filter (· ≠ 0)

/-- The port that a run serves its API on. -/
def apiPort (r : Record) : Option ℕ := realPort r.port

/-- The ports that the engine of a run binds for itself. -/
def enginePorts (r : Record) : List ℕ := [r.rendezvousPort, r.rpcPort].filterMap realPort

/-- Every port that a run holds. -/
def heldPorts (r : Record) : List ℕ := (apiPort r).toList ++ enginePorts r

section
variable (env : Env)

/-- `_occupied_nodes`: the machines that a run still occupies, which for a finished one are those of
its orphans. -/
def occupiedNodes (r : Record) : Option (List String) :=
  if r.status.finished ∧ r.orphans = [] then none
  else
    let nodes := if r.status.finished then r.orphans.map fun o ↦ env.machine o.node
      else if r.ranks ≠ [] then (rankEntries r).map fun e ↦ env.machine e.node
      else r.nodes.map env.machine
    some (if nodes = [] then [""] else nodes)

/-- The machines that a run occupies. -/
def occupied (r : Record) : List String := (occupiedNodes env r).getD []

/-- `_ports_in_use`, on one machine: the ports held there, with the names of the runs that hold
them. Of two runs with one port the first counts. -/
def portsInUse (exclude : String) (records : List Record) (machine : String) :
    List (ℕ × String) :=
  (records.filter fun r ↦ !(exclude ≠ "" ∧ r.id = exclude) ∧ machine ∈ occupied env r).flatMap
    fun r ↦ (heldPorts r).map fun port ↦ (port, if r.name = "" then r.id else r.name)

/-! ## Choosing -/

/-- What a node said is listening on it, or why it could not be asked. -/
structure Listeners where
  label : String
  answer : Except String (List ℕ)

/-- What a plan has settled on before it chooses the port. -/
structure Draft where
  deploymentId : String
  /-- Empty for the machine of the control plane. -/
  nodeList : List String
  /-- The port that the recipe would like. -/
  preferred : Option ℕ
  rendezvousPort : Option ℕ
  rpcPort : Option ℕ
  /-- `config.default_port_range_start` -/
  rangeStart : ℕ := 9000
  /-- `config.default_port_range_end` -/
  rangeEnd : ℕ := 9100

/-- The machines that the run is to occupy. -/
def Draft.machines (d : Draft) : List String :=
  if d.nodeList = [] then [""] else d.nodeList.map env.machine

/-- Every port that is taken, with who has it; of two the first counts. -/
def takenPorts (d : Draft) (exclude : String) (records : List Record)
    (listeners : List Listeners) : List (ℕ × String) :=
  (d.machines env).flatMap (fun machine ↦
    (portsInUse env exclude records machine).map fun e ↦ (e.1, "run " ++ e.2)) ++
  listeners.flatMap (fun l ↦
    match l.answer with
    | .ok ports => ports.map fun port ↦ (port, s!"a process on {l.label}")
    | .error _ => []) ++
  [(d.rendezvousPort, "rendezvous"), (d.rpcPort, "RPC")].filterMap fun e ↦
    (realPort e.1).map fun port ↦ (port, s!"the engine's own {e.2} port")

/-- The nodes that could not be asked, for the operator. -/
def unansweredWarnings (listeners : List Listeners) : List String :=
  listeners.filterMap fun l ↦
    match l.answer with
    | .ok _ => none
    | .error why => some (s!"could not list the ports in use on {l.label} ({why}); the API " ++
        "port was chosen from the runs on record alone, and the pre-flight checks it again " ++
        "before launch")

/-- `allocate_port`: the first port of the range that is not taken. -/
def allocatePort (d : Draft) (taken : List ℕ) : Option ℕ :=
  (List.range' d.rangeStart (d.rangeEnd + 1 - d.rangeStart)).find? (· ∉ taken)

/-- `_choose_port`: the port, and what the operator is told of the choice. -/
def choosePort (d : Draft) (exclude : String) (records : List Record)
    (listeners : List Listeners) : Except String (ℕ × List String) :=
  let taken := takenPorts env d exclude records listeners
  let warnings := unansweredWarnings listeners
  match realPort d.preferred with
  | none =>
    match allocatePort d (taken.map Prod.fst) with
    | some port => .ok (port, warnings)
    | none => .error (exhausted d)
  | some preferred =>
    match taken.lookup preferred with
    | none => .ok (preferred, warnings)
    | some holder =>
      match allocatePort d (taken.map Prod.fst) with
      | some port => .ok (port, warnings ++
          [s!"port {preferred} is held by {holder}; this run gets {port}"])
      | none => .error (exhausted d)
where
  exhausted (d : Draft) : String :=
    s!"no free port in the configured range {d.rangeStart}-{d.rangeEnd}; " ++
      "widen default_port_range_* or stop an existing deployment"

end

/-! ## Plans and requests -/

/-- A plan of a draft, on a port. -/
structure Draft.Fits (d : Draft) (port : ℕ) (plan : DeployPlan) : Prop where
  deploymentId : plan.deploymentId = d.deploymentId
  port : plan.port = port
  rendezvousPort : plan.rendezvousPort = d.rendezvousPort
  rpcPort : plan.rpcPort = d.rpcPort
  nodes : plan.rankPlans.map RankPlan.node = if d.nodeList = [] then [""] else d.nodeList

/-- The whole of `plan` but for the choice of the port. -/
structure Planner extends Draft where
  /-- The plan on a port, with the warnings and the generation; it may still fail. -/
  finish : ℕ → List String → ℕ → Except String DeployPlan
  fits : ∀ port warnings generation plan, finish port warnings generation = .ok plan →
    toDraft.Fits port plan

section
variable (env : Env)

/-- `plan`, of a new deployment whose port the caller left open. -/
def planDeployment (planner : Planner) (listeners : List Listeners) : Op DeployPlan := do
  let records ← loadRecords env
  match choosePort env planner.toDraft "" records listeners with
  | .error text => .raise (.native text)
  | .ok (port, warnings) =>
    let generation ← nextGeneration env planner.deploymentId
    match planner.finish port warnings generation with
    | .error text => .raise (.native text)
    | .ok plan => return plan

/-- What is asked of the runtime. -/
inductive Request
  /-- `create_deployment`, waiting for the run to be ready or not, and what the nodes say is
  listening when it plans. -/
  | create (planner : Planner) (listeners : List Listeners) (wait : Bool)
  | stop (id : String)
  | delete (id : String)

/-- What a request runs, up to its answer and on to the end of its threads. -/
def Request.program : Request → Op Unit
  | create planner listeners wait => do
    let plan ← planDeployment env planner listeners
    if wait then
      let _ ← start env plan true .starting
    else
      createDeployment env plan
  | stop id => do let _ ← stopDeployment env id
  | delete id => do let _ ← deleteDeployment env id

end

/-! ## A chosen port is free -/

section
variable {env : Env} {d : Draft} {q r : Record} {exclude : String} {records : List Record}
  {listeners : List Listeners} {port : ℕ} {warnings : List String}

theorem mem_heldPorts : port ∈ heldPorts r ↔ port ∈ apiPort r ∨ port ∈ enginePorts r := by
  rw [heldPorts, List.mem_append, Option.mem_toList, Option.mem_def]

theorem allocatePort_free {taken : List ℕ} (h : allocatePort d taken = some port) :
    port ∉ taken := by
  simpa using List.find?_some h

theorem not_mem_of_lookup_eq_none {taken : List (ℕ × String)} (h : taken.lookup port = none) :
    port ∉ taken.map Prod.fst := by
  intro hmem
  obtain ⟨e, he, rfl⟩ := List.mem_map.mp hmem
  have := List.lookup_eq_none_iff.mp h e he
  simp at this

/-- The port that is chosen is taken by nobody. -/
theorem choosePort_free (h : choosePort env d exclude records listeners = .ok (port, warnings)) :
    port ∉ (takenPorts env d exclude records listeners).map Prod.fst := by
  unfold choosePort at h
  dsimp only at h
  split at h
  · split at h
    next hport =>
      obtain ⟨rfl, -⟩ := Prod.mk.inj (Except.ok.inj h)
      exact allocatePort_free hport
    · cases h
  · split at h
    next hfree =>
      obtain ⟨rfl, -⟩ := Prod.mk.inj (Except.ok.inj h)
      exact not_mem_of_lookup_eq_none hfree
    · split at h
      next hport =>
        obtain ⟨rfl, -⟩ := Prod.mk.inj (Except.ok.inj h)
        exact allocatePort_free hport
      · cases h

/-- What a run holds on one of the machines is taken. -/
theorem mem_takenPorts (hq : q ∈ records) (hexclude : exclude = "" ∨ q.id ≠ exclude)
    {machine : String} (hmachine : machine ∈ d.machines env) (hoccupied : machine ∈ occupied env q)
    (hport : port ∈ heldPorts q) :
    port ∈ (takenPorts env d exclude records listeners).map Prod.fst := by
  have hkept : q ∈ records.filter fun r ↦
      !(exclude ≠ "" ∧ r.id = exclude) ∧ machine ∈ occupied env r := by
    refine List.mem_filter.mpr ⟨hq, ?_⟩
    have hnot : ¬(exclude ≠ "" ∧ q.id = exclude) := by
      rintro ⟨hne, heq⟩
      exact hexclude.elim hne fun h ↦ h heq
    simp [hnot, hoccupied]
  have hinUse : ∃ e ∈ portsInUse env exclude records machine, e.1 = port :=
    ⟨_, List.mem_flatMap.mpr ⟨q, hkept, List.mem_map.mpr ⟨port, hport, rfl⟩⟩, rfl⟩
  obtain ⟨e, he, rfl⟩ := hinUse
  refine List.mem_map.mpr ⟨(e.1, "run " ++ e.2), ?_, rfl⟩
  refine List.mem_append_left _ (List.mem_append_left _ (List.mem_flatMap.mpr ?_))
  exact ⟨machine, hmachine, List.mem_map.mpr ⟨e, he, rfl⟩⟩

/-- A plan's engine does not bind the port that was chosen for the API. -/
theorem choosePort_not_reserved
    (h : choosePort env d exclude records listeners = .ok (port, warnings)) :
    port ∉ [d.rendezvousPort, d.rpcPort].filterMap realPort := by
  intro hmem
  refine choosePort_free h ?_
  obtain ⟨reserved, hreserved, hport⟩ := List.mem_filterMap.mp hmem
  rw [takenPorts, List.map_append, List.mem_append]
  refine .inr ?_
  simp only [List.mem_cons, List.not_mem_nil, or_false] at hreserved
  rcases hreserved with rfl | rfl
  all_goals simp [hport]

/-- The record of a plan occupies the machines of the draft. -/
theorem occupied_recordFromPlan {plan : DeployPlan} (h : d.Fits port plan) {status : Status}
    (hstatus : status.finished = false) :
    occupied env (recordFromPlan plan status) = d.machines env := by
  have hnodes : (plan.rankPlans.map rankRecord).map (fun e ↦ env.machine e.node) =
      d.machines env := by
    have hmap : (plan.rankPlans.map rankRecord).map (fun e ↦ env.machine e.node) =
        (plan.rankPlans.map RankPlan.node).map env.machine := by
      rw [List.map_map, List.map_map]
      rfl
    rw [hmap, h.nodes, Draft.machines]
    split_ifs
    · rw [List.map_singleton, env.machine_empty]
    · rfl
  have hranks : plan.rankPlans ≠ [] := plan.manned
  have hmachines : d.machines env ≠ [] := by
    rw [← hnodes]
    simpa using hranks
  have hentries : rankEntries (recordFromPlan plan status) = plan.rankPlans.map rankRecord :=
    if_pos (by simpa [recordFromPlan] using hranks)
  have hlive : ¬(recordFromPlan plan status).status.finished = true := by
    simp [hstatus]
  have hmanned : (recordFromPlan plan status).ranks ≠ [] := by
    simpa [recordFromPlan] using hranks
  rw [occupied, occupiedNodes, if_neg fun h ↦ hlive h.1]
  simp only [if_neg hlive, if_pos hmanned, hentries, hnodes, if_neg hmachines, Option.getD_some]

end

end SparkPulse.Runtime
