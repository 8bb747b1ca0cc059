import SparkPulse.Runtime.World

/-!
# Plans

The resolved result of planning a deployment, as far as running it reads it. What `plan` makes sure
of is carried by the structure: the ranks are numbered from zero, the first one is the head, and
each rank's container has the name and the labels of its rank and generation.
-/

namespace SparkPulse.Runtime

def containerPrefix : String := "spark-pulse-"

/-- The rank-less container name records used before ranks existed. -/
def containerNameFor (deploymentId : String) : String := s!"{containerPrefix}{deploymentId}"

/-- `spark-pulse-<deployment>-r<rank>-g<generation>`. -/
def rankContainerName (deploymentId : String) (rank generation : Nat) : String :=
  s!"{containerPrefix}{deploymentId}-r{rank}-g{generation}"

theorem rankContainerName_ne_empty (deploymentId : String) (rank generation : Nat) :
    rankContainerName deploymentId rank generation ≠ "" := by
  intro h
  have hlength := congrArg String.length h
  simp [rankContainerName, containerPrefix] at hlength

/-- The ranks of one generation have different names. -/
theorem rankContainerName_inj {deploymentId : String} {generation rank rank' : Nat}
    (h : rankContainerName deploymentId rank generation =
      rankContainerName deploymentId rank' generation) : rank = rank' := by
  have hchars := congrArg String.toList h
  simp only [rankContainerName, String.toList_append] at hchars
  have hdigits : rank.repr.toList = rank'.repr.toList :=
    List.append_cancel_left (List.append_cancel_right (List.append_cancel_right hchars))
  rw [Nat.toList_repr, Nat.toList_repr] at hdigits
  rw [← Nat.ofDigitChars_ten_toDigits (n := rank), hdigits, Nat.ofDigitChars_ten_toDigits]

/-- `node or "this machine"` -/
def orThisMachine (node : String) : String := if node = "" then "this machine" else node

/-- `", ".join` -/
def joined (parts : List String) : String := ", ".intercalate parts

/-- What is needed to start a rank's container. -/
structure ContainerSpec where
  image : String
  name : String
  labels : Labels
  mounts : List String := []
  deriving DecidableEq, Repr

/-- One rank of the gang: which node, which container, which script. -/
structure RankPlan where
  rank : Nat
  node : String
  host : String := ""
  container : ContainerSpec
  command : String := ""
  isHead : Bool
  deriving DecidableEq, Repr

/-- A rank as `plan` numbers it. -/
structure RankPlan.Made (deploymentId : String) (generation : Nat) (r : RankPlan) : Prop where
  isHead : r.isHead = (r.rank == 0)
  name : r.container.name = rankContainerName deploymentId r.rank generation
  deployment : r.container.labels.deployment = some deploymentId
  generation : r.container.labels.generation = some generation
  rank : r.container.labels.rank = some r.rank

instance (deploymentId : String) (generation : Nat) (r : RankPlan) :
    Decidable (r.Made deploymentId generation) :=
  decidable_of_iff
    (r.isHead = (r.rank == 0) ∧ r.container.name = rankContainerName deploymentId r.rank generation ∧
      r.container.labels.deployment = some deploymentId ∧
      r.container.labels.generation = some generation ∧ r.container.labels.rank = some r.rank)
    ⟨fun ⟨h₁, h₂, h₃, h₄, h₅⟩ ↦ ⟨h₁, h₂, h₃, h₄, h₅⟩, fun ⟨h₁, h₂, h₃, h₄, h₅⟩ ↦ ⟨h₁, h₂, h₃, h₄, h₅⟩⟩

namespace RankPlan

/-- Point a rank on a node at the name the image has there. -/
def runFrom (node image : String) (r : RankPlan) : RankPlan :=
  if r.node = node then { r with container := { r.container with image := image } } else r

variable (node image : String) (r : RankPlan)

@[simp] theorem runFrom_rank : (r.runFrom node image).rank = r.rank := by
  unfold runFrom
  split_ifs <;> rfl

@[simp] theorem runFrom_node : (r.runFrom node image).node = r.node := by
  unfold runFrom
  split_ifs <;> rfl

@[simp] theorem runFrom_name : (r.runFrom node image).container.name = r.container.name := by
  unfold runFrom
  split_ifs <;> rfl

@[simp] theorem runFrom_labels : (r.runFrom node image).container.labels = r.container.labels := by
  unfold runFrom
  split_ifs <;> rfl

@[simp] theorem runFrom_isHead : (r.runFrom node image).isHead = r.isHead := by
  unfold runFrom
  split_ifs <;> rfl

theorem Made.runFrom {r : RankPlan} {id : String} {generation : Nat} (h : r.Made id generation)
    (node image : String) : (r.runFrom node image).Made id generation where
  isHead := by rw [runFrom_isHead, runFrom_rank, h.isHead]
  name := by rw [runFrom_name, runFrom_rank, h.name]
  deployment := by rw [runFrom_labels, h.deployment]
  generation := by rw [runFrom_labels, h.generation]
  rank := by rw [runFrom_labels, runFrom_rank, h.rank]

end RankPlan

/-- The resolved result of planning a deployment. -/
structure DeployPlan where
  deploymentId : String
  recipeId : String := ""
  name : String := ""
  engine : String := ""
  variant : String := ""
  imageRef : String := ""
  nodes : List String := []
  port : Nat := 8000
  rendezvousPort : Option Nat := none
  rpcPort : Option Nat := none
  readinessUrl : String := ""
  servedModel : String := ""
  mods : List String := []
  workdir : String := ""
  launchCommand : String := ""
  warnings : List String := []
  createdAt : String := ""
  generation : Nat := 1
  imagePresent : Bool := true
  rankPlans : List RankPlan
  named : deploymentId ≠ ""
  manned : rankPlans ≠ []
  ranked : rankPlans.map RankPlan.rank = List.range rankPlans.length
  made : ∀ r ∈ rankPlans, r.Made deploymentId generation

namespace DeployPlan

def nodeCount (plan : DeployPlan) : Nat := plan.rankPlans.length

/-- Rank zero, the rank that serves the API. -/
def head (plan : DeployPlan) : RankPlan := plan.rankPlans.head plan.manned

/-- The scalar container spec is rank zero's. -/
def container (plan : DeployPlan) : ContainerSpec := plan.head.container

/-- Workers first, rank zero last. -/
def startOrder (plan : DeployPlan) : List RankPlan := plan.rankPlans.reverse

/-- Rank zero first. -/
def teardownOrder (plan : DeployPlan) : List RankPlan := plan.rankPlans

@[simp] theorem map_rank_map_runFrom (node image : String) (ranks : List RankPlan) :
    (ranks.map (RankPlan.runFrom node image)).map RankPlan.rank = ranks.map RankPlan.rank := by
  rw [List.map_map]
  exact List.map_congr_left fun r _ ↦ RankPlan.runFrom_rank node image r

/-- `_run_from`: point every rank on a node at the name the image has there. -/
def runFrom (node image : String) (plan : DeployPlan) : DeployPlan :=
  { plan with
    rankPlans := plan.rankPlans.map (RankPlan.runFrom node image)
    manned := by simpa using plan.manned
    ranked := by rw [map_rank_map_runFrom, List.length_map, plan.ranked]
    made := by
      intro r' hr'
      obtain ⟨r, hr, rfl⟩ := List.mem_map.mp hr'
      exact (plan.made r hr).runFrom node image }

@[simp] theorem runFrom_deploymentId (node image : String) (plan : DeployPlan) :
    (plan.runFrom node image).deploymentId = plan.deploymentId := rfl

@[simp] theorem runFrom_generation (node image : String) (plan : DeployPlan) :
    (plan.runFrom node image).generation = plan.generation := rfl

/-- `_upstream_ref`: the image the plan names, before any node is pointed at its own copy. -/
def upstreamRef (plan : DeployPlan) : String :=
  if plan.imageRef = "" then plan.container.image else plan.imageRef

/-- `_pull_targets`: each distinct node the gang runs on, in start order. -/
def pullTargets (plan : DeployPlan) : List String :=
  plan.startOrder.foldl (fun seen r ↦ if r.node ∈ seen then seen else seen ++ [r.node]) []

end DeployPlan

/-! ## The record of a plan -/

/-- `_rank_record`: the persisted shape of one rank. -/
def rankRecord (r : RankPlan) : RankEntry where
  rank := r.rank
  node := r.node
  host := r.host
  containerName := r.container.name
  isHead := r.isHead

def runtimeName : String := "native"

/-- The deployment record of a plan. -/
def recordFromPlan (plan : DeployPlan) (status : Status) : Record where
  id := plan.deploymentId
  name := plan.name
  nodes := plan.nodes
  status := status
  createdAt := plan.createdAt
  startedAt := none
  readyAt := none
  stoppedAt := some none
  errorMessage := none
  port := some plan.port
  rendezvousPort := plan.rendezvousPort
  rpcPort := plan.rpcPort
  launchCommand := plan.launchCommand
  runtime := runtimeName
  containerName := plan.container.name
  imagePresent := plan.imagePresent
  generation := plan.generation
  ranks := plan.rankPlans.map rankRecord
  orphans := []

@[simp] theorem recordFromPlan_id (plan : DeployPlan) (status : Status) :
    (recordFromPlan plan status).id = plan.deploymentId := rfl

@[simp] theorem recordFromPlan_status (plan : DeployPlan) (status : Status) :
    (recordFromPlan plan status).status = status := rfl

/-- `rank_entries`: a record's ranks, or the one rank of a record that predates them. -/
def rankEntries (r : Record) : List RankEntry :=
  if r.ranks ≠ [] then r.ranks
  else [{
    rank := 0
    node := ""
    containerName := if r.containerName = "" then containerNameFor r.id else r.containerName
    isHead := true }]

end SparkPulse.Runtime
