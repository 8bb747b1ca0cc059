import Mathlib.Data.List.AList
import Mathlib.Data.List.Sort
import SparkPulse.Network.Address
import SparkPulse.Recipes.Names

/-!
# The fabric plan

`tools/fabric_plan.py`: from what each node's agent reports of its ports, the addresses that the
ports of all nodes should carry. The reports come from the registry, whose key is the id of the
node, so the dictionaries of the source that are keyed by it are lists beside the reports. What is
left out of a report is what the plan does not look at.
-/

open SparkPulse.Network (networkOf)
open SparkPulse.Recipes (Text lower)

namespace SparkPulse.Fabric

/-! ## Data -/

/-- One line of `ibdev2netdev`: a RoCE device and the netdev it drives. -/
structure RoCEPort where
  hca : Text
  port : ℕ := 1
  netdev : Text
  isUp : Bool
  deriving DecidableEq

inductive Mode
  | direct
  | dual
  | mesh
  deriving DecidableEq

/-- What the ports of one machine say about how it is cabled. -/
structure FabricConfig where
  /-- None when the ports describe no shape. -/
  mode : Option Mode := none
  ports : List RoCEPort := []
  /-- The address of a netdev, as text. -/
  addresses : AList fun _ : Text ↦ Text := ∅
  errors : List String := []

/-- What one node's agent said about its ports. -/
structure NodeFabric where
  nodeId : Text
  name : String
  isControlPlane : Bool := false
  /-- None when the node has no agent facts to read. -/
  fabric : Option FabricConfig := none
  mtus : AList fun _ : Text ↦ ℤ := ∅
  wiredManagementUp : Option Bool := none

/-- The reports of the nodes of the registry. -/
structure Reports where
  nodes : List NodeFabric
  ids_nodup : (nodes.map NodeFabric.nodeId).Nodup

inductive Status
  | configured
  | proposed
  | unknown
  | refused
  deriving DecidableEq

/-- One fabric netdev and what it should carry. -/
structure Assignment where
  netdev : Text
  hca : Text
  cidr : Text
  mtu : ℤ
  currentCidr : Text
  currentMtu : ℤ
  /-- The name and the address of every other machine on the subnet. -/
  peers : List (String × Text) := []

structure NodePlan where
  nodeId : Text
  name : String
  status : Status
  isControlPlane : Bool
  assignments : List Assignment := []
  reasons : List String

structure FabricPlan where
  mode : Option Mode
  nodes : List NodePlan
  problems : List String
  advice : List String

/-- What an index that is out of range raises. -/
inductive PlanError
  | indexError
  deriving DecidableEq

/-! ## Ports -/

def FabricConfig.upPorts (fabric : FabricConfig) : List RoCEPort := fabric.ports.filter (·.isUp)

/-- `_has_capital_p` -/
def hasCapitalP (netdev : Text) : Bool := 'P' ∈ netdev

/-- `_twin_key` -/
def twinKey (netdev : Text) : Text :=
  let lowered := lower netdev
  if "enp2p".toList <+: lowered then "enp".toList ++ lowered.drop 5 else lowered

/-- A port put to those that share its key, or after them all. -/
def addPort (port : RoCEPort) : List (Text × List RoCEPort) → List (Text × List RoCEPort)
  | [] => [(twinKey port.netdev, [port])]
  | (key, twins) :: groups =>
    if key = twinKey port.netdev then (key, twins ++ [port]) :: groups
    else (key, twins) :: addPort port groups

/-- `_physical_ports`: the up ports grouped by the QSFP port they share. -/
def FabricConfig.physicalPorts (fabric : FabricConfig) : List (List RoCEPort) :=
  (fabric.upPorts.foldl (fun groups port ↦ addPort port groups) []).map Prod.snd

/-- `_addressed_twin_first` -/
def addressedTwinFirst (twins : List RoCEPort) : List RoCEPort :=
  twins.insertionSort fun a b ↦ hasCapitalP a.netdev ≤ hasCapitalP b.netdev

def FabricConfig.current (fabric : FabricConfig) (port : RoCEPort) : Text :=
  (fabric.addresses.lookup port.netdev).getD []

def NodeFabric.currentMtu (node : NodeFabric) (port : RoCEPort) : ℤ :=
  (node.mtus.lookup port.netdev).getD 0

def fabricMtu : ℤ := 9000

/-- `_already_valid` -/
def alreadyValid (node : NodeFabric) (fabric : FabricConfig) : Bool :=
  fabric.errors.isEmpty && fabric.mode.isSome && fabric.upPorts.all fun port ↦
    decide (port.netdev ∈ fabric.addresses) && decide (node.currentMtu port = fabricMtu)

/-! ## Shape -/

/-- The nodes that report ports, and what they report. -/
def Reports.withPorts (reports : Reports) : List (NodeFabric × FabricConfig) :=
  reports.nodes.filterMap fun node ↦ node.fabric.map fun fabric ↦ (node, fabric)

/-- The number of ports that are up on every node, where it is one number. -/
def portsUp (counts : List ℕ) : ℕ :=
  match counts.dedup with
  | [count] => count
  | _ => 0

def modeOf (counts : List ℕ) : Option Mode :=
  if portsUp counts = 2 then some .direct
  else if portsUp counts = 4 ∧ counts.length = 2 then some .dual
  else if portsUp counts = 4 then some .mesh
  else none

def Reports.counts (reports : Reports) : List ℕ :=
  reports.withPorts.map fun e ↦ e.2.upPorts.length

def Reports.mode (reports : Reports) : Option Mode := modeOf reports.counts

def secondCable : String :=
  "One cable already carries both RoCE twins of its port (200G). NVIDIA allows a second cable " ++
  "between two Sparks with all four interfaces addressed; spark-vllm-docker measured no " ++
  "noticeable gain. Plug it in or not — either shape is planned."

def meshCabling : String :=
  "Cable the ring as NVIDIA's three-Spark playbook does: node 1 port 0 to node 2 port 1, node 2 " ++
  "port 0 to node 3 port 1, node 3 port 0 to node 1 port 1 — port 0 is the QSFP port next to " ++
  "the RJ-45. The apply step pings every peer over every cable, so a ring cabled differently is " ++
  "a named failure, not a silent mis-address."

def meshManagement : String :=
  "A ring carries every cable in NCCL's rings, so it coordinates over the 10G RJ-45 port " ++
  "(enP7s7). NVIDIA's and upstream's launchers both pin it; Wi-Fi works with a warning and is slower."

def adviceFor : Option Mode → List String
  | some .direct => [secondCable]
  | some .dual => [secondCable]
  | some .mesh => [meshCabling, meshManagement]
  | none => []

/-- `", ".join` -/
def commaSeparated (texts : List String) : String := String.intercalate ", " texts

def unlikeProblem (withPorts : List (NodeFabric × FabricConfig)) : String :=
  "the nodes are not cabled alike, so no one shape fits them all (" ++
    commaSeparated (withPorts.map fun e ↦
      e.1.name ++ ": " ++ toString e.2.upPorts.length ++ " up") ++
    "). A pair or a switch has two CX7 interfaces up per node — one cable, both twins — and the " ++
    "mesh has four."

def ringSizeProblem (count : ℕ) : String :=
  "four CX7 interfaces up per node is the switchless three-node mesh, and there are " ++
    toString count ++ " node(s) reporting ports"

def unwiredProblem (names : List String) : String :=
  commaSeparated names ++ ": the 10G RJ-45 port (enP7s7) has no link. A ring coordinates over " ++
  "it; cable every node's RJ-45 to the same switch, or accept Wi-Fi coordination with the " ++
  "warning it carries."

def countProblem (count : ℕ) : String :=
  "unexpected number of active CX7 interfaces (" ++ toString count ++ "); expected 2 (one " ++
  "cable — a pair, or a QSFP switch) or 4 (the switchless three-node mesh). Check the cabling and that " ++
  "every intended interface is up."

def Reports.problems (reports : Reports) : List String :=
  let unwired := (reports.withPorts.filter fun e ↦ e.1.wiredManagementUp = some false).map
    fun e ↦ e.1.name
  (if 1 < reports.counts.dedup.length then [unlikeProblem reports.withPorts] else []) ++
    match reports.mode with
    | some .mesh =>
      (if reports.counts.length ≠ 3 then [ringSizeProblem reports.counts.length] else []) ++
        if unwired = [] then [] else [unwiredProblem unwired]
    | none =>
      if portsUp reports.counts = 0 then [] else [countProblem (portsUp reports.counts)]
    | _ => []

/-! ## Addresses -/

def firstHost : ℕ := 11

def pairLink : List ℕ := [177, 178]

def meshLinks : List (List ℕ) := [[177, 178], [187, 188], [197, 198]]

/-- The cables that the two ports of each node carry in a ring. -/
def meshPortLinks : List (List ℕ) := [[0, 1], [2, 0], [1, 2]]

/-- The links of the cable that a physical port carries. -/
def linksOf (mode : Option Mode) (index portIndex : ℕ) : Except PlanError (List ℕ) :=
  match mode with
  | some .direct => return pairLink
  | some .dual => return meshLinks.getD portIndex []
  | some .mesh =>
    match meshPortLinks[index]? with
    | some cables =>
      match cables[portIndex]? with
      | some cable => return meshLinks.getD cable []
      | none => throw .indexError
    | none => return []
  | none => return []

/-- The address of the node of an index on a link. -/
def linkCidr (link index : ℕ) : Text :=
  "192.168.".toList ++ Nat.toDigits 10 link ++ '.' :: Nat.toDigits 10 (firstHost + index) ++
    "/24".toList

section
variable (keep : Bool) (index : ℕ) (node : NodeFabric) (fabric : FabricConfig)

def assignment (links : List ℕ) (port : RoCEPort) (twinIndex : ℕ) : Assignment where
  netdev := port.netdev
  hca := port.hca
  cidr :=
    if keep then fabric.current port
    else
      match links[twinIndex]? with
      | some link => linkCidr link index
      | none => []
  mtu := if keep then node.currentMtu port else fabricMtu
  currentCidr := fabric.current port
  currentMtu := node.currentMtu port

/-- The assignments of the ports of one node, before their peers are known. -/
def assignmentsOf (mode : Option Mode) : Except PlanError (List Assignment) := do
  let groups ← fabric.physicalPorts.zipIdx.mapM fun (twins, portIndex) ↦ do
    let links ← linksOf mode index portIndex
    return (addressedTwinFirst twins).zipIdx.map fun (port, twinIndex) ↦
      assignment keep index node fabric links port twinIndex
  return groups.flatten

end

/-- Whether the plan leaves a node as it is. -/
def keeps (override : Bool) (e : NodeFabric × FabricConfig) : Bool :=
  alreadyValid e.1 e.2 && !override

/-- What is proposed for the node of an index. -/
def proposal (mode : Option Mode) (override : Bool) (e : (NodeFabric × FabricConfig) × ℕ) :
    Except PlanError ((NodeFabric × FabricConfig) × List Assignment) := do
  let assignments ← assignmentsOf (keeps override e.1) e.2 e.1.1 e.1.2 mode
  return (e.1, assignments)

/-! ## The plan -/

/-- Every other node with an address on the subnet. -/
def peersOf (proposals : List ((NodeFabric × FabricConfig) × List Assignment)) (nodeId : Text)
    (cidr : Text) : List (String × Text) :=
  match networkOf cidr with
  | none => []
  | some here =>
    (proposals.filter fun other ↦ other.1.1.nodeId ≠ nodeId).flatMap fun other ↦
      (other.2.filter fun theirs ↦ networkOf theirs.cidr = some here).map fun theirs ↦
        (other.1.1.name, theirs.cidr.takeWhile (· ≠ '/'))

def unknownPlan (node : NodeFabric) : NodePlan where
  nodeId := node.nodeId
  name := node.name
  status := .unknown
  isControlPlane := node.isControlPlane
  reasons :=
    ["no agent has reported this node's ports; install or reconnect its agent first"]

def keptReason : String :=
  "every cabled twin has an address on its own subnet and jumbo frames; left as it is"

def ownSchemeReason : String :=
  "no other node shares this node's subnets, so its addresses follow a scheme of their own; " ++
  "apply with override to bring every node onto one scheme"

def mtuReason : String := "addressed, but not with jumbo frames"

def addressReason : String := "no address on a cabled port"

/-- The plan of a node whose ports are known. -/
def finish (mode : Option Mode) (override : Bool)
    (proposals : List ((NodeFabric × FabricConfig) × List Assignment))
    (e : (NodeFabric × FabricConfig) × List Assignment) : NodePlan :=
  let node := e.1.1
  let fabric := e.1.2
  let finished : List Assignment := e.2.map fun a ↦
    { a with peers := peersOf proposals node.nodeId a.cidr }
  let keep := keeps override e.1
  let status : Status :=
    if keep then .configured
    else if mode = none ∨ ∃ a ∈ finished, a.cidr = [] then .refused
    else .proposed
  let reasons :=
    match status with
    | .configured =>
      keptReason :: if ∃ a ∈ finished, a.peers = [] then [ownSchemeReason] else []
    | .proposed =>
      fabric.errors ++
        if fabric.errors = [] then
          [if ∀ a ∈ finished, a.currentCidr ≠ [] then mtuReason else addressReason]
        else []
    | _ => fabric.errors
  { nodeId := node.nodeId
    name := node.name
    status := status
    isControlPlane := node.isControlPlane
    assignments := finished
    reasons := reasons }

/-- `plan_fabric` -/
def planFabric (reports : Reports) (override : Bool) : Except PlanError FabricPlan := do
  let mode := reports.mode
  let proposals ← reports.withPorts.zipIdx.mapM (proposal mode override)
  let unknown := (reports.nodes.filter fun node ↦ node.fabric.isNone).map unknownPlan
  let planned := unknown ++ proposals.map (finish mode override proposals)
  let order := fun plan : NodePlan ↦ (reports.nodes.map NodeFabric.nodeId).idxOf plan.nodeId
  return {
    mode := mode
    nodes := planned.insertionSort fun a b ↦ order a ≤ order b
    problems := reports.problems
    advice := adviceFor mode }

end SparkPulse.Fabric
