import SparkPulse.Fabric.Plan

/-!
# Fabric detection

`build_fabric_config` of `tools/discovery.py`: what the ports of one machine and their addresses say
about its fabric. The planner reads the result and the detector reads what the planner had applied,
so each port of a node has to be found by the one where the other put it.
-/

open SparkPulse.Network (Family networkOf)
open SparkPulse.Recipes (Text)

namespace SparkPulse.Fabric

/-! ## Data -/

/-- All that is detected; the plan looks at the part that it extends. -/
structure Detected extends FabricConfig where
  ethernet : Text := []
  ibHca : List Text := []
  ncclEnv : List (String × String) := []
  warnings : List String := []

def meshNcclEnv : List (String × String) :=
  [("NCCL_NET_PLUGIN", "none"), ("NCCL_IB_SUBNET_AWARE_ROUTING", "1"), ("NCCL_IB_MERGE_NICS", "0")]

/-- The links that a mesh may be coordinated over, the wired one first. -/
def meshManagementInterfaces : List Text := ["enP7s7".toList, "wlP9s9".toList]

def meshWirelessInterfaces : List Text := ["wlP9s9".toList]

/-! ## Errors -/

def unaddressedError (netdev : Text) : String :=
  String.ofList netdev ++ " is up but has no IP address assigned. It is the addressed twin of its " ++
  "port, so the fabric has no usable address; give it one in /etc/netplan/40-cx7.yaml and run " ++
  "sudo netplan apply."

def subnetError (netdev other : Text) (network : Family × ℕ × ℕ) : String :=
  String.ofList netdev ++ " and " ++ String.ofList other ++ " share the subnet " ++
  String.ofList (Network.networkText network) ++ ". The two twins of one port must sit on " ++
  "different subnets or routing picks the wrong one; NETWORKING.md line 133 says so in bold."

def noLinkError : String :=
  "no active CX7 interface has an IP address, so there is no management link to pin NCCL's " ++
  "sockets to."

def managementError : String :=
  "a mesh needs enP7s7 or wlP9s9 up with an IP address for cluster coordination: all four CX7 " ++
  "ports carry the ring, so out-of-band traffic has to go over the 10G link."

def noPortsWarning : String :=
  "no RoCE ports were reported, so this machine has no ConnectX fabric to pin. NCCL falls back " ++
  "to sockets over whatever link it picks, which works and is far slower."

def wirelessWarning (interface : Text) : String :=
  "using the wireless interface (" ++ String.ofList interface ++ ") for cluster coordination; " ++
  "performance may be limited."

section
variable (addresses : AList fun _ : Text ↦ Text)

/-- The up ports that NETWORKING.md puts the address on and that have none. -/
def unaddressedErrors (up : List RoCEPort) : List String :=
  (up.filter fun port ↦ ¬hasCapitalP port.netdev ∧ port.netdev ∉ addresses).map
    fun port ↦ unaddressedError port.netdev

/-- The network that a port is in, where its address is one. -/
def networkAt (port : RoCEPort) : Option (Family × ℕ × ℕ) :=
  (addresses.lookup port.netdev).bind networkOf

/-- The up ports that are in the network of another. -/
def subnetErrors (seen : AList fun _ : Family × ℕ × ℕ ↦ Text) : List RoCEPort → List String
  | [] => []
  | port :: rest =>
    match networkAt addresses port with
    | none => subnetErrors seen rest
    | some network =>
      match seen.lookup network with
      | some other =>
        if other ≠ port.netdev then
          subnetError port.netdev other network :: subnetErrors seen rest
        else subnetErrors (seen.insert network port.netdev) rest
      | none => subnetErrors (seen.insert network port.netdev) rest

/-! ## Detection -/

/-- The shape that the number of up ports says, with the number of nodes where it is known. -/
def detectedMode (count : ℕ) (nodeCount : Option ℕ) : Option Mode :=
  if count = 2 then some .direct
  else if count = 4 ∧ nodeCount = some 2 then some .dual
  else if count = 4 then some .mesh
  else none

/-- The management interface, if the shape has one. -/
def ethernetOf (up : List RoCEPort) : Option Mode → Option Text
  | some .mesh => meshManagementInterfaces.find? (· ∈ addresses)
  | none => none
  | _ =>
    let addressed := (up.map RoCEPort.netdev).filter (· ∈ addresses)
    (addressed.filter fun name ↦ ¬hasCapitalP name).head? <|> addressed.head?

def ethernetErrors (up : List RoCEPort) (mode : Option Mode) : List String :=
  match ethernetOf addresses up mode, mode with
  | some _, _ => []
  | none, some .mesh => [managementError]
  | none, none => []
  | none, some _ => [noLinkError]

def ethernetWarnings (up : List RoCEPort) (mode : Option Mode) : List String :=
  match ethernetOf addresses up mode, mode with
  | some name, some .mesh => if name ∈ meshWirelessInterfaces then [wirelessWarning name] else []
  | _, _ => []

end

/-- `build_fabric_config` -/
def buildFabricConfig (ports : List RoCEPort) (addresses : AList fun _ : Text ↦ Text)
    (nodeCount : Option ℕ) : Detected :=
  let up := ports.filter (·.isUp)
  if ports = [] then { ports := ports, addresses := addresses, warnings := [noPortsWarning] }
  else
    let mode := detectedMode up.length nodeCount
    { mode := mode
      ethernet := (ethernetOf addresses up mode).getD []
      ibHca := if mode.isSome then up.map RoCEPort.hca else []
      ncclEnv := if mode = some .mesh then meshNcclEnv else []
      ports := ports
      addresses := addresses
      warnings := ethernetWarnings addresses up mode
      errors := unaddressedErrors addresses up ++ subnetErrors addresses ∅ up ++
        (if mode.isSome then [] else [countProblem up.length]) ++
        ethernetErrors addresses up mode }

end SparkPulse.Fabric
