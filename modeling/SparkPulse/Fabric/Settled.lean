import SparkPulse.Data.Dict
import SparkPulse.Fabric.Detect
import SparkPulse.Fabric.Usable

/-!
# Applied plans

Once a plan is applied, each port has the address that its place gave it, and the detector looks the
address up by the port's netdev. So what comes back is what was planned when no two places that
differ in their addresses share a netdev, and it is accepted when no two of the addresses are in one
network.
-/

open SparkPulse.Network
open SparkPulse.Recipes (Text)

namespace SparkPulse.Fabric

/-! ## Seats -/

/-- The up ports of a node, each with its place. -/
def FabricConfig.seats (fabric : FabricConfig) : List (RoCEPort × ℕ × ℕ) :=
  fabric.physicalPorts.zipIdx.flatMap fun e ↦
    (addressedTwinFirst e.1).zipIdx.map fun e' ↦ (e'.1, e.2, e'.2)

/-- What the position of a node gives the port at a place. -/
def cidrAt (mode : Option Mode) (index : ℕ) (place : ℕ × ℕ) : Text :=
  match linkAt mode index place.1 place.2 with
  | some link => linkCidr link index
  | none => []

section
variable {fabric : FabricConfig} {port : RoCEPort} {groups : List (Text × List RoCEPort)}
  {s s' : RoCEPort × ℕ × ℕ}

theorem perm_seats : (fabric.seats.map Prod.fst).Perm fabric.upPorts := by
  have h : fabric.seats.map Prod.fst =
      fabric.physicalPorts.flatMap fun twins ↦ addressedTwinFirst twins := by
    conv_rhs => rw [← List.zipIdx_map_fst 0 fabric.physicalPorts, List.flatMap_map]
    rw [FabricConfig.seats, List.map_flatMap]
    refine congrArg (List.flatMap · _) (funext fun e ↦ ?_)
    rw [List.map_map]
    exact List.zipIdx_map_fst 0 _
  rw [h]
  refine (List.Perm.flatMap_left _ fun twins _ ↦ perm_addressedTwinFirst twins).trans ?_
  rw [List.flatMap_def, List.map_id']
  exact perm_physicalPorts

theorem map_snd_seats : fabric.seats.map Prod.snd = fabric.places := by
  rw [FabricConfig.seats, FabricConfig.places, List.map_flatMap]
  refine congrArg (List.flatMap · _) (funext fun e ↦ ?_)
  have hrange : List.range e.1.length = (addressedTwinFirst e.1).zipIdx.map Prod.snd := by
    rw [List.zipIdx_map_snd, addressedTwinFirst, List.length_insertionSort, List.range_eq_range']
  rw [hrange, List.map_map, List.map_map]
  rfl

theorem mem_upPorts_of_mem_seats (h : s ∈ fabric.seats) : s.1 ∈ fabric.upPorts :=
  perm_seats.mem_iff.mp (List.mem_map_of_mem h)

theorem exists_mem_seats (h : port ∈ fabric.upPorts) : ∃ s ∈ fabric.seats, s.1 = port :=
  List.mem_map.mp (perm_seats.mem_iff.mpr h)

theorem mem_places_of_mem_seats (h : s ∈ fabric.seats) : s.2 ∈ fabric.places :=
  map_snd_seats ▸ List.mem_map_of_mem h

theorem exists_mem_seats_of_mem_places {place : ℕ × ℕ} (h : place ∈ fabric.places) :
    ∃ s ∈ fabric.seats, s.2 = place :=
  List.mem_map.mp (map_snd_seats ▸ h)

/-- No two seats are at one place. -/
theorem eq_of_place (h : s ∈ fabric.seats) (h' : s' ∈ fabric.seats) (hplace : s.2 = s'.2) :
    s = s' := by
  have hnodup : (fabric.seats.map Prod.snd).Nodup := map_snd_seats ▸ nodup_places
  exact List.inj_on_of_nodup_map hnodup h h' hplace

theorem map_fst_addPort :
    (addPort port groups).map Prod.fst =
      if twinKey port.netdev ∈ groups.map Prod.fst then groups.map Prod.fst
      else groups.map Prod.fst ++ [twinKey port.netdev] := by
  induction groups with
  | nil => rfl
  | cons e groups ih =>
    obtain ⟨key, twins⟩ := e
    rw [addPort]
    by_cases hkey : key = twinKey port.netdev
    · rw [if_pos hkey, if_pos (by simp [hkey])]
      rfl
    · rw [if_neg hkey, List.map_cons, ih]
      have hmem : twinKey port.netdev ∈ ((key, twins) :: groups).map Prod.fst ↔
          twinKey port.netdev ∈ groups.map Prod.fst := by simp [Ne.symm hkey]
      simp only [hmem]
      split_ifs <;> simp

/-- The groups have keys of their own, and hold ports of their key. -/
def Keyed (groups : List (Text × List RoCEPort)) : Prop :=
  (∀ e ∈ groups, ∀ p ∈ e.2, twinKey p.netdev = e.1) ∧ (groups.map Prod.fst).Nodup

theorem Keyed.addPort (h : Keyed groups) : Keyed (addPort port groups) := by
  obtain ⟨hkey, hnodup⟩ := h
  constructor
  · clear hnodup
    induction groups with
    | nil => simp [SparkPulse.Fabric.addPort]
    | cons e groups ih =>
      obtain ⟨key, twins⟩ := e
      obtain ⟨htwins, hgroups⟩ := List.forall_mem_cons.mp hkey
      rw [SparkPulse.Fabric.addPort]
      split_ifs with heq
      · refine List.forall_mem_cons.mpr ⟨fun p hp ↦ ?_, hgroups⟩
        rcases List.mem_append.mp hp with hp | hp
        · exact htwins p hp
        · rw [List.mem_singleton.mp hp, heq]
      · exact List.forall_mem_cons.mpr ⟨htwins, ih hgroups⟩
  · rw [map_fst_addPort]
    split_ifs with hmem
    · exact hnodup
    · rw [← List.concat_eq_append]
      exact hnodup.concat hmem

theorem keyed_foldl {ports : List RoCEPort} (h : Keyed groups) :
    Keyed (ports.foldl (fun groups port ↦ addPort port groups) groups) := by
  induction ports generalizing groups with
  | nil => exact h
  | cons port ports ih => exact ih h.addPort

theorem exists_twins_of_mem_seats (h : s ∈ fabric.seats) :
    ∃ twins, fabric.physicalPorts[s.2.1]? = some twins ∧ s.1 ∈ twins := by
  obtain ⟨e, he, hs⟩ := List.mem_flatMap.mp h
  obtain ⟨e', he', rfl⟩ := List.mem_map.mp hs
  exact ⟨e.1, List.mem_zipIdx_iff_getElem?.mp he,
    (perm_addressedTwinFirst e.1).mem_iff.mp (List.fst_mem_of_mem_zipIdx he')⟩

/-- Ports of one netdev share their physical port. -/
theorem port_eq_of_netdev (h : s ∈ fabric.seats) (h' : s' ∈ fabric.seats)
    (hnetdev : s.1.netdev = s'.1.netdev) : s.2.1 = s'.2.1 := by
  obtain ⟨twins, htwins, hmem⟩ := exists_twins_of_mem_seats h
  obtain ⟨twins', htwins', hmem'⟩ := exists_twins_of_mem_seats h'
  obtain ⟨hkey, hnodup⟩ : Keyed (fabric.upPorts.foldl (fun groups port ↦ addPort port groups) []) :=
    keyed_foldl ⟨by simp, List.nodup_nil⟩
  rw [FabricConfig.physicalPorts, List.getElem?_map, Option.map_eq_some_iff] at htwins htwins'
  obtain ⟨e, he, rfl⟩ := htwins
  obtain ⟨e', he', rfl⟩ := htwins'
  have hkeys : e.1 = e'.1 := by
    rw [← hkey e (List.mem_of_getElem? he) _ hmem, hnetdev,
      hkey e' (List.mem_of_getElem? he') _ hmem']
  refine (List.getElem?_inj ?_ hnodup).mp ?_
  · rw [List.length_map]
    exact (List.getElem?_eq_some_iff.mp he).1
  · rw [List.getElem?_map, List.getElem?_map, he, he', Option.map_some, Option.map_some, hkeys]

end

/-! ## Subnets -/

section
variable {addresses : AList fun _ : Text ↦ Text} {up : List RoCEPort}
  {seen : AList fun _ : Family × ℕ × ℕ ↦ Text}

/-- Putting a network under the netdev that is in it already changes no finding. -/
theorem seen_insert_iff {port : RoCEPort} {network : Family × ℕ × ℕ}
    (hseen : ∀ other, seen.lookup network = some other → other = port.netdev) :
    (∀ p ∈ up, ∀ n, networkAt addresses p = some n →
        ∀ other, (seen.insert network port.netdev).lookup n = some other → other = p.netdev) ↔
      (∀ p ∈ up, ∀ n, networkAt addresses p = some n →
        ∀ other, seen.lookup n = some other → other = p.netdev) ∧
      ∀ p ∈ up, networkAt addresses p = some network → port.netdev = p.netdev := by
  constructor
  · intro h
    have hself : ∀ p ∈ up, networkAt addresses p = some network → port.netdev = p.netdev :=
      fun p hp hn ↦ h p hp network hn _ (AList.lookup_insert seen)
    refine ⟨fun p hp n hn other hother ↦ ?_, hself⟩
    by_cases heq : n = network
    · subst heq
      rw [hseen other hother, hself p hp hn]
    · exact h p hp n hn other (by rwa [AList.lookup_insert_ne heq])
  · rintro ⟨h, hself⟩ p hp n hn other hother
    by_cases heq : n = network
    · subst heq
      rw [AList.lookup_insert] at hother
      rw [← Option.some.inj hother, hself p hp hn]
    · rw [AList.lookup_insert_ne heq] at hother
      exact h p hp n hn other hother

/-- Nothing is in a network twice when no two ports of different netdevs are, and none is in one
that was seen under another. -/
theorem subnetErrors_eq_nil_iff :
    subnetErrors addresses seen up = [] ↔
      (∀ port ∈ up, ∀ network, networkAt addresses port = some network →
        ∀ other, seen.lookup network = some other → other = port.netdev) ∧
      up.Pairwise fun p q ↦ ∀ network, networkAt addresses p = some network →
        networkAt addresses q = some network → p.netdev = q.netdev := by
  induction up generalizing seen with
  | nil => simp [subnetErrors]
  | cons port up ih =>
    rw [subnetErrors, List.pairwise_cons, List.forall_mem_cons]
    cases hnetwork : networkAt addresses port with
    | none =>
      simp only [ih]
      simp
    | some network =>
      have hnext (hseen : ∀ other, seen.lookup network = some other → other = port.netdev) :
          subnetErrors addresses (seen.insert network port.netdev) up = [] ↔
            ((∀ n, some network = some n → ∀ other, seen.lookup n = some other →
              other = port.netdev) ∧
              ∀ p ∈ up, ∀ n, networkAt addresses p = some n →
                ∀ other, seen.lookup n = some other → other = p.netdev) ∧
            (∀ q ∈ up, ∀ n, some network = some n → networkAt addresses q = some n →
              port.netdev = q.netdev) ∧
            up.Pairwise fun p q ↦ ∀ network, networkAt addresses p = some network →
              networkAt addresses q = some network → p.netdev = q.netdev := by
        rw [ih, seen_insert_iff hseen]
        simp only [Option.some.injEq, forall_eq']
        tauto
      simp only
      cases hlookup : seen.lookup network with
      | none => exact hnext (by simp [hlookup])
      | some other =>
        simp only
        split_ifs with hother
        · exact iff_of_false (by simp) fun h ↦ hother (h.1.1 network rfl other hlookup)
        · exact hnext (by simpa [hlookup] using hother)

end

/-! ## Applying -/

/-- The nodes that the plan has something new for. -/
def FabricPlan.proposed (plan : FabricPlan) : List NodePlan :=
  plan.nodes.filter fun n ↦ n.status = .proposed

/-- The addresses of a machine once its ports carry what they are assigned. -/
def assignAddresses (addresses : AList fun _ : Text ↦ Text) (as : List Assignment) :
    AList fun _ : Text ↦ Text :=
  as.foldl (fun m a ↦ m.insert a.netdev a.cidr) addresses

def assignMtus (mtus : AList fun _ : Text ↦ ℤ) (as : List Assignment) : AList fun _ : Text ↦ ℤ :=
  as.foldl (fun m a ↦ m.insert a.netdev a.mtu) mtus

/-- What the detector reports of the fabric once its ports carry what they are assigned. -/
def FabricConfig.applied (fabric : FabricConfig) (nodeCount : ℕ) (as : List Assignment) :
    FabricConfig :=
  (buildFabricConfig fabric.ports (assignAddresses fabric.addresses as)
    (some nodeCount)).toFabricConfig

/-- What a node reports once its ports carry what they are assigned. -/
def NodeFabric.applied (node : NodeFabric) (nodeCount : ℕ) (as : List Assignment) : NodeFabric :=
  { node with
    fabric := node.fabric.map fun fabric ↦ fabric.applied nodeCount as
    mtus := assignMtus node.mtus as }

/-- What a node reports once the plan is applied to it. -/
def NodeFabric.after (node : NodeFabric) (nodeCount : ℕ) (plan : FabricPlan) : NodeFabric :=
  match plan.proposed.find? (·.nodeId = node.nodeId) with
  | some n => node.applied nodeCount n.assignments
  | none => node

/-- What the nodes report once the plan is applied. -/
def Reports.after (reports : Reports) (plan : FabricPlan) : Reports where
  nodes := reports.nodes.map fun node ↦ node.after reports.nodes.length plan
  ids_nodup := by
    have hid : ∀ node : NodeFabric,
        (node.after reports.nodes.length plan).nodeId = node.nodeId := by
      intro node
      rw [NodeFabric.after]
      split <;> rfl
    rw [List.map_map]
    simpa [Function.comp_def, hid] using reports.ids_nodup

section
variable {reports : Reports} {override : Bool} {plan : FabricPlan}
  {e e' : (NodeFabric × FabricConfig) × ℕ} {as : List Assignment} {key : Text}

/-- What the plan has for a node that gets its addresses by position. -/
def Reports.proposalOf (reports : Reports) (override : Bool)
    (e : (NodeFabric × FabricConfig) × ℕ) : NodePlan :=
  finish reports.mode override
    (reports.withPorts.zipIdx.map fun e ↦ (e.1, assigned reports.mode override e))
    (e.1, assigned reports.mode override e)

theorem fabric_eq_of_mem_withPorts {e : NodeFabric × FabricConfig} (h : e ∈ reports.withPorts) :
    e.1 ∈ reports.nodes ∧ e.1.fabric = some e.2 := by
  obtain ⟨node, hnode, he⟩ := List.mem_filterMap.mp h
  obtain ⟨fabric, hfabric, rfl⟩ := Option.map_eq_some_iff.mp he
  exact ⟨hnode, hfabric⟩

/-- The ids of the nodes that report ports are distinct. -/
theorem nodup_withPorts : (reports.withPorts.map fun e ↦ e.1.nodeId).Nodup := by
  refine reports.ids_nodup.sublist ?_
  rw [Reports.withPorts]
  induction reports.nodes with
  | nil => exact List.Sublist.slnil
  | cons node nodes ih =>
    cases hfabric : node.fabric with
    | none =>
      rw [List.filterMap_cons_none (by rw [hfabric]; rfl)]
      exact ih.cons _
    | some fabric =>
      rw [List.filterMap_cons_some (by rw [hfabric]; rfl)]
      exact ih.cons_cons _

theorem eq_of_nodeId (he : e ∈ reports.withPorts.zipIdx) (he' : e' ∈ reports.withPorts.zipIdx)
    (hid : e.1.1.nodeId = e'.1.1.nodeId) : e = e' := by
  have h := List.mem_zipIdx_iff_getElem?.mp he
  have h' := List.mem_zipIdx_iff_getElem?.mp he'
  have hindex : e.2 = e'.2 := by
    refine (List.getElem?_inj ?_ (@nodup_withPorts reports)).mp ?_
    · rw [List.length_map]
      exact (List.getElem?_eq_some_iff.mp h).1
    · rw [List.getElem?_map, List.getElem?_map, h, h', Option.map_some, Option.map_some, hid]
  refine Prod.ext ?_ hindex
  rw [hindex] at h
  exact Option.some.inj (h.symm.trans h')

theorem mem_proposed_iff (hplan : planFabric reports override = .ok plan) {n : NodePlan} :
    n ∈ plan.proposed ↔ ∃ e ∈ reports.positioned override, n = reports.proposalOf override e := by
  have hring := ring_of_planFabric hplan
  obtain ⟨plan', hplan', hnodes⟩ := planFabric_ok override hring
  obtain rfl := Except.ok.inj (hplan.symm.trans hplan')
  have hstatus : ∀ e ∈ reports.withPorts.zipIdx,
      (reports.proposalOf override e).status = .proposed ↔
        ¬keeps override e.1 ∧ Proposable reports.mode e.2 e.1.2 := by
    intro e he
    rw [Reports.proposalOf, status_assigned fun hmode ↦ hring hmode e he]
    split_ifs <;> simp_all
  rw [FabricPlan.proposed, List.mem_filter, hnodes.mem_iff, List.mem_append, decide_eq_true_eq]
  constructor
  · rintro ⟨hn | hn, hproposed⟩
    · obtain ⟨node, -, rfl⟩ := List.mem_map.mp hn
      cases hproposed
    · obtain ⟨e, he, rfl⟩ := List.mem_map.mp hn
      exact ⟨e, mem_positioned_iff.mpr ⟨he, (hstatus e he).mp hproposed⟩, rfl⟩
  · rintro ⟨e, he, rfl⟩
    obtain ⟨hmem, hpositioned⟩ := mem_positioned_iff.mp he
    exact ⟨.inr (List.mem_map.mpr ⟨e, hmem, rfl⟩), (hstatus e hmem).mpr hpositioned⟩

/-- What the port of a seat is assigned by position. -/
def seatAssignment (mode : Option Mode) (e : (NodeFabric × FabricConfig) × ℕ)
    (s : RoCEPort × ℕ × ℕ) : Assignment where
  netdev := s.1.netdev
  hca := s.1.hca
  cidr := cidrAt mode e.2 s.2
  mtu := fabricMtu
  currentCidr := e.1.2.current s.1
  currentMtu := e.1.1.currentMtu s.1

/-- The assignments of a node, seat by seat. -/
theorem assigned_eq_map (h : reports.mode = some .mesh → e.2 < 3 →
      e.1.2.physicalPorts.length ≤ 2) :
    assigned reports.mode override e = e.1.2.seats.map fun s ↦
      assignment (keeps override e.1) e.2 e.1.1 e.1.2
        ((linksOf reports.mode e.2 s.2.1).toOption.getD []) s.1 s.2.2 := by
  have hok := @assignmentsOf_eq_assigned reports.mode override e h
  rw [(assignmentsOf_eq_ok_iff.mp hok).2, FabricConfig.seats, List.map_flatMap]
  refine congrArg (List.flatMap · _) (funext fun group ↦ ?_)
  rw [List.map_map]
  rfl

theorem assigned_eq (hring : reports.Ring) (he : e ∈ reports.positioned override) :
    assigned reports.mode override e = e.1.2.seats.map (seatAssignment reports.mode e) := by
  obtain ⟨hmem, hkeep, -⟩ := mem_positioned_iff.mp he
  rw [Bool.not_eq_true] at hkeep
  rw [assigned_eq_map fun hmode ↦ hring hmode e hmem]
  refine List.map_congr_left fun s _ ↦ ?_
  simp only [assignment, linkAt_eq, seatAssignment, cidrAt, hkeep]
  rfl

/-- What the proposal for a node assigns, peers aside. -/
theorem map_assignments_proposalOf (hring : reports.Ring) (he : e ∈ reports.positioned override)
    {β : Type} {f : Assignment → β} (hf : ∀ a peers, f { a with peers := peers } = f a) :
    (reports.proposalOf override e).assignments.map f =
      e.1.2.seats.map fun s ↦ f (seatAssignment reports.mode e s) := by
  rw [Reports.proposalOf, finish, List.map_map, assigned_eq hring he, List.map_map]
  exact List.map_congr_left fun s _ ↦ hf _ _

theorem foldl_proposalOf (hring : reports.Ring) (he : e ∈ reports.positioned override)
    {β : Type} {f : Assignment → β} (hf : ∀ a peers, f { a with peers := peers } = f a)
    (m : AList fun _ : Text ↦ β) :
    (reports.proposalOf override e).assignments.foldl (fun m a ↦ m.insert a.netdev (f a)) m =
      e.1.2.seats.foldl
        (fun m s ↦ m.insert s.1.netdev (f (seatAssignment reports.mode e s))) m := by
  have h := map_assignments_proposalOf hring he (f := fun a ↦ (a.netdev, f a))
    fun a peers ↦ by rw [hf]
  have hfold : ∀ as : List Assignment, as.foldl (fun m a ↦ m.insert a.netdev (f a)) m =
      (as.map fun a ↦ (a.netdev, f a)).foldl (fun m p ↦ m.insert p.1 p.2) m := by
    intro as
    rw [List.foldl_map]
  rw [hfold, h, List.foldl_map]
  rfl

/-! ## What is reported afterwards -/

theorem after_of_positioned (hplan : planFabric reports override = .ok plan)
    (he : e ∈ reports.positioned override) :
    e.1.1.after reports.nodes.length plan =
      e.1.1.applied reports.nodes.length (reports.proposalOf override e).assignments := by
  have hid : (reports.proposalOf override e).nodeId = e.1.1.nodeId := rfl
  rw [NodeFabric.after]
  cases hfind : plan.proposed.find? (·.nodeId = e.1.1.nodeId) with
  | none =>
    have hmem := (mem_proposed_iff hplan).mpr ⟨e, he, rfl⟩
    exact absurd (decide_eq_true hid) (List.find?_eq_none.mp hfind _ hmem)
  | some n =>
    obtain ⟨e', he', rfl⟩ := (mem_proposed_iff hplan).mp (List.mem_of_find?_eq_some hfind)
    have hid' : (reports.proposalOf override e').nodeId = e.1.1.nodeId := by
      simpa using List.find?_some hfind
    rw [eq_of_nodeId (mem_positioned_iff.mp he').1 (mem_positioned_iff.mp he).1 hid']

/-- The fabric of a node after the plan is applied: the ports are what they were. -/
theorem fabric_after {node : NodeFabric} {fabric : FabricConfig} (n : ℕ) (plan : FabricPlan)
    (h : node.fabric = some fabric) :
    ∃ fabric', (node.after n plan).fabric = some fabric' ∧ fabric'.ports = fabric.ports := by
  rw [NodeFabric.after]
  split
  · rename_i p _
    refine ⟨fabric.applied n p.assignments, ?_, ?_⟩
    · rw [NodeFabric.applied]
      simp only [h, Option.map_some]
    · rw [FabricConfig.applied, buildFabricConfig]
      split_ifs <;> rfl
  · exact ⟨fabric, h, rfl⟩

/-- The entry of a node after the plan is applied. -/
def entryAfter (n : ℕ) (plan : FabricPlan) (e : NodeFabric × FabricConfig) :
    NodeFabric × FabricConfig :=
  (e.1.after n plan, ((e.1.after n plan).fabric).getD e.2)

theorem withPorts_after :
    (reports.after plan).withPorts =
      reports.withPorts.map (entryAfter reports.nodes.length plan) := by
  rw [Reports.withPorts, Reports.after, List.filterMap_map, Reports.withPorts, List.map_filterMap]
  refine List.filterMap_congr fun node _ ↦ ?_
  rw [Function.comp_apply]
  cases hfabric : node.fabric with
  | none =>
    have hnone : (node.after reports.nodes.length plan).fabric = none := by
      rw [NodeFabric.after]
      split
      · simp only [NodeFabric.applied, hfabric, Option.map_none]
      · exact hfabric
    rw [hnone]
    rfl
  | some fabric =>
    obtain ⟨fabric', hfabric', -⟩ := fabric_after reports.nodes.length plan hfabric
    rw [hfabric', Option.map_some, Option.map_some, Option.map_some, entryAfter, hfabric']
    rfl

theorem ports_entryAfter {e : NodeFabric × FabricConfig} (he : e ∈ reports.withPorts) :
    (entryAfter reports.nodes.length plan e).2.ports = e.2.ports := by
  obtain ⟨fabric', hfabric', hports⟩ :=
    fabric_after reports.nodes.length plan (fabric_eq_of_mem_withPorts he).2
  rw [entryAfter, hfabric']
  exact hports

theorem upPorts_entryAfter {e : NodeFabric × FabricConfig} (he : e ∈ reports.withPorts) :
    (entryAfter reports.nodes.length plan e).2.upPorts = e.2.upPorts := by
  rw [FabricConfig.upPorts, FabricConfig.upPorts, ports_entryAfter he]

theorem physicalPorts_entryAfter {e : NodeFabric × FabricConfig} (he : e ∈ reports.withPorts) :
    (entryAfter reports.nodes.length plan e).2.physicalPorts = e.2.physicalPorts := by
  rw [FabricConfig.physicalPorts, FabricConfig.physicalPorts, upPorts_entryAfter he]

theorem mode_after : (reports.after plan).mode = reports.mode := by
  have hcounts : (reports.after plan).counts = reports.counts := by
    rw [Reports.counts, Reports.counts, withPorts_after, List.map_map]
    refine List.map_congr_left fun e he ↦ ?_
    rw [Function.comp_apply, upPorts_entryAfter he]
  rw [Reports.mode, Reports.mode, hcounts]

theorem zipIdx_withPorts_after :
    (reports.after plan).withPorts.zipIdx = reports.withPorts.zipIdx.map
      fun e ↦ (entryAfter reports.nodes.length plan e.1, e.2) := by
  rw [withPorts_after, List.zipIdx_map]
  rfl

theorem ring_after (h : reports.Ring) : (reports.after plan).Ring := by
  intro hmode e he hindex
  rw [mode_after] at hmode
  rw [zipIdx_withPorts_after] at he
  obtain ⟨e₀, he₀, rfl⟩ := List.mem_map.mp he
  rw [physicalPorts_entryAfter (List.fst_mem_of_mem_zipIdx he₀)]
  exact h hmode e₀ he₀ hindex

/-! ### Nodes that were proposed for -/

/-- What the detector makes of the ports of a node that was proposed for. -/
theorem entryAfter_of_positioned (hplan : planFabric reports override = .ok plan)
    (he : e ∈ reports.positioned override) :
    (entryAfter reports.nodes.length plan e.1).2 =
      e.1.2.applied reports.nodes.length (reports.proposalOf override e).assignments := by
  have hfabric := (fabric_eq_of_mem_withPorts
    (List.fst_mem_of_mem_zipIdx (mem_positioned_iff.mp he).1)).2
  rw [entryAfter, after_of_positioned hplan he, NodeFabric.applied, hfabric]
  rfl

/-- A port finds the address of a seat of its netdev. -/
theorem lookup_applied (hring : reports.Ring) (he : e ∈ reports.positioned override)
    {s : RoCEPort × ℕ × ℕ} (hs : s ∈ e.1.2.seats) :
    ∃ s' ∈ e.1.2.seats, s'.1.netdev = s.1.netdev ∧
      (assignAddresses e.1.2.addresses (reports.proposalOf override e).assignments).lookup
        s.1.netdev = some (cidrAt reports.mode e.2 s'.2) := by
  rw [assignAddresses, foldl_proposalOf hring he fun _ _ ↦ rfl]
  rcases Dict.lookup_foldl_insert (fun s : RoCEPort × ℕ × ℕ ↦ s.1.netdev)
    (fun s ↦ (seatAssignment reports.mode e s).cidr) e.1.2.seats e.1.2.addresses
      s.1.netdev with ⟨s', hs', hnetdev, hlookup⟩ | ⟨hnone, -⟩
  · exact ⟨s', hs', hnetdev, hlookup⟩
  · exact (hnone s hs rfl).elim

theorem lookup_mtus (hring : reports.Ring) (he : e ∈ reports.positioned override)
    {s : RoCEPort × ℕ × ℕ} (hs : s ∈ e.1.2.seats) :
    (assignMtus e.1.1.mtus (reports.proposalOf override e).assignments).lookup s.1.netdev =
      some fabricMtu := by
  rw [assignMtus, foldl_proposalOf hring he fun _ _ ↦ rfl]
  rcases Dict.lookup_foldl_insert (fun s : RoCEPort × ℕ × ℕ ↦ s.1.netdev)
    (fun s ↦ (seatAssignment reports.mode e s).mtu) e.1.2.seats e.1.1.mtus
      s.1.netdev with ⟨s', -, -, hlookup⟩ | ⟨hnone, -⟩
  · exact hlookup
  · exact (hnone s hs rfl).elim

end

/-! ## What is accepted -/

section
variable (reports : Reports) (override : Bool) (plan : FabricPlan)

/-- The detector accepts what was applied, and the next plan keeps it. -/
structure Settles : Prop where
  accepted : ∀ n ∈ plan.proposed, ∀ e ∈ (reports.after plan).withPorts, e.1.nodeId = n.nodeId →
    e.2.errors = [] ∧ e.2.mode = plan.mode
  configured : ∃ plan', planFabric (reports.after plan) false = .ok plan' ∧
    ∀ n ∈ plan.proposed, ∃ n' ∈ plan'.nodes, n'.nodeId = n.nodeId ∧ n'.status = .configured ∧
      n'.assignments.map (fun a ↦ (a.netdev, a.cidr)) =
        n.assignments.map fun a ↦ (a.netdev, a.cidr)

/-- In a mesh the management interface has an address. -/
def Reports.Managed : Prop :=
  reports.mode = some .mesh → ∀ e ∈ reports.withPorts,
    ∃ name ∈ meshManagementInterfaces, name ∈ e.2.addresses

/-- What the reports have to be for the plan to settle. -/
structure Settleable : Prop where
  /-- In a pair a node carries one cable, or has no number that an address can have. -/
  pair : reports.mode = some .direct → ∀ e ∈ reports.positioned override, e.2 < 245 →
    e.1.2.physicalPorts.length ≤ 1
  /-- Two nodes with two cables are all the nodes there are. -/
  count : reports.mode = some .dual → reports.positioned override ≠ [] → reports.nodes.length = 2
  /-- No netdev is reported up twice. -/
  netdevs : ∀ e ∈ reports.positioned override, (e.1.2.upPorts.map RoCEPort.netdev).Nodup

end

section
variable {reports : Reports} {override : Bool} {plan : FabricPlan}
  {e : (NodeFabric × FabricConfig) × ℕ}

/-- Each port of a node has the address of its seat. -/
def Seated (reports : Reports) (plan : FabricPlan) (e : (NodeFabric × FabricConfig) × ℕ) : Prop :=
  ∀ s ∈ e.1.2.seats, (entryAfter reports.nodes.length plan e.1).2.current s.1 =
    cidrAt reports.mode e.2 s.2

theorem eq_of_linkCidr {link link' index : ℕ}
    (h : linkCidr link index = linkCidr link' index) : link = link' := by
  have hcancel : ∀ a l l' b c : Text, a ++ l ++ b ++ c = a ++ l' ++ b ++ c → l = l' := by
    intro a l l' b c h
    exact List.append_cancel_left (List.append_cancel_right (List.append_cancel_right h))
  rw [← @Nat.ofDigitChars_ten_toDigits link, hcancel _ _ _ _ _ h, Nat.ofDigitChars_ten_toDigits]

/-- Seats that share the netdev and the address are one. -/
theorem seat_eq (he : e ∈ reports.positioned override) {s s' : RoCEPort × ℕ × ℕ}
    (hs : s ∈ e.1.2.seats) (hs' : s' ∈ e.1.2.seats) (hnetdev : s.1.netdev = s'.1.netdev)
    (hcidr : cidrAt reports.mode e.2 s.2 = cidrAt reports.mode e.2 s'.2) : s = s' := by
  have hproposable := (mem_positioned_iff.mp he).2.2
  obtain ⟨link, hlink⟩ :=
    Option.ne_none_iff_exists'.mp (hproposable.2 s.2 (mem_places_of_mem_seats hs))
  obtain ⟨link', hlink'⟩ :=
    Option.ne_none_iff_exists'.mp (hproposable.2 s'.2 (mem_places_of_mem_seats hs'))
  have hport := port_eq_of_netdev hs hs' hnetdev
  rw [cidrAt, cidrAt, hlink, hlink'] at hcidr
  have heq := eq_of_linkCidr hcidr
  rw [heq] at hlink
  rw [← hport] at hlink'
  obtain ⟨cable, hcable, hlink⟩ := Option.bind_eq_some_iff.mp hlink
  obtain ⟨cable', hcable', hlink'⟩ := Option.bind_eq_some_iff.mp hlink'
  obtain rfl := Option.some.inj (hcable.symm.trans hcable')
  have := cable_of_link hlink
  have := cable_of_link hlink'
  exact eq_of_place hs hs' (Prod.ext hport (by omega))

/-- In each shape a node has ports that are up. -/
theorem upPorts_ne_nil (he : e ∈ reports.positioned override) : e.1.2.upPorts ≠ [] := by
  obtain ⟨hmem, -, hproposable⟩ := mem_positioned_iff.mp he
  have hlength := length_upPorts hproposable.1 (List.fst_mem_of_mem_zipIdx hmem)
  rw [← List.length_pos_iff, hlength]
  split_ifs <;> decide

/-- What the detector makes of the ports of a node, one field after the other. -/
theorem applied_eq {fabric : FabricConfig} (h : fabric.upPorts ≠ []) (n : ℕ)
    (as : List Assignment) :
    (fabric.applied n as).addresses = assignAddresses fabric.addresses as ∧
      (fabric.applied n as).mode = detectedMode fabric.upPorts.length (some n) ∧
      (fabric.applied n as).errors =
        unaddressedErrors (assignAddresses fabric.addresses as) fabric.upPorts ++
          subnetErrors (assignAddresses fabric.addresses as) ∅ fabric.upPorts ++
          (if (detectedMode fabric.upPorts.length (some n)).isSome then []
            else [countProblem fabric.upPorts.length]) ++
          ethernetErrors (assignAddresses fabric.addresses as) fabric.upPorts
            (detectedMode fabric.upPorts.length (some n)) := by
  have hports : fabric.ports ≠ [] := by
    intro hnil
    exact h (by rw [FabricConfig.upPorts, hnil]; rfl)
  rw [FabricConfig.applied, buildFabricConfig, if_neg hports]
  exact ⟨rfl, rfl, rfl⟩

theorem current_entryAfter (hplan : planFabric reports override = .ok plan)
    (he : e ∈ reports.positioned override) {s : RoCEPort × ℕ × ℕ} (hs : s ∈ e.1.2.seats) :
    ∃ s' ∈ e.1.2.seats, s'.1.netdev = s.1.netdev ∧
      (entryAfter reports.nodes.length plan e.1).2.addresses.lookup s.1.netdev =
        some (cidrAt reports.mode e.2 s'.2) := by
  rw [entryAfter_of_positioned hplan he, (applied_eq (upPorts_ne_nil he) _ _).1]
  exact lookup_applied (ring_of_planFabric hplan) he hs

/-- The ports have the addresses of their seats exactly when no netdev is reported up twice. -/
theorem seated_iff (hplan : planFabric reports override = .ok plan)
    (he : e ∈ reports.positioned override) :
    Seated reports plan e ↔ (e.1.2.upPorts.map RoCEPort.netdev).Nodup := by
  have hperm := (@perm_seats e.1.2).map RoCEPort.netdev
  rw [← hperm.nodup_iff, List.map_map]
  have hnodup : e.1.2.seats.Nodup := by
    refine List.Nodup.of_map Prod.snd ?_
    rw [map_snd_seats]
    exact nodup_places
  constructor
  · intro h
    refine hnodup.map_on fun s hs s' hs' hnetdev ↦ ?_
    have hnetdev : s.1.netdev = s'.1.netdev := hnetdev
    refine seat_eq he hs hs' hnetdev ?_
    rw [← h s hs, ← h s' hs', FabricConfig.current, FabricConfig.current, hnetdev]
  · intro h s hs
    obtain ⟨s', hs', hnetdev, hlookup⟩ := current_entryAfter hplan he hs
    rw [FabricConfig.current, hlookup, Option.getD_some]
    rw [List.inj_on_of_nodup_map h hs' hs hnetdev]

/-- The detector sees the planner's shape, unless it counts nodes that report no ports. -/
theorem detectedMode_eq_iff (hproblems : reports.problems = [])
    (he : e ∈ reports.positioned override) :
    detectedMode e.1.2.upPorts.length (some reports.nodes.length) = reports.mode ↔
      (reports.mode = some .dual → reports.nodes.length = 2) := by
  obtain ⟨hmem, -, hproposable⟩ := mem_positioned_iff.mp he
  have hlength := length_upPorts hproposable.1 (List.fst_mem_of_mem_zipIdx hmem)
  cases hmode : reports.mode with
  | none => exact (hproposable.1 hmode).elim
  | some mode =>
    rw [hmode] at hlength
    cases mode with
    | direct =>
      rw [hlength, if_pos rfl]
      exact iff_of_true rfl (by simp)
    | dual =>
      rw [hlength, if_neg (by simp), detectedMode]
      by_cases hcount : reports.nodes.length = 2 <;> simp [hcount]
    | mesh =>
      have hcount : reports.nodes.length ≠ 2 := by
        rw [Reports.problems, hmode] at hproblems
        have hthree : reports.counts.length = 3 := by
          by_contra hne
          simp [hne] at hproblems
        have hle : reports.counts.length ≤ reports.nodes.length := by
          rw [Reports.counts, List.length_map]
          exact List.length_filterMap_le _ _
        omega
      rw [hlength, if_neg (by simp), detectedMode]
      simp [hcount]

/-- Every port of a node that was proposed for is addressed. -/
theorem mem_addresses_entryAfter (hplan : planFabric reports override = .ok plan)
    (he : e ∈ reports.positioned override) {port : RoCEPort} (hport : port ∈ e.1.2.upPorts) :
    port.netdev ∈ assignAddresses e.1.2.addresses (reports.proposalOf override e).assignments := by
  obtain ⟨s, hs, rfl⟩ := exists_mem_seats hport
  obtain ⟨_, -, -, hlookup⟩ := lookup_applied (ring_of_planFabric hplan) he hs
  rw [← AList.lookup_isSome, hlookup]
  rfl

/-- What had an address has one still. -/
theorem mem_assignAddresses {addresses : AList fun _ : Text ↦ Text} {as : List Assignment}
    {name : Text} (h : name ∈ addresses) : name ∈ assignAddresses addresses as := by
  rw [assignAddresses]
  induction as generalizing addresses with
  | nil => exact h
  | cons a as ih => exact ih ((AList.mem_insert _).mpr (.inr h))

/-- There is a link to coordinate over where one of those that the shape may use has an address. -/
theorem ethernetErrors_eq_nil {addresses : AList fun _ : Text ↦ Text} {up : List RoCEPort}
    {mode : Option Mode}
    (hmesh : mode = some .mesh → ∃ name ∈ meshManagementInterfaces, name ∈ addresses)
    (hports : mode ≠ some .mesh → ∃ port ∈ up, port.netdev ∈ addresses) :
    ethernetErrors addresses up mode = [] := by
  have hsome : mode ≠ none → (ethernetOf addresses up mode).isSome := by
    intro hmode
    by_cases h : mode = some .mesh
    · subst h
      obtain ⟨name, hname, haddressed⟩ := hmesh rfl
      exact List.find?_isSome.mpr ⟨name, hname, decide_eq_true haddressed⟩
    · obtain ⟨port, hport, haddressed⟩ := hports h
      rcases mode with _ | _ | _ | _
      · exact (hmode rfl).elim
      · simpa [ethernetOf] using .inr ⟨port, hport, haddressed⟩
      · simpa [ethernetOf] using .inr ⟨port, hport, haddressed⟩
      · exact (h rfl).elim
  rcases mode with _ | mode
  · rfl
  · obtain ⟨name, hname⟩ := Option.isSome_iff_exists.mp (hsome nofun)
    simp only [ethernetErrors, hname]

/-- Only subnets are left to be complained about. -/
theorem errors_entryAfter (hplan : planFabric reports override = .ok plan)
    (hmanaged : reports.Managed) (he : e ∈ reports.positioned override)
    (hmode : detectedMode e.1.2.upPorts.length (some reports.nodes.length) = reports.mode) :
    (entryAfter reports.nodes.length plan e.1).2.errors =
      subnetErrors
        (assignAddresses e.1.2.addresses (reports.proposalOf override e).assignments) ∅
        e.1.2.upPorts := by
  obtain ⟨hmem, -, hproposable⟩ := mem_positioned_iff.mp he
  have hunaddressed : unaddressedErrors
      (assignAddresses e.1.2.addresses (reports.proposalOf override e).assignments)
      e.1.2.upPorts = [] := by
    rw [unaddressedErrors, List.map_eq_nil_iff, List.filter_eq_nil_iff]
    intro port hport
    simp [mem_addresses_entryAfter hplan he hport]
  have hethernet : ethernetErrors
      (assignAddresses e.1.2.addresses (reports.proposalOf override e).assignments)
      e.1.2.upPorts reports.mode = [] := by
    refine ethernetErrors_eq_nil (fun hmesh ↦ ?_) fun _ ↦ ?_
    · obtain ⟨name, hname, haddressed⟩ :=
        hmanaged hmesh e.1 (List.fst_mem_of_mem_zipIdx hmem)
      exact ⟨name, hname, mem_assignAddresses haddressed⟩
    · obtain ⟨port, hport⟩ := List.exists_mem_of_ne_nil _ (upPorts_ne_nil he)
      exact ⟨port, hport, mem_addresses_entryAfter hplan he hport⟩
  obtain ⟨-, -, herrors⟩ := applied_eq (upPorts_ne_nil he) reports.nodes.length
    (reports.proposalOf override e).assignments
  rw [entryAfter_of_positioned hplan he, herrors, hmode, hunaddressed, hethernet,
    if_pos (Option.isSome_iff_ne_none.mpr hproposable.1)]
  simp

/-- The detector looks a port's network up where the plan put its address. -/
theorem networkAt_of_seated (hplan : planFabric reports override = .ok plan)
    (he : e ∈ reports.positioned override) (hseated : Seated reports plan e)
    {s : RoCEPort × ℕ × ℕ} (hs : s ∈ e.1.2.seats) :
    networkAt (assignAddresses e.1.2.addresses (reports.proposalOf override e).assignments) s.1 =
      networkOf (cidrAt reports.mode e.2 s.2) := by
  have hcurrent := hseated s hs
  obtain ⟨s', -, -, hlookup⟩ := lookup_applied (ring_of_planFabric hplan) he hs
  rw [entryAfter_of_positioned hplan he, FabricConfig.current,
    (applied_eq (upPorts_ne_nil he) _ _).1, hlookup, Option.getD_some] at hcurrent
  rw [networkAt, hlookup, hcurrent]
  rfl

/-- Ports with the addresses of their seats are in different networks, unless a pair's node carries
two cables. -/
theorem subnetErrors_entryAfter (hplan : planFabric reports override = .ok plan)
    (he : e ∈ reports.positioned override) (hseated : Seated reports plan e) :
    subnetErrors
        (assignAddresses e.1.2.addresses (reports.proposalOf override e).assignments) ∅
        e.1.2.upPorts = [] ↔
      (reports.mode = some .direct → e.2 < 245 → e.1.2.physicalPorts.length ≤ 1) := by
  have hproposable := (mem_positioned_iff.mp he).2.2
  rw [subnetErrors_eq_nil_iff, and_iff_right (by simp)]
  constructor
  · intro hpairwise hmode hindex
    by_contra hlength
    have hseat : ∀ g < e.1.2.physicalPorts.length, ∃ s ∈ e.1.2.seats, s.2 = (g, 0) ∧
        networkAt (assignAddresses e.1.2.addresses (reports.proposalOf override e).assignments)
          s.1 = networkOf (linkCidr 177 e.2) := by
      intro g hg
      have htwins := ne_nil_of_mem_physicalPorts (List.getElem_mem hg)
      have hplace : (g, 0) ∈ e.1.2.places :=
        mem_places_iff.mpr ⟨_, List.getElem?_eq_getElem hg, List.length_pos_iff.mpr htwins⟩
      obtain ⟨s, hs, hplace⟩ := exists_mem_seats_of_mem_places hplace
      refine ⟨s, hs, hplace, ?_⟩
      rw [networkAt_of_seated hplan he hseated hs, hplace, hmode]
      rfl
    obtain ⟨s, hs, hplace, hnetwork⟩ := hseat 0 (by omega)
    obtain ⟨s', hs', hplace', hnetwork'⟩ := hseat 1 (by omega)
    -- Both are on the pair's one cable, but they are not twins.
    have hnetdev : s.1.netdev ≠ s'.1.netdev := by
      intro h
      have hport := port_eq_of_netdev hs hs' h
      rw [hplace, hplace'] at hport
      cases hport
    have : Std.Symm fun p q : RoCEPort ↦ ∀ network,
        networkAt (assignAddresses e.1.2.addresses (reports.proposalOf override e).assignments) p =
          some network →
        networkAt (assignAddresses e.1.2.addresses (reports.proposalOf override e).assignments) q =
          some network → p.netdev = q.netdev :=
      ⟨fun _ _ h network hp hq ↦ (h network hq hp).symm⟩
    obtain ⟨network, hsome⟩ : ∃ network, networkOf (linkCidr 177 e.2) = some network := by
      rw [networkOf, interface?_linkCidr (by decide), if_pos hindex]
      exact ⟨_, rfl⟩
    rw [hsome] at hnetwork hnetwork'
    refine hnetdev (hpairwise.forall (mem_upPorts_of_mem_seats hs) (mem_upPorts_of_mem_seats hs')
      (fun h ↦ hnetdev (by rw [h])) network hnetwork hnetwork')
  · intro hpair
    refine List.pairwise_of_forall_mem_list fun p hp q hq network hpnetwork hqnetwork ↦ ?_
    obtain ⟨s, hs, rfl⟩ := exists_mem_seats hp
    obtain ⟨s', hs', rfl⟩ := exists_mem_seats hq
    rw [networkAt_of_seated hplan he hseated hs] at hpnetwork
    rw [networkAt_of_seated hplan he hseated hs'] at hqnetwork
    have hplace := mem_places_of_mem_seats hs
    have hplace' := mem_places_of_mem_seats hs'
    obtain ⟨link, hlink⟩ := Option.ne_none_iff_exists'.mp (hproposable.2 _ hplace)
    obtain ⟨link', hlink'⟩ := Option.ne_none_iff_exists'.mp (hproposable.2 _ hplace')
    rw [cidrAt, hlink] at hpnetwork
    rw [cidrAt, hlink'] at hqnetwork
    have hindex : e.2 < 245 := by
      by_contra hindex
      rw [networkOf, interface?_linkCidr (link_le hlink), if_neg hindex] at hpnetwork
      cases hpnetwork
    obtain rfl := eq_of_networkOf_linkCidr (link_le hlink) (link_le hlink') hindex
      (hpnetwork.trans hqnetwork.symm)
    rw [eq_of_place hs hs'
      (place_of_link (fun hmode ↦ hpair hmode hindex) hplace hplace' hlink hlink')]

/-! ## The next plan -/

theorem shape_of_planFabric (hplan : planFabric reports override = .ok plan) :
    plan.mode = reports.mode ∧ plan.problems = reports.problems := by
  rw [planFabric] at hplan
  cases hproposals : reports.withPorts.zipIdx.mapM (proposal reports.mode override) with
  | error err =>
    rw [hproposals] at hplan
    cases hplan
  | ok proposals =>
    rw [hproposals] at hplan
    obtain rfl := Except.ok.inj hplan
    exact ⟨rfl, rfl⟩

theorem mem_after (he : e ∈ reports.positioned override) :
    (entryAfter reports.nodes.length plan e.1, e.2) ∈ (reports.after plan).withPorts.zipIdx := by
  rw [zipIdx_withPorts_after]
  exact List.mem_map.mpr ⟨e, (mem_positioned_iff.mp he).1, rfl⟩

theorem nodeId_entryAfter {n : ℕ} {e : NodeFabric × FabricConfig} :
    (entryAfter n plan e).1.nodeId = e.1.nodeId := by
  rw [entryAfter, NodeFabric.after]
  split <;> rfl

/-- A node is found by its id in what is reported after the plan is applied. -/
theorem eq_of_mem_after {e' : (NodeFabric × FabricConfig) × ℕ}
    (he : e ∈ reports.positioned override) (he' : e' ∈ (reports.after plan).withPorts.zipIdx)
    (hid : e'.1.1.nodeId = e.1.1.nodeId) :
    e' = (entryAfter reports.nodes.length plan e.1, e.2) :=
  eq_of_nodeId he' (mem_after he) (by rw [hid, nodeId_entryAfter])

theorem seats_entryAfter (he : e ∈ reports.positioned override) :
    (entryAfter reports.nodes.length plan e.1).2.seats = e.1.2.seats := by
  rw [FabricConfig.seats, FabricConfig.seats,
    physicalPorts_entryAfter (List.fst_mem_of_mem_zipIdx (mem_positioned_iff.mp he).1)]

/-- What the next plan has for a node that it keeps: what its ports have. -/
theorem map_assignments_kept (hring : reports.Ring) (he : e ∈ reports.positioned override)
    (hkeep : keeps false (entryAfter reports.nodes.length plan e.1) = true) :
    ((reports.after plan).proposalOf false
        (entryAfter reports.nodes.length plan e.1, e.2)).assignments.map
          (fun a ↦ (a.netdev, a.cidr)) =
      e.1.2.seats.map fun s ↦
        (s.1.netdev, (entryAfter reports.nodes.length plan e.1).2.current s.1) := by
  have hassigned := @assigned_eq_map (reports.after plan) false
    (entryAfter reports.nodes.length plan e.1, e.2)
    fun hmode ↦ ring_after hring hmode _ (mem_after he)
  rw [Reports.proposalOf, finish, List.map_map, hassigned, List.map_map, seats_entryAfter he]
  refine List.map_congr_left fun s _ ↦ ?_
  simp [assignment, hkeep]

/-- A node is kept exactly when the detector accepts it. -/
theorem keeps_entryAfter (hplan : planFabric reports override = .ok plan)
    (he : e ∈ reports.positioned override) :
    keeps false (entryAfter reports.nodes.length plan e.1) = true ↔
      (entryAfter reports.nodes.length plan e.1).2.errors = [] ∧
        (entryAfter reports.nodes.length plan e.1).2.mode ≠ none := by
  have hmem := List.fst_mem_of_mem_zipIdx (mem_positioned_iff.mp he).1
  have hports : ∀ port ∈ e.1.2.upPorts,
      port.netdev ∈ (entryAfter reports.nodes.length plan e.1).2.addresses ∧
        (entryAfter reports.nodes.length plan e.1).1.currentMtu port = fabricMtu := by
    intro port hport
    rw [entryAfter_of_positioned hplan he, (applied_eq (upPorts_ne_nil he) _ _).1]
    refine ⟨mem_addresses_entryAfter hplan he hport, ?_⟩
    obtain ⟨s, hs, rfl⟩ := exists_mem_seats hport
    have hlookup := lookup_mtus (ring_of_planFabric hplan) he hs
    rw [entryAfter, after_of_positioned hplan he, NodeFabric.currentMtu, NodeFabric.applied,
      hlookup, Option.getD_some]
  simp only [keeps, alreadyValid, Bool.not_false, Bool.and_true, Bool.and_eq_true,
    List.isEmpty_iff, Option.isSome_iff_ne_none, List.all_eq_true, decide_eq_true_eq,
    upPorts_entryAfter hmem]
  exact and_iff_left hports

theorem status_after (hring : reports.Ring) (he : e ∈ reports.positioned override) :
    ((reports.after plan).proposalOf false
        (entryAfter reports.nodes.length plan e.1, e.2)).status = .configured ↔
      keeps false (entryAfter reports.nodes.length plan e.1) = true := by
  rw [Reports.proposalOf, status_assigned fun hmode ↦ ring_after hring hmode _ (mem_after he)]
  by_cases hkeep : keeps false (entryAfter reports.nodes.length plan e.1) = true
  · simp [hkeep]
  · rw [if_neg hkeep]
    refine iff_of_false ?_ hkeep
    split_ifs <;> simp

/-- The detector accepts a node exactly when its ports are settled in the shape of the plan. -/
theorem accepted_iff (hplan : planFabric reports override = .ok plan)
    (hmanaged : reports.Managed) (hproblems : reports.problems = [])
    (he : e ∈ reports.positioned override) (hseated : Seated reports plan e) :
    (entryAfter reports.nodes.length plan e.1).2.errors = [] ∧
        (entryAfter reports.nodes.length plan e.1).2.mode = plan.mode ↔
      (reports.mode = some .dual → reports.nodes.length = 2) ∧
        (reports.mode = some .direct → e.2 < 245 → e.1.2.physicalPorts.length ≤ 1) := by
  have hmode : (entryAfter reports.nodes.length plan e.1).2.mode =
      detectedMode e.1.2.upPorts.length (some reports.nodes.length) := by
    rw [entryAfter_of_positioned hplan he, (applied_eq (upPorts_ne_nil he) _ _).2.1]
  rw [hmode, (shape_of_planFabric hplan).1, ← detectedMode_eq_iff hproblems he, and_comm]
  refine and_congr_right fun hdetected ↦ ?_
  rw [errors_entryAfter hplan hmanaged he hdetected, subnetErrors_entryAfter hplan he hseated]

/-- **An applied plan settles exactly when the reports are settleable.** -/
theorem settles_iff_settleable (hplan : planFabric reports override = .ok plan)
    (hmanaged : reports.Managed) (hproblems : plan.problems = []) :
    Settles reports plan ↔ Settleable reports override := by
  have hring := ring_of_planFabric hplan
  rw [(shape_of_planFabric hplan).2] at hproblems
  have hafter : (reports.after plan).Ring := ring_after hring
  obtain ⟨plan', hplan', hnodes⟩ := planFabric_ok false hafter
  constructor
  · rintro ⟨haccepted, plan'', hplan'', hconfigured⟩
    obtain rfl := Except.ok.inj (hplan'.symm.trans hplan'')
    have hseated : ∀ e ∈ reports.positioned override, Seated reports plan e := by
      intro e he
      obtain ⟨n', hn', hid, hstatus, hassignments⟩ :=
        hconfigured _ ((mem_proposed_iff hplan).mpr ⟨e, he, rfl⟩)
      rcases List.mem_append.mp (hnodes.mem_iff.mp hn') with hn' | hn'
      · obtain ⟨node, -, rfl⟩ := List.mem_map.mp hn'
        cases hstatus
      · obtain ⟨e', he', rfl⟩ := List.mem_map.mp hn'
        obtain rfl := eq_of_mem_after he he' hid
        have hkeep := (status_after hring he).mp hstatus
        have hkept := map_assignments_kept hring he hkeep
        have hgiven := map_assignments_proposalOf hring he (f := fun a ↦ (a.netdev, a.cidr))
          fun _ _ ↦ rfl
        have heq := hkept.symm.trans (hassignments.trans hgiven)
        exact fun s hs ↦ (Prod.mk.inj (List.map_inj_left.mp heq s hs)).2
    have hsettled : ∀ e ∈ reports.positioned override, _ := fun e he ↦
      (accepted_iff hplan hmanaged hproblems he (hseated e he)).mp
        (haccepted _ ((mem_proposed_iff hplan).mpr ⟨e, he, rfl⟩) _
          (List.fst_mem_of_mem_zipIdx (mem_after he)) nodeId_entryAfter)
    refine ⟨fun hmode e he ↦ (hsettled e he).2 hmode, fun hmode hne ↦ ?_,
      fun e he ↦ (seated_iff hplan he).mp (hseated e he)⟩
    obtain ⟨e, he⟩ := List.exists_mem_of_ne_nil _ hne
    exact (hsettled e he).1 hmode
  · rintro ⟨hpair, hcount, hnetdevs⟩
    have hseated : ∀ e ∈ reports.positioned override, Seated reports plan e :=
      fun e he ↦ (seated_iff hplan he).mpr (hnetdevs e he)
    have haccepted : ∀ e ∈ reports.positioned override,
        (entryAfter reports.nodes.length plan e.1).2.errors = [] ∧
          (entryAfter reports.nodes.length plan e.1).2.mode = plan.mode := fun e he ↦
      (accepted_iff hplan hmanaged hproblems he (hseated e he)).mpr
        ⟨fun hmode ↦ hcount hmode (List.ne_nil_of_mem he), fun hmode ↦ hpair hmode e he⟩
    refine ⟨fun n hn e' he' hid ↦ ?_, plan', hplan', fun n hn ↦ ?_⟩
    · obtain ⟨e, he, rfl⟩ := (mem_proposed_iff hplan).mp hn
      rw [← List.zipIdx_map_fst 0 (reports.after plan).withPorts] at he'
      obtain ⟨e', hmem, rfl⟩ := List.mem_map.mp he'
      rw [eq_of_mem_after he hmem hid]
      exact haccepted e he
    · obtain ⟨e, he, rfl⟩ := (mem_proposed_iff hplan).mp hn
      obtain ⟨herrors, hmode⟩ := haccepted e he
      have hsome : plan.mode ≠ none :=
        (shape_of_planFabric hplan).1 ▸ (mem_positioned_iff.mp he).2.2.1
      have hkeep := (keeps_entryAfter hplan he).mpr ⟨herrors, hmode ▸ hsome⟩
      refine ⟨(reports.after plan).proposalOf false
        (entryAfter reports.nodes.length plan e.1, e.2), ?_, nodeId_entryAfter,
          (status_after hring he).mpr hkeep, ?_⟩
      · exact hnodes.mem_iff.mpr (List.mem_append_right _ (List.mem_map_of_mem (mem_after he)))
      · rw [map_assignments_kept hring he hkeep, map_assignments_proposalOf hring he
          (f := fun a ↦ (a.netdev, a.cidr)) fun _ _ ↦ rfl]
        exact List.map_congr_left fun s hs ↦ Prod.ext rfl (hseated e he s hs)

end

/-! ## Two nodes -/

/-- A port that is up. -/
private def wired (netdev : String) : RoCEPort where
  hca := "roce".toList
  netdev := netdev.toList
  isUp := true

private def pairOf (first second : String) (nodeId : Text) : NodeFabric where
  nodeId := nodeId
  name := "spark"
  fabric := some {
    mode := some .direct
    ports := [wired first, wired second]
    errors := ["no address"] }

private def twoNodes (first second : String) : Reports where
  nodes := [pairOf first second ['1'], pairOf first second ['2']]
  ids_nodup := by simp [pairOf]

theorem settles_twins :
    ∃ plan, planFabric (twoNodes "enp1s0f0np0" "enP2p1s0f0np0") false = .ok plan ∧
      Settles (twoNodes "enp1s0f0np0" "enP2p1s0f0np0") plan :=
  ⟨_, rfl, (settles_iff_settleable rfl (fun h ↦ absurd h (by decide)) rfl).mpr
    ⟨by decide, by decide, by decide⟩⟩

/-- Two ports that are not twins get one address each on the same subnet. -/
theorem applied_refused : ¬∀ reports override plan, planFabric reports override = .ok plan →
    reports.Managed → plan.problems = [] → Settles reports plan := by
  intro h
  have hmanaged : (twoNodes "enp1s0f0np0" "enp1s0f1np1").Managed :=
    fun hmode ↦ absurd hmode (by decide)
  obtain ⟨plan, hplan⟩ :
      ∃ plan, planFabric (twoNodes "enp1s0f0np0" "enp1s0f1np1") false = .ok plan := ⟨_, rfl⟩
  have hproblems : plan.problems = [] := (shape_of_planFabric hplan).2
  have he : ((pairOf "enp1s0f0np0" "enp1s0f1np1" ['1'],
      (pairOf "enp1s0f0np0" "enp1s0f1np1" ['1']).fabric.get rfl), 0) ∈
      (twoNodes "enp1s0f0np0" "enp1s0f1np1").positioned false := by
    rw [mem_positioned_iff]
    exact ⟨List.mem_cons_self, by decide, by decide⟩
  have hseated := (seated_iff hplan he).mpr (by decide)
  have haccepted := (h _ false plan hplan hmanaged hproblems).accepted _
    ((mem_proposed_iff hplan).mpr ⟨_, he, rfl⟩) _ (List.fst_mem_of_mem_zipIdx (mem_after he))
      nodeId_entryAfter
  have hpair := (accepted_iff hplan hmanaged rfl he hseated).mp haccepted
  exact absurd (hpair.2 rfl (by decide)) (by decide)

end SparkPulse.Fabric
