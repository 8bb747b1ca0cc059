import Mathlib.Data.List.Dedup
import SparkPulse.Fabric.Plan

/-!
# Fabric plans that can be used

What a node is given by its position depends on its index and on the places of its ports alone, and
is a table of links. A node that is kept brings addresses of its own. So the plan is fit to be
applied when the ports have places in the table, when what is kept is in order, and when the two
kinds of addresses do not meet.
-/

open SparkPulse.Network
open SparkPulse.Recipes (Text)

namespace SparkPulse.Fabric

/-! ## Ports -/

section
variable {port : RoCEPort} {fabric : FabricConfig} {groups : List (Text × List RoCEPort)}
  {twins : List RoCEPort}

theorem perm_addPort :
    ((addPort port groups).flatMap Prod.snd).Perm (port :: groups.flatMap Prod.snd) := by
  induction groups with
  | nil => exact List.Perm.refl _
  | cons e groups ih =>
    obtain ⟨key, twins⟩ := e
    rw [addPort]
    split_ifs
    · simp only [List.flatMap_cons, List.append_assoc, List.singleton_append]
      exact List.perm_middle
    · simp only [List.flatMap_cons]
      exact (ih.append_left twins).trans List.perm_middle

theorem ne_nil_of_mem_addPort (h : ∀ e ∈ groups, e.2 ≠ []) :
    ∀ e ∈ addPort port groups, e.2 ≠ [] := by
  induction groups with
  | nil => simp [addPort]
  | cons e groups ih =>
    obtain ⟨key, twins⟩ := e
    obtain ⟨htwins, hgroups⟩ := List.forall_mem_cons.mp h
    rw [addPort]
    split_ifs
    · exact List.forall_mem_cons.mpr ⟨by simp, hgroups⟩
    · exact List.forall_mem_cons.mpr ⟨htwins, ih hgroups⟩

theorem foldl_addPort {ports : List RoCEPort} (h : ∀ e ∈ groups, e.2 ≠ []) :
    ((ports.foldl (fun groups port ↦ addPort port groups) groups).flatMap Prod.snd).Perm
        (ports ++ groups.flatMap Prod.snd) ∧
      ∀ e ∈ ports.foldl (fun groups port ↦ addPort port groups) groups, e.2 ≠ [] := by
  induction ports generalizing groups with
  | nil => exact ⟨List.Perm.refl _, h⟩
  | cons port ports ih =>
    obtain ⟨hperm, hne⟩ := ih (ne_nil_of_mem_addPort h)
    refine ⟨hperm.trans ?_, hne⟩
    exact (perm_addPort.append_left ports).trans List.perm_middle

/-- The physical ports hold the up ports, each once. -/
theorem perm_physicalPorts : fabric.physicalPorts.flatten.Perm fabric.upPorts := by
  have h := (@foldl_addPort [] fabric.upPorts (by simp)).1
  rw [List.flatMap_nil, List.append_nil] at h
  rwa [FabricConfig.physicalPorts, ← List.flatMap_def]

theorem perm_addressedTwinFirst (twins : List RoCEPort) : (addressedTwinFirst twins).Perm twins :=
  List.perm_insertionSort _ twins

theorem ne_nil_of_mem_physicalPorts (h : twins ∈ fabric.physicalPorts) : twins ≠ [] := by
  obtain ⟨e, he, rfl⟩ := List.mem_map.mp h
  exact (@foldl_addPort [] fabric.upPorts (by simp)).2 e he

theorem length_le_of_mem_physicalPorts (h : twins ∈ fabric.physicalPorts) :
    twins.length ≤ fabric.upPorts.length := by
  rw [← perm_physicalPorts.length_eq]
  exact (List.sublist_flatten_of_mem h).length_le

end

/-! ## Links -/

/-- The cable that a physical port of a node carries. -/
def cableOf (mode : Option Mode) (index portIndex : ℕ) : Option ℕ :=
  match mode with
  | some .direct => some 0
  | some .dual => some portIndex
  | some .mesh => meshPortLinks[index]?.bind (·[portIndex]?)
  | none => none

/-- The link of the cable that a twin of a physical port is on. -/
def linkAt (mode : Option Mode) (index portIndex twinIndex : ℕ) : Option ℕ :=
  (cableOf mode index portIndex).bind fun cable ↦ (meshLinks.getD cable [])[twinIndex]?

section
variable {mode : Option Mode} {index portIndex portIndex' twinIndex twinIndex' link : ℕ}
  {links : List ℕ}

/-- In a ring of three a node has two physical ports. -/
theorem linksOf_eq_error_iff :
    linksOf mode index portIndex = .error .indexError ↔
      mode = some .mesh ∧ index < 3 ∧ 2 ≤ portIndex := by
  rcases mode with _ | _ | _ | _
  · exact iff_of_false nofun (by simp)
  · exact iff_of_false nofun (by simp)
  · exact iff_of_false nofun (by simp)
  · rcases index with _ | _ | _ | index
    all_goals
      rcases portIndex with _ | _ | portIndex <;> simp [linksOf, meshPortLinks, pure, Except.pure,
        throw, throwThe, MonadExceptOf.throw]

theorem linkAt_of_linksOf (h : linksOf mode index portIndex = .ok links) :
    links[twinIndex]? = linkAt mode index portIndex twinIndex := by
  rcases mode with _ | _ | _ | _
  · obtain rfl := Except.ok.inj h
    rfl
  · obtain rfl := Except.ok.inj h
    rfl
  · obtain rfl := Except.ok.inj h
    rfl
  · rw [linksOf] at h
    rw [linkAt, cableOf]
    cases hcables : meshPortLinks[index]? with
    | none =>
      rw [hcables] at h
      obtain rfl := Except.ok.inj h
      rfl
    | some cables =>
      rw [hcables] at h
      cases hcable : cables[portIndex]? with
      | none => simp [hcable] at h
      | some cable =>
        simp only [hcable] at h
        obtain rfl := Except.ok.inj h
        simp [hcable]

/-- The number of a link says which cable it is of and which twin. -/
theorem cable_of_link {cable : ℕ} (h : (meshLinks.getD cable [])[twinIndex]? = some link) :
    cable < 3 ∧ twinIndex < 2 ∧ link = 177 + 10 * cable + twinIndex := by
  rcases cable with _ | _ | _ | cable
  all_goals
    rcases twinIndex with _ | _ | twinIndex <;> simp [meshLinks] at h <;> omega

theorem link_le (h : linkAt mode index portIndex twinIndex = some link) : link ≤ 255 := by
  obtain ⟨cable, -, h⟩ := Option.bind_eq_some_iff.mp h
  have := cable_of_link h
  omega

/-- A physical port of a node carries a cable of its own, unless there is just the pair's. -/
theorem cableOf_injective (hmode : mode ≠ some .direct) {cable : ℕ}
    (h : cableOf mode index portIndex = some cable)
    (h' : cableOf mode index portIndex' = some cable) : portIndex = portIndex' := by
  rcases mode with _ | _ | _ | _
  · cases h
  · exact (hmode rfl).elim
  · exact Option.some.inj (h.trans h'.symm)
  · rcases index with _ | _ | _ | index
    all_goals
      rcases portIndex with _ | _ | portIndex <;> rcases portIndex' with _ | _ | portIndex' <;>
        simp [cableOf, meshPortLinks] at h h' <;> omega

/-- No two ports of a node are on one link, unless they carry the pair's cable twice. -/
theorem linkAt_injective (hmode : mode ≠ some .direct)
    (h : linkAt mode index portIndex twinIndex = some link)
    (h' : linkAt mode index portIndex' twinIndex' = some link) :
    portIndex = portIndex' ∧ twinIndex = twinIndex' := by
  obtain ⟨cable, hcable, hlink⟩ := Option.bind_eq_some_iff.mp h
  obtain ⟨cable', hcable', hlink'⟩ := Option.bind_eq_some_iff.mp h'
  obtain ⟨-, htwin, hlink⟩ := cable_of_link hlink
  obtain ⟨-, htwin', hlink'⟩ := cable_of_link hlink'
  obtain rfl : cable = cable' := by omega
  exact ⟨cableOf_injective hmode hcable hcable', by omega⟩

end

/-! ## Assignments -/

section
variable {α β ε : Type} {f : α → Except ε β} {l : List α}

theorem mapM_eq_ok {g : α → β} (h : ∀ a ∈ l, f a = .ok (g a)) : l.mapM f = .ok (l.map g) := by
  induction l with
  | nil => rfl
  | cons a l ih =>
    obtain ⟨ha, hl⟩ := List.forall_mem_cons.mp h
    rw [List.mapM_cons, ha, ih hl]
    rfl

theorem exists_of_mapM_eq_ok {bs : List β} (h : l.mapM f = .ok bs) :
    ∀ a ∈ l, ∃ b, f a = .ok b := by
  induction l generalizing bs with
  | nil => exact nofun
  | cons a l ih =>
    rw [List.mapM_cons] at h
    cases ha : f a with
    | error e =>
      rw [ha] at h
      cases h
    | ok b =>
      cases hl : l.mapM f with
      | error e =>
        rw [ha, hl] at h
        cases h
      | ok bs => exact List.forall_mem_cons.mpr ⟨⟨b, ha⟩, ih hl⟩

end

/-- The places of the ports of a node: the physical port and the twin of it. -/
def FabricConfig.places (fabric : FabricConfig) : List (ℕ × ℕ) :=
  fabric.physicalPorts.zipIdx.flatMap fun e ↦ (List.range e.1.length).map fun t ↦ (e.2, t)

/-- The addresses that the position of a node gives its ports. -/
def proposedCidrs (mode : Option Mode) (index : ℕ) (fabric : FabricConfig) : List Text :=
  fabric.places.map fun s ↦
    match linkAt mode index s.1 s.2 with
    | some link => linkCidr link index
    | none => []

section
variable {mode : Option Mode} {keep : Bool} {index : ℕ} {node : NodeFabric} {fabric : FabricConfig}
  {as : List Assignment}

theorem mem_places_iff {s : ℕ × ℕ} :
    s ∈ fabric.places ↔ ∃ twins, fabric.physicalPorts[s.1]? = some twins ∧ s.2 < twins.length := by
  obtain ⟨g, t⟩ := s
  simp only [FabricConfig.places, List.mem_flatMap, Prod.exists, List.mem_zipIdx_iff_getElem?,
    List.mem_map, List.mem_range, Prod.mk.injEq]
  constructor
  · rintro ⟨twins, g', hg, t', ht, rfl, rfl⟩
    exact ⟨twins, hg, ht⟩
  · rintro ⟨twins, hg, ht⟩
    exact ⟨twins, g, hg, t, ht, rfl, rfl⟩

theorem nodup_places : fabric.places.Nodup := by
  rw [FabricConfig.places, List.nodup_flatMap]
  constructor
  · intro e he
    exact List.nodup_range.map fun t t' h ↦ (Prod.mk.inj h).2
  · have hindices : (fabric.physicalPorts.zipIdx.map Prod.snd).Nodup := by
      rw [List.zipIdx_map_snd]
      exact List.nodup_range'
    refine (List.pairwise_map.mp hindices).imp fun {e e'} hne ↦ ?_
    simp only [Function.onFun, List.disjoint_left]
    intro s hs hs'
    obtain ⟨t, -, rfl⟩ := List.mem_map.mp hs
    obtain ⟨t', -, heq⟩ := List.mem_map.mp hs'
    exact hne (Prod.mk.inj heq).1.symm

/-- What the assignments of a node are, if its ports can be looked up in the drawing. -/
theorem assignmentsOf_eq_ok_iff :
    assignmentsOf keep index node fabric mode = .ok as ↔
      (mode = some .mesh → index < 3 → fabric.physicalPorts.length ≤ 2) ∧
        as = fabric.physicalPorts.zipIdx.flatMap fun e ↦
          (addressedTwinFirst e.1).zipIdx.map fun e' ↦
            assignment keep index node fabric ((linksOf mode index e.2).toOption.getD []) e'.1
              e'.2 := by
  by_cases hring : mode = some .mesh → index < 3 → fabric.physicalPorts.length ≤ 2
  · rw [and_iff_right hring, assignmentsOf, mapM_eq_ok (g := fun e ↦
      (addressedTwinFirst e.1).zipIdx.map fun e' ↦
        assignment keep index node fabric ((linksOf mode index e.2).toOption.getD []) e'.1 e'.2)]
    · rw [List.flatMap_def]
      exact ⟨fun h ↦ (Except.ok.inj h).symm, fun h ↦ congrArg Except.ok h.symm⟩
    · intro e he
      cases hlinks : linksOf mode index e.2 with
      | ok links =>
        simp only [hlinks]
        rfl
      | error err =>
        cases err
        obtain ⟨hmode, hindex, hport⟩ := linksOf_eq_error_iff.mp hlinks
        have hlt := (List.mem_zipIdx he).2.1
        have := hring hmode hindex
        omega
  · refine iff_of_false (fun h ↦ hring fun hmode hindex ↦ ?_) fun h ↦ hring h.1
    by_contra hlength
    have hlt : 2 < fabric.physicalPorts.length := by omega
    rw [assignmentsOf] at h
    cases hgroups : fabric.physicalPorts.zipIdx.mapM fun (e : List RoCEPort × ℕ) ↦ do
        let links ← linksOf mode index e.2
        return (addressedTwinFirst e.1).zipIdx.map fun (e' : RoCEPort × ℕ) ↦
          assignment keep index node fabric links e'.1 e'.2 with
    | error e =>
      rw [hgroups] at h
      cases h
    | ok groups =>
      have hmem : (fabric.physicalPorts[2], 2) ∈ fabric.physicalPorts.zipIdx :=
        List.mem_zipIdx_iff_getElem?.mpr (List.getElem?_eq_getElem hlt)
      obtain ⟨group, hgroup⟩ := exists_of_mapM_eq_ok hgroups _ hmem
      rw [linksOf_eq_error_iff.mpr ⟨hmode, hindex, le_refl 2⟩] at hgroup
      cases hgroup

theorem linkAt_eq {portIndex twinIndex : ℕ} :
    ((linksOf mode index portIndex).toOption.getD [])[twinIndex]? =
      linkAt mode index portIndex twinIndex := by
  cases hlinks : linksOf mode index portIndex with
  | ok links => exact linkAt_of_linksOf hlinks
  | error err =>
    cases err
    obtain ⟨rfl, hindex, hport⟩ := linksOf_eq_error_iff.mp hlinks
    have hnone : cableOf (some .mesh) index portIndex = none := by
      have hcables : ∀ cables ∈ meshPortLinks, cables[portIndex]? = none := by
        simpa [meshPortLinks] using hport
      rw [cableOf, List.getElem?_eq_getElem hindex]
      exact hcables _ (List.getElem_mem hindex)
    rw [linkAt, hnone]
    rfl

/-- Where the assignments look at the ports only, they are those of the up ports. -/
theorem perm_assignmentsOf {β : Type} {f : Assignment → β} {g : RoCEPort → β}
    (hfg : ∀ links port twinIndex,
      f (assignment keep index node fabric links port twinIndex) = g port)
    (h : assignmentsOf keep index node fabric mode = .ok as) :
    (as.map f).Perm (fabric.upPorts.map g) := by
  obtain ⟨-, rfl⟩ := assignmentsOf_eq_ok_iff.mp h
  have hgroup : ∀ e : List RoCEPort × ℕ, ((addressedTwinFirst e.1).zipIdx.map fun e' ↦
      assignment keep index node fabric ((linksOf mode index e.2).toOption.getD []) e'.1
        e'.2).map f = (addressedTwinFirst e.1).map g := by
    intro e
    conv_rhs => rw [← List.zipIdx_map_fst 0 (addressedTwinFirst e.1)]
    rw [List.map_map, List.map_map]
    exact List.map_congr_left fun e' _ ↦ hfg _ _ _
  calc
    _ = fabric.physicalPorts.zipIdx.flatMap fun e ↦ (addressedTwinFirst e.1).map g := by
      rw [List.map_flatMap]
      exact congrArg (List.flatMap · _) (funext hgroup)
    _ = fabric.physicalPorts.flatMap fun twins ↦ (addressedTwinFirst twins).map g := by
      conv_rhs => rw [← List.zipIdx_map_fst 0 fabric.physicalPorts]
      rw [List.flatMap_map]
    List.Perm _ (fabric.physicalPorts.flatMap fun twins ↦ twins.map g) :=
      List.Perm.flatMap_left _ fun twins _ ↦ (perm_addressedTwinFirst twins).map g
    _ = (fabric.physicalPorts.flatten).map g := by rw [List.map_flatten, List.flatMap_def]
    List.Perm _ (fabric.upPorts.map g) := perm_physicalPorts.map g

/-- The addresses of a node that is not kept are those of its position. -/
theorem cidr_assignmentsOf (h : assignmentsOf false index node fabric mode = .ok as) :
    as.map Assignment.cidr = proposedCidrs mode index fabric := by
  obtain ⟨-, rfl⟩ := assignmentsOf_eq_ok_iff.mp h
  rw [proposedCidrs, FabricConfig.places, List.map_flatMap, List.map_flatMap]
  refine congrArg (List.flatMap · _) (funext fun e ↦ ?_)
  have hrange : List.range e.1.length = (addressedTwinFirst e.1).zipIdx.map Prod.snd := by
    rw [List.zipIdx_map_snd, addressedTwinFirst, List.length_insertionSort, List.range_eq_range']
  rw [hrange, List.map_map, List.map_map, List.map_map]
  refine List.map_congr_left fun e' _ ↦ ?_
  simp only [Function.comp_apply, assignment, linkAt_eq]
  rfl

end

/-! ## Plans -/

/-- Every port of a node has a link in the drawing. -/
def Proposable (mode : Option Mode) (index : ℕ) (fabric : FabricConfig) : Prop :=
  mode ≠ none ∧ ∀ s ∈ fabric.places, linkAt mode index s.1 s.2 ≠ none

instance (mode : Option Mode) (index : ℕ) (fabric : FabricConfig) :
    Decidable (Proposable mode index fabric) := inferInstanceAs (Decidable (_ ∧ _))

/-- The assignments of a node, where there are any. -/
def assigned (mode : Option Mode) (override : Bool) (e : (NodeFabric × FabricConfig) × ℕ) :
    List Assignment :=
  (assignmentsOf (keeps override e.1) e.2 e.1.1 e.1.2 mode).toOption.getD []

/-- In a ring the first three nodes have two physical ports at most. -/
def Reports.Ring (reports : Reports) : Prop :=
  reports.mode = some .mesh → ∀ e ∈ reports.withPorts.zipIdx, e.2 < 3 →
    e.1.2.physicalPorts.length ≤ 2

/-- The plans of the nodes whose addresses are to be used. -/
def FabricPlan.addressed (plan : FabricPlan) : List NodePlan :=
  plan.nodes.filter fun n ↦ n.status = .configured ∨ n.status = .proposed

section
variable {mode : Option Mode} {override : Bool} {e : (NodeFabric × FabricConfig) × ℕ}
  {proposals : List ((NodeFabric × FabricConfig) × List Assignment)} {as : List Assignment}
  {reports : Reports} {plan : FabricPlan}

theorem linkCidr_ne_nil {link index : ℕ} : linkCidr link index ≠ [] :=
  List.append_ne_nil_of_right_ne_nil _ (by decide)

theorem mem_proposedCidrs_nil_iff {index : ℕ} {fabric : FabricConfig} :
    [] ∈ proposedCidrs mode index fabric ↔
      ∃ s ∈ fabric.places, linkAt mode index s.1 s.2 = none := by
  rw [proposedCidrs, List.mem_map]
  refine exists_congr fun s ↦ and_congr_right fun _ ↦ ?_
  cases linkAt mode index s.1 s.2 with
  | none => simp
  | some link => simp [linkCidr_ne_nil]

theorem map_cidr_finish :
    (finish mode override proposals (e.1, as)).assignments.map Assignment.cidr =
      as.map Assignment.cidr := by
  simp [finish, Function.comp_def]

theorem status_finish :
    (finish mode override proposals (e.1, as)).status =
      if keeps override e.1 then .configured
      else if mode = none ∨ [] ∈ as.map Assignment.cidr then .refused else .proposed := by
  simp only [finish, List.mem_map]
  split_ifs <;> simp_all

theorem assignmentsOf_eq_assigned
    (h : mode = some .mesh → e.2 < 3 → e.1.2.physicalPorts.length ≤ 2) :
    assignmentsOf (keeps override e.1) e.2 e.1.1 e.1.2 mode = .ok (assigned mode override e) := by
  have hok := (@assignmentsOf_eq_ok_iff mode (keeps override e.1) e.2 e.1.1 e.1.2 _).mpr ⟨h, rfl⟩
  rw [assigned, hok]
  rfl

/-- The status of a node: kept, or proposed if it has links for all its ports. -/
theorem status_assigned (h : mode = some .mesh → e.2 < 3 → e.1.2.physicalPorts.length ≤ 2) :
    (finish mode override proposals (e.1, assigned mode override e)).status =
      if keeps override e.1 then .configured
      else if Proposable mode e.2 e.1.2 then .proposed else .refused := by
  rw [status_finish]
  cases hkeep : keeps override e.1 with
  | true => rfl
  | false =>
    have hok := @assignmentsOf_eq_assigned mode override e h
    rw [hkeep] at hok
    have hrefused : mode = none ∨ [] ∈ (assigned mode override e).map Assignment.cidr ↔
        ¬Proposable mode e.2 e.1.2 := by
      rw [cidr_assignmentsOf hok, mem_proposedCidrs_nil_iff, Proposable]
      push Not
      tauto
    simp only [hrefused, Bool.false_eq_true, if_false]
    by_cases hproposable : Proposable mode e.2 e.1.2 <;> simp [hproposable]

/-- The plans that are used are of the nodes that are kept and of those that have links. -/
theorem addressed_finish (h : mode = some .mesh → e.2 < 3 → e.1.2.physicalPorts.length ≤ 2) :
    let status := (finish mode override proposals (e.1, assigned mode override e)).status
    status = .configured ∨ status = .proposed ↔
      keeps override e.1 ∨ Proposable mode e.2 e.1.2 := by
  simp only [status_assigned h]
  by_cases hkeep : keeps override e.1
  · simp [hkeep]
  · by_cases hproposable : Proposable mode e.2 e.1.2 <;> simp [hkeep, hproposable]

/-- Where the drawing of a ring has all the ports of its nodes there is a plan, of every node. -/
theorem planFabric_ok (override : Bool) (h : reports.Ring) :
    ∃ plan, planFabric reports override = .ok plan ∧
      plan.nodes.Perm ((reports.nodes.filter fun node ↦ node.fabric.isNone).map unknownPlan ++
        reports.withPorts.zipIdx.map fun e ↦
          finish reports.mode override
            (reports.withPorts.zipIdx.map fun e ↦ (e.1, assigned reports.mode override e))
            (e.1, assigned reports.mode override e)) := by
  have hproposals : reports.withPorts.zipIdx.mapM (proposal reports.mode override) =
      .ok (reports.withPorts.zipIdx.map fun e ↦ (e.1, assigned reports.mode override e)) := by
    refine mapM_eq_ok fun e he ↦ ?_
    rw [proposal, assignmentsOf_eq_assigned fun hmode ↦ h hmode e he]
    rfl
  rw [planFabric, hproposals]
  refine ⟨_, rfl, (List.perm_insertionSort _ _).trans (List.Perm.of_eq ?_)⟩
  rw [List.map_map]
  rfl

theorem ring_of_planFabric (h : planFabric reports override = .ok plan) : reports.Ring := by
  intro hmode e he hindex
  rw [planFabric] at h
  cases hproposals : reports.withPorts.zipIdx.mapM (proposal reports.mode override) with
  | error err =>
    rw [hproposals] at h
    cases h
  | ok proposals =>
    obtain ⟨b, hb⟩ := exists_of_mapM_eq_ok hproposals e he
    rw [proposal] at hb
    cases has : assignmentsOf (keeps override e.1) e.2 e.1.1 e.1.2 reports.mode with
    | error err =>
      rw [has] at hb
      cases hb
    | ok as => exact (assignmentsOf_eq_ok_iff.mp has).1 hmode hindex

/-- The addresses of the plans that are used, node by node. -/
theorem usable_addressed_iff (hring : reports.Ring)
    (hplan : planFabric reports override = .ok plan) :
    Usable plan.addressed (fun n ↦ n.assignments.map Assignment.cidr) ↔
      Usable (reports.withPorts.zipIdx.filter fun e ↦
          keeps override e.1 ∨ Proposable reports.mode e.2 e.1.2)
        fun e ↦ (assigned reports.mode override e).map Assignment.cidr := by
  obtain ⟨plan', hplan', hnodes⟩ := planFabric_ok override hring
  obtain rfl := Except.ok.inj (hplan.symm.trans hplan')
  have hunknown : ((reports.nodes.filter fun node ↦ node.fabric.isNone).map unknownPlan).filter
      (fun n ↦ n.status = .configured ∨ n.status = .proposed) = [] := by
    rw [List.filter_map, List.map_eq_nil_iff, List.filter_eq_nil_iff]
    simp [unknownPlan]
  have hperm := hnodes.filter fun n ↦ decide (n.status = .configured ∨ n.status = .proposed)
  rw [List.filter_append, hunknown, List.nil_append, List.filter_map] at hperm
  rw [FabricPlan.addressed, usable_congr hperm fun n _ ↦ List.Perm.refl _, usable_map_iff]
  refine usable_congr (List.Perm.of_eq (List.filter_congr fun e he ↦ ?_)) fun e _ ↦ ?_
  · exact decide_eq_decide.mpr (addressed_finish fun hmode ↦ hring hmode e he)
  · rw [map_cidr_finish]

/-- Every report has the number of up ports that the shape was taken from. -/
theorem upPorts_eq_portsUp (h : portsUp reports.counts ≠ 0) {e : NodeFabric × FabricConfig}
    (he : e ∈ reports.withPorts) : e.2.upPorts.length = portsUp reports.counts := by
  have hmem : e.2.upPorts.length ∈ reports.counts.dedup :=
    List.mem_dedup.mpr (List.mem_map.mpr ⟨e, he, rfl⟩)
  rw [portsUp] at h ⊢
  split at h
  · rename_i count hcount
    rw [hcount] at hmem
    exact List.mem_singleton.mp hmem
  · exact (h rfl).elim

/-- In each shape the nodes that report ports have so many of them up. -/
theorem length_upPorts (hmode : reports.mode ≠ none) {e : NodeFabric × FabricConfig}
    (he : e ∈ reports.withPorts) :
    e.2.upPorts.length = if reports.mode = some .direct then 2 else 4 := by
  have hcount := @upPorts_eq_portsUp reports
  rw [Reports.mode, modeOf] at hmode ⊢
  by_cases h2 : portsUp reports.counts = 2
  · rw [hcount (by omega) he, h2]
    rfl
  · by_cases h4 : portsUp reports.counts = 4
    · rw [hcount (by omega) he, h4]
      split_ifs <;> simp_all
    · rw [if_neg h2, if_neg (by tauto), if_neg h4] at hmode
      exact (hmode rfl).elim

theorem length_withPorts (hmode : reports.mode = some .dual) : reports.withPorts.length = 2 := by
  rw [Reports.mode, modeOf] at hmode
  split_ifs at hmode with h2 h4 h4'
  · cases hmode
  · rw [← h4.2, Reports.counts, List.length_map]
  · cases hmode

end

/-! ## Proposed addresses -/

section
variable {mode : Option Mode} {index index' link link' : ℕ} {fabric : FabricConfig} {t : Text}

theorem linkCidr_eq : linkCidr link index = dotted [192, 168, link, firstHost + index] 24 := by
  have hsubnet : Nat.toDigits 10 192 ++ '.' :: (Nat.toDigits 10 168 ++ ['.']) =
      "192.168.".toList := by decide
  have hlength : '/' :: Nat.toDigits 10 24 = "/24".toList := by decide
  have hassoc : ∀ a b l h n : Text, (a ++ '.' :: (b ++ ['.'])) ++ l ++ '.' :: h ++ ('/' :: n) =
      ['.'].intercalate [a, b, l, h] ++ '/' :: n := by
    simp [List.intercalate_cons_cons, List.intercalate_singleton]
  have h := hassoc (Nat.toDigits 10 192) (Nat.toDigits 10 168) (Nat.toDigits 10 link)
    (Nat.toDigits 10 (firstHost + index)) (Nat.toDigits 10 24)
  rw [hsubnet, hlength] at h
  exact h

theorem interface?_linkCidr (hlink : link ≤ 255) :
    interface? (linkCidr link index) =
      if index < 245 then
        some ⟨.v4, ((192 * 256 + 168) * 256 + link) * 256 + (firstHost + index), 24⟩
      else none := by
  rw [linkCidr_eq, interface?_dotted _ _ _ _ (by decide), firstHost]
  by_cases h : index < 245
  · rw [if_pos h, if_pos (by omega)]
  · rw [if_neg h, if_neg (by omega)]

/-- The position of a node gives it an address up to the last of the network. -/
theorem hostText_linkCidr_iff (hlink : link ≤ 255) :
    HostText (linkCidr link index) ↔ index < 244 := by
  rw [HostText, interface?_linkCidr hlink]
  by_cases h : index < 245
  · simp [h, Interface.IsHost, Interface.size, Family.width, firstHost]
    omega
  · rw [if_neg h]
    exact iff_of_false (by simp) (by omega)

theorem eq_of_hostOf_linkCidr (hlink : link ≤ 255) (hlink' : link' ≤ 255) (hindex : index < 244)
    (hindex' : index' < 244) (h : hostOf (linkCidr link index) = hostOf (linkCidr link' index')) :
    link = link' ∧ index = index' := by
  rw [hostOf, hostOf, interface?_linkCidr hlink, interface?_linkCidr hlink', if_pos (by omega),
    if_pos (by omega)] at h
  simp [Interface.host, firstHost] at h
  omega

theorem eq_of_networkOf_linkCidr (hlink : link ≤ 255) (hlink' : link' ≤ 255) (hindex : index < 245)
    (h : networkOf (linkCidr link index) = networkOf (linkCidr link' index)) : link = link' := by
  rw [networkOf, networkOf, interface?_linkCidr hlink, interface?_linkCidr hlink',
    if_pos (by omega), if_pos (by omega)] at h
  simp [Interface.network, Interface.size, Family.width, firstHost] at h
  omega

end

/-! ## Nodes that get their addresses by position -/

section
variable {reports : Reports} {override : Bool} {mode : Option Mode} {index : ℕ}
  {fabric : FabricConfig} {t : Text} {e : (NodeFabric × FabricConfig) × ℕ}

theorem exists_place (h : t ∈ proposedCidrs mode index fabric)
    (hproposable : Proposable mode index fabric) :
    ∃ s ∈ fabric.places, ∃ link, linkAt mode index s.1 s.2 = some link ∧
      t = linkCidr link index := by
  obtain ⟨s, hs, rfl⟩ := List.mem_map.mp h
  obtain ⟨link, hlink⟩ := Option.ne_none_iff_exists'.mp (hproposable.2 s hs)
  exact ⟨s, hs, link, hlink, by rw [hlink]⟩

/-- A node has a port on a link at most once, unless it carries the pair's cable twice. -/
theorem place_of_link (hpair : mode = some .direct → fabric.physicalPorts.length ≤ 1)
    {s s' : ℕ × ℕ} (hs : s ∈ fabric.places) (hs' : s' ∈ fabric.places) {link : ℕ}
    (hlink : linkAt mode index s.1 s.2 = some link)
    (hlink' : linkAt mode index s'.1 s'.2 = some link) : s = s' := by
  by_cases hmode : mode = some .direct
  · obtain ⟨twins, htwins, -⟩ := mem_places_iff.mp hs
    obtain ⟨twins', htwins', -⟩ := mem_places_iff.mp hs'
    have hlt := (List.getElem?_eq_some_iff.mp htwins).1
    have hlt' := (List.getElem?_eq_some_iff.mp htwins').1
    have hone := hpair hmode
    subst hmode
    obtain ⟨-, -, htwin⟩ := cable_of_link hlink
    obtain ⟨-, -, htwin'⟩ := cable_of_link hlink'
    exact Prod.ext (by omega) (by omega)
  · obtain ⟨hport, htwin⟩ := linkAt_injective hmode hlink hlink'
    exact Prod.ext hport htwin

/-- Where there is more than the pair's cable, only so many nodes have links. -/
theorem index_lt_three (hmode : reports.mode ≠ some .direct) (he : e ∈ reports.withPorts.zipIdx)
    {s : ℕ × ℕ} {link : ℕ} (hlink : linkAt reports.mode e.2 s.1 s.2 = some link) : e.2 < 3 := by
  obtain ⟨cable, hcable, -⟩ := Option.bind_eq_some_iff.mp hlink
  cases hm : reports.mode with
  | none =>
    rw [hm] at hcable
    cases hcable
  | some m =>
    cases m with
    | direct => exact (hmode hm).elim
    | dual =>
      have := (List.mem_zipIdx he).2.1
      have := length_withPorts hm
      omega
    | mesh =>
      rw [hm] at hcable
      obtain ⟨cables, hcables, -⟩ := Option.bind_eq_some_iff.mp hcable
      exact (List.getElem?_eq_some_iff.mp hcables).1

/-- In a pair every node has links for all its ports. -/
theorem proposable_of_direct (hmode : reports.mode = some .direct)
    (he : e ∈ reports.withPorts.zipIdx) : Proposable reports.mode e.2 e.1.2 := by
  refine ⟨by simp [hmode], fun s hs ↦ ?_⟩
  obtain ⟨twins, htwins, hlt⟩ := mem_places_iff.mp hs
  have hlength := length_le_of_mem_physicalPorts (List.mem_of_getElem? htwins)
  rw [length_upPorts (by simp [hmode]) (List.fst_mem_of_mem_zipIdx he), if_pos hmode] at hlength
  rw [hmode, linkAt]
  have hlt : s.2 < 2 := by omega
  interval_cases s.2 <;> simp [cableOf, meshLinks]

/-- In a pair a node that gets its addresses by position carries one cable, and the network has its
number. -/
def Reports.PairFits (reports : Reports) (override : Bool) : Prop :=
  reports.mode = some .direct → ∀ e ∈ reports.withPorts.zipIdx, ¬keeps override e.1 →
    e.1.2.physicalPorts.length ≤ 1 ∧ e.2 < 244

/-- The nodes that get their addresses by position. -/
def Reports.positioned (reports : Reports) (override : Bool) :
    List ((NodeFabric × FabricConfig) × ℕ) :=
  reports.withPorts.zipIdx.filter fun e ↦
    ¬keeps override e.1 ∧ Proposable reports.mode e.2 e.1.2

theorem mem_positioned_iff :
    e ∈ reports.positioned override ↔ e ∈ reports.withPorts.zipIdx ∧ ¬keeps override e.1 ∧
      Proposable reports.mode e.2 e.1.2 := by
  rw [Reports.positioned, List.mem_filter, decide_eq_true_eq]

theorem pairwise_positioned :
    (reports.positioned override).Pairwise fun e e' ↦ e.2 ≠ e'.2 := by
  have hindices : (reports.withPorts.zipIdx.map Prod.snd).Nodup := by
    rw [List.zipIdx_map_snd]
    exact List.nodup_range'
  exact (List.pairwise_map.mp hindices).filter _

/-- Every address that is given by position has a place and a number that the network has. -/
theorem exists_link (hfits : reports.PairFits override) (he : e ∈ reports.positioned override)
    (ht : t ∈ proposedCidrs reports.mode e.2 e.1.2) :
    ∃ s ∈ e.1.2.places, ∃ link, linkAt reports.mode e.2 s.1 s.2 = some link ∧
      t = linkCidr link e.2 ∧ link ≤ 255 ∧ e.2 < 244 := by
  obtain ⟨hmem, hkeep, hproposable⟩ := mem_positioned_iff.mp he
  obtain ⟨s, hs, link, hlink, rfl⟩ := exists_place ht hproposable
  refine ⟨s, hs, link, hlink, rfl, link_le hlink, ?_⟩
  by_cases hmode : reports.mode = some .direct
  · exact (hfits hmode e hmem hkeep).2
  · have := index_lt_three hmode hmem hlink
    omega

/-- The ports of one node have addresses of different numbers on different links. -/
theorem pairwise_proposedCidrs (hfits : reports.PairFits override)
    (he : e ∈ reports.positioned override) :
    (proposedCidrs reports.mode e.2 e.1.2).Pairwise fun t t' ↦
      hostOf t ≠ hostOf t' ∧ networkOf t ≠ networkOf t' := by
  obtain ⟨hmem, hkeep, hproposable⟩ := mem_positioned_iff.mp he
  rw [proposedCidrs, List.pairwise_map]
  refine nodup_places.imp_of_mem fun {s s'} hs hs' hne ↦ ?_
  obtain ⟨link, hlink⟩ := Option.ne_none_iff_exists'.mp (hproposable.2 s hs)
  obtain ⟨link', hlink'⟩ := Option.ne_none_iff_exists'.mp (hproposable.2 s' hs')
  have hlt : e.2 < 244 := by
    obtain ⟨-, -, -, -, -, -, hlt⟩ := exists_link hfits he (List.mem_map.mpr ⟨s, hs, rfl⟩)
    exact hlt
  have hlinks : link ≠ link' := by
    rintro rfl
    exact hne (place_of_link (fun hmode ↦ (hfits hmode e hmem hkeep).1) hs hs' hlink hlink')
  rw [hlink, hlink']
  refine ⟨fun h ↦ hlinks ?_, fun h ↦ hlinks ?_⟩
  · exact (eq_of_hostOf_linkCidr (link_le hlink) (link_le hlink') hlt hlt h).1
  · exact eq_of_networkOf_linkCidr (link_le hlink) (link_le hlink') (by omega) h

/-- The addresses by position can be used exactly when no pair's node has two cables and the
network has an address for each. -/
theorem usable_positioned_iff :
    Usable (reports.positioned override) (fun e ↦ proposedCidrs reports.mode e.2 e.1.2) ↔
      reports.PairFits override := by
  constructor
  · intro h hmode e he hkeep
    have hproposable := proposable_of_direct hmode he
    have hmem : e ∈ reports.positioned override :=
      mem_positioned_iff.mpr ⟨he, hkeep, hproposable⟩
    have hcidr : ∀ g < e.1.2.physicalPorts.length,
        (g, 0) ∈ e.1.2.places ∧ linkAt reports.mode e.2 g 0 = some 177 := by
      intro g hg
      have htwins := ne_nil_of_mem_physicalPorts (List.getElem_mem hg)
      refine ⟨mem_places_iff.mpr ⟨_, List.getElem?_eq_getElem hg, ?_⟩, ?_⟩
      · exact List.length_pos_iff.mpr htwins
      · rw [hmode]
        rfl
    have hpos : 0 < e.1.2.physicalPorts.length := by
      have hperm : e.1.2.physicalPorts.flatten.Perm e.1.2.upPorts := perm_physicalPorts
      have hlength := hperm.length_eq
      rw [length_upPorts (by simp [hmode]) (List.fst_mem_of_mem_zipIdx he), if_pos hmode] at hlength
      rw [List.length_pos_iff]
      intro hnil
      rw [hnil] at hlength
      exact absurd hlength (by decide)
    constructor
    · by_contra hlength
      have htwo : 1 < e.1.2.physicalPorts.length := by omega
      have hnetworks := h.networks e hmem
      rw [proposedCidrs, List.pairwise_map] at hnetworks
      have : Std.Symm fun s s' : ℕ × ℕ ↦
          networkOf (match linkAt reports.mode e.2 s.1 s.2 with
            | some link => linkCidr link e.2
            | none => []) ≠
          networkOf (match linkAt reports.mode e.2 s'.1 s'.2 with
            | some link => linkCidr link e.2
            | none => []) := ⟨fun _ _ ↦ Ne.symm⟩
      refine hnetworks.forall (hcidr 0 hpos).1 (hcidr 1 htwo).1 (by decide) ?_
      rw [(hcidr 0 hpos).2, (hcidr 1 htwo).2]
    · rw [← @hostText_linkCidr_iff e.2 177 (by decide)]
      refine h.host e hmem _ (List.mem_map.mpr ⟨(0, 0), (hcidr 0 hpos).1, ?_⟩)
      rw [(hcidr 0 hpos).2]
  · intro hfits
    refine ⟨fun e he t ht ↦ ?_, ?_, fun e he ↦ ?_⟩
    · obtain ⟨s, -, link, -, rfl, hlink, hlt⟩ := exists_link hfits he ht
      exact (hostText_linkCidr_iff hlink).mpr hlt
    · rw [List.pairwise_flatMap]
      refine ⟨fun e he ↦ (pairwise_proposedCidrs hfits he).imp And.left, ?_⟩
      refine pairwise_positioned.imp_of_mem fun {e e'} he he' hne t ht t' ht' h ↦ ?_
      obtain ⟨s, -, link, -, rfl, hlink, hlt⟩ := exists_link hfits he ht
      obtain ⟨s', -, link', -, rfl, hlink', hlt'⟩ := exists_link hfits he' ht'
      exact hne (eq_of_hostOf_linkCidr hlink hlink' hlt hlt' h).2
    · exact (pairwise_proposedCidrs hfits he).imp And.right

end

/-! ## Plans that can be used -/

section
variable (reports : Reports) (override : Bool)

/-- A configured node has the addresses and the MTUs of its up ports as they are. -/
def KeepsConfigured (plan : FabricPlan) : Prop :=
  ∀ n ∈ plan.nodes, n.status = .configured →
    ∃ e ∈ reports.withPorts, e.1.nodeId = n.nodeId ∧
      (n.assignments.map fun a ↦ (a.netdev, a.cidr, a.mtu)).Perm
        (e.2.upPorts.map fun port ↦ (port.netdev, e.2.current port, e.1.currentMtu port))

/-- There is a plan, its addresses can be used together, and what it keeps it keeps as it is. -/
def PlansUsable : Prop :=
  ∃ plan, planFabric reports override = .ok plan ∧
    Usable plan.addressed (fun n ↦ n.assignments.map Assignment.cidr) ∧
      KeepsConfigured reports plan

/-- What the reports have to be for that. -/
structure Plannable : Prop where
  /-- In a ring the first three nodes have no more physical ports than the drawing. -/
  ring : reports.Ring
  /-- The nodes that are kept have addresses that can be used together as they are. -/
  kept : Usable (reports.withPorts.filter (keeps override)) fun e ↦ e.2.upPorts.map e.2.current
  /-- In a pair a node that is not kept carries one cable and has a number in the network. -/
  pair : reports.PairFits override
  /-- No node that is kept has the address that the position of another gives a port. -/
  apart : ∀ e ∈ reports.withPorts, keeps override e → ∀ port ∈ e.2.upPorts,
    ∀ e' ∈ reports.positioned override, ∀ s ∈ e'.1.2.places, ∀ link,
      linkAt reports.mode e'.2 s.1 s.2 = some link →
        hostOf (e.2.current port) ≠ hostOf (linkCidr link e'.2)

end

section
variable {reports : Reports} {override : Bool} {plan : FabricPlan}

theorem keepsConfigured_of_planFabric (h : planFabric reports override = .ok plan) :
    KeepsConfigured reports plan := by
  intro n hn hstatus
  have hring := ring_of_planFabric h
  obtain ⟨plan', hplan', hnodes⟩ := planFabric_ok override hring
  obtain rfl := Except.ok.inj (h.symm.trans hplan')
  rcases List.mem_append.mp (hnodes.mem_iff.mp hn) with hn | hn
  · obtain ⟨node, -, rfl⟩ := List.mem_map.mp hn
    cases hstatus
  · obtain ⟨e, he, rfl⟩ := List.mem_map.mp hn
    have hkeep : keeps override e.1 = true := by
      rw [status_finish] at hstatus
      split_ifs at hstatus with hkeep
      exact hkeep
    have hok := @assignmentsOf_eq_assigned reports.mode override e fun hmode ↦ hring hmode e he
    rw [hkeep] at hok
    refine ⟨e.1, List.fst_mem_of_mem_zipIdx he, rfl, ?_⟩
    simp only [finish, List.map_map]
    exact perm_assignmentsOf (fun _ _ _ ↦ rfl) hok

/-- The addresses of the plans that are used: those of the nodes that are kept, and those by
position. -/
theorem usable_assigned_iff (hring : reports.Ring) :
    Usable (reports.withPorts.zipIdx.filter fun e ↦
        keeps override e.1 ∨ Proposable reports.mode e.2 e.1.2)
      (fun e ↦ (assigned reports.mode override e).map Assignment.cidr) ↔
    Usable (reports.withPorts.filter (keeps override)) (fun e ↦ e.2.upPorts.map e.2.current) ∧
      Usable (reports.positioned override) (fun e ↦ proposedCidrs reports.mode e.2 e.1.2) ∧
        ∀ e ∈ reports.withPorts.filter (keeps override), ∀ t ∈ e.2.upPorts.map e.2.current,
          ∀ e' ∈ reports.positioned override, ∀ t' ∈ proposedCidrs reports.mode e'.2 e'.1.2,
            hostOf t ≠ hostOf t' := by
  have hperm : (reports.withPorts.zipIdx.filter fun e ↦
      keeps override e.1 ∨ Proposable reports.mode e.2 e.1.2).Perm
      ((reports.withPorts.zipIdx.filter fun e ↦ keeps override e.1) ++
        reports.positioned override) := by
    refine (List.filter_append_perm (fun e ↦ keeps override e.1) _).symm.trans ?_
    rw [List.filter_filter, List.filter_filter]
    refine List.Perm.append (List.Perm.of_eq ?_) (List.Perm.of_eq ?_)
    · exact List.filter_congr fun e _ ↦ by cases keeps override e.1 <;> simp
    · exact List.filter_congr fun e _ ↦ by cases keeps override e.1 <;> simp
  have hkept : ∀ e ∈ reports.withPorts.zipIdx.filter fun e ↦ keeps override e.1,
      ((assigned reports.mode override e).map Assignment.cidr).Perm
        (e.1.2.upPorts.map e.1.2.current) := by
    intro e he
    obtain ⟨hmem, hkeep⟩ := List.mem_filter.mp he
    have hok := @assignmentsOf_eq_assigned reports.mode override e fun hmode ↦ hring hmode e hmem
    rw [hkeep] at hok
    exact perm_assignmentsOf (fun _ _ _ ↦ rfl) hok
  have hpositioned : ∀ e ∈ reports.positioned override,
      ((assigned reports.mode override e).map Assignment.cidr).Perm
        (proposedCidrs reports.mode e.2 e.1.2) := by
    intro e he
    obtain ⟨hmem, hkeep, -⟩ := mem_positioned_iff.mp he
    have hok := @assignmentsOf_eq_assigned reports.mode override e fun hmode ↦ hring hmode e hmem
    rw [Bool.not_eq_true] at hkeep
    rw [hkeep] at hok
    exact List.Perm.of_eq (cidr_assignmentsOf hok)
  have hfst : (reports.withPorts.zipIdx.filter fun e ↦ keeps override e.1).map Prod.fst =
      reports.withPorts.filter (keeps override) := by
    conv_rhs => rw [← List.zipIdx_map_fst 0 reports.withPorts]
    rw [List.filter_map]
    rfl
  rw [usable_congr hperm fun e _ ↦ List.Perm.refl _, usable_append_iff,
    usable_congr (List.Perm.refl _) hkept, usable_congr (List.Perm.refl _) hpositioned, ← hfst,
    usable_map_iff]
  refine and_congr_right fun _ ↦ and_congr_right fun _ ↦ ?_
  constructor
  · intro h e he t ht e' he' t' ht'
    obtain ⟨e₀, he₀, rfl⟩ := List.mem_map.mp he
    exact h e₀ he₀ t ((hkept e₀ he₀).mem_iff.mpr ht) e' he' t'
      ((hpositioned e' he').mem_iff.mpr ht')
  · intro h e he t ht e' he' t' ht'
    exact h e.1 (List.mem_map_of_mem he) t ((hkept e he).mem_iff.mp ht) e' he' t'
      ((hpositioned e' he').mem_iff.mp ht')

/-- **A plan can be used exactly when the reports are plannable.** -/
theorem plansUsable_iff_plannable : PlansUsable reports override ↔ Plannable reports override := by
  constructor
  · rintro ⟨plan, hplan, husable, -⟩
    have hring := ring_of_planFabric hplan
    rw [usable_addressed_iff hring hplan, usable_assigned_iff hring,
      usable_positioned_iff] at husable
    obtain ⟨hkept, hpair, hapart⟩ := husable
    refine ⟨hring, hkept, hpair, fun e he hkeep port hport e' he' s hs link hlink ↦ ?_⟩
    refine hapart e (List.mem_filter.mpr ⟨he, hkeep⟩) _ (List.mem_map_of_mem hport) e' he' _ ?_
    exact List.mem_map.mpr ⟨s, hs, by rw [hlink]⟩
  · rintro ⟨hring, hkept, hpair, hapart⟩
    obtain ⟨plan, hplan, -⟩ := planFabric_ok override hring
    refine ⟨plan, hplan, ?_, keepsConfigured_of_planFabric hplan⟩
    rw [usable_addressed_iff hring hplan, usable_assigned_iff hring, usable_positioned_iff]
    refine ⟨hkept, hpair, fun e he t ht e' he' t' ht' ↦ ?_⟩
    obtain ⟨hmem, hkeep⟩ := List.mem_filter.mp he
    obtain ⟨port, hport, rfl⟩ := List.mem_map.mp ht
    obtain ⟨s, hs, link, hlink, rfl⟩ := exists_place ht' (mem_positioned_iff.mp he').2.2
    exact hapart e hmem hkeep port hport e' he' s hs link hlink

end

/-! ## Three nodes in a ring -/

/-- A port that is up. -/
private def cabled (netdev : String) : RoCEPort where
  hca := "roce".toList
  netdev := netdev.toList
  isUp := true

/-- Four ports of which no two are twins, since the second path of the machine is not the second
domain. -/
private def fourPorts (nodeId : Text) : NodeFabric where
  nodeId := nodeId
  name := "spark"
  fabric := some {
    mode := some .mesh
    ports := [cabled "enp1s0f0np0", cabled "enp1s0f1np1", cabled "enP4p1s0f0np0",
      cabled "enP4p1s0f1np1"] }

private def threeNodes : Reports where
  nodes := [fourPorts ['1'], fourPorts ['2'], fourPorts ['3']]
  ids_nodup := by decide

/-- A ring whose nodes have more than two physical ports has no plan. -/
theorem planFabric_raises : ¬∀ reports override, PlansUsable reports override := by
  intro h
  obtain ⟨plan, hplan, -⟩ := h threeNodes false
  have hraises : planFabric threeNodes false = .error .indexError := by rfl
  cases hplan.symm.trans hraises

end SparkPulse.Fabric
