import SparkPulse.Deletion.Guards

/-!
# What the guards of deletions see

Whether a model or an image is in use is a question about every deployment that has not settled and
every container on the nodes that the deletion touches, under all the names an image goes by. The
guards answer it from some of the statuses, from the containers of one node, and from one spelling
of a name. They refuse whenever they should exactly when, of the users there are, one is of the kind
they look for.
-/

open SparkPulse.Runtime (strip)

namespace SparkPulse.Deletion

/-! ## What it is to be in use -/

/-- The statuses of a deployment that has not settled. -/
def unsettled : List String := ["planned", "pending", "pulling", "starting", "running", "degraded"]

/-- Two references for one image: a node holds an image under both, or they name one digest of one
repository, whatever registry it is pulled from. -/
inductive Cluster.SameImage (s : Cluster) : String → String → Prop
  | refl (ref : String) : s.SameImage ref ref
  | named {ref ref' node : String} {image : Image} (there : image ∈ s.images node)
      (h : ref ∈ image.names) (h' : ref' ∈ image.names) : s.SameImage ref ref'
  | located {ref ref' : String}
      (repository : (locationFor ref "").repository = (locationFor ref' "").repository)
      (digest : (locationFor ref "").digest = (locationFor ref' "").digest)
      (pinned : (locationFor ref "").digest ≠ "") : s.SameImage ref ref'
  | trans {ref ref' ref'' : String} (h : s.SameImage ref ref') (h' : s.SameImage ref' ref'') :
      s.SameImage ref ref''

/-- A deployment that has not settled is of the model, or a container of it runs on a node. -/
def Cluster.ModelInUse (s : Cluster) (model : String) (nodes : List String) : Prop :=
  (∃ dep ∈ s.records, dep.status ∈ unsettled ∧ dep.model = model) ∨
  ∃ node ∈ nodes, ∃ c ∈ s.containers node, c.status = "running" ∧ c.model = model

/-- A deployment that has not settled is of the image, or a container of it runs on a node. -/
def Cluster.ImageInUse (s : Cluster) (ref : String) (nodes : List String) : Prop :=
  (∃ dep ∈ s.records, dep.status ∈ unsettled ∧ s.SameImage dep.guardImage ref) ∨
  ∃ node ∈ nodes, ∃ c ∈ s.containers node, c.status = "running" ∧
    (s.SameImage c.image ref ∨ c.imageLabel ≠ "" ∧ s.SameImage c.imageLabel ref)

/-- No removal is sent. -/
def Refuses (outcome : Except String (List Removal)) : Prop := ∃ reason, outcome = .error reason

/-! ## What the guards look for -/

/-- A record that can be read is running or pending, and its parameters or else its recipe, as the
recipes are now, name the model up to case. -/
def Cluster.ModelSeen (m : Machine) (s : Cluster) (model : String) : Prop :=
  s.readable = true ∧ ∃ recipes, s.recipes = some recipes ∧ ∃ dep ∈ s.records,
    (dep.status = "running" ∨ dep.status = "pending") ∧
      guardModel recipes dep ≠ "" ∧ guardModel recipes dep ≠ "unknown" ∧
      m.lower (guardModel recipes dep) = m.lower model

/-- A record that can be read is running, pending, starting or pulling with an image of that very
name, or a running container of the control node is labelled with it. -/
def Cluster.ImageSeen (s : Cluster) (ref : String) : Prop :=
  (s.readable = true ∧ ∃ dep ∈ s.records,
    dep.status ∈ activeDeploymentStates ∧ dep.guardImage = ref) ∨
  s.listable = true ∧ ∃ c ∈ s.containers "", c.status = "running" ∧ c.guardImage = ref

/-! ## Holders -/

section
variable {d : AList fun _ : String ↦ List String} {key key' holder : String}

theorem holders_addHolder : holders (addHolder d key' holder) key =
    if key = key' then holders d key ++ [holder] else holders d key := by
  unfold addHolder
  split_ifs with h
  · subst h
    rw [holders, AList.lookup_insert]
    rfl
  · rw [holders, AList.lookup_insert_ne h, holders]

theorem holders_addHolder_ne_nil :
    holders (addHolder d key' holder) key ≠ [] ↔ holders d key ≠ [] ∨ key' = key := by
  rw [holders_addHolder]
  split_ifs with h
  · exact ⟨fun _ ↦ .inr h.symm, fun _ ↦ List.append_ne_nil_of_right_ne_nil _ (List.cons_ne_nil _ _)⟩
  · exact (or_iff_left fun heq ↦ h heq.symm).symm

theorem holders_claim_ne_nil (hkey : key ≠ "") :
    holders (claim d key' holder) key ≠ [] ↔ holders d key ≠ [] ∨ key' = key := by
  unfold claim
  split_ifs with hempty hmem
  · exact (or_iff_left fun heq ↦ hkey (heq.symm.trans hempty)).symm
  · refine ⟨.inl, fun h ↦ h.elim id fun heq ↦ ?_⟩
    rw [← heq]
    exact List.ne_nil_of_mem hmem
  · exact holders_addHolder_ne_nil

/-- Who holds a key after a loop that adds holders: one step decides for all. -/
theorem holders_foldl {α : Type} {step : (AList fun _ : String ↦ List String) → α →
    AList fun _ : String ↦ List String} {P : α → Prop}
    (hstep : ∀ d a, holders (step d a) key ≠ [] ↔ holders d key ≠ [] ∨ P a) (as : List α) :
    holders (as.foldl step d) key ≠ [] ↔ holders d key ≠ [] ∨ ∃ a ∈ as, P a := by
  induction as generalizing d with
  | nil => simp
  | cons a as ih =>
    rw [List.foldl_cons, ih, hstep, or_assoc]
    simp only [List.mem_cons, exists_eq_or_imp]

theorem holders_empty : holders ∅ key = [] := by
  rw [holders, AList.lookup_empty]
  rfl

end

/-! ## The guard of models -/

section
variable (m : Machine) (s : Cluster)

theorem modelsInUseStep_ne_nil (lower : String → String) (recipes : List (String × String))
    (key : String) (d : AList fun _ : String ↦ List String) (dep : Record) :
    holders (modelsInUseStep lower recipes d dep) key ≠ [] ↔ holders d key ≠ [] ∨
      (dep.status = "running" ∨ dep.status = "pending") ∧ guardModel recipes dep ≠ "" ∧
        guardModel recipes dep ≠ "unknown" ∧ lower (guardModel recipes dep) = key := by
  unfold modelsInUseStep
  dsimp only
  split_ifs with hstatus hmodel
  · refine (or_iff_left fun h ↦ ?_).symm
    exact h.1.elim hstatus.1 hstatus.2
  · refine (or_iff_left fun h ↦ ?_).symm
    exact hmodel.elim h.2.1 h.2.2.1
  · rw [holders_addHolder_ne_nil]
    have hstatus : dep.status = "running" ∨ dep.status = "pending" := by tauto
    have hmodel : guardModel recipes dep ≠ "" ∧ guardModel recipes dep ≠ "unknown" :=
      not_or.mp hmodel
    exact or_congr_right ⟨fun h ↦ ⟨hstatus, hmodel.1, hmodel.2, h⟩, fun h ↦ h.2.2.2⟩

theorem modelsInUse_ne_nil (model : String) :
    holders (modelsInUse m s) (m.lower model) ≠ [] ↔ s.ModelSeen m model := by
  unfold modelsInUse Cluster.ModelSeen
  rcases s.readable with _ | _
  · simp [holders_empty]
  rcases s.recipes with _ | recipes
  · simp [holders_empty]
  · rw [holders_foldl (modelsInUseStep_ne_nil m.lower recipes (m.lower model)), holders_empty]
    simp

/-- A model is not deleted when the guard sees a user, or when there is nothing to delete. -/
theorem deleteModel_refuses (model : String) (nodes : List String) :
    Refuses (deleteModel m s model nodes) ↔
      s.ModelSeen m model ∨ s.cached model = false ∧ nodes = [] := by
  rw [← modelsInUse_ne_nil]
  unfold Refuses deleteModel
  dsimp only
  split_ifs with husers hnothing
  · exact ⟨fun _ ↦ .inl husers, fun _ ↦ ⟨_, rfl⟩⟩
  · exact ⟨fun _ ↦ .inr hnothing, fun _ ↦ ⟨_, rfl⟩⟩
  · refine ⟨fun ⟨_, h⟩ ↦ ?_, fun h ↦ (h.elim husers hnothing).elim⟩
    cases h

/-! ## The guard of images -/

theorem claimRecord_ne_nil {key : String} (hkey : key ≠ "")
    (d : AList fun _ : String ↦ List String) (dep : Record) :
    holders (claimRecord d dep) key ≠ [] ↔ holders d key ≠ [] ∨
      dep.status ∈ activeDeploymentStates ∧ dep.guardImage = key := by
  unfold claimRecord
  split_ifs with hstatus
  · rw [holders_claim_ne_nil hkey, and_iff_right hstatus]
  · exact (or_iff_left fun h ↦ hstatus h.1).symm

theorem claimContainer_ne_nil {key : String} (hkey : key ≠ "")
    (d : AList fun _ : String ↦ List String) (c : Container) :
    holders (claimContainer d c) key ≠ [] ↔ holders d key ≠ [] ∨
      c.status = "running" ∧ c.guardImage = key := by
  unfold claimContainer
  split_ifs with hstatus
  · rw [holders_claim_ne_nil hkey, and_iff_right hstatus]
  · exact (or_iff_left fun h ↦ hstatus h.1).symm

theorem imagesInUse_ne_nil {ref : String} (href : ref ≠ "") :
    holders (imagesInUse s) ref ≠ [] ↔ s.ImageSeen ref := by
  unfold imagesInUse Cluster.ImageSeen
  rw [holders_foldl (claimContainer_ne_nil href), holders_foldl (claimRecord_ne_nil href),
    holders_empty]
  rcases s.readable with _ | _ <;> rcases s.listable with _ | _ <;> simp

/-- An image is not deleted when the guard sees a user, or when there is nothing to delete. -/
theorem deleteImage_refuses (ref : String) (nodes : List String) :
    Refuses (deleteImage m s ref nodes) ↔ strip ref = "" ∨ s.ImageSeen (strip ref) ∨
      imageInfo s (strip ref) = none ∧ peers nodes = [] := by
  unfold Refuses deleteImage
  dsimp only
  by_cases hempty : strip ref = ""
  · rw [if_pos hempty]
    exact ⟨fun _ ↦ .inl hempty, fun _ ↦ ⟨_, rfl⟩⟩
  rw [if_neg hempty, or_iff_right hempty, ← imagesInUse_ne_nil s hempty]
  by_cases husers : holders (imagesInUse s) (strip ref) ≠ []
  · rw [if_pos husers]
    exact ⟨fun _ ↦ .inl husers, fun _ ↦ ⟨_, rfl⟩⟩
  rw [if_neg husers, or_iff_right husers]
  rcases imageInfo s (strip ref) with _ | image
  · rcases peers nodes with _ | ⟨node, nodes⟩ <;> simp
  · simp

end

/-! ## Both guards -/

/-- The nodes that an image is removed from. -/
def imageTargets (nodes : List String) : List String := "" :: peers nodes

/-- **The guards refuse for the users they see.** A deletion is refused whenever what it deletes is
in use exactly when, if it is in use, the guard sees some user of it, or there is nothing to
delete. -/
theorem guards_complete_iff (m : Machine) (s : Cluster) :
    (∀ model nodes, (s.ModelInUse model (modelTargets m nodes) →
        Refuses (deleteModel m s model nodes)) ↔
      (s.ModelInUse model (modelTargets m nodes) →
        s.ModelSeen m model ∨ s.cached model = false ∧ nodes = [])) ∧
    ∀ ref nodes, (s.ImageInUse (strip ref) (imageTargets nodes) →
        Refuses (deleteImage m s ref nodes)) ↔
      (s.ImageInUse (strip ref) (imageTargets nodes) → strip ref = "" ∨
        s.ImageSeen (strip ref) ∨ imageInfo s (strip ref) = none ∧ peers nodes = []) :=
  ⟨fun model nodes ↦ by rw [deleteModel_refuses], fun ref nodes ↦ by rw [deleteImage_refuses]⟩

/-- **A model that is just starting is deleted.** The record of a deployment is persisted as starting
and its model is cached: the removal is sent. -/
theorem deletes_starting_model : ¬∀ (m : Machine) (s : Cluster) model nodes,
    s.ModelInUse model (modelTargets m nodes) → Refuses (deleteModel m s model nodes) := by
  intro h
  let plan : Record :=
    { id := "d", status := "", paramsModel := some "org/model", model := "org/model" }
  let s : Cluster :=
    { records := persistPlannedRecord plan "starting" [], cached := fun model ↦ model = "org/model" }
  obtain ⟨reason, hreason⟩ := h ⟨id, fun _ ↦ true, "", ""⟩ s "org/model" []
    (.inl ⟨_, List.mem_singleton_self _, by decide, rfl⟩)
  have hsent : deleteModel ⟨id, fun _ ↦ true, "", ""⟩ s "org/model" [] =
      .ok [⟨"", ["org/model"]⟩] := by decide +kernel
  rw [hsent] at hreason
  cases hreason

end SparkPulse.Deletion
