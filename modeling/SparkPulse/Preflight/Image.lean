import Mathlib.Data.List.Induction
import SparkPulse.Deletion.Guards

/-!
# What the pre-flight says of the image

The pre-flight asks every node it reaches for the planned image and compares what is there by
digest. The pull phase of the deploy asks again, by name, and pulls where nothing is found. Here is
exactly when the first announces what the second does.

A node is whatever identifies one, and its daemon is what it finds under a name. The texts of the
report are left out.
-/

namespace SparkPulse.Preflight

open Deletion (Image Machine locationFor loopbackReference orElse partition)

/-! ## Daemons -/

structure ImageInfo extends Image where
  sizeBytes : ℕ := 0
  deriving DecidableEq, Repr

/-- What a node finds under a name, or why it could not be asked. -/
abbrev Daemon := String → Except String (Option ImageInfo)

/-- `image_exists` -/
def imageExists (d : Daemon) (ref : String) : Except String Bool :=
  if ref = "" then .ok false else (d ref).map Option.isSome

/-- `[str(entry).partition("@")[2] for entry in repo_digests]` -/
def digestsOf (image : ImageInfo) : List String :=
  image.repoDigests.map fun entry ↦ (partition '@' entry).2.getD ""

/-! ## The pre-flight -/

/-- What one node holds for the planned image. -/
structure Row where
  present : Bool := false
  error : String := ""
  imageId : String := ""
  digests : List String := []
  sizeBytes : ℕ := 0
  isMatch : Bool := false

/-- `digests[0] if digests else ""` -/
def Row.digest (row : Row) : String := row.digests.head?.getD ""

/-- What a node answers, as a row. -/
def gather (ref : String) (d : Daemon) : Row :=
  match d ref with
  | .error text => { error := String.ofList (text.toList.take 300) }
  | .ok none => {}
  | .ok (some image) =>
    { present := true, imageId := image.id, digests := digestsOf image
      sizeBytes := image.sizeBytes }

/-- What is known of the image once the control node was looked at. -/
structure ControlFacts where
  wantedDigest : String
  imageId : String := ""
  holdsIt : Bool := false
  size : ℕ

def ControlFacts.note (facts : ControlFacts) (row : Row) : ControlFacts :=
  let wantedDigest := orElse facts.wantedDigest row.digest
  { wantedDigest, imageId := row.imageId
    holdsIt := row.present && (wantedDigest = "" || wantedDigest ∈ row.digests)
    size := if facts.size = 0 then row.sizeBytes else facts.size }

/-- Whether a row carries the wanted digest. A daemon that reports no digest at all is believed when
it holds what the control node holds. -/
def ControlFacts.isMatch (facts : ControlFacts) (isControl : Bool) (row : Row) : Bool :=
  if row.present then
    let direct := if facts.wantedDigest ≠ "" then decide (facts.wantedDigest ∈ row.digests)
      else isControl || facts.imageId = ""
    if direct || isControl || !facts.holdsIt then direct
    else row.digests = [] && facts.imageId ≠ "" && row.imageId = facts.imageId
  else false

def assumedImageBytes : ℕ := 26843545600

inductive Status
  | pass
  | warn
  | fail
  deriving DecidableEq, Repr

/-- What the report says of the image on one node. -/
structure Check where
  status : Status
  delayBytes : ℕ := 0
  pullRequired : Bool
  digest : String := ""
  deriving DecidableEq, Repr

section Nodes

variable {Node : Type} [DecidableEq Node] (isControl : Node → Bool) (daemons : Node → Daemon)
  (ref : String) (planSize : ℕ) (targets : List Node)

def controlFacts : ControlFacts :=
  targets.foldl
    (fun facts n ↦ if isControl n then facts.note (gather ref (daemons n)) else facts)
    { wantedDigest := (locationFor ref "").digest, size := planSize }

/-- `_image_rows`, of one target. -/
def imageRow (n : Node) : Option Row :=
  if ref = "" ∨ n ∉ targets then none
  else
    let row := gather ref (daemons n)
    some { row with
      isMatch := (controlFacts isControl daemons ref planSize targets).isMatch (isControl n) row }

/-- The bytes that a node without the image is expected to transfer. -/
def imageBytes : ℕ :=
  if ref = "" then 0
  else
    let size := (controlFacts isControl daemons ref planSize targets).size
    if size = 0 then assumedImageBytes else size

/-- `_check_image`, of a target. -/
def checkImage (n : Node) : Check :=
  let delayBytes := imageBytes isControl daemons ref planSize targets
  let row := (imageRow isControl daemons ref planSize targets n).getD {}
  if row.error ≠ "" then { status := .warn, delayBytes, pullRequired := true }
  else if row.isMatch then { status := .pass, pullRequired := false, digest := row.digest }
  else if row.present then
    { status := .warn, delayBytes, pullRequired := true, digest := row.digest }
  else { status := .warn, delayBytes, pullRequired := true }

end Nodes

/-! ## The pull phase -/

section Pull

variable (registry : Option Machine) (ref : String)

/-- `_registry_copy`: the name of a copy out of the control node's registry, empty where there is no
registry. -/
def registryCopy : String := (registry.map fun m ↦ loopbackReference m ref).getD ""

/-- `_image_on_node`: the name the image is present under, or the empty one. -/
def imageOnNode (d : Daemon) : Except String String := do
  if ← imageExists d ref then
    return ref
  let copy := registryCopy registry ref
  if copy = "" then
    return ""
  if ← imageExists d copy then
    return copy
  return ""

/-- `_pull_image_if_missing` -/
def pulls (d : Daemon) : Bool :=
  match imageOnNode registry ref d with
  | .ok name => name = ""
  | .error _ => true

variable {Node : Type} [DecidableEq Node]

/-- `_pull_targets`: each distinct node, workers first. -/
def pullTargets (ranks : List Node) : List Node :=
  ranks.reverse.foldl (fun seen n ↦ if n ∈ seen then seen else seen ++ [n]) []

/-- The nodes that the phase pulls on; what a pull leaves on a node is a parameter. -/
def pullPhase (fetch : Node → Daemon → Daemon) (daemons : Node → Daemon) : List Node → List Node
  | [] => []
  | n :: nodes =>
    if pulls registry ref (daemons n) then
      n :: pullPhase fetch (Function.update daemons n (fetch n (daemons n))) nodes
    else pullPhase fetch daemons nodes

theorem nodup_pullTargets (ranks : List Node) : (pullTargets ranks).Nodup := by
  unfold pullTargets
  generalize ranks.reverse = l
  suffices h : ∀ seen : List Node, seen.Nodup →
      (l.foldl (fun seen n ↦ if n ∈ seen then seen else seen ++ [n]) seen).Nodup from h [] .nil
  induction l with
  | nil => exact fun _ h ↦ h
  | cons n l ih =>
    intro seen hseen
    refine ih _ ?_
    dsimp only
    split_ifs with hn
    · exact hseen
    · exact List.nodup_append.mpr ⟨hseen, List.nodup_singleton n, fun m hm m' hm' heq ↦ by
        obtain rfl := List.mem_singleton.mp hm'
        exact hn (heq ▸ hm)⟩

theorem mem_pullTargets {n : Node} {ranks : List Node} : n ∈ pullTargets ranks ↔ n ∈ ranks := by
  unfold pullTargets
  have hranks : n ∈ ranks ↔ n ∈ ranks.reverse := List.mem_reverse.symm
  rw [hranks]
  generalize ranks.reverse = l
  suffices h : ∀ seen : List Node,
      n ∈ l.foldl (fun seen n ↦ if n ∈ seen then seen else seen ++ [n]) seen ↔ n ∈ seen ∨ n ∈ l by
    simpa using h []
  induction l with
  | nil => simp
  | cons m l ih =>
    intro seen
    rw [List.foldl_cons, ih, List.mem_cons]
    split_ifs with hm
    · constructor
      · rintro (h | h)
        · exact .inl h
        · exact .inr (.inr h)
      · rintro (h | rfl | h)
        · exact .inl h
        · exact .inl hm
        · exact .inr h
    · rw [List.mem_append, List.mem_singleton]
      tauto

/-- A pull changes one node only, so each node is decided on what it held at the start. -/
theorem mem_pullPhase (fetch : Node → Daemon → Daemon) {daemons : Node → Daemon} {n : Node}
    {nodes : List Node} (hnodes : nodes.Nodup) :
    n ∈ pullPhase registry ref fetch daemons nodes ↔
      n ∈ nodes ∧ pulls registry ref (daemons n) = true := by
  induction nodes generalizing daemons with
  | nil => simp [pullPhase]
  | cons m nodes ih =>
    obtain ⟨hm, hnodes⟩ := List.nodup_cons.mp hnodes
    rw [pullPhase, List.mem_cons]
    split_ifs with hpulls
    · rw [List.mem_cons, ih hnodes]
      by_cases hn : n = m
      · subst hn
        simp [hpulls]
      · rw [Function.update_of_ne hn]
        tauto
    · rw [ih hnodes]
      constructor
      · rintro ⟨hn, hpulls'⟩
        exact ⟨.inr hn, hpulls'⟩
      · rintro ⟨rfl | hn, hpulls'⟩
        · exact absurd hpulls' hpulls
        · exact ⟨hn, hpulls'⟩

theorem imageExists_eq_true_iff {d : Daemon} {ref : String} :
    imageExists d ref = .ok true ↔ ref ≠ "" ∧ ∃ image, d ref = .ok (some image) := by
  rw [imageExists]
  split_ifs with href
  · simp [href]
  · rcases d ref with text | _ | image
    · simp [Except.map]
    · simp [Except.map]
    · simp [Except.map, href]

theorem pulls_nil (d : Daemon) : pulls registry "" d = true := by
  have hcopy : registryCopy registry "" = "" := by
    have hrepository : (locationFor "" "").repository = "" := by decide +kernel
    rcases registry with _ | m
    · rfl
    · rw [registryCopy, Option.map_some, Option.getD_some, loopbackReference]
      simp [hrepository]
  simp [pulls, imageOnNode, imageExists, hcopy, bind, Except.bind, pure, Except.pure]

/-- Nothing is pulled where the image is found under its own name, or else under its copy's. -/
theorem pulls_eq_false_iff {d : Daemon} (href : ref ≠ "") : pulls registry ref d = false ↔
    (∃ image, d ref = .ok (some image)) ∨ d ref = .ok none ∧ registryCopy registry ref ≠ "" ∧
      ∃ image, d (registryCopy registry ref) = .ok (some image) := by
  rw [pulls, imageOnNode, imageExists, if_neg href]
  rcases d ref with text | _ | image
  · simp [Except.map, bind, Except.bind]
  · by_cases hcopy : registryCopy registry ref = ""
    · simp [Except.map, bind, Except.bind, hcopy, pure, Except.pure]
    · rcases h : d (registryCopy registry ref) with text | _ | image
      · simp [Except.map, bind, Except.bind, imageExists, hcopy, h]
      · simp [Except.map, bind, Except.bind, imageExists, hcopy, h, pure, Except.pure]
      · simp [Except.map, bind, Except.bind, imageExists, hcopy, h, pure, Except.pure]
  · simp [Except.map, bind, Except.bind, pure, Except.pure, href]

end Pull

/-! ## When they agree -/

section Agreement

variable {Node : Type} (isControl : Node → Bool) (daemons : Node → Daemon)
  (ref : String) (planSize : ℕ) (targets : List Node)

/-- The first digest that a control node reports of its image. -/
def controlDigest : String :=
  (targets.findSome? fun n ↦
    if isControl n ∧ (gather ref (daemons n)).digest ≠ "" then some (gather ref (daemons n)).digest
    else none).getD ""

/-- What the nodes are compared with: the digest of the reference, or else the one that the control
node has. -/
def wantedDigest : String :=
  orElse (locationFor ref "").digest (controlDigest isControl daemons ref targets)

/-- What the control node holds. -/
def controlRow : Row :=
  ((targets.filter isControl).getLast?.map fun n ↦ gather ref (daemons n)).getD {}

theorem controlFacts_concat (n : Node) :
    controlFacts isControl daemons ref planSize (targets ++ [n]) =
      if isControl n then
        (controlFacts isControl daemons ref planSize targets).note (gather ref (daemons n))
      else controlFacts isControl daemons ref planSize targets := by
  rw [controlFacts, List.foldl_append, List.foldl_cons, List.foldl_nil, ← controlFacts]

theorem orElse_assoc (a b c : String) : orElse (orElse a b) c = orElse a (orElse b c) := by
  unfold orElse
  split_ifs <;> rfl

/-- A later control node changes nothing that was found. -/
theorem controlDigest_concat (n : Node) :
    controlDigest isControl daemons ref (targets ++ [n]) =
      orElse (controlDigest isControl daemons ref targets)
        (if isControl n then (gather ref (daemons n)).digest else "") := by
  unfold controlDigest
  rw [List.findSome?_append]
  rcases h : targets.findSome? _ with _ | digest
  · by_cases hcontrol : isControl n = true <;>
      by_cases hdigest : (gather ref (daemons n)).digest = "" <;>
      simp [hcontrol, hdigest, orElse]
  · obtain ⟨m, -, hm⟩ := List.exists_of_findSome?_eq_some h
    split_ifs at hm with hdigest
    obtain rfl := Option.some.inj hm
    simp [orElse, hdigest.2]

theorem wantedDigest_concat (n : Node) :
    wantedDigest isControl daemons ref (targets ++ [n]) =
      if isControl n then
        orElse (wantedDigest isControl daemons ref targets) (gather ref (daemons n)).digest
      else wantedDigest isControl daemons ref targets := by
  rw [wantedDigest, controlDigest_concat, ← orElse_assoc, ← wantedDigest]
  split_ifs
  · rfl
  · unfold orElse
    split_ifs with h
    · exact h.symm
    · rfl

theorem controlRow_concat (n : Node) :
    controlRow isControl daemons ref (targets ++ [n]) =
      if isControl n then gather ref (daemons n) else controlRow isControl daemons ref targets := by
  unfold controlRow
  rw [List.filter_append]
  split_ifs with hcontrol
  · rw [List.filter_cons_of_pos hcontrol, List.filter_nil, List.getLast?_concat]
    rfl
  · rw [List.filter_cons_of_neg hcontrol, List.filter_nil, List.append_nil]

/-- The facts are those of the control node that was looked at last, and of the first digest. -/
theorem controlFacts_eq :
    (controlFacts isControl daemons ref planSize targets).wantedDigest =
        wantedDigest isControl daemons ref targets ∧
      (controlFacts isControl daemons ref planSize targets).imageId =
        (controlRow isControl daemons ref targets).imageId ∧
      ((controlFacts isControl daemons ref planSize targets).holdsIt = true ↔
        (controlRow isControl daemons ref targets).present = true ∧
        (wantedDigest isControl daemons ref targets = "" ∨
          wantedDigest isControl daemons ref targets ∈
            (controlRow isControl daemons ref targets).digests)) := by
  induction targets using List.reverseRecOn with
  | nil => simp [controlFacts, wantedDigest, controlDigest, controlRow, orElse]
  | append_singleton targets n ih =>
    obtain ⟨hwanted, hid, hholds⟩ := ih
    rw [controlFacts_concat, wantedDigest_concat, controlRow_concat]
    split_ifs with hcontrol
    · simp [ControlFacts.note, hwanted]
    · exact ⟨hwanted, hid, hholds⟩

/-- An image that counts as the one wanted, on a node that has it under the reference's own name:
it carries the digest, or nothing says which one that is, or it reports no digest and is the image
of the control node. -/
def Carries (n : Node) (image : ImageInfo) : Prop :=
  let wanted := wantedDigest isControl daemons ref targets
  let control := controlRow isControl daemons ref targets
  wanted ≠ "" ∧ wanted ∈ digestsOf image ∨
    wanted = "" ∧ (isControl n = true ∨ control.imageId = "") ∨
    isControl n = false ∧ image.repoDigests = [] ∧ image.id = control.imageId ∧
      control.imageId ≠ "" ∧ control.present = true ∧ (wanted = "" ∨ wanted ∈ control.digests)

/-- The image of a node is under its own name if it is there at all, and is the one wanted. -/
structure Foreseen (registry : Option Machine) (n : Node) : Prop where
  carries : ∀ image, daemons n ref = .ok (some image) →
    Carries isControl daemons ref targets n image
  noCopy : daemons n ref = .ok none → registryCopy registry ref ≠ "" →
    ∀ image, daemons n (registryCopy registry ref) ≠ .ok (some image)

theorem isMatch_iff (n : Node) :
    (controlFacts isControl daemons ref planSize targets).isMatch (isControl n)
        (gather ref (daemons n)) = true ↔
      ∃ image, daemons n ref = .ok (some image) ∧
        Carries isControl daemons ref targets n image := by
  obtain ⟨hwanted, hid, hholds⟩ := controlFacts_eq isControl daemons ref planSize targets
  rcases h : daemons n ref with text | _ | image
  · simp [ControlFacts.isMatch, gather, h]
  · simp [ControlFacts.isMatch, gather, h]
  · have hdigests : digestsOf image = [] ↔ image.repoDigests = [] := List.map_eq_nil_iff
    simp only [ControlFacts.isMatch, gather, h, Except.ok.injEq, Option.some.injEq, exists_eq_left',
      Carries, hwanted, hid, if_true, ← hdigests]
    by_cases hw : wantedDigest isControl daemons ref targets = ""
    · simp only [hw, ne_eq, not_true, if_false, true_or, and_true] at hholds ⊢
      grind
    · simp only [hw, ne_eq, not_false_iff, if_true, false_or] at hholds ⊢
      grind

/-- A row that matches is no error. -/
theorem error_of_isMatch {facts : ControlFacts} {control : Bool} {d : Daemon}
    (h : facts.isMatch control (gather ref d) = true) : (gather ref d).error = "" := by
  rcases hd : d ref with text | _ | image
  · simp [ControlFacts.isMatch, gather, hd] at h
  · simp [gather, hd]
  · simp [gather, hd]

/-- On one node, the pre-flight sees the wanted image where the pull phase finds one, and only
there. -/
theorem foreseen_iff (registry : Option Machine) (n : Node) :
    Foreseen isControl daemons ref targets registry n ↔
      ((∃ image, daemons n ref = .ok (some image) ∧
          Carries isControl daemons ref targets n image) ↔
        (∃ image, daemons n ref = .ok (some image)) ∨ daemons n ref = .ok none ∧
          registryCopy registry ref ≠ "" ∧
          ∃ image, daemons n (registryCopy registry ref) = .ok (some image)) := by
  rcases h : daemons n ref with text | _ | image
  · simp only [reduceCtorEq, false_and, exists_false, or_false, iff_true]
    exact ⟨fun _ h' ↦ (nomatch h.symm.trans h'), fun h' ↦ (nomatch h.symm.trans h')⟩
  · simp only [Except.ok.injEq, reduceCtorEq, false_and, exists_false, false_or, true_and,
      false_iff, not_and, not_exists]
    exact ⟨fun hforeseen ↦ hforeseen.noCopy h, fun hcopy ↦
      ⟨fun _ h' ↦ (nomatch h.symm.trans h'), fun _ ↦ hcopy⟩⟩
  · simp only [Except.ok.injEq, Option.some.injEq, exists_eq_left', exists_eq', true_or, iff_true]
    refine ⟨fun hforeseen ↦ hforeseen.carries image h, fun hcarries ↦
      ⟨fun image' h' ↦ ?_, fun h' ↦ (nomatch h.symm.trans h')⟩⟩
    obtain rfl : image = image' := by
      rw [h] at h'
      exact Option.some.inj (Except.ok.inj h')
    exact hcarries

variable [DecidableEq Node]

theorem pullRequired_eq_false_iff {n : Node} (hn : n ∈ targets) :
    (checkImage isControl daemons ref planSize targets n).pullRequired = false ↔
      ref ≠ "" ∧ ∃ image, daemons n ref = .ok (some image) ∧
        Carries isControl daemons ref targets n image := by
  rw [← isMatch_iff isControl daemons ref planSize targets n, checkImage, imageRow]
  by_cases href : ref = ""
  · simp [href]
  · simp only [href, hn, not_true, or_self, if_false, Option.getD_some]
    constructor
    · intro h
      split_ifs at h with herror hmatch
      exact ⟨href, hmatch⟩
    · rintro ⟨-, hmatch⟩
      rw [if_neg (not_not.mpr (error_of_isMatch ref hmatch)), if_pos hmatch]

/-- No image is a reason not to deploy. -/
theorem checkImage_status_ne_fail (n : Node) :
    (checkImage isControl daemons ref planSize targets n).status ≠ .fail := by
  unfold checkImage
  dsimp only
  split_ifs <;> simp

end Agreement

/-- **What the pre-flight says of the image comes true**, on every node that it reaches, exactly
when each of them is foreseen. -/
theorem predicts_iff {Node : Type} [DecidableEq Node] (isControl : Node → Bool)
    (daemons : Node → Daemon) (fetch : Node → Daemon → Daemon) (registry : Option Machine)
    (ref : String) (planSize : ℕ) (ranks : List Node) (reachable : Node → Bool) :
    (∀ n ∈ ranks.filter reachable,
        ((checkImage isControl daemons ref planSize (ranks.filter reachable) n).pullRequired =
            true ↔
          n ∈ pullPhase registry ref fetch daemons (pullTargets ranks)) ∧
        (n ∉ pullPhase registry ref fetch daemons (pullTargets ranks) →
          (checkImage isControl daemons ref planSize (ranks.filter reachable) n).status ≠ .fail)) ↔
      (ref ≠ "" → ∀ n ∈ ranks.filter reachable,
        Foreseen isControl daemons ref (ranks.filter reachable) registry n) := by
  set targets := ranks.filter reachable with htargets
  have hphase : ∀ n ∈ targets, n ∉ pullPhase registry ref fetch daemons (pullTargets ranks) ↔
      pulls registry ref (daemons n) = false := fun n hn ↦ by
    rw [mem_pullPhase _ _ _ (nodup_pullTargets ranks), mem_pullTargets,
      and_iff_right (List.mem_of_mem_filter hn), Bool.not_eq_true]
  constructor
  · intro h href n hn
    have hagree := not_congr (h n hn).1
    rw [Bool.not_eq_true, hphase n hn, pullRequired_eq_false_iff _ _ _ _ _ hn,
      pulls_eq_false_iff _ _ href, and_iff_right href] at hagree
    exact (foreseen_iff ..).mpr hagree
  · intro h n hn
    refine ⟨not_iff_not.mp ?_,
      fun _ ↦ checkImage_status_ne_fail isControl daemons ref planSize _ n⟩
    rw [Bool.not_eq_true, hphase n hn, pullRequired_eq_false_iff _ _ _ _ _ hn]
    by_cases href : ref = ""
    · subst href
      exact iff_of_false (fun h' ↦ h'.1 rfl) (by simp [pulls_nil])
    · rw [pulls_eq_false_iff _ _ href, and_iff_right href]
      exact (foreseen_iff ..).mp (h href n hn)

/-- A digest of the engine's image. -/
private def engineDigest : String :=
  "sha256:0f1e2d3c4b5a69788796a5b4c3d2e1f00f1e2d3c4b5a69788796a5b4c3d2e1f0"

private def engineRef : String := "ghcr.io/lab/vllm@" ++ engineDigest

/-- The copy of it that a sync leaves on a peer. -/
private def engineCopy : String := "127.0.0.1:5000/lab/vllm@" ++ engineDigest

private def controlRegistry : Machine where
  lower := id
  isLocalAddress := (· = "")
  registryBase := "192.168.1.10:5000"
  pushBase := "127.0.0.1:5000"

/-- The control node, which has the address `""`, pulled the image itself; the peer was synced. -/
private def syncedPeer (address : String) : Daemon := fun name ↦
  let held := if address = "" then engineRef else engineCopy
  .ok (if name = held then
    some { id := "sha256:aa", repoTags := [], repoDigests := [held], sizeBytes := 26000000000 }
  else none)

/-- The pre-flight announces a pull on the synced peer, and the deploy finds the copy there. -/
theorem syncedPeer_announced : ¬∀ n ∈ ["", "192.168.1.11"].filter fun _ ↦ true,
    ((checkImage (· = "") syncedPeer engineRef 0 (["", "192.168.1.11"].filter fun _ ↦ true)
        n).pullRequired = true ↔
      n ∈ pullPhase (some controlRegistry) engineRef (fun _ d ↦ d) syncedPeer
        (pullTargets ["", "192.168.1.11"])) ∧
    (n ∉ pullPhase (some controlRegistry) engineRef (fun _ d ↦ d) syncedPeer
        (pullTargets ["", "192.168.1.11"]) →
      (checkImage (· = "") syncedPeer engineRef 0 (["", "192.168.1.11"].filter fun _ ↦ true)
        n).status ≠ .fail) := by
  intro h
  have hpull := (h "192.168.1.11" (by decide)).1.mp (by decide +kernel)
  revert hpull
  decide +kernel

end SparkPulse.Preflight
