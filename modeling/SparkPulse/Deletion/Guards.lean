import Mathlib.Data.List.AList
import Mathlib.Logic.Relation
import SparkPulse.Runtime.Persistence

/-!
# Deleting models and images

`delete_model` of `tools/models.py` and `delete_image` of `tools/images.py`, with the guards that look
for deployments and containers first. Both decide which removals to send; what the nodes answer is
left out. Of the machine they need the addresses that are its own, where its registry is, and how
Python lowers a string.
-/

open SparkPulse.Runtime (strip)

namespace SparkPulse.Deletion

/-! ## Data -/

/-- The fields of a deployment record that the guards and the question they answer depend on. -/
structure Record where
  id : String
  status : String
  recipeId : String := ""
  paramsModel : Option String := none
  /-- The model the plan was resolved to. -/
  model : String := ""
  imageRef : Option String := none
  image : Option String := none
  deriving DecidableEq, Repr

/-- A managed container; its labels name the deployment and the image, if they are there. -/
structure Container where
  name : String
  status : String
  deploymentLabel : String := ""
  imageLabel : String := ""
  image : String
  /-- The model that its engine serves. -/
  model : String := ""
  deriving DecidableEq, Repr

structure Image where
  id : String
  repoTags : List String
  repoDigests : List String
  deriving DecidableEq, Repr

def Image.names (i : Image) : List String := i.repoTags ++ i.repoDigests

/-- The records and the nodes, which the address `""` makes the control node of. -/
structure Cluster where
  records : List Record
  /-- The records can be read. -/
  readable : Bool := true
  /-- The recipes listed, with their models, when they can be. -/
  recipes : Option (List (String × String)) := some []
  containers : String → List Container := fun _ ↦ []
  /-- The container engine of the control node answers. -/
  listable : Bool := true
  images : String → List Image := fun _ ↦ []
  cached : String → Bool := fun _ ↦ false

structure Machine where
  lower : String → String
  isLocalAddress : String → Bool
  /-- `registry_base`, empty when it cannot be worked out. -/
  registryBase : String := ""
  /-- `push_base`, the registry as a node's relay shows it. -/
  pushBase : String := ""

/-- `persist_planned_record`, of the records. -/
def persistPlannedRecord (plan : Record) (status : String) (records : List Record) : List Record :=
  records.filter (fun r ↦ r.id ≠ plan.id) ++ [{ plan with status }]

/-! ## References -/

/-- `str.partition`: before the first such character, and after it when there is one. -/
def partition (c : Char) (s : String) : String × Option String :=
  match s.toList.dropWhile (· ≠ c) with
  | [] => (s, none)
  | _ :: tail => (.ofList (s.toList.takeWhile (· ≠ c)), some (.ofList tail))

/-- `str.rpartition`: before the last such character, when there is one, and after it. -/
def rpartition (c : Char) (s : String) : Option String × String :=
  match s.toList.reverse.dropWhile (· ≠ c) with
  | [] => (none, s)
  | _ :: head =>
    (some (.ofList head.reverse), .ofList (s.toList.reverse.takeWhile (· ≠ c)).reverse)

/-- The repository, and the tag or digest. -/
def splitRef (ref : String) : String × String :=
  let ref := strip ref
  if ref = "" then ("", "")
  else
    match partition '@' ref with
    | (repo, some digest) => (repo, digest)
    | (_, none) =>
      match rpartition ':' ref with
      | (some head, tail) => if '/' ∈ tail.toList then (ref, "latest") else (head, tail)
      | (none, _) => (ref, "latest")

def isDigest (value : String) : Bool :=
  match partition ':' (strip value) with
  | (algorithm, some hex) =>
    algorithm ≠ "" ∧ (algorithm.toList.all fun c ↦ c ∈ "abcdefghijklmnopqrstuvwxyz0123456789".toList) ∧
      32 ≤ hex.length ∧ hex.toList.all fun c ↦ c ∈ "0123456789abcdef".toList
  | _ => false

/-- Whether the first part of a repository is the host of a registry. -/
def isHost (head : String) : Bool := '.' ∈ head.toList ∨ ':' ∈ head.toList ∨ head = "localhost"

/-- `str.strip("/")` -/
def stripSlashes (s : String) : String :=
  .ofList ((s.toList.dropWhile (· = '/')).reverse.dropWhile (· = '/')).reverse

def repositoryPath (repository : String) : String :=
  let repository := stripSlashes (strip repository)
  match partition '/' repository with
  | (head, some tail) => if isHost head then tail else repository
  | _ => repository

def registryHost (repository : String) : String :=
  match partition '/' (strip repository) with
  | (head, some _) => if isHost head then head else ""
  | _ => ""

structure ImageLocation where
  registryBase : String
  repository : String
  digest : String
  deriving DecidableEq, Repr

/-- `a or b` -/
def orElse (a b : String) : String := if a = "" then b else a

def ImageLocation.reference (l : ImageLocation) : String :=
  let base := stripSlashes (strip l.registryBase)
  let name := if base = "" then l.repository else s!"{base}/{l.repository}"
  if l.digest = "" then name else s!"{name}@{l.digest}"

def locationFor (ref digest : String) : ImageLocation :=
  let (repository, reference) := splitRef ref
  { registryBase := registryHost repository
    repository := repositoryPath repository
    digest := orElse (strip digest) (if isDigest reference then reference else "") }

/-- The `pull_ref` of `location_fields`. -/
def pullRef (ref digest base : String) : String :=
  let upstream := locationFor ref digest
  let localCopy := { upstream with registryBase := orElse base upstream.registryBase }
  if localCopy.digest = "" then ref else localCopy.reference

def loopbackReference (m : Machine) (ref : String) : String :=
  let location := locationFor ref ""
  if location.repository = "" ∨ location.digest = "" then ""
  else { location with registryBase := m.pushBase }.reference

/-- `local_digest` -/
def localDigest (info : Option Image) (repository : String) : String :=
  ((info.elim [] Image.repoDigests).findSome? fun entry ↦
    match partition '@' entry with
    | (repo, some digest) =>
      if digest ≠ "" ∧ (repository = "" ∨ repo = repository) then some digest else none
    | _ => none).getD ""

/-! ## The guards -/

/-- `d.get(key, [])` -/
def holders (d : AList fun _ : String ↦ List String) (key : String) : List String :=
  (d.lookup key).getD []

/-- Add a holder under a key. -/
def addHolder (d : AList fun _ : String ↦ List String) (key holder : String) :
    AList fun _ : String ↦ List String := d.insert key (holders d key ++ [holder])

/-- `recipes.get(recipe_id, "")`, of the dictionary of the recipes listed. -/
def recipeModel (recipes : List (String × String)) (recipeId : String) : String :=
  ((recipes.reverse.find? fun r ↦ r.1 = recipeId).map Prod.snd).getD ""

/-- The model that the guard takes a record to be about. -/
def guardModel (recipes : List (String × String)) (dep : Record) : String :=
  orElse (dep.paramsModel.getD "") (recipeModel recipes dep.recipeId)

def modelsInUseStep (lower : String → String) (recipes : List (String × String))
    (inUse : AList fun _ : String ↦ List String) (dep : Record) :
    AList fun _ : String ↦ List String :=
  if dep.status ≠ "running" ∧ dep.status ≠ "pending" then inUse
  else
    let model := guardModel recipes dep
    if model = "" ∨ model = "unknown" then inUse
    else addHolder inUse (lower model) dep.id

def modelsInUse (m : Machine) (s : Cluster) : AList fun _ : String ↦ List String :=
  match s.readable, s.recipes with
  | true, some recipes => s.records.foldl (modelsInUseStep m.lower recipes) ∅
  | _, _ => ∅

/-- `ACTIVE_DEPLOYMENT_STATES` -/
def activeDeploymentStates : List String := ["running", "pending", "starting", "pulling"]

/-- `_claim` -/
def claim (inUse : AList fun _ : String ↦ List String) (ref holder : String) :
    AList fun _ : String ↦ List String :=
  if ref = "" then inUse
  else if holder ∈ holders inUse ref then inUse
  else addHolder inUse ref holder

/-- `image_ref or image` -/
def Record.guardImage (dep : Record) : String := orElse (dep.imageRef.getD "") (dep.image.getD "")

/-- The label, or the image itself. -/
def Container.guardImage (c : Container) : String := orElse c.imageLabel c.image

def claimRecord (inUse : AList fun _ : String ↦ List String) (dep : Record) :
    AList fun _ : String ↦ List String :=
  if dep.status ∈ activeDeploymentStates then claim inUse dep.guardImage dep.id else inUse

def claimContainer (inUse : AList fun _ : String ↦ List String) (c : Container) :
    AList fun _ : String ↦ List String :=
  if c.status = "running" then claim inUse c.guardImage (orElse c.deploymentLabel c.name)
  else inUse

def imagesInUse (s : Cluster) : AList fun _ : String ↦ List String :=
  let deployments := if s.readable then s.records else []
  let containers := if s.listable then s.containers "" else []
  containers.foldl claimContainer (deployments.foldl claimRecord ∅)

/-! ## The deletions -/

/-- A request to a node to remove something, by the names it is tried under. -/
structure Removal where
  node : String
  names : List String
  deriving DecidableEq, Repr

/-- The nodes a model is removed from. -/
def modelTargets (m : Machine) (nodes : List String) : List String :=
  "" :: nodes.filter fun address ↦ !m.isLocalAddress address

/-- The removals sent, or why none is. -/
def deleteModel (m : Machine) (s : Cluster) (modelId : String) (nodes : List String) :
    Except String (List Removal) :=
  let users := holders (modelsInUse m s) (m.lower modelId)
  if users ≠ [] then
    .error (s!"Model {modelId} is in use by running deployment(s): " ++ ", ".intercalate users)
  else if s.cached modelId = false ∧ nodes = [] then
    .error s!"Model not in local cache: {modelId}"
  else .ok ((modelTargets m nodes).map fun node ↦ ⟨node, [modelId]⟩)

/-- `image_info`, on the control node. -/
def imageInfo (s : Cluster) (ref : String) : Option Image :=
  (s.images "").find? fun image ↦ ref ∈ image.names

/-- What a node pulled when this image was synced from here, if anything. -/
def seededReference (m : Machine) (s : Cluster) (ref : String) : String :=
  if m.registryBase = "" then ""
  else
    let digest := orElse (localDigest (imageInfo s ref) (splitRef ref).1) (locationFor ref "").digest
    if digest = "" then "" else pullRef ref digest m.registryBase

/-- The names a node is asked to remove an image under. -/
def candidates (m : Machine) (s : Cluster) (ref : String) : List String :=
  let seeded := seededReference m s ref
  let loopback := if seeded = "" then "" else loopbackReference m seeded
  [seeded, loopback].foldl
    (fun names name ↦ if name ≠ "" ∧ name ∉ names then names ++ [name] else names) [ref]

/-- The nodes that are named. -/
def peers (nodes : List String) : List String := (nodes.map strip).filter (· ≠ "")

def deleteImage (m : Machine) (s : Cluster) (ref : String) (nodes : List String) :
    Except String (List Removal) :=
  let ref := strip ref
  if ref = "" then .error "ref is required"
  else
    let users := holders (imagesInUse s) ref
    if users ≠ [] then
      .error (s!"Image {ref} is in use by running deployment(s) or cluster(s): " ++
        ", ".intercalate users)
    else
      let rows := (peers nodes).map fun node ↦ ⟨node, candidates m s ref⟩
      match imageInfo s ref with
      | some _ => .ok (rows ++ [⟨"", [ref]⟩])
      | none => if rows ≠ [] then .ok rows else .error s!"Image not present locally: {ref}"

end SparkPulse.Deletion
