import Mathlib.Data.Char
import Mathlib.Data.List.AList
import Mathlib.Data.List.Lex
import Mathlib.Data.List.Sort
import SparkPulse.Fabric.Plan
import SparkPulse.Program.Threads

/-!
# The node registry

`tools/node_registry.py`: the machines that the control plane knows, one row each, and the threads
over them. A mutation holds the reentrant lock from before it looks until after it has written;
`nodes.json` is imported by whoever comes first, reads included, and without the lock.

Each query and each commit is one call, so another thread may commit between a check and the write
that it guards. The file, the clock, the discovery of this machine and `uuid4` are answered by the
schedule. The columns of a row are copies of fields of its document, so a row is its record.
-/

namespace SparkPulse.Nodes

open Program Prog
open SparkPulse.Fabric (Mode)
open SparkPulse.Recipes (Text lower trim)
open SparkPulse.Runtime (isSpace)

/-! ## Data -/

/-- `str.strip` -/
def strip (t : Text) : Text := trim isSpace t

inductive NodeState
  | healthy
  | unknown
  | dead
  deriving DecidableEq

/-- The state that a text names, one of `NODE_STATES`. -/
def nodeState? (t : Text) : Option NodeState :=
  if t = "healthy".toList then some .healthy
  else if t = "unknown".toList then some .unknown
  else if t = "dead".toList then some .dead
  else none

/-- `_valid_fabric_mode` -/
def fabricMode? (t : Text) : Option Mode :=
  if t = "direct".toList then some .direct
  else if t = "dual".toList then some .dual
  else if t = "mesh".toList then some .mesh
  else none

/-- `_clean_addresses` -/
def cleanAddresses (values : List Text) : List Text :=
  values.foldl (fun cleaned value ↦
    let address := (strip value).takeWhile (· ≠ '/')
    if address ≠ [] ∧ address ∉ cleaned then cleaned ++ [address] else cleaned) []

structure NodeRecord where
  id : Text
  name : Text := []
  address : Text := []
  isControlPlane : Bool := false
  sshUser : Text := []
  sshKeyPath : Text := []
  ethernetInterface : Text := []
  infinibandInterfaces : List Text := []
  fabricAddresses : List Text := []
  /-- None when it has not been determined. -/
  fabricMode : Option Mode := none
  state : NodeState := .unknown
  lastSeen : Option Text := none
  machineId : Text := []
  deriving DecidableEq

/-- Human-readable name for logs and error messages. -/
def NodeRecord.label (node : NodeRecord) : Text :=
  if node.name ≠ [] then node.name else if node.address ≠ [] then node.address else node.id

/-- The rows, by primary key. -/
abbrev Table := AList fun _ : Text ↦ NodeRecord

inductive RegistryError
  | valueError (message : String)
  | keyError (nodeId : Text)
  | stateFileError

def stateMessage : String := "state must be one of healthy, unknown, dead"

def fabricModeMessage : String :=
  "fabric_mode must be one of direct, dual, mesh, or empty when it is not known"

def duplicateMessage (address : Text) : String :=
  "a node with address " ++ String.ofList address ++ " is already registered"

def cannotChangeMessage (names : List Text) : String :=
  "cannot change: " ++ String.intercalate ", " ((names.insertionSort (· ≤ ·)).map String.ofList)

/-! ## The file -/

/-- An entry of the file, each value by the text that `str` makes of it. -/
structure Item where
  /-- Empty where the entry has none. -/
  id : Text := []
  name : Text := []
  address : Text := []
  isControlPlane : Bool := false
  sshUser : Text := []
  sshKeyPath : Text := []
  ethernetInterface : Text := []
  infinibandInterfaces : List Text := []
  fabricAddresses : List Text := []
  fabricMode : Text := []
  state : Text := []
  lastSeen : Option Text := none
  machineId : Text := []

/-- `NodeRecord.from_dict`, with the id that the record gets. -/
def NodeRecord.fromDict (id : Text) (item : Item) : NodeRecord where
  id := id
  name := item.name
  address := item.address
  isControlPlane := item.isControlPlane
  sshUser := item.sshUser
  sshKeyPath := item.sshKeyPath
  ethernetInterface := item.ethernetInterface
  infinibandInterfaces := item.infinibandInterfaces
  fabricAddresses := item.fabricAddresses.filter (· ≠ [])
  fabricMode := fabricMode? item.fabricMode
  state := (nodeState? item.state).getD .unknown
  lastSeen := item.lastSeen.filter (· ≠ [])
  machineId := item.machineId

inductive FileContent
  | absent
  /-- It cannot be read or parsed, or is no record. -/
  | unreadable
  /-- It has no usable `nodes` list. -/
  | shapeless
  /-- The entries of its list, none where one is no record. -/
  | nodes (items : List (Option Item))

/-! ## Arguments -/

structure NewNode where
  name : Text := []
  address : Text := []
  isControlPlane : Bool := false
  sshUser : Text := []
  sshKeyPath : Text := []
  ethernetInterface : Text := []
  infinibandInterfaces : List Text := []
  fabricMode : Text := []
  state : Text := "unknown".toList
  machineId : Text := []

/-- The record that `add_node` makes. -/
def NewNode.record (new : NewNode) (id : Text) (state : NodeState) (lastSeen : Option Text) :
    NodeRecord where
  id := id
  name := if strip new.name ≠ [] then strip new.name else strip new.address
  address := strip new.address
  isControlPlane := new.isControlPlane
  sshUser := strip new.sshUser
  sshKeyPath := strip new.sshKeyPath
  ethernetInterface := strip new.ethernetInterface
  infinibandInterfaces := new.infinibandInterfaces
  fabricMode := fabricMode? new.fabricMode
  state := state
  lastSeen := lastSeen
  machineId := new.machineId

/-- The fields that `update_node` is to change. -/
structure Changes where
  name : Option Text := none
  address : Option Text := none
  sshUser : Option Text := none
  sshKeyPath : Option Text := none
  ethernetInterface : Option Text := none
  infinibandInterfaces : Option (List Text) := none
  fabricAddresses : Option (List Text) := none
  fabricMode : Option Text := none
  state : Option Text := none
  lastSeen : Option (Option Text) := none
  machineId : Option Text := none
  /-- Names of fields that may not be changed. -/
  others : List Text := []

/-- Changes that are accepted. -/
structure Edits where
  name : Option Text
  address : Option Text
  sshUser : Option Text
  sshKeyPath : Option Text
  ethernetInterface : Option Text
  infinibandInterfaces : Option (List Text)
  fabricAddresses : Option (List Text)
  fabricMode : Option (Option Mode)
  state : Option NodeState
  lastSeen : Option (Option Text)
  machineId : Option Text

/-- What `update_node` checks of its arguments before it looks at the node. -/
def Changes.check (changes : Changes) : Except RegistryError Edits :=
  if changes.others ≠ [] then .error (.valueError (cannotChangeMessage changes.others))
  else if ∃ t ∈ changes.state, nodeState? t = none then .error (.valueError stateMessage)
  else if ∃ t ∈ changes.fabricMode, t ≠ [] ∧ fabricMode? t = none then
    .error (.valueError fabricModeMessage)
  else .ok {
    name := changes.name
    address := changes.address
    sshUser := changes.sshUser
    sshKeyPath := changes.sshKeyPath
    ethernetInterface := changes.ethernetInterface
    infinibandInterfaces := changes.infinibandInterfaces
    fabricAddresses := changes.fabricAddresses.map cleanAddresses
    fabricMode := changes.fabricMode.map fabricMode?
    state := changes.state.bind nodeState?
    lastSeen := changes.lastSeen
    machineId := changes.machineId }

def Edits.apply (edits : Edits) (node : NodeRecord) : NodeRecord :=
  { node with
    name := edits.name.getD node.name
    address := edits.address.getD node.address
    sshUser := edits.sshUser.getD node.sshUser
    sshKeyPath := edits.sshKeyPath.getD node.sshKeyPath
    ethernetInterface := edits.ethernetInterface.getD node.ethernetInterface
    infinibandInterfaces := edits.infinibandInterfaces.getD node.infinibandInterfaces
    fabricAddresses := edits.fabricAddresses.getD node.fabricAddresses
    fabricMode := edits.fabricMode.getD node.fabricMode
    state := edits.state.getD node.state
    lastSeen := edits.lastSeen.getD node.lastSeen
    machineId := edits.machineId.getD node.machineId }

/-- What discovery knows about this machine. -/
structure Discovered where
  /-- An address of an interface, or nothing. -/
  address : Text
  address_stripped : strip address = address
  ethernetInterface : Text
  infinibandInterfaces : List Text
  fabricMode : Text

/-! ## Calls -/

inductive Call
  /-- `_MUTATION_LOCK` -/
  | acquire
  | release
  | isImported
  | readFile
  | mint
  | now
  | discover
  | hostname
  | machineId
  /-- The marker and the rows of the file, in one transaction. -/
  | importRows (nodes : List NodeRecord)
  | get (nodeId : Text)
  | addressTaken (address exceptId : Text)
  | controlPlane
  | rows
  /-- The row of a node that is new. -/
  | insert (node : NodeRecord)
  | put (node : NodeRecord)
  | delete (nodeId : Text)

abbrev Call.Reply : Call → Type
  | isImported | addressTaken _ _ => Bool
  | readFile => FileContent
  | mint | now | hostname | machineId => Text
  | discover => Discovered
  | get _ | controlPlane => Option NodeRecord
  | rows => List NodeRecord
  | _ => PUnit

/-- A commit: who made it, and the rows before and after. -/
structure Write where
  thread : ℕ
  before : Table
  after : Table

structure World where
  rows : Table := ∅
  /-- Whether the marker says that the file was imported. -/
  imported : Bool := false
  /-- Who holds the lock, and how often. -/
  lock : Option (ℕ × ℕ) := none
  /-- The commits so far, the last one first. -/
  writes : List Write := []

/-- The world after a commit of a thread. -/
def World.commit (w : World) (i : ℕ) (rows : Table) : World :=
  { w with rows := rows, writes := ⟨i, w.rows, rows⟩ :: w.writes }

/-- `_upsert` -/
def upsert (t : Table) (node : NodeRecord) : Table := t.insert node.id node

/-- The other nodes that answer at an address. -/
def Table.taken (t : Table) (address exceptId : Text) : Bool :=
  t.entries.any fun e ↦ e.2.address = address ∧ (exceptId ≠ [] → e.1 ≠ exceptId)

/-- `_control_plane_row` -/
def Table.controlPlane (t : Table) : Option NodeRecord :=
  (t.entries.find? fun e ↦ e.2.isControlPlane).map fun e ↦ e.2

/-- What the schedule answers calls with whose replies it decides. -/
inductive Answer
  | quiet
  | file (content : FileContent)
  | text (t : Text)
  | discovered (d : Discovered)

/-- What a call of a thread does. -/
def exec : Threads.Exec ℕ Call.Reply World Answer := fun i w e a ↦
  match e, a with
  | .acquire, _ =>
    match w.lock with
    | none => some (⟨⟩, { w with lock := some (i, 1) })
    | some (j, n) => if j = i then some (⟨⟩, { w with lock := some (i, n + 1) }) else none
  | .release, _ =>
    match w.lock with
    | none => none
    | some (j, n) =>
      if j = i then some (⟨⟩, { w with lock := if n ≤ 1 then none else some (i, n - 1) })
      else none
  | .isImported, _ => some (w.imported, w)
  | .readFile, .file content => some (content, w)
  | .mint, .text t => some (t, w)
  | .now, .text t => some (t, w)
  | .hostname, .text t => some (t, w)
  | .machineId, .text t => some (t, w)
  | .discover, .discovered d => some (d, w)
  | .importRows nodes, _ =>
    if w.imported then some (⟨⟩, w)
    else some (⟨⟩, { w.commit i (nodes.foldl upsert w.rows) with imported := true })
  | .get nodeId, _ => some (w.rows.lookup nodeId, w)
  | .addressTaken address exceptId, _ => some (w.rows.taken address exceptId, w)
  | .controlPlane, _ => some (w.rows.controlPlane, w)
  | .rows, _ => some (w.rows.entries.map fun e ↦ e.2, w)
  -- A minted id collides with nothing.
  | .insert node, _ =>
    if node.id ∈ w.rows then none else some (⟨⟩, w.commit i (upsert w.rows node))
  | .put node, _ => some (⟨⟩, w.commit i (upsert w.rows node))
  | .delete nodeId, _ => some (⟨⟩, w.commit i (w.rows.erase nodeId))
  | _, _ => none

/-! ## Operations -/

/-- Programs over the calls of the registry. -/
abbrev Act (α : Type) := Prog Call Call.Reply RegistryError α

def invoke (c : Call) : Act c.Reply := Prog.call c

/-- `with _transaction():` -/
def withLock {α : Type} (p : Act α) : Act α := do
  let _ ← invoke .acquire
  p.ensure (invoke .release)

/-- `NodeRecord.from_dict` of the entries that are records. -/
def recordsOf : List (Option Item) → Act (List NodeRecord)
  | [] => return []
  | none :: items => recordsOf items
  | some item :: items => do
    let id ← if item.id ≠ [] then pure item.id else invoke .mint
    let nodes ← recordsOf items
    return NodeRecord.fromDict id item :: nodes

/-- `_migrate_from_json` -/
def migrate : Act PUnit := do
  let imported : Bool ← invoke .isImported
  if imported then return ⟨⟩
  else do
    let content : FileContent ← invoke .readFile
    match content with
    | .absent => return ⟨⟩
    | .unreadable => .raise .stateFileError
    | .shapeless => return ⟨⟩
    | .nodes items => do
      let nodes ← recordsOf items
      invoke (.importRows nodes)

/-- `_refuse_duplicate_address` -/
def refuseDuplicateAddress (address exceptId : Text) : Act PUnit :=
  if address = [] then return ⟨⟩
  else do
    let taken : Bool ← invoke (.addressTaken address exceptId)
    if taken then .raise (.valueError (duplicateMessage address)) else return ⟨⟩

def listNodes : Act (List NodeRecord) := do
  migrate
  let nodes : List NodeRecord ← invoke .rows
  return nodes.insertionSort fun a b ↦
    (!a.isControlPlane) < !b.isControlPlane ∨
      a.isControlPlane = b.isControlPlane ∧ lower a.label ≤ lower b.label

def getNode (nodeId : Text) : Act (Option NodeRecord) := do
  migrate
  invoke (.get nodeId)

def selfNode : Act (Option NodeRecord) := do
  migrate
  invoke .controlPlane

/-- What `add_node` does under the lock. -/
def register (node : NodeRecord) : Act NodeRecord := withLock do
  migrate
  refuseDuplicateAddress node.address []
  let control : Option NodeRecord ←
    if node.isControlPlane then invoke .controlPlane else pure none
  if control.isSome then .raise (.valueError "the control plane is already registered")
  else do
    let _ ← invoke (.insert node)
    return node

def addNode (new : NewNode) : Act NodeRecord :=
  if strip new.address = [] ∧ ¬new.isControlPlane then
    .raise (.valueError "a node needs an address")
  else
    match nodeState? new.state with
    | none => .raise (.valueError stateMessage)
    | some state => do
      let id : Text ← invoke .mint
      let lastSeen : Option Text ←
        if new.isControlPlane then do
          let t : Text ← invoke .now
          pure (some t)
        else pure none
      register (new.record id state lastSeen)

def updateNode (nodeId : Text) (changes : Changes) : Act NodeRecord := do
  let edits ← ofExcept changes.check
  withLock do
    migrate
    let current : Option NodeRecord ← invoke (.get nodeId)
    match current with
    | none => .raise (.keyError nodeId)
    | some node => do
      refuseDuplicateAddress (edits.apply node).address nodeId
      let _ ← invoke (.put (edits.apply node))
      return edits.apply node

def removeNode (nodeId : Text) : Act NodeRecord := withLock do
  migrate
  let current : Option NodeRecord ← invoke (.get nodeId)
  match current with
  | none => .raise (.keyError nodeId)
  | some node =>
    if node.isControlPlane then
      .raise (.valueError "the control plane cannot be removed from the registry")
    else do
      let _ ← invoke (.delete nodeId)
      return node

/-- What `register_self` changes of the record that there is. -/
def blanksOf (existing : NodeRecord) (defaultName : Text) (discovered : Discovered)
    (lastSeen machineId : Text) : Changes where
  name := if existing.name = [] then some defaultName else none
  address :=
    if existing.address = [] ∧ discovered.address ≠ [] then some discovered.address else none
  ethernetInterface :=
    if existing.ethernetInterface = [] ∧ discovered.ethernetInterface ≠ [] then
      some discovered.ethernetInterface
    else none
  infinibandInterfaces :=
    if existing.infinibandInterfaces = [] ∧ discovered.infinibandInterfaces ≠ [] then
      some discovered.infinibandInterfaces
    else none
  fabricMode :=
    if existing.fabricMode = none ∧ discovered.fabricMode ≠ [] then some discovered.fabricMode
    else none
  state := some "healthy".toList
  lastSeen := some (some lastSeen)
  machineId := some machineId

/-- What `register_self` does under the lock. -/
def fillSelf (host : Text) (discovered : Discovered) : Act NodeRecord := withLock do
  let defaultName := if host ≠ [] then host else "control".toList
  let existing ← selfNode
  match existing with
  | none => do
    let machineId : Text ← invoke .machineId
    addNode {
      name := defaultName
      address := discovered.address
      isControlPlane := true
      ethernetInterface := discovered.ethernetInterface
      infinibandInterfaces := discovered.infinibandInterfaces
      fabricMode := discovered.fabricMode
      state := "healthy".toList
      machineId := machineId }
  | some existing => do
    let lastSeen : Text ← invoke .now
    let machineId : Text ← invoke .machineId
    updateNode existing.id (blanksOf existing defaultName discovered lastSeen machineId)

def registerSelf (name : Text) : Act NodeRecord := do
  let discovered : Discovered ← invoke .discover
  if strip name ≠ [] then fillSelf (strip name) discovered
  else do
    let host : Text ← invoke .hostname
    fillSelf host discovered

/-! ## Threads -/

/-- What a thread does with the registry. -/
inductive Op
  | add (new : NewNode)
  | update (nodeId : Text) (changes : Changes)
  | remove (nodeId : Text)
  | registerSelf (name : Text)
  | list
  | get (nodeId : Text)
  | self

def Op.program : Op → Act (List NodeRecord)
  | add new => do
    let node ← addNode new
    return [node]
  | update nodeId changes => do
    let node ← updateNode nodeId changes
    return [node]
  | remove nodeId => do
    let node ← removeNode nodeId
    return [node]
  | registerSelf name => do
    let node ← Nodes.registerSelf name
    return [node]
  | list => listNodes
  | get nodeId => do
    let node ← getNode nodeId
    return node.toList
  | self => do
    let node ← selfNode
    return node.toList

/-- Any number of threads, each at its operation, over a registry that is empty at first. -/
def registry (ops : ℕ → Op) :
    Transition.System (Threads ℕ Call.Reply RegistryError (List NodeRecord) World) (ℕ × Answer) :=
  Threads.system exec fun s ↦ s.pool = (fun i ↦ (ops i).program) ∧ s.world = {}

end SparkPulse.Nodes
