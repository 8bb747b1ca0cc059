import SparkPulse.Agent.Ledger
import SparkPulse.Agent.SelfUpdate

/-!
# Reinstalling an agent

`_place_agent` of `agent/bootstrap.py`, over a node that has an agent: the identity there is read
and kept if it is known, the bundle is unpacked into a directory of its own, `current` is moved over
to it, it is asked whether it runs, and a node without an identity enrols. Then the unit is written
and started.

What the node answers at each command is data, and every command may raise. A command that raises
may have had its effect, since a timeout raises too. The unit, the sudoers drop-ins and the repairs
before are left at whether they raise.
-/

namespace SparkPulse.Agent.Reinstall

open SelfUpdate (Member Dir Root unpack)

/-! ## The node and the control plane -/

/-- What `identity.json` says. -/
structure Meta where
  nodeId : String
  trustBundlePin : String
  deriving DecidableEq, Repr

/-- The files of an identity directory. -/
structure IdentityDir where
  key : Option String := none
  certificate : Option String := none
  trustBundle : Option String := none
  identity : Option Meta := none
  deriving DecidableEq, Repr

/-- An install root with its `current`, the identity beside it, and the facts that the agent
reports. -/
structure Node (β : Type) where
  root : Root β
  identity : IdentityDir
  facts : Facts

structure AgentBundle (β : Type) where
  version : String
  digest : String
  tarball : List (Member β)

variable {β : Type}

/-- The directory a bundle is unpacked into. -/
def AgentBundle.name (bundle : AgentBundle β) : String :=
  String.ofList (bundle.version.toList ++ '-' :: bundle.digest.toList.take 12)

/-- The ledger and the node, as one install leaves them. -/
structure World (β : Type) where
  ledger : Ledger
  node : Node β

structure Request (β : Type) where
  bundle : AgentBundle β
  name : String
  /-- The id that is to be minted, or none. -/
  nodeId : String := ""

/-! ## Answers -/

/-- How a command ended. -/
inductive Reply
  | ok
  | failed (code : ℕ) (said : String)
  | raised (e : String)
  deriving DecidableEq, Repr

/-- Why an install failed. -/
inductive Fault
  | raised (e : String)
  /-- `ExistingIdentity`: the ledger does not know the node. -/
  | unknownIdentity (nodeId : String)
  /-- `ExistingIdentity`: it is pinned to another trust bundle. -/
  | repinned (nodeId : String)
  | staging (said : String)
  | unpacking (said : String)
  | verifying (said : String)
  /-- `ExistingIdentity`: the agent ended with 2. -/
  | refusing (said : String)
  | enrolling (said : String)
  | noIdentity
  | enabling (said : String)
  | starting (said : String)
  deriving DecidableEq, Repr

/-- The texts of the errors; what a command said is stripped and cut. -/
def Fault.message (host identityDir staging unitName : String) : Fault → String
  | raised e => e
  | unknownIdentity nodeId =>
    let holder := if nodeId = "" then "unreadable" else nodeId
    s!"{identityDir} already holds an identity ({holder}) that this control plane has no record " ++
      "of — a node from another cluster, or one whose control-plane state was rebuilt. " ++
      "Honouring a token now would mint a second uuid and orphan the first. Either " ++
      "remove_node_and_identity() to wipe it and join fresh, or restore the control plane's " ++
      "enrollment ledger."
  | repinned nodeId =>
    s!"{identityDir} holds identity {nodeId}, which is enrolled here but pinned to a different " ++
      "trust bundle — the CA was replaced while this node was away. Its certificate can no " ++
      "longer be renewed. Use reenroll_node() to wipe the identity and join again."
  | .staging said => s!"could not create {staging}: {said}"
  | unpacking said => s!"unpacking the agent bundle failed: {said}"
  | verifying said => "the agent bundle does not import on this node — most often a grpcio or " ++
      "cryptography extension built for a different CPython. Nothing has been started. The node " ++
      s!"said: {said}"
  | refusing said => s!"the agent on {host} refused to enrol: {said}"
  | enrolling said => s!"enrolment failed on {host}: {said}"
  | noIdentity => s!"enrolment reported success but wrote no identity to {identityDir}"
  | enabling said => s!"enabling {unitName} failed: {said}"
  | starting said => s!"starting {unitName} failed: {said}"

/-- A command that must end well. -/
def Reply.fault (because : String → Fault) : Reply → Option Fault
  | ok => none
  | failed _ said => some (because said)
  | raised e => some (.raised e)

/-- The enrolment command. -/
def Reply.enrolFault : Reply → Option Fault
  | failed 2 said => some (.refusing said)
  | reply => reply.fault .enrolling

/-- A command whose result is not looked at. -/
def Reply.raises : Reply → Option Fault
  | raised e => some (.raised e)
  | _ => none

/-- What comes of `_enrol`. -/
structure Enrolment where
  secret : String
  /-- The id that redemption mints where none is assigned. -/
  minted : String
  mintedAt : ℤ
  /-- Why the token or the trust bundle was not delivered. -/
  deliver : Option String := none
  /-- The command finds the files of the identity that there is. -/
  sees : Bool := true
  /-- It reaches the enrolment listener. -/
  connects : Bool := true
  redeemedAt : ℤ
  /-- The certificate that is issued, if one is. -/
  issued : Option String
  notAfter : ℤ
  issuedAt : ℤ
  /-- What is in the identity directory when the command has ended. -/
  saved : IdentityDir
  /-- How it ended, if it did not end where it is refused. -/
  exit : Reply := .ok
  shred : Reply := .ok
  revokedAt : ℤ
  reread : Reply := .ok

/-- What the node answers in one install; left alone, everything goes well. -/
structure Answers (β : Type) where
  /-- Something raised before `_place_agent`. -/
  prepare : Option String := none
  read : Reply := .ok
  build : Option String := none
  staging : Reply := .ok
  target : Reply := .ok
  upload : Option String := none
  tar : Reply := .ok
  /-- What is in the directory when `tar` has not ended well. -/
  left : Dir β := fun _ ↦ none
  link : Reply := .ok
  /-- The link was moved although `ln` did not end well. -/
  moved : Bool := false
  /-- How the binary ends when it runs, and what is said when it does not. -/
  verify : Reply := .ok
  complaint : String := ""
  enrolment : Enrolment
  unit : Option String := none
  sudoers : Option String := none
  reload : Reply := .ok
  enable : Reply := .ok
  start : Reply := .ok

/-! ## Installing -/

section

variable (hash fingerprint : String → String) (pin : String) (runs : β → Bool) (r : Request β)
  (a : Answers β) (w : World β)

/-- `_converge_or_refuse` -/
def convergeOrRefuse (ledger : Ledger) (existing : Meta) : Except Fault String :=
  let known :=
    if existing.nodeId = "" then none else ledger.state.nodes.lookup existing.nodeId
  match known with
  | some _ =>
    if existing.trustBundlePin = "" ∨ existing.trustBundlePin = pin then .ok existing.nodeId
    else .error (.repinned existing.nodeId)
  | none => .error (.unknownIdentity existing.nodeId)

/-- `_read_identity`: a file that could not be read is none. -/
def existing : Option Meta := if a.read = .ok then w.node.identity.identity else none

/-- What goes wrong before anything is unpacked. -/
def refusal : Option Fault :=
  (a.prepare.map Fault.raised).or <|
    a.read.raises.or <|
    (match (existing a w).map (convergeOrRefuse pin w.ledger) with
      | some (.error e) => some e
      | _ => none).or <|
    (a.build.map Fault.raised).or <|
    (a.staging.fault .staging).or <|
    a.target.raises.or <|
    a.upload.map Fault.raised

/-- What is in the bundle's directory once `tar` has ended. -/
def unpacked : Dir β :=
  if a.tar = .ok then unpack r.bundle.tarball (w.node.root.contents r.bundle.name) else a.left

/-- Whether `current` names the bundle afterwards. -/
def Answers.relinks (a : Answers β) : Bool := a.link = Reply.ok || a.moved

def shipped : World β :=
  { w with node := { w.node with
    root := w.node.root.set (w.node.root.through r.bundle.name) (unpacked r a w) } }

def linked : World β :=
  let w := shipped r a w
  if a.relinks then { w with node := { w.node with
    root := { w.node.root with link := r.bundle.name } } }
  else w

/-- `current` leads to a bundle that runs. -/
def Node.imports (n : Node β) : Bool := n.root.resolve.any fun dir ↦ dir.runs runs

/-- The verification of what `current` names. -/
def verification : Option Fault :=
  a.link.raises.or <|
    if (linked r a w).node.imports runs then a.verify.fault .verifying
    else some (.verifying a.complaint)

/-- `Enroll`, and what the node makes of it. -/
def redeem (o : Enrolment) : Reply × World β :=
  let answered := w.ledger.redeemToken hash true o.secret o.minted o.redeemedAt
  match answered.1 with
  | .error _ => (.failed 1 "enrolment was refused", { w with ledger := answered.2 })
  | .ok nodeId =>
    match o.issued with
    | none =>
      (.failed 1 "enrolment was refused", { w with ledger := (answered.2.remove true nodeId).2 })
    | some certificate =>
      (o.exit, { w with
        ledger := (answered.2.recordIssue true nodeId (fingerprint certificate) o.notAfter
          w.node.facts o.issuedAt).2
        node := { w.node with identity := o.saved } })

/-- The agent with `--enroll-only`. One that finds an identity refuses, and one that does not
redeems the token. -/
def enrollOnly (o : Enrolment) : Reply × World β :=
  if o.sees ∧ w.node.identity ≠ {} then (.failed 1 "already holds the identity", w)
  else if o.connects then redeem hash fingerprint w o
  else (.failed 1 "connecting to the enrolment listener", w)

def minted (o : Enrolment) : World β :=
  { w with ledger :=
    (w.ledger.mintToken hash true o.secret r.name tokenTtlSeconds r.nodeId o.mintedAt).2 }

/-- The enrolment window: the token and the trust bundle are delivered, and the command is run. -/
def deliver (o : Enrolment) : Reply × World β :=
  match o.deliver with
  | some e => (.raised e, w)
  | none => enrollOnly hash fingerprint w o

/-- `_enrol` -/
def enrol (o : Enrolment) : Except Fault String × World β :=
  let answered := deliver hash fingerprint (minted hash r w o) o
  match o.shred.raises with
  | some e => (.error e, answered.2)
  | none =>
    let w := { answered.2 with ledger :=
      (answered.2.ledger.revokeToken hash true o.secret o.revokedAt).2 }
    match answered.1.enrolFault with
    | some e => (.error e, w)
    | none =>
      match o.reread.raises with
      | some e => (.error e, w)
      | none =>
        match if o.reread = .ok then w.node.identity.identity else none with
        | some identity =>
          if identity.nodeId = "" then (.error .noIdentity, w) else (.ok identity.nodeId, w)
        | none => (.error .noIdentity, w)

/-- The unit, the sudoers drop-ins and the start. -/
def startFault : Option Fault :=
  (a.unit.map Fault.raised).or <|
    (a.sudoers.map Fault.raised).or <|
    a.reload.raises.or <|
    (a.enable.fault .enabling).or (a.start.fault .starting)

def started (nodeId : String) : Except Fault String :=
  match startFault a with
  | some e => .error e
  | none => .ok nodeId

/-- `_place_agent`, for the id of the node. -/
def placeAgent : Except Fault String × World β :=
  match refusal pin a w with
  | some e => (.error e, w)
  | none =>
    match a.tar.fault .unpacking with
    | some e => (.error e, shipped r a w)
    | none =>
      match verification runs r a w with
      | some e => (.error e, linked r a w)
      | none =>
        match existing a w with
        | some identity => (started a identity.nodeId, linked r a w)
        | none =>
          let enrolled := enrol hash fingerprint r (linked r a w) a.enrolment
          match enrolled.1 with
          | .error e => (.error e, enrolled.2)
          | .ok nodeId => (started a nodeId, enrolled.2)

/-! ## What is promised -/

/-- The ledger lets a node connect under a key. -/
def Authorizes (ledger : Ledger) (nodeId key : String) (facts : Facts) : Prop :=
  (ledger.authorize true nodeId key facts).1 = .ok { ok := true }

/-- A node has an agent that runs, with a whole identity that the ledger authorizes. -/
structure Enrolled (nodeId key : String) : Prop where
  imports : w.node.imports runs = true
  identity : ∃ m, w.node.identity.identity = some m ∧ m.nodeId = nodeId
  certificate : ∃ c, w.node.identity.certificate = some c ∧ fingerprint c = key
  whole : w.node.identity.key.isSome ∧ w.node.identity.trustBundle.isSome
  named : nodeId ≠ ""
  keyed : key ≠ ""
  authorized : Authorizes w.ledger nodeId key w.node.facts

/-- It still has that agent. -/
structure StillWorks (w' : World β) (nodeId key : String) : Prop where
  imports : w'.node.imports runs = true
  identity : w'.node.identity = w.node.identity
  authorized : Authorizes w'.ledger nodeId key w.node.facts

/-- The command redeems the token. -/
def Enrolment.redeems (o : Enrolment) : Prop :=
  o.deliver = none ∧ o.sees = false ∧ o.connects = true ∧
    o.redeemedAt < o.mintedAt + tokenTtlSeconds

/-- What the node's answers must be like for that. -/
structure Kept (nodeId : String) : Prop where
  /-- An unpacking that does not end well leaves a bundle that runs, where `current` names it. -/
  halfway : refusal pin a w = none → a.tar ≠ .ok → r.bundle.name = w.node.root.link →
    a.left.runs runs = true
  /-- The new bundle runs, once `current` names it. -/
  opened : refusal pin a w = none → a.tar = .ok →
    a.relinks = true ∨ r.bundle.name = w.node.root.link → (unpacked r a w).runs runs = true
  /-- A node whose identity could not be read does not enrol again, but under another id and without
  writing its files. -/
  enrolment : refusal pin a w = none → a.tar = .ok → a.link.raises = none → a.verify = .ok →
    a.read ≠ .ok → a.enrolment.redeems →
      r.nodeId ≠ nodeId ∧ (a.enrolment.issued ≠ none → a.enrolment.saved = w.node.identity)

/-- Ids and keys are drawn anew. -/
structure Enrolment.Drawn (o : Enrolment) (nodeId key : String) : Prop where
  minted : o.minted ≠ nodeId
  issued : ∀ c, o.issued = some c → fingerprint c ≠ "" ∧ fingerprint c ≠ key

end

section

variable {hash fingerprint : String → String} {pin : String} {runs : β → Bool} {r : Request β}
  {a : Answers β} {w w' : World β} {o : Enrolment} {ledger ledger' : Ledger}
  {nodeId key : String} {facts : Facts}

/-! ## The ledger -/

theorem authorizes_congr
    (h : ledger'.state.nodes.lookup nodeId = ledger.state.nodes.lookup nodeId) :
    Authorizes ledger' nodeId key facts ↔ Authorizes ledger nodeId key facts := by
  rw [Authorizes, Authorizes, Ledger.authorize, Ledger.authorize, h]
  rcases ledger.state.nodes.lookup nodeId with _ | entry
  · rfl
  simp only
  split
  · rfl
  · rfl
  · split_ifs <;> rfl

/-- Only the holder of a node is authorized. -/
theorem Authorizes.holder (h : Authorizes ledger nodeId key facts) :
    ∃ held, ledger.holder nodeId = some held ∧ Ledger.mismatch key held = false := by
  rcases ledger.authorize_cases true nodeId key facts with ⟨held, -, hholder, hmatch⟩ | ⟨hnot, -⟩
  · exact ⟨held, hholder, hmatch⟩
  · cases hnot _ h

theorem mismatch_of_ne {other : String} (hkey : key ≠ "") (hother : other ≠ "")
    (hne : other ≠ key) : Ledger.mismatch key other = true := by
  rw [Ledger.mismatch, Bool.and_eq_true, Bool.and_eq_true, decide_eq_true_eq, decide_eq_true_eq,
    decide_eq_true_eq]
  exact ⟨⟨hkey, hother⟩, hne.symm⟩

theorem nodes_mintToken (o : Enrolment) (name nodeId : String) (ledger : Ledger) :
    (ledger.mintToken hash true o.secret name tokenTtlSeconds nodeId o.mintedAt).2.state.nodes =
      ledger.state.nodes := by
  rw [Ledger.mintToken, Ledger.returning_snd, Ledger.write_state]
  rfl

theorem nodes_revokeToken (hash : String → String) (secret : String) (now : ℤ) (ledger : Ledger) :
    (ledger.revokeToken hash true secret now).2.state.nodes = ledger.state.nodes := by
  rw [Ledger.revokeToken]
  split
  · rfl
  · split_ifs
    · rfl
    · rw [Ledger.returning_snd, Ledger.write_state]
      rfl

/-- The id that an enrolment is for. -/
def Enrolment.assigned (o : Enrolment) (r : Request β) : String :=
  if r.nodeId = "" then o.minted else r.nodeId

/-- What a redemption in time comes to, of the token that was just minted. -/
theorem redeemToken_minted (hash : String → String) (r : Request β) (w : World β)
    (htime : o.redeemedAt < o.mintedAt + tokenTtlSeconds) :
    ∃ ledger', (minted hash r w o).ledger.redeemToken hash true o.secret o.minted o.redeemedAt =
        (.ok (o.assigned r), ledger') ∧
      ∀ id ≠ o.assigned r, ledger'.state.nodes.lookup id = w.ledger.state.nodes.lookup id := by
  have hgrant : (minted hash r w o).ledger.state.tokens.lookup (hash o.secret) = some
      { tokenHash := hash o.secret, name := r.name, createdAt := o.mintedAt,
        expiresAt := o.mintedAt + tokenTtlSeconds, assignNodeId := r.nodeId } := by
    rw [minted, Ledger.mintToken, Ledger.returning_snd, Ledger.write_state]
    exact AList.lookup_insert _
  rw [Ledger.redeemToken, hgrant]
  simp only
  rw [if_neg (by decide), if_neg (by omega)]
  refine ⟨_, rfl, fun id hid ↦ ?_⟩
  rw [Ledger.write_state]
  refine (AList.lookup_insert_ne hid).trans ?_
  rw [minted, Ledger.setToken, nodes_mintToken]

theorem redeemToken_late (hash : String → String) (r : Request β) (w : World β)
    (hlate : ¬o.redeemedAt < o.mintedAt + tokenTtlSeconds) :
    ∃ e, (minted hash r w o).ledger.redeemToken hash true o.secret o.minted o.redeemedAt =
      (.error e, (minted hash r w o).ledger) := by
  have hgrant : (minted hash r w o).ledger.state.tokens.lookup (hash o.secret) = some
      { tokenHash := hash o.secret, name := r.name, createdAt := o.mintedAt,
        expiresAt := o.mintedAt + tokenTtlSeconds, assignNodeId := r.nodeId } := by
    rw [minted, Ledger.mintToken, Ledger.returning_snd, Ledger.write_state]
    exact AList.lookup_insert _
  rw [Ledger.redeemToken, hgrant]
  simp only
  rw [if_neg (by decide), if_pos (by omega)]
  exact ⟨_, rfl⟩

/-- What `redeem` does for a token that was just minted, when it is in time. -/
theorem redeem_world (hash fingerprint : String → String) (r : Request β) (w : World β)
    (htime : o.redeemedAt < o.mintedAt + tokenTtlSeconds) :
    let w' := (redeem hash fingerprint (minted hash r w o) o).2
    w'.node.root = w.node.root ∧
      w'.node.identity = (if o.issued = none then w.node.identity else o.saved) ∧
      w'.ledger.holder (o.assigned r) = o.issued.map fingerprint ∧
      ∀ id ≠ o.assigned r, w'.ledger.state.nodes.lookup id = w.ledger.state.nodes.lookup id := by
  obtain ⟨ledger', hredeem, hothers⟩ := redeemToken_minted hash r w htime
  rw [redeem, hredeem]
  simp only
  rcases o.issued with _ | certificate
  · refine ⟨rfl, rfl, ?_, fun id hid ↦ ?_⟩
    · change (ledger'.remove true (o.assigned r)).2.holder (o.assigned r) = none
      rw [Ledger.remove_holder, Function.update_self]
    · refine Eq.trans ?_ (hothers id hid)
      change (ledger'.remove true (o.assigned r)).2.state.nodes.lookup id = _
      rw [Ledger.remove, Ledger.write_state]
      exact AList.lookup_erase_ne hid
  · refine ⟨rfl, rfl, ?_, fun id hid ↦ ?_⟩
    · change (ledger'.recordIssue true (o.assigned r) _ _ _ _).2.holder (o.assigned r) = _
      rw [Ledger.recordIssue_holder, Function.update_self]
      rfl
    · refine Eq.trans ?_ (hothers id hid)
      change (ledger'.recordIssue true (o.assigned r) _ _ _ _).2.state.nodes.lookup id = _
      rw [Ledger.recordIssue, Ledger.returning_snd, Ledger.write_state]
      exact AList.lookup_insert_ne hid

/-- Whatever is refused or not got to leaves the node and the membership records alone. -/
theorem deliver_world (hidentity : w.node.identity ≠ {}) (h : ¬o.redeems) :
    (deliver hash fingerprint (minted hash r w o) o).2 = minted hash r w o := by
  rw [deliver]
  rcases hdeliver : o.deliver with _ | e
  · rw [enrollOnly]
    split_ifs with hsees hconnects
    · rfl
    · have hlate : ¬o.redeemedAt < o.mintedAt + tokenTtlSeconds := by
        refine fun htime ↦ h ⟨hdeliver, ?_, hconnects, htime⟩
        rw [← Bool.not_eq_true]
        exact fun hseen ↦ hsees ⟨hseen, hidentity⟩
      obtain ⟨e, hredeem⟩ := redeemToken_late hash r w hlate
      rw [redeem, hredeem]
    · rfl
  · rfl

theorem deliver_redeems (h : o.redeems) :
    deliver hash fingerprint (minted hash r w o) o =
      redeem hash fingerprint (minted hash r w o) o := by
  obtain ⟨hdeliver, hsees, hconnects, -⟩ := h
  rw [deliver, hdeliver]
  simp only
  rw [enrollOnly, if_neg, if_pos hconnects]
  rw [hsees]
  exact fun h ↦ Bool.false_ne_true h.1

/-- `_enrol` leaves the node as the command leaves it, and the membership records too. -/
theorem enrol_world (hash fingerprint : String → String) (r : Request β) (w : World β)
    (o : Enrolment) :
    (enrol hash fingerprint r w o).2.node =
        (deliver hash fingerprint (minted hash r w o) o).2.node ∧
      (enrol hash fingerprint r w o).2.ledger.state.nodes =
        (deliver hash fingerprint (minted hash r w o) o).2.ledger.state.nodes := by
  rw [enrol]
  rcases o.shred.raises with _ | e
  · have hnodes := nodes_revokeToken hash o.secret o.revokedAt
      (deliver hash fingerprint (minted hash r w o) o).2.ledger
    simp only
    split
    · exact ⟨rfl, hnodes⟩
    · split
      · exact ⟨rfl, hnodes⟩
      · split
        · split_ifs <;> exact ⟨rfl, hnodes⟩
        · exact ⟨rfl, hnodes⟩
  · exact ⟨rfl, rfl⟩

theorem Enrolment.assigned_eq_iff (hnamed : nodeId ≠ "") (hminted : o.minted ≠ nodeId) :
    o.assigned r = nodeId ↔ r.nodeId = nodeId := by
  rw [Enrolment.assigned]
  split_ifs with h
  · exact iff_of_false hminted fun h' ↦ hnamed (h'.symm.trans h)
  · rfl

/-- An enrolment spares an identity that there is, unless it redeems its token for the same id or
for files that are written. -/
theorem enrol_spares_iff (hash : String → String) (r : Request β)
    (hidentity : w.node.identity ≠ {}) (hnamed : nodeId ≠ "") (hkeyed : key ≠ "") (hauthorized : Authorizes w.ledger nodeId key facts)
    (hdrawn : o.Drawn fingerprint nodeId key) :
    (enrol hash fingerprint r w o).2.node.root = w.node.root ∧
      ((enrol hash fingerprint r w o).2.node.identity = w.node.identity ∧
          Authorizes (enrol hash fingerprint r w o).2.ledger nodeId key facts ↔
        (o.redeems → r.nodeId ≠ nodeId ∧ (o.issued ≠ none → o.saved = w.node.identity))) := by
  obtain ⟨hnode, hnodes⟩ := enrol_world hash fingerprint r w o
  by_cases hredeems : o.redeems
  · rw [deliver_redeems hredeems] at hnode hnodes
    obtain ⟨hroot, hsaved, hholder, hothers⟩ :=
      redeem_world hash fingerprint r w hredeems.2.2.2
    rw [hnode]
    refine ⟨hroot, ?_⟩
    rw [hsaved]
    have hassigned : o.assigned r = nodeId ↔ r.nodeId = nodeId :=
      Enrolment.assigned_eq_iff hnamed hdrawn.minted
    by_cases hsame : r.nodeId = nodeId
    · refine iff_of_false (fun ⟨_, h⟩ ↦ ?_) fun h ↦ (h hredeems).1 hsame
      obtain ⟨held, hheld, hmatch⟩ := h.holder
      rw [Ledger.holder_congr hnodes, ← hassigned.mpr hsame, hholder] at hheld
      obtain ⟨c, hc, rfl⟩ := Option.map_eq_some_iff.mp hheld
      obtain ⟨hkeyed', hnew⟩ := hdrawn.issued c hc
      cases (mismatch_of_ne hkeyed hkeyed' hnew).symm.trans hmatch
    · have hlookup : (enrol hash fingerprint r w o).2.ledger.state.nodes.lookup nodeId =
          w.ledger.state.nodes.lookup nodeId := by
        rw [hnodes]
        exact hothers nodeId fun h ↦ hsame (hassigned.mp h.symm)
      rw [authorizes_congr hlookup]
      split_ifs with hissued
      · exact iff_of_true ⟨rfl, hauthorized⟩ fun _ ↦ ⟨hsame, fun h ↦ absurd hissued h⟩
      · exact ⟨fun h _ ↦ ⟨hsame, fun _ ↦ h.1⟩, fun h ↦ ⟨(h hredeems).2 hissued, hauthorized⟩⟩
  · rw [deliver_world hidentity hredeems] at hnode hnodes
    rw [hnode]
    refine ⟨rfl, iff_of_true ⟨rfl, (authorizes_congr ?_).mpr hauthorized⟩
      fun h ↦ absurd h hredeems⟩
    rw [hnodes, minted, nodes_mintToken]

/-! ## The install root -/

theorem AgentBundle.name_ne_current (bundle : AgentBundle β) :
    bundle.name ≠ SelfUpdate.current := by
  intro h
  have hdash : '-' ∈ bundle.name.toList := by
    rw [AgentBundle.name, String.toList_ofList]
    exact List.mem_append_right _ List.mem_cons_self
  rw [h] at hdash
  exact absurd hdash (by decide)

variable (r a) in
theorem resolve_shipped (h : w.node.imports runs = true) :
    (shipped r a w).node.root.resolve =
      if r.bundle.name = w.node.root.link then some (unpacked r a w) else w.node.root.resolve := by
  have hlink : w.node.root.link ≠ SelfUpdate.current := by
    intro hlink
    rw [Node.imports, Root.resolve, if_pos hlink] at h
    cases h
  change (w.node.root.set _ _).resolve = _
  rw [Root.through, if_neg r.bundle.name_ne_current, Root.resolve, Root.set_link, if_neg hlink,
    Root.set_dirs, Root.resolve, if_neg hlink]
  simp only [eq_comm]

theorem imports_shipped (h : w.node.imports runs = true) :
    (shipped r a w).node.imports runs = true ↔
      (r.bundle.name = w.node.root.link → (unpacked r a w).runs runs = true) := by
  rw [Node.imports, resolve_shipped r a h]
  split_ifs with hname
  · exact ⟨fun h _ ↦ h, fun h ↦ h hname⟩
  · exact iff_of_true h fun h ↦ absurd h hname

theorem imports_linked (h : w.node.imports runs = true) :
    (linked r a w).node.imports runs = true ↔
      (a.relinks = true ∨ r.bundle.name = w.node.root.link →
        (unpacked r a w).runs runs = true) := by
  rw [linked]
  split_ifs with hrelinks
  · have hresolve : Root.resolve { (shipped r a w).node.root with link := r.bundle.name } =
        some (unpacked r a w) := by
      rw [Root.resolve, if_neg r.bundle.name_ne_current, shipped, Root.through,
        if_neg r.bundle.name_ne_current, Root.set_dirs, if_pos rfl]
    rw [Node.imports, hresolve]
    exact ⟨fun h _ ↦ h, fun h ↦ h (.inl hrelinks)⟩
  · rw [imports_shipped h]
    exact ⟨fun h hname ↦ h (hname.resolve_left hrelinks), fun h hname ↦ h (.inr hname)⟩

/-! ## Exactly when -/

theorem Reply.fault_eq_none_iff {reply : Reply} {because : String → Fault} :
    reply.fault because = none ↔ reply = .ok := by
  cases reply <;> simp [Reply.fault]

theorem Enrolled.identity_ne (hn : Enrolled fingerprint runs w nodeId key) :
    w.node.identity ≠ {} := by
  obtain ⟨m, hm, -⟩ := hn.identity
  intro h
  rw [h] at hm
  cases hm

theorem Enrolled.existing_eq_none_iff (hn : Enrolled fingerprint runs w nodeId key) :
    existing a w = none ↔ a.read ≠ .ok := by
  obtain ⟨m, hm, -⟩ := hn.identity
  rw [existing, hm]
  split_ifs with h
  · exact iff_of_false nofun fun hread ↦ hread h
  · exact iff_of_true rfl h

/-- The identity and the ledger are not touched. -/
theorem Enrolled.stillWorks_iff_imports (hn : Enrolled fingerprint runs w nodeId key)
    (hidentity : w'.node.identity = w.node.identity) (hledger : w'.ledger = w.ledger) :
    StillWorks runs w w' nodeId key ↔ w'.node.imports runs = true :=
  ⟨fun h ↦ h.imports, fun h ↦ ⟨h, hidentity, hledger ▸ hn.authorized⟩⟩

/-- After the verification, what `current` names runs. -/
theorem verification_eq_none_iff :
    verification runs r a w = none ↔
      a.link.raises = none ∧ a.verify = .ok ∧ (linked r a w).node.imports runs = true := by
  rw [verification, Option.or_eq_none_iff]
  split_ifs with h
  · rw [Reply.fault_eq_none_iff]
    exact ⟨fun ⟨hlink, hverify⟩ ↦ ⟨hlink, hverify, h⟩, fun ⟨hlink, hverify, _⟩ ↦ ⟨hlink, hverify⟩⟩
  · exact iff_of_false nofun fun ⟨_, _, h'⟩ ↦ h h'

theorem linked_identity : (linked r a w).node.identity = w.node.identity := by
  rw [linked]
  split_ifs <;> rfl

theorem linked_ledger : (linked r a w).ledger = w.ledger := by
  rw [linked]
  split_ifs <;> rfl

/-- An install after which nobody enrolled. -/
theorem kept_iff_of_not_enrolled (hn : Enrolled fingerprint runs w nodeId key)
    (hrefusal : refusal pin a w = none) (htar : a.tar = .ok)
    (hnot : a.read ≠ .ok → verification runs r a w ≠ none) :
    StillWorks runs w (linked r a w) nodeId key ↔ Kept pin runs r a w nodeId := by
  rw [hn.stillWorks_iff_imports linked_identity linked_ledger, imports_linked hn.imports]
  refine ⟨fun h ↦ ⟨fun _ htar' ↦ absurd htar htar', fun _ _ ↦ h,
    fun _ _ hlink hverify hread _ ↦ ?_⟩, fun h ↦ h.opened hrefusal htar⟩
  exact absurd (verification_eq_none_iff.mpr ⟨hlink, hverify, (imports_linked hn.imports).mpr h⟩)
    (hnot hread)

/-- An install after which the node enrolled, or tried to. -/
theorem kept_iff_of_enrolled (hash : String → String)
    (hn : Enrolled fingerprint runs w nodeId key)
    (hdrawn : a.enrolment.Drawn fingerprint nodeId key) (hrefusal : refusal pin a w = none)
    (htar : a.tar = .ok) (hread : a.read ≠ .ok) (hverification : verification runs r a w = none) :
    StillWorks runs w (enrol hash fingerprint r (linked r a w) a.enrolment).2 nodeId key ↔
      Kept pin runs r a w nodeId := by
  obtain ⟨hlink, hverify, himports⟩ := verification_eq_none_iff.mp hverification
  have hidentity : (linked r a w).node.identity ≠ {} := by
    rw [linked_identity]
    exact hn.identity_ne
  have hauthorized : Authorizes (linked r a w).ledger nodeId key w.node.facts := by
    rw [linked_ledger]
    exact hn.authorized
  obtain ⟨hroot, hspares⟩ :=
    enrol_spares_iff hash r hidentity hn.named hn.keyed hauthorized hdrawn
  rw [linked_identity] at hspares
  constructor
  · intro h
    exact ⟨fun _ htar' ↦ absurd htar htar', fun _ _ ↦ (imports_linked hn.imports).mp himports,
      fun _ _ _ _ _ ↦ hspares.mp ⟨h.identity, h.authorized⟩⟩
  · intro h
    obtain ⟨hsame, hstill⟩ := hspares.mpr (h.enrolment hrefusal htar hlink hverify hread)
    refine ⟨?_, hsame, hstill⟩
    rw [Node.imports, hroot]
    exact himports

/-- An install that ended with the unpacking. -/
theorem kept_iff_of_halfway (hn : Enrolled fingerprint runs w nodeId key)
    (hrefusal : refusal pin a w = none) (htar : a.tar ≠ .ok) :
    StillWorks runs w (shipped r a w) nodeId key ↔ Kept pin runs r a w nodeId := by
  have hidentity : (shipped r a w).node.identity = w.node.identity := rfl
  have hledger : (shipped r a w).ledger = w.ledger := rfl
  rw [hn.stillWorks_iff_imports hidentity hledger, imports_shipped hn.imports, unpacked,
    if_neg htar]
  refine ⟨fun h ↦ ⟨fun _ _ ↦ h, fun _ htar' ↦ ?_, fun _ htar' ↦ ?_⟩,
    fun h ↦ h.halfway hrefusal htar⟩
  · exact absurd htar' htar
  · exact absurd htar' htar

/-- One that ended before it. -/
theorem kept_iff_of_refused (hn : Enrolled fingerprint runs w nodeId key) {e : Fault}
    (hrefusal : refusal pin a w = some e) :
    StillWorks runs w w nodeId key ↔ Kept pin runs r a w nodeId := by
  refine iff_of_true ⟨hn.imports, rfl, hn.authorized⟩ ⟨fun h ↦ ?_, fun h ↦ ?_, fun h ↦ ?_⟩
  all_goals cases hrefusal.symm.trans h

/-- **A reinstall leaves the agent working if, and only if, the node's answers are such**, wherever
it fails. -/
theorem stillWorks_iff (hn : Enrolled fingerprint runs w nodeId key)
    (hdrawn : a.enrolment.Drawn fingerprint nodeId key) :
    StillWorks runs w (placeAgent hash fingerprint pin runs r a w).2 nodeId key ↔
      Kept pin runs r a w nodeId := by
  rw [placeAgent]
  rcases hrefusal : refusal pin a w with _ | e
  · simp only
    rcases htar : a.tar.fault .unpacking with _ | e
    · rw [Reply.fault_eq_none_iff] at htar
      simp only
      rcases hverification : verification runs r a w with _ | e
      · simp only
        rcases hexisting : existing a w with _ | identity
        · have hread := hn.existing_eq_none_iff.mp hexisting
          simp only
          refine Iff.trans ?_
            (kept_iff_of_enrolled hash hn hdrawn hrefusal htar hread hverification)
          split <;> rfl
        · refine kept_iff_of_not_enrolled hn hrefusal htar fun hread ↦ ?_
          cases (hn.existing_eq_none_iff.mpr hread).symm.trans hexisting
      · refine kept_iff_of_not_enrolled hn hrefusal htar fun _ ↦ ?_
        rw [hverification]
        exact nofun
    · refine kept_iff_of_halfway hn hrefusal fun hok ↦ ?_
      rw [hok] at htar
      cases htar
  · exact kept_iff_of_refused hn hrefusal

end

/-- A bundle of nothing but a binary, which runs or does not. -/
private def bundleOfBinary (version : String) (running : Bool) : AgentBundle Bool where
  version := version
  digest := "0123456789ab"
  tarball := [⟨SelfUpdate.binary, running⟩]

private def enrolledIdentity : IdentityDir where
  key := some "key"
  certificate := some "k"
  trustBundle := some "ca"
  identity := some ⟨"n", "pin"⟩

private def enrolledEntry : LedgerEntry where
  nodeId := "n"
  state := .accepted
  publicKeyFingerprint := "k"

/-- A node that runs its first version, and is in the ledger. -/
private def enrolledNode : World Bool where
  ledger := { state := { nodes := AList.insert "n" enrolledEntry ∅ } }
  node := ⟨⟨"/opt/spark-pulse/agent", fun name ↦ if name = (bundleOfBinary "1" true).name then
    some (unpack (bundleOfBinary "1" true).tarball fun _ ↦ none) else none,
    (bundleOfBinary "1" true).name⟩, enrolledIdentity, {}⟩

private theorem enrolledNode_enrolled : Enrolled id id enrolledNode "n" "k" := by
  refine ⟨?_, ⟨_, rfl, rfl⟩, ⟨_, rfl, rfl⟩, ⟨rfl, rfl⟩, by decide, by decide, rfl⟩
  decide

/-- An enrolment that would get a new certificate, and cannot write it down. -/
private def unwritten : Enrolment where
  secret := "s"
  minted := "m"
  mintedAt := 1
  sees := false
  redeemedAt := 2
  issued := some "k'"
  notAfter := 100
  issuedAt := 2
  saved := enrolledIdentity
  exit := .failed 1 "writing the identity out"
  revokedAt := 3

private theorem unwritten_drawn : unwritten.Drawn id "n" "k" := by
  refine ⟨by decide, fun c hc ↦ ?_⟩
  cases hc
  decide

/-- A second version that cannot be started leaves the first one's identity, and `current` with a
bundle that runs. -/
theorem stillWorks_of_failed_start :
    (placeAgent id id "pin" id { bundle := bundleOfBinary "2" true, name := "node" }
        { enrolment := unwritten, start := .failed 1 "" } enrolledNode).1 =
      .error (.starting "") ∧
      StillWorks id enrolledNode
        (placeAgent id id "pin" id { bundle := bundleOfBinary "2" true, name := "node" }
          { enrolment := unwritten, start := .failed 1 "" } enrolledNode).2 "n" "k" := by
  refine ⟨rfl, (stillWorks_iff enrolledNode_enrolled unwritten_drawn).mpr
    ⟨fun _ htar ↦ absurd rfl htar, fun _ _ _ ↦ ?_, fun _ _ _ _ hread ↦ absurd rfl hread⟩⟩
  decide

/-- Not every reinstall does. A second version that does not run is what `current` names when its
verification fails; the first version, unpacked once more, is broken by an unpacking that ends
halfway; and an identity that could not be read is replaced in the ledger by one under its own
id. -/
theorem reinstall_not_stillWorks :
    (∃ e, (placeAgent id id "pin" id { bundle := bundleOfBinary "2" false, name := "node" }
        { enrolment := unwritten } enrolledNode).1 = .error e) ∧
      ¬StillWorks id enrolledNode
        (placeAgent id id "pin" id { bundle := bundleOfBinary "2" false, name := "node" }
          { enrolment := unwritten } enrolledNode).2 "n" "k" ∧
    (∃ e, (placeAgent id id "pin" id { bundle := bundleOfBinary "1" true, name := "node" }
        { enrolment := unwritten, tar := .failed 2 "" } enrolledNode).1 = .error e) ∧
      ¬StillWorks id enrolledNode
        (placeAgent id id "pin" id { bundle := bundleOfBinary "1" true, name := "node" }
          { enrolment := unwritten, tar := .failed 2 "" } enrolledNode).2 "n" "k" ∧
    (∃ e, (placeAgent id id "pin" id
        { bundle := bundleOfBinary "2" true, name := "node", nodeId := "n" }
        { enrolment := unwritten, read := .failed 1 "" } enrolledNode).1 = .error e) ∧
      ¬StillWorks id enrolledNode
        (placeAgent id id "pin" id
          { bundle := bundleOfBinary "2" true, name := "node", nodeId := "n" }
          { enrolment := unwritten, read := .failed 1 "" } enrolledNode).2 "n" "k" := by
  refine ⟨⟨_, rfl⟩, fun h ↦ ?_, ⟨_, rfl⟩, fun h ↦ ?_, ⟨_, rfl⟩, fun h ↦ ?_⟩
  · exact absurd h.imports (by decide)
  · exact absurd h.imports (by decide)
  · cases h.authorized

end SparkPulse.Agent.Reinstall
