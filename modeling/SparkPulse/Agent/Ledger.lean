import Mathlib.Data.List.AList
import Mathlib.Logic.Function.Basic

/-!
# The enrollment ledger

The ledger of `agent/enrollment.py`: one-time tokens, one membership record for each node, and the
check every connection is put to. `state` is the working copy every read is answered from and `db`
the rows of the state database; a mutation changes the working copy first and writes its rows after,
in one transaction that may raise, so each operation takes the outcome of that transaction.

Clock readings are integers of one unit. A row is addressed by its key; Python's `hashlib.sha256`
and `repr` are parameters.
-/

namespace SparkPulse.Agent

/-- A Python `dict` with string keys. -/
abbrev Dict (β : Type) := AList fun _ : String ↦ β

/-! ## Data -/

/-- The three membership states. -/
inductive NodeState
  | pending
  | accepted
  | denied
  deriving DecidableEq, Repr

/-- The stored spelling of a state. -/
def NodeState.value : NodeState → String
  | .pending => "pending"
  | .accepted => "accepted"
  | .denied => "denied"

/-- What the ledger makes of the identity a connecting node presents. -/
structure IdentityVerdict where
  ok : Bool
  reason : String := ""
  deriving DecidableEq, Repr

/-- One node's membership record. -/
structure LedgerEntry where
  nodeId : String
  name : String := ""
  state : NodeState := .pending
  enrolledAt : Int := 0
  lastSeen : Int := 0
  publicKeyFingerprint : String := ""
  machineId : String := ""
  bootId : String := ""
  hardwareFingerprint : String := ""
  certNotAfter : Int := 0
  deniedReason : String := ""
  issued : Nat := 0
  deriving DecidableEq, Repr

/-- A minted enrollment token, kept by the hash of its secret. -/
structure TokenGrant where
  tokenHash : String
  name : String
  createdAt : Int
  expiresAt : Int
  usedAt : Int := 0
  nodeId : String := ""
  assignNodeId : String := ""
  deriving DecidableEq, Repr

/-- The identity-relevant facts a node reports; an unset fact is the empty string. -/
structure Facts where
  machineId : String := ""
  bootId : String := ""
  hardwareFingerprint : String := ""
  deriving DecidableEq, Repr

/-- The facts a node reported overwrite the recorded ones, where they are set. -/
def LedgerEntry.adopt (facts : Facts) (entry : LedgerEntry) : LedgerEntry :=
  { entry with
    machineId := if facts.machineId = "" then entry.machineId else facts.machineId
    bootId := if facts.bootId = "" then entry.bootId else facts.bootId
    hardwareFingerprint :=
      if facts.hardwareFingerprint = "" then entry.hardwareFingerprint
      else facts.hardwareFingerprint }

/-- A record moved to denied, with the reason an operator will read. -/
def LedgerEntry.deny (reason : String) (entry : LedgerEntry) : LedgerEntry :=
  { entry with state := .denied, deniedReason := reason }

/-- The node id a token mints: the one assigned to it, else a fresh one. -/
def TokenGrant.mints (grant : TokenGrant) (minted : String) : String :=
  if grant.assignNodeId = "" then minted else grant.assignNodeId

/-- Why a token was not redeemed. -/
inductive EnrollmentRejected
  | notRecognised
  | alreadyUsed (name : String)
  | expired (name : String) (ago : Int)
  deriving DecidableEq, Repr

/-- The text of a refusal, over Python's `repr` of the token's name. -/
def EnrollmentRejected.message (repr : String → String) : EnrollmentRejected → String
  | .notRecognised => "enrollment token is not recognised"
  | .alreadyUsed name => s!"enrollment token for {repr name} was already used"
  | .expired name ago => s!"enrollment token for {repr name} expired {ago}s ago"

/-- How a ledger operation fails: a refusal of its own, or a database write that raised. -/
inductive LedgerError
  | rejected (why : EnrollmentRejected)
  | writeFailed
  deriving DecidableEq, Repr

/-- Membership records and tokens, as the working copy and the database each hold them. -/
structure Tables where
  nodes : Dict LedgerEntry := ∅
  tokens : Dict TokenGrant := ∅

/-- The working copy and the stored rows. -/
structure Ledger where
  state : Tables := {}
  db : Tables := {}

/-- The result of an operation and the ledger it leaves. -/
abbrev Outcome (α : Type) := Except LedgerError α × Ledger

def tokenTtlSeconds : Int := 600

/-! ## Persistence -/

/-- The rows one `_write` names. -/
structure Rows where
  nodes : List LedgerEntry := []
  tokens : List TokenGrant := []
  dropNodes : List String := []
  dropTokens : List String := []

def putNode (entry : LedgerEntry) (db : Tables) : Tables :=
  { db with nodes := db.nodes.insert entry.nodeId entry }

def putToken (grant : TokenGrant) (db : Tables) : Tables :=
  { db with tokens := db.tokens.insert grant.tokenHash grant }

/-- Drop, then put, exactly the rows named. -/
def Rows.apply (rows : Rows) (db : Tables) : Tables :=
  let db := { db with nodes := rows.dropNodes.foldl (fun d k ↦ d.erase k) db.nodes }
  let db := { db with tokens := rows.dropTokens.foldl (fun d k ↦ d.erase k) db.tokens }
  let db := rows.nodes.foldl (fun d e ↦ putNode e d) db
  rows.tokens.foldl (fun d g ↦ putToken g d) db

namespace Ledger

/-- One transaction over the named rows; `wrote` says whether it commits or raises. -/
def write (wrote : Bool) (rows : Rows) (l : Ledger) : Outcome Unit :=
  if wrote then (.ok (), { l with db := rows.apply l.db }) else (.error .writeFailed, l)

/-- The rows of the whole-ledger write: drop what the working copy lacks, put what it has. -/
def reconciling (l : Ledger) : Rows :=
  { nodes := l.state.nodes.entries.map Sigma.snd
    tokens := l.state.tokens.entries.map Sigma.snd
    dropNodes := l.db.nodes.keys.filter (· ∉ l.state.nodes)
    dropTokens := l.db.tokens.keys.filter (· ∉ l.state.tokens) }

/-- The whole-ledger write, in one transaction. -/
def save (wrote : Bool) (l : Ledger) : Outcome Unit := l.write wrote l.reconciling

/-- A new process: the working copy is what the database holds. -/
def reload (l : Ledger) : Ledger := { l with state := l.db }

def setNode (id : String) (entry : LedgerEntry) (l : Ledger) : Ledger :=
  { l with state := { l.state with nodes := l.state.nodes.insert id entry } }

def setToken (key : String) (grant : TokenGrant) (l : Ledger) : Ledger :=
  { l with state := { l.state with tokens := l.state.tokens.insert key grant } }

/-- Return a value once a write has committed. -/
def returning {α : Type} (a : α) (r : Outcome Unit) : Outcome α := (r.1.map fun _ ↦ a, r.2)

/-! ## Tokens -/

/-- The tokens a sweep drops: long expired, and unused or used long ago. -/
def stale (now : Int) (l : Ledger) : List String :=
  (l.state.tokens.entries.filter fun g ↦
    decide (now > g.2.expiresAt + tokenTtlSeconds ∧
      (g.2.usedAt = 0 ∨ now > g.2.usedAt + tokenTtlSeconds))).map Sigma.fst

/-- Drop stale tokens from the working copy. -/
def sweepLocked (now : Int) (l : Ledger) : Ledger :=
  { l with state :=
    { l.state with tokens := (l.stale now).foldl (fun d k ↦ d.erase k) l.state.tokens } }

variable (hash : String → String)

/-- Mint a single-use token scoped to one node, under a fresh secret. -/
def mintToken (wrote : Bool) (secret name : String) (ttl : Int) (nodeId : String) (now : Int)
    (l : Ledger) : Outcome String :=
  let dropped := l.stale now
  let grant : TokenGrant :=
    { tokenHash := hash secret, name, createdAt := now, expiresAt := now + ttl,
      assignNodeId := nodeId }
  returning secret <|
    ((l.sweepLocked now).setToken grant.tokenHash grant).write wrote
      { tokens := [grant], dropTokens := dropped }

/-- Redeem a token for the node id it mints. -/
def redeemToken (wrote : Bool) (secret minted : String) (now : Int) (l : Ledger) :
    Outcome String :=
  match l.state.tokens.lookup (hash secret) with
  | none => (.error (.rejected .notRecognised), l)
  | some grant =>
    if grant.usedAt ≠ 0 then (.error (.rejected (.alreadyUsed grant.name)), l)
    else if now ≥ grant.expiresAt then
      (.error (.rejected (.expired grant.name (now - grant.expiresAt))), l)
    else
      let id := grant.mints minted
      let grant := { grant with usedAt := now, nodeId := id }
      let entry : LedgerEntry :=
        { nodeId := id, name := grant.name, state := .pending, enrolledAt := now }
      returning id <|
        ((l.setToken (hash secret) grant).setNode id entry).write wrote
          { nodes := [entry], tokens := [grant] }

/-- Invalidate a token whether or not it was ever redeemed. -/
def revokeToken (wrote : Bool) (secret : String) (now : Int) (l : Ledger) : Outcome Bool :=
  match l.state.tokens.lookup (hash secret) with
  | none => (.ok false, l)
  | some grant =>
    if grant.usedAt ≠ 0 then (.ok true, l)
    else
      let grant := { grant with usedAt := now }
      returning true <| (l.setToken (hash secret) grant).write wrote { tokens := [grant] }

/-- Housekeeping: drop stale tokens and, if there were any, write the ledger whole. -/
def sweep (wrote : Bool) (now : Int) (l : Ledger) : Outcome Nat :=
  if (l.stale now).length = 0 then (.ok 0, l)
  else returning (l.stale now).length ((l.sweepLocked now).save wrote)

/-! ## Membership -/

/-- The record a certificate is issued on: the working copy's, else the stored one, else a new
one. -/
def entryFor (id : String) (l : Ledger) : LedgerEntry :=
  ((l.state.nodes.lookup id).orElse fun _ ↦ l.db.nodes.lookup id).getD { nodeId := id }

/-- The record after a certificate for the key was issued: accepted, with the key pinned. -/
def issuedEntry (id fingerprint : String) (notAfter : Int) (facts : Facts) (now : Int)
    (l : Ledger) : LedgerEntry :=
  let entry := l.entryFor id
  let stored := ((l.db.nodes.lookup id).map LedgerEntry.issued).getD 0
  { entry with
    state := .accepted
    publicKeyFingerprint := fingerprint
    certNotAfter := notAfter
    issued := max entry.issued stored + 1
    deniedReason := ""
    enrolledAt := if entry.enrolledAt = 0 then now else entry.enrolledAt }.adopt facts

/-- Record a certificate issued to a node and accept it. -/
def recordIssue (wrote : Bool) (id fingerprint : String) (notAfter : Int) (facts : Facts)
    (now : Int) (l : Ledger) : Outcome LedgerEntry :=
  let entry := l.issuedEntry id fingerprint notAfter facts now
  returning entry <| (l.setNode id entry).write wrote { nodes := [entry] }

/-- Mark a node denied; a node the ledger does not know is left alone. -/
def deny (wrote : Bool) (id reason : String) (l : Ledger) : Outcome Unit :=
  match l.state.nodes.lookup id with
  | none => (.ok (), l)
  | some entry =>
    let entry := entry.deny reason
    (l.setNode id entry).write wrote { nodes := [entry] }

/-- Forget a node entirely. -/
def remove (wrote : Bool) (id : String) (l : Ledger) : Outcome Unit :=
  write wrote { dropNodes := [id] }
    { l with state := { l.state with nodes := l.state.nodes.erase id } }

/-- A heartbeat: kept in memory, deliberately not written. -/
def noteSeen (id : String) (now : Int) (l : Ledger) : Ledger :=
  match l.state.nodes.lookup id with
  | none => l
  | some entry => l.setNode id { entry with lastSeen := now }

/-! ## Authorisation -/

def differentKey : String := "a different key was presented for this node id"

def differentHardware : String := "hardware fingerprint changed; the node may be reimaged"

/-- Both values are known and they disagree. -/
def mismatch (presented recorded : String) : Bool :=
  presented ≠ "" && recorded ≠ "" && presented ≠ recorded

/-- Deny a node for an identity that stopped adding up, and say so. -/
def refuse (wrote : Bool) (id reason : String) (entry : LedgerEntry) (l : Ledger) :
    Outcome IdentityVerdict :=
  let entry := entry.deny reason
  returning { ok := false, reason } <| (l.setNode id entry).write wrote { nodes := [entry] }

/-- Whether a connecting node may hold the identity it presents. A key or a hardware fingerprint
that disagrees with the recorded one denies the node. -/
def authorize (wrote : Bool) (id : String) (fingerprint : String) (facts : Facts) (l : Ledger) :
    Outcome IdentityVerdict :=
  match l.state.nodes.lookup id with
  | none => (.ok { ok := false, reason := "node is not enrolled" }, l)
  | some entry =>
    match entry.state with
    | .denied =>
      (.ok { ok := false,
             reason := if entry.deniedReason = "" then "node is denied" else entry.deniedReason },
        l)
    | .pending => (.ok { ok := false, reason := s!"node is {NodeState.pending.value}" }, l)
    | .accepted =>
      if mismatch fingerprint entry.publicKeyFingerprint then
        l.refuse wrote id differentKey entry
      else if mismatch facts.hardwareFingerprint entry.hardwareFingerprint then
        l.refuse wrote id differentHardware entry
      else (.ok { ok := true }, l)

/-! ## Who may act

What a ledger is for, in the terms of the nodes it admits: for each node at most one key, the one
that may act for it. Every operation is described by what it does to this assignment. -/

/-- The key a node is accepted under, if it is accepted. -/
def holder (l : Ledger) (id : String) : Option String :=
  match l.state.nodes.lookup id with
  | some entry => if entry.state = .accepted then some entry.publicKeyFingerprint else none
  | none => none

variable {l : Ledger} {id : String}

theorem holder_eq_some {key : String} :
    l.holder id = some key ↔
      ∃ entry, l.state.nodes.lookup id = some entry ∧ entry.state = .accepted ∧
        entry.publicKeyFingerprint = key := by
  unfold holder
  cases l.state.nodes.lookup id with
  | none => simp
  | some entry => by_cases h : entry.state = .accepted <;> simp [h]

@[simp] theorem write_state (wrote : Bool) (rows : Rows) (l : Ledger) :
    (l.write wrote rows).2.state = l.state := by
  cases wrote <;> rfl

@[simp] theorem returning_snd {α : Type} (a : α) (r : Outcome Unit) : (returning a r).2 = r.2 := rfl

/-- The holders depend on the working copy's membership records alone. -/
theorem holder_congr {l' : Ledger} (h : l'.state.nodes = l.state.nodes) : l'.holder = l.holder := by
  funext id
  simp only [holder, h]

/-- Writing a membership record decides its own node and no other. -/
theorem holder_setNode (id : String) (entry : LedgerEntry) (l : Ledger) :
    (l.setNode id entry).holder =
      Function.update l.holder id
        (if entry.state = .accepted then some entry.publicKeyFingerprint else none) := by
  funext m
  by_cases h : m = id
  · subst h
    simp [holder, setNode]
  · rw [Function.update_of_ne h]
    simp [holder, setNode, AList.lookup_insert_ne h]

theorem holder_write (wrote : Bool) (rows : Rows) (l : Ledger) :
    (l.write wrote rows).2.holder = l.holder := holder_congr (by rw [write_state])

theorem sweepLocked_holder (now : Int) (l : Ledger) : (l.sweepLocked now).holder = l.holder :=
  holder_congr rfl

theorem setToken_holder (key : String) (grant : TokenGrant) (l : Ledger) :
    (l.setToken key grant).holder = l.holder := holder_congr rfl

theorem mintToken_holder (wrote : Bool) (secret name : String) (ttl : Int) (nodeId : String)
    (now : Int) (l : Ledger) :
    (l.mintToken hash wrote secret name ttl nodeId now).2.holder = l.holder := by
  rw [mintToken, returning_snd, holder_write, setToken_holder, sweepLocked_holder]

theorem revokeToken_holder (wrote : Bool) (secret : String) (now : Int) (l : Ledger) :
    (l.revokeToken hash wrote secret now).2.holder = l.holder := by
  unfold revokeToken
  split
  · rfl
  · split
    · rfl
    · rw [returning_snd, holder_write, setToken_holder]

theorem sweep_holder (wrote : Bool) (now : Int) (l : Ledger) :
    (l.sweep wrote now).2.holder = l.holder := by
  unfold sweep
  split
  · rfl
  · rw [returning_snd, save, holder_write, sweepLocked_holder]

theorem noteSeen_holder (id : String) (now : Int) (l : Ledger) :
    (l.noteSeen id now).holder = l.holder := by
  unfold noteSeen
  split
  · rfl
  · rename_i entry h
    rw [holder_setNode]
    exact Function.update_eq_self_iff.2 (by simp [holder, h])

/-- A redemption that is refused changes nothing; any other one suspends the node it names. -/
theorem redeemToken_holder (wrote : Bool) (secret minted : String) (now : Int) (l : Ledger) :
    (∃ why, l.redeemToken hash wrote secret minted now = (.error (.rejected why), l)) ∨
      ∃ id, (l.redeemToken hash wrote secret minted now).2.holder =
          Function.update l.holder id none ∧
        ∀ id', (l.redeemToken hash wrote secret minted now).1 = .ok id' → id' = id := by
  unfold redeemToken
  split
  · exact .inl ⟨_, rfl⟩
  · rename_i grant _
    split_ifs with hused hexp
    · exact .inl ⟨_, rfl⟩
    · exact .inl ⟨_, rfl⟩
    · refine .inr ⟨grant.mints minted, ?_, ?_⟩
      · rw [returning_snd, holder_write, holder_setNode, setToken_holder]
        simp
      · intro id' h
        cases wrote <;> simp [returning, write, Except.map] at h
        exact h.symm

/-- Recording a certificate makes its key the one that may act for the node. -/
theorem recordIssue_holder (wrote : Bool) (id key : String) (notAfter : Int) (facts : Facts)
    (now : Int) (l : Ledger) :
    (l.recordIssue wrote id key notAfter facts now).2.holder =
      Function.update l.holder id (some key) := by
  rw [recordIssue, returning_snd, holder_write, holder_setNode]
  rfl

theorem deny_holder (wrote : Bool) (id reason : String) (l : Ledger) :
    (l.deny wrote id reason).2.holder = Function.update l.holder id none := by
  unfold deny
  split
  · rename_i h
    exact (Function.update_eq_self_iff.2 (by simp [holder, h])).symm
  · rw [holder_write, holder_setNode]
    rfl

theorem remove_holder (wrote : Bool) (id : String) (l : Ledger) :
    (l.remove wrote id).2.holder = Function.update l.holder id none := by
  rw [remove, holder_write]
  funext m
  by_cases h : m = id
  · subst h
    simp [holder]
  · rw [Function.update_of_ne h]
    simp [holder, AList.lookup_erase_ne h]

theorem refuse_holder (wrote : Bool) (id reason : String) (entry : LedgerEntry) (l : Ledger) :
    (l.refuse wrote id reason entry).2.holder = Function.update l.holder id none := by
  rw [refuse, returning_snd, holder_write, holder_setNode]
  rfl

/-- **What an authorisation can do.** It admits the node and leaves the ledger alone, or it does
not let it in, and then the node's key is kept or withdrawn. -/
theorem authorize_cases (wrote : Bool) (id key : String) (facts : Facts) (l : Ledger) :
    (∃ held, l.authorize wrote id key facts = (.ok { ok := true }, l) ∧ l.holder id = some held ∧
        mismatch key held = false) ∨
      ((∀ verdict, (l.authorize wrote id key facts).1 = .ok verdict → verdict.ok = false) ∧
        ((l.authorize wrote id key facts).2 = l ∨
          (l.authorize wrote id key facts).2.holder = Function.update l.holder id none)) := by
  have hrefuse : ∀ (reason : String) (entry : LedgerEntry) (verdict : IdentityVerdict),
      (l.refuse wrote id reason entry).1 = .ok verdict → verdict.ok = false := by
    intro reason entry verdict h
    cases wrote <;> simp [refuse, returning, write, Except.map] at h
    rw [← h]
  unfold authorize
  split
  · exact .inr ⟨by simp, .inl rfl⟩
  · rename_i entry hentry
    split
    · exact .inr ⟨by simp, .inl rfl⟩
    · exact .inr ⟨by simp, .inl rfl⟩
    · rename_i hstate
      split_ifs with hkey hhw
      · exact .inr ⟨hrefuse _ _, .inr (refuse_holder ..)⟩
      · exact .inr ⟨hrefuse _ _, .inr (refuse_holder ..)⟩
      · exact .inl ⟨_, rfl, holder_eq_some.2 ⟨entry, hentry, hstate, rfl⟩, by simpa using hkey⟩

end Ledger

end SparkPulse.Agent
