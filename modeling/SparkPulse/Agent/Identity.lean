import SparkPulse.Agent.Renewal

/-!
# The agent's identity

One honest agent, as `agent/src/session.rs` and `agent/src/identity.rs` have it, against the ledger
of its control plane. The agent holds its identity in three places: the files of the identity
directory, the copy `main` loads when the process starts and every dial is made with, and the clone
a session's renewal task works on. A renewal updates the clone and then the files, one after the
other; nothing updates the copy the process dials with.

The control plane pins one key and denies the node for any other. A renewal moves the pin when it is
recorded, whether or not its reply arrives.

The hardware fingerprint is a constant of the machine. The trust bundle and the expiry of
certificates play no part; whether a reply passes the pin check is left open.
-/

namespace SparkPulse.Agent

open Transition

/-- What a node holds: a private key, the certificate it was issued, and the end of its validity.
The two belong together only while the certificate's key is the one held. -/
structure AgentIdentity where
  key : Fingerprint
  cert : Fingerprint
  notAfter : Int
  deriving DecidableEq

/-- A session: the channel's certificate, the renewal task's clone, and the key pair of a `Renew`
whose reply it awaits. -/
structure AgentSession where
  presented : Fingerprint
  renewalState : Option AgentIdentity
  awaiting : Option Fingerprint := none
  deriving DecidableEq

/-- The files of the identity directory `save` has yet to write, in its order. -/
inductive Saving
  | key (identity : AgentIdentity)
  | cert (identity : AgentIdentity)
  | identityJson (identity : AgentIdentity)
  deriving DecidableEq

/-- A running agent process. -/
structure AgentProcess where
  /-- The identity `main` loaded, used for every dial. -/
  identity : AgentIdentity
  session : Option AgentSession := none
  saving : Option Saving := none
  deriving DecidableEq

/-- A `Renew` on its way through the control plane, with its connection's certificate. -/
structure RenewCall where
  cert : Fingerprint
  csr : Fingerprint
  deriving DecidableEq

/-- The node, its control plane, what is between them, and what happened. -/
structure NodeWorld where
  ledger : Ledger
  /-- The identity directory. -/
  disk : AgentIdentity
  process : Option AgentProcess := none
  requested : List RenewCall := []
  authorized : List RenewCall := []
  /-- Replies not yet received: the key certified and the end of its validity. -/
  replies : List (Fingerprint × Int) := []
  /-- The keys of the renewals the control plane recorded, newest first. -/
  recorded : List Fingerprint := []
  /-- How many of them there were when the running process loaded its identity. -/
  loadedAt : Nat := 0
  /-- Whether it found the key and the certificate of the last of them on disk. -/
  loadedLast : Bool := true
  /-- Whether each dial was authorised, newest first. -/
  dials : List Bool := []

namespace NodeWorld

/-- One step of the agent or of its control plane. -/
inductive Act
  /-- The process starts and loads the identity directory. -/
  | start
  /-- The process ends, at any point. -/
  | stop
  /-- A dial: the handshake and the `Hello` of a new session. -/
  | dial (wrote : Bool) (bootId machineId : String)
  /-- The session ends; its renewal task is aborted, and a reply it awaited is lost. -/
  | disconnect
  /-- The renewal task sends a `Renew` for a new key. -/
  | sendRenew (key : Fingerprint)
  /-- The control plane authorises a `Renew` it was sent. -/
  | authorizeRenew (wrote : Bool) (call : RenewCall)
  /-- The control plane records the certificate of an authorised `Renew` and replies. -/
  | recordRenew (wrote : Bool) (call : RenewCall) (notAfter now : Int)
  /-- The reply arrives; `pinned` says whether its trust bundle matches the pin. -/
  | receiveRenew (key : Fingerprint) (notAfter : Int) (pinned : Bool)
  /-- The `Renew` fails, or its reply is lost on the way. -/
  | failRenew
  /-- `save` writes its next file. -/
  | writeFile
  /-- `save` fails. -/
  | failSave
  /-- A heartbeat reaches the ledger. -/
  | noteSeen (now : Int)
  /-- The ledger does something that leaves this node's entry alone. -/
  | elsewhere (ledger : Ledger)

section
variable (id hardware : String)

/-- The facts a `Hello` carries. A `Renew` carries none. -/
def helloFacts (bootId machineId : String) : Facts :=
  { machineId, bootId, hardwareFingerprint := hardware }

/-- The session an authorised dial opens. Without a recorded expiry nothing is renewed. -/
def opened (identity : AgentIdentity) : AgentSession :=
  { presented := identity.cert
    renewalState := if 0 < identity.notAfter then some identity else none }

/-- A dial with the identity the process holds: the handshake needs the key of the certificate, and
the ledger must accept that key. -/
def dial (wrote : Bool) (bootId machineId : String) (p : AgentProcess) (w : NodeWorld) :
    NodeWorld :=
  if p.identity.cert = p.identity.key then
    let a := w.ledger.authorize wrote id p.identity.cert.hex (helloFacts hardware bootId machineId)
    if Service.admitted a.1 then
      { w with
        ledger := a.2
        process := some { p with session := some (opened p.identity) }
        dials := true :: w.dials }
    else { w with ledger := a.2, dials := false :: w.dials }
  else { w with dials := false :: w.dials }

/-- The control plane's half of a `Renew` up to its authorisation. -/
def authorizeRenew (wrote : Bool) (call : RenewCall) (w : NodeWorld) : NodeWorld :=
  let a := w.ledger.authorize wrote id "" {}
  { w with
    ledger := a.2
    requested := w.requested.erase call
    authorized := if Service.admitted a.1 then call :: w.authorized else w.authorized }

/-- The rest of it: the certificate is recorded, and the reply sent if its row was written. -/
def recordRenew (wrote : Bool) (call : RenewCall) (notAfter now : Int) (w : NodeWorld) :
    NodeWorld :=
  let r := w.ledger.recordIssue wrote id call.csr.hex notAfter {} now
  { w with
    ledger := r.2
    authorized := w.authorized.erase call
    recorded := call.csr :: w.recorded
    replies := if r.1.isOk then (call.csr, notAfter) :: w.replies else w.replies }

/-- `renew_once` once its reply is there: the clone takes the new identity, and `save` begins. -/
def renewed (key : Fingerprint) (notAfter : Int) (pinned : Bool) (session : AgentSession)
    (clone : AgentIdentity) (p : AgentProcess) : AgentProcess :=
  if pinned then
    let identity := { clone with key, cert := key, notAfter }
    { p with
      session := some { session with renewalState := some identity, awaiting := none }
      saving := some (.key identity) }
  else { p with session := some { session with awaiting := none } }

/-- The identity directory holds the key and the certificate of the last recorded renewal, if there
was one. -/
def savedLast (w : NodeWorld) : Bool :=
  w.recorded.head?.all fun key ↦ w.disk.key = key && w.disk.cert = key

/-- The next file of a `save`, and what is left to write. -/
def writeFile (disk : AgentIdentity) : Saving → AgentIdentity × Option Saving
  | .key i => ({ disk with key := i.key }, some (.cert i))
  | .cert i => ({ disk with cert := i.cert }, some (.identityJson i))
  | .identityJson i => ({ disk with notAfter := i.notAfter }, none)

/-- The step an action takes, when it applies. -/
def next (w : NodeWorld) : Act → Option NodeWorld
  | .start =>
    if w.process = none then
      some { w with
        process := some { identity := w.disk }
        loadedAt := w.recorded.length
        loadedLast := w.savedLast }
    else none
  | .stop => some { w with process := none }
  | .dial wrote bootId machineId => do
    let p ← w.process
    if p.session = none then some (w.dial id hardware wrote bootId machineId p) else none
  | .disconnect => do
    let p ← w.process
    some { w with process := some { p with session := none } }
  | .sendRenew key => do
    let p ← w.process
    let session ← p.session
    let _ ← session.renewalState
    if session.awaiting = none ∧ p.saving = none then
      some { w with
        process := some { p with session := some { session with awaiting := some key } }
        requested := ⟨session.presented, key⟩ :: w.requested }
    else none
  | .authorizeRenew wrote call =>
    if call ∈ w.requested then some (w.authorizeRenew id wrote call) else none
  | .recordRenew wrote call notAfter now =>
    if call ∈ w.authorized then some (w.recordRenew id wrote call notAfter now) else none
  | .receiveRenew key notAfter pinned => do
    let p ← w.process
    let session ← p.session
    let clone ← session.renewalState
    if session.awaiting = some key ∧ (key, notAfter) ∈ w.replies then
      some { w with
        process := some (renewed key notAfter pinned session clone p)
        replies := w.replies.erase (key, notAfter) }
    else none
  | .failRenew => do
    let p ← w.process
    let session ← p.session
    some { w with process := some { p with session := some { session with awaiting := none } } }
  | .writeFile => do
    let p ← w.process
    let saving ← p.saving
    some { w with
      disk := (writeFile w.disk saving).1
      process := some { p with saving := (writeFile w.disk saving).2 } }
  | .failSave => do
    let p ← w.process
    some { w with process := some { p with saving := none } }
  | .noteSeen now => some { w with ledger := w.ledger.noteSeen id now }
  | .elsewhere ledger =>
    if ledger.state.nodes.lookup id = w.ledger.state.nodes.lookup id then
      some { w with ledger }
    else none

/-- The node is accepted under the key, and this machine's hardware does not contradict the
recorded one. -/
def Standing (l : Ledger) (key : Fingerprint) : Prop :=
  ∃ entry, l.state.nodes.lookup id = some entry ∧ entry.state = .accepted ∧
    entry.publicKeyFingerprint = key.hex ∧
    Ledger.mismatch hardware entry.hardwareFingerprint = false

/-- The agent is installed and enrolled under its first key, and has not started. -/
structure Installed (first : Fingerprint) (w : NodeWorld) : Prop where
  standing : Standing id hardware w.ledger first
  key : w.disk.key = first
  cert : w.disk.cert = first
  idle : w.process = none
  quiet : w.requested = [] ∧ w.authorized = [] ∧ w.replies = [] ∧ w.recorded = [] ∧
    w.loadedAt = 0 ∧ w.dials = []

/-- The runs of one honest agent and its control plane. -/
def system : System NodeWorld Act where
  init w := ∃ first, Installed id hardware first w
  next := next id hardware

/-- The node is not denied, and every dial was authorised. -/
def Welcome (w : NodeWorld) : Prop :=
  (∀ entry, w.ledger.state.nodes.lookup id = some entry → entry.state ≠ .denied) ∧
    ∀ authorized ∈ w.dials, authorized = true

end

/-- A dial is made only while no renewal was recorded since the process loaded its identity, and
if it then found the key and the certificate of the last recorded renewal on disk. -/
def DialsWhatIsRecorded : Guard NodeWorld Act
  | w, .dial .. => w.recorded.length = w.loadedAt ∧ w.loadedLast = true
  | _, _ => True

instance : ∀ w a, Decidable (DialsWhatIsRecorded w a)
  | w, .dial .. =>
    inferInstanceAs (Decidable (w.recorded.length = w.loadedAt ∧ w.loadedLast = true))
  | _, .start | _, .stop | _, .disconnect | _, .sendRenew _ | _, .authorizeRenew ..
  | _, .recordRenew .. | _, .receiveRenew .. | _, .failRenew | _, .writeFile | _, .failSave
  | _, .noteSeen _ | _, .elsewhere _ => inferInstanceAs (Decidable True)

/-! ## A standing entry -/

section
variable {id hardware : String} {l : Ledger} {key : Fingerprint}

/-- A node in good standing is admitted under its key, or without one, and the ledger is left
alone. -/
theorem Standing.authorize (h : Standing id hardware l key) (wrote : Bool) (presented : String)
    (facts : Facts) (hkey : presented = key.hex ∨ presented = "")
    (hfacts : facts.hardwareFingerprint = hardware ∨ facts.hardwareFingerprint = "") :
    l.authorize wrote id presented facts = (.ok { ok := true }, l) := by
  obtain ⟨entry, hentry, hstate, hpinned, hhardware⟩ := h
  have hpresented : Ledger.mismatch presented entry.publicKeyFingerprint = false := by
    rcases hkey with rfl | rfl <;> simp [Ledger.mismatch, hpinned]
  have hreported :
      Ledger.mismatch facts.hardwareFingerprint entry.hardwareFingerprint = false := by
    rcases hfacts with h | h
    · rw [h, hhardware]
    · simp [Ledger.mismatch, h]
  simp only [Ledger.authorize, hentry, hstate, hpresented, hreported, Bool.false_eq_true, if_false]

/-- A renewal moves the pin, and keeps everything else that matters here. -/
theorem Standing.recordIssue (h : Standing id hardware l key) (wrote : Bool) (new : Fingerprint)
    (notAfter now : Int) :
    Standing id hardware (l.recordIssue wrote id new.hex notAfter {} now).2 new := by
  obtain ⟨entry, hentry, -, -, hhardware⟩ := h
  refine ⟨l.issuedEntry id new.hex notAfter {} now, ?_, rfl, rfl, ?_⟩
  · rw [Ledger.recordIssue, Ledger.returning_snd, Ledger.write_state]
    exact AList.lookup_insert _
  · simpa [Ledger.issuedEntry, LedgerEntry.adopt, Ledger.entryFor, hentry] using hhardware

theorem Standing.noteSeen (h : Standing id hardware l key) (now : Int) :
    Standing id hardware (l.noteSeen id now) key := by
  obtain ⟨entry, hentry, hstate, hpinned, hhardware⟩ := h
  refine ⟨{ entry with lastSeen := now }, ?_, hstate, hpinned, hhardware⟩
  simp only [Ledger.noteSeen, hentry]
  exact AList.lookup_insert _

theorem Standing.congr {l' : Ledger} (h : Standing id hardware l key)
    (hsame : l'.state.nodes.lookup id = l.state.nodes.lookup id) : Standing id hardware l' key := by
  rwa [Standing, hsame]

end

/-! ## The invariant -/

section
variable {id hardware : String} {first : Fingerprint} {w w' : NodeWorld}

/-- The key the control plane has pinned: that of the last recorded renewal. -/
def pinned (first : Fingerprint) (w : NodeWorld) : Fingerprint := w.recorded.head?.getD first

/-- What the condition keeps: the node stands under the pinned key, and a process that loaded the
last recorded renewal and has seen no other recorded holds that key. -/
structure Sound (id hardware : String) (first : Fingerprint) (w : NodeWorld) : Prop where
  standing : Standing id hardware w.ledger (w.pinned first)
  untouched : w.recorded = [] → w.disk.key = first ∧ w.disk.cert = first
  replied : w.replies ≠ [] → w.recorded ≠ []
  saved : ∀ p, w.process = some p → p.saving ≠ none → w.recorded ≠ []
  loaded : w.loadedAt ≤ w.recorded.length
  held : ∀ p, w.process = some p → w.recorded.length = w.loadedAt → w.loadedLast = true →
    p.identity.key = w.pinned first ∧ p.identity.cert = w.pinned first
  dialled : ∀ authorized ∈ w.dials, authorized = true

theorem Installed.sound (h : Installed id hardware first w) : Sound id hardware first w := by
  obtain ⟨hstanding, hkey, hcert, hidle, -, -, hreplies, hrecorded, hloaded, hdials⟩ := h
  constructor
  · rwa [pinned, hrecorded]
  · exact fun _ ↦ ⟨hkey, hcert⟩
  · exact fun h ↦ absurd hreplies h
  · intro p hp
    rw [hidle] at hp
    cases hp
  · omega
  · intro p hp
    rw [hidle] at hp
    cases hp
  · simp [hdials]

/-- A step that changes the process alone, keeping its loaded identity and starting no save. -/
theorem Sound.setProcess (h : Sound id hardware first w) {p q : AgentProcess}
    (hp : w.process = some p) (hidentity : q.identity = p.identity)
    (hsaving : q.saving ≠ none → p.saving ≠ none) :
    Sound id hardware first { w with process := some q } where
  standing := h.standing
  untouched := h.untouched
  replied := h.replied
  saved r hr hs := by
    obtain rfl : q = r := Option.some.inj hr
    exact h.saved p hp (hsaving hs)
  loaded := h.loaded
  held r hr hlen hlast := by
    obtain rfl : q = r := Option.some.inj hr
    rw [hidentity]
    exact h.held p hp hlen hlast
  dialled := h.dialled

theorem Sound.start (h : Sound id hardware first w) :
    Sound id hardware first
      { w with
        process := some { identity := w.disk }
        loadedAt := w.recorded.length
        loadedLast := w.savedLast } where
  standing := h.standing
  untouched := h.untouched
  replied := h.replied
  saved q hq hs := by
    obtain rfl : _ = q := Option.some.inj hq
    exact absurd rfl hs
  loaded := le_rfl
  held q hq _ hlast := by
    obtain rfl : _ = q := Option.some.inj hq
    cases hrecorded : w.recorded with
    | nil => simpa [pinned, hrecorded] using h.untouched hrecorded
    | cons key older => simpa [pinned, savedLast, hrecorded] using hlast
  dialled := h.dialled

theorem Sound.dial (h : Sound id hardware first w) {p : AgentProcess} (hp : w.process = some p)
    (hG : w.recorded.length = w.loadedAt ∧ w.loadedLast = true) (wrote : Bool) (bootId machineId : String) :
    Sound id hardware first (w.dial id hardware wrote bootId machineId p) := by
  obtain ⟨hkey, hcert⟩ := h.held p hp hG.1 hG.2
  have hauthorize := h.standing.authorize wrote p.identity.cert.hex
    (helloFacts hardware bootId machineId) (.inl (by rw [hcert])) (.inl rfl)
  have hsession := h.setProcess (q := { p with session := some (opened p.identity) }) hp rfl fun hs ↦ hs
  simp only [NodeWorld.dial, hcert, hkey, if_true]
  rw [hcert] at hauthorize
  rw [hauthorize]
  simp only [Service.admitted, if_true]
  exact { hsession with dialled := by simpa using h.dialled }

theorem Sound.authorizeRenew (h : Sound id hardware first w) (wrote : Bool) (call : RenewCall) :
    Sound id hardware first (w.authorizeRenew id wrote call) where
  standing := by
    have hauthorize := h.standing.authorize wrote "" {} (.inr rfl) (.inr rfl)
    rw [NodeWorld.authorizeRenew, hauthorize]
    exact h.standing
  untouched := h.untouched
  replied := h.replied
  saved := h.saved
  loaded := h.loaded
  held := h.held
  dialled := h.dialled

theorem Sound.recordRenew (h : Sound id hardware first w) (wrote : Bool) (call : RenewCall)
    (notAfter now : Int) : Sound id hardware first (w.recordRenew id wrote call notAfter now) where
  standing := h.standing.recordIssue wrote call.csr notAfter now
  untouched hnil := by simp [NodeWorld.recordRenew] at hnil
  replied _ := by simp [NodeWorld.recordRenew]
  saved _ _ _ := by simp [NodeWorld.recordRenew]
  loaded := by
    have := h.loaded
    simp only [NodeWorld.recordRenew, List.length_cons]
    omega
  held _ _ hlen _ := by
    have := h.loaded
    simp only [NodeWorld.recordRenew, List.length_cons] at hlen
    omega
  dialled := h.dialled

theorem Sound.receiveRenew (h : Sound id hardware first w) {p : AgentProcess}
    (hp : w.process = some p) (key : Fingerprint) (notAfter : Int) (pinned : Bool)
    (session : AgentSession) (clone : AgentIdentity) (hreply : (key, notAfter) ∈ w.replies) :
    Sound id hardware first
      { w with
        process := some (renewed key notAfter pinned session clone p)
        replies := w.replies.erase (key, notAfter) } where
  standing := h.standing
  untouched := h.untouched
  replied _ := h.replied (List.ne_nil_of_mem hreply)
  saved _ _ _ := h.replied (List.ne_nil_of_mem hreply)
  loaded := h.loaded
  held q hq hlen hlast := by
    obtain rfl : _ = q := Option.some.inj hq
    have hidentity : (renewed key notAfter pinned session clone p).identity = p.identity := by
      unfold renewed
      split_ifs <;> rfl
    rw [hidentity]
    exact h.held p hp hlen hlast
  dialled := h.dialled

theorem Sound.writeFile (h : Sound id hardware first w) {p : AgentProcess} {saving : Saving}
    (hp : w.process = some p) (hsaving : p.saving = some saving) :
    Sound id hardware first
      { w with
        disk := (NodeWorld.writeFile w.disk saving).1
        process := some { p with saving := (NodeWorld.writeFile w.disk saving).2 } } := by
  have hrecorded : w.recorded ≠ [] := h.saved p hp (by simp [hsaving])
  exact
    { h.setProcess (q := { p with saving := (NodeWorld.writeFile w.disk saving).2 }) hp rfl
        (by simp [hsaving]) with
      untouched := fun hnil ↦ absurd hnil hrecorded }

/-- Every step under the condition keeps the invariant. -/
theorem Sound.next {a : Act} (h : Sound id hardware first w) (hG : DialsWhatIsRecorded w a)
    (hn : NodeWorld.next id hardware w a = some w') : Sound id hardware first w' := by
  cases a with
  | start =>
    obtain ⟨-, rfl⟩ : w.process = none ∧ _ = w' := by simpa [NodeWorld.next] using hn
    exact h.start
  | stop =>
    obtain rfl : _ = w' := by simpa [NodeWorld.next] using hn
    exact { h with saved := nofun, held := nofun }
  | dial wrote bootId machineId =>
    obtain ⟨p, hp, -, rfl⟩ : ∃ p, w.process = some p ∧ p.session = none ∧ _ = w' := by
      simpa [NodeWorld.next, Option.bind_eq_some_iff] using hn
    exact h.dial hp hG wrote bootId machineId
  | disconnect =>
    obtain ⟨p, hp, rfl⟩ : ∃ p, w.process = some p ∧ _ = w' := by
      simpa [NodeWorld.next, Option.bind_eq_some_iff] using hn
    exact h.setProcess hp rfl fun hs ↦ hs
  | sendRenew key =>
    obtain ⟨p, hp, session, -, -, -, rfl⟩ : ∃ p, w.process = some p ∧
        ∃ session, p.session = some session ∧ (∃ clone, session.renewalState = some clone) ∧
          (session.awaiting = none ∧ p.saving = none) ∧ _ = w' := by
      simpa [NodeWorld.next, Option.bind_eq_some_iff] using hn
    have hset := h.setProcess (q := { p with
      session := some { session with awaiting := some key } }) hp rfl fun hs ↦ hs
    exact { hset with }
  | authorizeRenew wrote call =>
    obtain ⟨-, rfl⟩ : call ∈ w.requested ∧ _ = w' := by simpa [NodeWorld.next] using hn
    exact h.authorizeRenew wrote call
  | recordRenew wrote call notAfter now =>
    obtain ⟨-, rfl⟩ : call ∈ w.authorized ∧ _ = w' := by simpa [NodeWorld.next] using hn
    exact h.recordRenew wrote call notAfter now
  | receiveRenew key notAfter pinned =>
    obtain ⟨p, hp, session, -, clone, -, ⟨-, hreply⟩, rfl⟩ : ∃ p, w.process = some p ∧
        ∃ session, p.session = some session ∧ ∃ clone, session.renewalState = some clone ∧
          (session.awaiting = some key ∧ (key, notAfter) ∈ w.replies) ∧ _ = w' := by
      simpa [NodeWorld.next, Option.bind_eq_some_iff] using hn
    exact h.receiveRenew hp key notAfter pinned session clone hreply
  | failRenew =>
    obtain ⟨p, hp, session, -, rfl⟩ : ∃ p, w.process = some p ∧
        ∃ session, p.session = some session ∧ _ = w' := by
      simpa [NodeWorld.next, Option.bind_eq_some_iff] using hn
    exact h.setProcess hp rfl fun hs ↦ hs
  | writeFile =>
    obtain ⟨p, hp, saving, hs, rfl⟩ : ∃ p, w.process = some p ∧
        ∃ saving, p.saving = some saving ∧ _ = w' := by
      simpa [NodeWorld.next, Option.bind_eq_some_iff] using hn
    exact h.writeFile hp hs
  | failSave =>
    obtain ⟨p, hp, rfl⟩ : ∃ p, w.process = some p ∧ _ = w' := by
      simpa [NodeWorld.next, Option.bind_eq_some_iff] using hn
    exact h.setProcess hp rfl (by simp)
  | noteSeen now =>
    obtain rfl : _ = w' := by simpa [NodeWorld.next] using hn
    exact { h with standing := h.standing.noteSeen now }
  | elsewhere ledger =>
    obtain ⟨hsame, rfl⟩ : ledger.state.nodes.lookup id = w.ledger.state.nodes.lookup id ∧
        _ = w' := by simpa [NodeWorld.next] using hn
    exact { h with standing := h.standing.congr hsame }

theorem Sound.welcome (h : Sound id hardware first w) : Welcome id w := by
  refine ⟨fun entry hentry ↦ ?_, h.dialled⟩
  obtain ⟨standing, hstanding, hstate, -⟩ := h.standing
  rw [hentry] at hstanding
  obtain rfl := Option.some.inj hstanding
  simp [hstate]

end

/-- **An honest agent is never locked out**, in every run in which it dials only while no renewal
was recorded since its process loaded the identity it dials with, that of the last recorded one. -/
theorem welcome_of_dials_what_is_recorded (id hardware : String) (w : NodeWorld)
    (hw : (system id hardware).Reachable DialsWhatIsRecorded w) : Welcome id w := by
  obtain ⟨w₀, ⟨first, hinstalled⟩, hsteps⟩ := hw
  have hsound : (system id hardware).Preserves DialsWhatIsRecorded (Sound id hardware first) :=
    fun _ _ _ h hG hn ↦ h.next hG hn
  exact (hsteps.invariant hsound hinstalled.sound).welcome

private theorem enrolledKey_hex : "aa" ≠ "" := by decide

private theorem renewedKey_hex : "bb" ≠ "" := by decide

private def enrolledKey : Fingerprint := ⟨"aa", enrolledKey_hex⟩

private def renewedKey : Fingerprint := ⟨"bb", renewedKey_hex⟩

private def installed : NodeWorld where
  ledger := (({} : Ledger).recordIssue true "n" "aa" 90 { hardwareFingerprint := "hw" } 1).2
  disk := ⟨enrolledKey, enrolledKey, 90⟩

private theorem installed_init : (system "n" "hw").init installed :=
  ⟨enrolledKey, ⟨⟨_, rfl, rfl, rfl, by decide⟩, rfl, rfl, rfl, rfl, rfl, rfl, rfl, rfl, rfl⟩⟩

/-- A process that dials, renews its certificate and saves the new identity. -/
private def renewal : List Act :=
  [.start, .dial true "boot" "machine", .sendRenew renewedKey,
    .authorizeRenew true ⟨enrolledKey, renewedKey⟩,
    .recordRenew true ⟨enrolledKey, renewedKey⟩ 180 2, .receiveRenew renewedKey 180 true,
    .writeFile, .writeFile, .writeFile, .disconnect]

/-- A process that is restarted after its renewal was saved dials with the new key. -/
theorem welcome_after_restart :
    ∃ w, (system "n" "hw").runUnder DialsWhatIsRecorded installed
        (renewal ++ [.stop, .start, .dial true "boot" "machine"]) = some w ∧
      w.dials = [true, true] ∧ Welcome "n" w := by
  obtain ⟨w, hw, hdials⟩ : ∃ w, (system "n" "hw").runUnder DialsWhatIsRecorded installed
      (renewal ++ [.stop, .start, .dial true "boot" "machine"]) = some w ∧
        w.dials = [true, true] := ⟨_, rfl, rfl⟩
  exact ⟨w, hw, hdials, welcome_of_dials_what_is_recorded "n" "hw" w
    ⟨installed, installed_init, System.steps_of_runUnder hw⟩⟩

/-- The dial after a renewal is still made with the identity the process started with: the node is
denied for its old key. -/
theorem redial_after_renewal_is_denied :
    ∃ w, (system "n" "hw").Reachable Guard.free w ∧ ¬Welcome "n" w ∧ w.dials = [false, true] ∧
      (w.ledger.state.nodes.lookup "n").map LedgerEntry.state = some .denied := by
  obtain ⟨w, hw, hdials, hstate⟩ : ∃ w, (system "n" "hw").run installed
      (renewal ++ [.dial true "boot" "machine"]) = some w ∧ w.dials = [false, true] ∧
        (w.ledger.state.nodes.lookup "n").map LedgerEntry.state = some .denied :=
    ⟨_, rfl, rfl, rfl⟩
  refine ⟨w, ⟨installed, installed_init, System.steps_of_run hw⟩, fun hwelcome ↦ ?_, hdials, hstate⟩
  exact absurd (hwelcome.2 false (by simp [hdials])) (by decide)

end NodeWorld

end SparkPulse.Agent
