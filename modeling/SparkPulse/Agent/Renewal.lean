import SparkPulse.Agent.Ledger
import SparkPulse.Transition.System

/-!
# Enrolment, renewal and revocation

The handlers of `agent/servicer.py` that move the ledger, interleaved with an operator's `deny` and
`remove`. `Enroll` and `Renew` each take the ledger's lock twice, once to redeem or authorise and
once to record the certificate, so each is two steps here and anything may fall between them;
`Session` takes it once.

The ledger is read through `Ledger.holder`, the key each node may act under. The abstract model
below moves that assignment and keeps the history; the service refines it, and what a history may
not contain is proved of the abstract model.
-/

namespace SparkPulse.Agent

open Transition

/-! ## Certificates and history -/

/-- The fingerprint of a public key: a digest, so never the empty string. -/
structure Fingerprint where
  hex : String
  hex_ne : hex ≠ ""
  deriving DecidableEq

/-- A certificate of the node CA: the identity it entitles to, and its key. -/
structure Certificate where
  nodeId : String
  key : Fingerprint
  deriving DecidableEq

/-- What happened to a node's membership. -/
inductive Event
  /-- A certificate for the key was recorded: for an enrolment, or for a renewal made with the
  certificate of an earlier key. `returned` says whether the call went on to return it. -/
  | issued (id : String) (renewedWith : Option Fingerprint) (key : Fingerprint) (returned : Bool)
  /-- An operator's `deny` or `remove` completed. -/
  | revoked (id : String)
  /-- A session was opened with a certificate of the key. -/
  | opened (id : String) (key : Fingerprint)
  deriving DecidableEq

/-- A history, newest event first. -/
abbrev History := List Event

/-- A renewal to another key has succeeded since the node was last issued this one. -/
def Superseded (id : String) (key : Fingerprint) : History → Prop
  | [] => False
  | .issued id' renewedWith key' returned :: earlier =>
    if id' = id then
      key' ≠ key ∧ ((renewedWith.isSome ∧ returned = true) ∨ Superseded id key earlier)
    else Superseded id key earlier
  | _ :: earlier => Superseded id key earlier

/-- A `deny` or `remove` of the node has completed since it last enrolled. -/
def Revoked (id : String) : History → Prop
  | [] => False
  | .issued id' none _ _ :: earlier => id' ≠ id ∧ Revoked id earlier
  | .revoked id' :: earlier => id' = id ∨ Revoked id earlier
  | _ :: earlier => Revoked id earlier

instance (id : String) (key : Fingerprint) : ∀ h, Decidable (Superseded id key h)
  | [] => inferInstanceAs (Decidable False)
  | .issued id' renewedWith key' returned :: earlier =>
    have := instDecidableSuperseded id key earlier
    inferInstanceAs (Decidable (if id' = id then
      key' ≠ key ∧ ((renewedWith.isSome ∧ returned = true) ∨ Superseded id key earlier)
      else Superseded id key earlier))
  | .revoked _ :: earlier => instDecidableSuperseded id key earlier
  | .opened _ _ :: earlier => instDecidableSuperseded id key earlier

instance (id : String) : ∀ h, Decidable (Revoked id h)
  | [] => inferInstanceAs (Decidable False)
  | .issued id' none _ _ :: earlier =>
    have := instDecidableRevoked id earlier
    inferInstanceAs (Decidable (id' ≠ id ∧ Revoked id earlier))
  | .issued _ (some _) _ _ :: earlier => instDecidableRevoked id earlier
  | .revoked id' :: earlier =>
    have := instDecidableRevoked id earlier
    inferInstanceAs (Decidable (id' = id ∨ Revoked id earlier))
  | .opened _ _ :: earlier => instDecidableRevoked id earlier

/-- An event respects the history before it: no renewal that returned and no session was made with
a superseded certificate, and no renewal was recorded for a revoked node. -/
def Event.Respects : Event → History → Prop
  | .issued id (some old) _ returned, earlier =>
    (returned = true → ¬Superseded id old earlier) ∧ ¬Revoked id earlier
  | .opened id key, earlier => ¬Superseded id key earlier
  | _, _ => True

instance : ∀ (event : Event) (h : History), Decidable (event.Respects h)
  | .issued id (some old) _ returned, h =>
    inferInstanceAs (Decidable ((returned = true → ¬Superseded id old h) ∧ ¬Revoked id h))
  | .opened id key, h => inferInstanceAs (Decidable ¬Superseded id key h)
  | .issued _ none _ _, _ => inferInstanceAs (Decidable True)
  | .revoked _, _ => inferInstanceAs (Decidable True)

/-- Only the key on record acted for a node, and every denial or removal was final. -/
def History.Lawful : History → Prop
  | [] => True
  | event :: earlier => event.Respects earlier ∧ History.Lawful earlier

instance : ∀ h, Decidable (History.Lawful h)
  | [] => inferInstanceAs (Decidable True)
  | event :: earlier =>
    have := instDecidableLawful earlier
    inferInstanceAs (Decidable (event.Respects earlier ∧ History.Lawful earlier))

/-! ## Membership

The abstract model: an assignment of keys to nodes, and its history. -/

/-- Which key each node may act under, and how that came about. -/
structure Membership where
  holder : String → Option String
  history : History

namespace Membership

/-- The moves of a membership in which renewals are made by the current holder alone. -/
inductive Moves (m : Membership) : Membership → Prop
  /-- Nothing about membership changed. -/
  | idle : Moves m m
  /-- A node's key was withdrawn. -/
  | withdraw (id : String) : Moves m { m with holder := Function.update m.holder id none }
  /-- An operator withdrew a node's key. -/
  | revoke (id : String) :
    Moves m ⟨Function.update m.holder id none, .revoked id :: m.history⟩
  /-- A certificate was recorded, for a renewal at the request of the current holder. -/
  | issue (id : String) (renewedWith : Option Fingerprint) (key : Fingerprint) (returned : Bool) :
    (∀ old, renewedWith = some old → m.holder id = some old.hex) →
    Moves m
      ⟨Function.update m.holder id (some key.hex),
        .issued id renewedWith key returned :: m.history⟩
  /-- A session was opened with a key the recorded one does not contradict. -/
  | connect (id : String) (key : Fingerprint) (held : String) :
    m.holder id = some held → Ledger.mismatch key.hex held = false →
    Moves m ⟨m.holder, .opened id key :: m.history⟩

/-- The invariant of a membership: a superseded key is not the one held, a revoked node holds none,
and the history is lawful. -/
structure Sound (m : Membership) : Prop where
  pinned : ∀ id key, Superseded id key m.history →
    m.holder id ≠ some key.hex ∧ m.holder id ≠ some ""
  withdrawn : ∀ id, Revoked id m.history → m.holder id = none
  lawful : History.Lawful m.history

variable {m m' : Membership}

/-- A membership without history is sound, whatever it holds. -/
theorem sound_of_history_nil (h : m.history = []) : m.Sound where
  pinned id key hs := by rw [h] at hs; exact hs.elim
  withdrawn id hr := by rw [h] at hr; exact hr.elim
  lawful := by rw [h]; trivial

theorem Sound.withdraw (h : m.Sound) (id : String) :
    Sound { m with holder := Function.update m.holder id none } where
  pinned n key hs := by
    by_cases hn : n = id
    · subst hn
      simp
    · simpa [Function.update_of_ne hn] using h.pinned n key hs
  withdrawn n hr := by
    by_cases hn : n = id
    · subst hn
      simp
    · simpa [Function.update_of_ne hn] using h.withdrawn n hr
  lawful := h.lawful

theorem Sound.revoke (h : m.Sound) (id : String) :
    Sound ⟨Function.update m.holder id none, .revoked id :: m.history⟩ where
  pinned := (h.withdraw id).pinned
  withdrawn n hr := by
    rcases hr with rfl | hr
    · simp
    · exact (h.withdraw id).withdrawn n hr
  lawful := ⟨trivial, h.lawful⟩

theorem Sound.issue (h : m.Sound) (id : String) (renewedWith : Option Fingerprint)
    (key : Fingerprint) (returned : Bool)
    (hheld : ∀ old, renewedWith = some old → m.holder id = some old.hex) :
    Sound ⟨Function.update m.holder id (some key.hex),
      .issued id renewedWith key returned :: m.history⟩ where
  pinned n k hs := by
    by_cases hn : id = n
    · subst hn
      rw [Superseded, if_pos rfl] at hs
      refine ⟨?_, by simpa using key.hex_ne⟩
      simp only [Function.update_self, ne_eq, Option.some.injEq]
      intro hhex
      exact hs.1 (by cases key; cases k; simpa using hhex)
    · rw [Superseded, if_neg hn] at hs
      simpa [Function.update_of_ne (Ne.symm hn)] using h.pinned n k hs
  withdrawn n hr := by
    cases renewedWith with
    | none =>
      simpa [Function.update_of_ne (Ne.symm hr.1)] using h.withdrawn n hr.2
    | some old =>
      by_cases hn : n = id
      · subst hn
        exact absurd (h.withdrawn n hr) (by simp [hheld old rfl])
      · simpa [Function.update_of_ne hn] using h.withdrawn n hr
  lawful := by
    refine ⟨?_, h.lawful⟩
    cases renewedWith with
    | none => trivial
    | some old =>
      refine ⟨fun _ hs ↦ (h.pinned id old hs).1 (hheld old rfl), fun hr ↦ ?_⟩
      exact absurd (h.withdrawn id hr) (by simp [hheld old rfl])

theorem Sound.connect (h : m.Sound) (id : String) (key : Fingerprint) (held : String)
    (hheld : m.holder id = some held) (hmatch : Ledger.mismatch key.hex held = false) :
    Sound ⟨m.holder, .opened id key :: m.history⟩ where
  pinned := h.pinned
  withdrawn := h.withdrawn
  lawful := by
    refine ⟨fun hs ↦ ?_, h.lawful⟩
    obtain ⟨hkey, hempty⟩ := h.pinned id key hs
    rw [hheld] at hkey hempty
    have hheld_ne : held ≠ "" := fun h' ↦ hempty (by rw [h'])
    have hsame : key.hex = held := by
      simpa [Ledger.mismatch, key.hex_ne, hheld_ne] using hmatch
    exact hkey (by rw [hsame])

/-- One case for each kind of move. -/
theorem Sound.moves (h : m.Sound) (hm : m.Moves m') : m'.Sound := by
  cases hm with
  | idle => exact h
  | withdraw id => exact h.withdraw id
  | revoke id => exact h.revoke id
  | issue id renewedWith key returned hheld => exact h.issue id renewedWith key returned hheld
  | connect id key held hheld hmatch => exact h.connect id key held hheld hmatch

end Membership

/-! ## The service

The ledger with the calls that are between their two steps. -/

/-- An enrolment request; `csr` is the key of a signing request the CA accepts. -/
structure EnrollRequest where
  token : String
  csr : Option Fingerprint
  facts : Facts
  deriving DecidableEq

/-- An enrolment that has redeemed its token. -/
structure Enrolling where
  id : String
  csr : Option Fingerprint
  facts : Facts
  deriving DecidableEq

/-- A renewal, with the certificate its connection was authenticated by. -/
structure Renewing where
  cert : Certificate
  csr : Option Fingerprint
  facts : Facts
  deriving DecidableEq

/-- The ledger, the calls in flight, and the history. -/
structure Service where
  ledger : Ledger := {}
  enrolling : List Enrolling := []
  renewing : List Renewing := []
  history : History := []

namespace Service

/-- Whether an authorisation returned a verdict that admits. -/
def admitted : Except LedgerError IdentityVerdict → Bool
  | .ok verdict => verdict.ok
  | .error _ => false

/-- `deny`: completed once its row is written. -/
def deny (wrote : Bool) (id reason : String) (s : Service) : Service :=
  let r := s.ledger.deny wrote id reason
  { s with ledger := r.2, history := if r.1.isOk then .revoked id :: s.history else s.history }

/-- `remove`: completed once its row is dropped. -/
def remove (wrote : Bool) (id : String) (s : Service) : Service :=
  let r := s.ledger.remove wrote id
  { s with ledger := r.2, history := if r.1.isOk then .revoked id :: s.history else s.history }

/-- Record a certificate that was issued for the key of a signing request. -/
def issue (wrote : Bool) (id : String) (renewedWith : Option Fingerprint) (key : Fingerprint)
    (notAfter : Int) (facts : Facts) (now : Int) (s : Service) : Service :=
  let r := s.ledger.recordIssue wrote id key.hex notAfter facts now
  { s with ledger := r.2, history := .issued id renewedWith key r.1.isOk :: s.history }

/-- The first half of `Enroll`. A connection that already carries an identity is refused. -/
def redeem (hash : String → String) (wrote : Bool) (peer : Option Certificate)
    (r : EnrollRequest) (minted : String) (now : Int) (s : Service) : Service :=
  match peer with
  | some _ => s
  | none =>
    match s.ledger.redeemToken hash wrote r.token minted now with
    | (.ok id, ledger) =>
      { s with ledger, enrolling := { id, csr := r.csr, facts := r.facts } :: s.enrolling }
    | (.error _, ledger) => { s with ledger }

/-- The second half of `Enroll`: a bad signing request removes the node, a good one is recorded. -/
def enroll (wrote : Bool) (e : Enrolling) (notAfter now : Int) (s : Service) : Service :=
  let s := { s with enrolling := s.enrolling.erase e }
  match e.csr with
  | none => s.remove wrote e.id
  | some key => s.issue wrote e.id none key notAfter e.facts now

/-- The first half of `Renew`: authorised by the node id and the facts, without the key. -/
def authorizeRenewal (wrote : Bool) (r : Renewing) (s : Service) : Service :=
  let a := s.ledger.authorize wrote r.cert.nodeId "" r.facts
  { s with
    ledger := a.2
    renewing := if admitted a.1 then r :: s.renewing else s.renewing }

/-- The second half of `Renew`: the recorded key is replaced by the new one, not compared. -/
def renew (wrote : Bool) (r : Renewing) (notAfter now : Int) (s : Service) : Service :=
  let s := { s with renewing := s.renewing.erase r }
  match r.csr with
  | none => s
  | some key => s.issue wrote r.cert.nodeId (some r.cert.key) key notAfter r.facts now

/-- `Session`: a certificate entitles to one identity, under the key it was issued for. -/
def session (wrote : Bool) (cert : Certificate) (claimed : String) (facts : Facts) (s : Service) :
    Service :=
  if claimed ≠ cert.nodeId then s
  else
    let a := s.ledger.authorize wrote cert.nodeId cert.key.hex facts
    { s with
      ledger := a.2
      history := if admitted a.1 then .opened cert.nodeId cert.key :: s.history else s.history }

/-- One locked step of a call. -/
inductive Act
  | mint (wrote : Bool) (secret name : String) (ttl : Int) (nodeId : String) (now : Int)
  | revokeToken (wrote : Bool) (secret : String) (now : Int)
  | sweep (wrote : Bool) (now : Int)
  | noteSeen (id : String) (now : Int)
  | deny (wrote : Bool) (id reason : String)
  | remove (wrote : Bool) (id : String)
  | redeem (wrote : Bool) (peer : Option Certificate) (r : EnrollRequest) (minted : String)
      (now : Int)
  | enroll (wrote : Bool) (e : Enrolling) (notAfter now : Int)
  | authorizeRenewal (wrote : Bool) (r : Renewing)
  | renew (wrote : Bool) (r : Renewing) (notAfter now : Int)
  | session (wrote : Bool) (cert : Certificate) (claimed : String) (facts : Facts)

/-- The step an action takes; the second half of a call needs its first half done. -/
def next (hash : String → String) (s : Service) : Act → Option Service
  | .mint wrote secret name ttl nodeId now =>
    some { s with ledger := (s.ledger.mintToken hash wrote secret name ttl nodeId now).2 }
  | .revokeToken wrote secret now =>
    some { s with ledger := (s.ledger.revokeToken hash wrote secret now).2 }
  | .sweep wrote now => some { s with ledger := (s.ledger.sweep wrote now).2 }
  | .noteSeen id now => some { s with ledger := s.ledger.noteSeen id now }
  | .deny wrote id reason => some (s.deny wrote id reason)
  | .remove wrote id => some (s.remove wrote id)
  | .redeem wrote peer r minted now => some (s.redeem hash wrote peer r minted now)
  | .enroll wrote e notAfter now =>
    if e ∈ s.enrolling then some (s.enroll wrote e notAfter now) else none
  | .authorizeRenewal wrote r => some (s.authorizeRenewal wrote r)
  | .renew wrote r notAfter now =>
    if r ∈ s.renewing then some (s.renew wrote r notAfter now) else none
  | .session wrote cert claimed facts => some (s.session wrote cert claimed facts)

/-- The interleavings of the calls on one ledger, from any ledger and no call in flight. -/
def system (hash : String → String) : System Service Act where
  init s := s.enrolling = [] ∧ s.renewing = [] ∧ s.history = []
  next := next hash

/-- When a renewal is recorded, its node is accepted under the key the renewal was made with. -/
def RenewedByHolder : Guard Service Act
  | s, .renew _ r _ _ => s.ledger.holder r.cert.nodeId = some r.cert.key.hex
  | _, _ => True

instance : ∀ s a, Decidable (RenewedByHolder s a)
  | s, .renew _ r _ _ =>
    inferInstanceAs (Decidable (s.ledger.holder r.cert.nodeId = some r.cert.key.hex))
  | _, .mint .. | _, .revokeToken .. | _, .sweep .. | _, .noteSeen .. | _, .deny ..
  | _, .remove .. | _, .redeem .. | _, .enroll .. | _, .authorizeRenewal .. | _, .session .. =>
    inferInstanceAs (Decidable True)

/-! ### The service refines the membership -/

/-- What of the service the abstract model sees. -/
def membership (s : Service) : Membership := ⟨s.ledger.holder, s.history⟩

variable {s t : Service}

theorem deny_moves (wrote : Bool) (id reason : String) (s : Service) :
    s.membership.Moves (s.deny wrote id reason).membership := by
  unfold deny
  dsimp only [membership]
  rw [Ledger.deny_holder]
  split_ifs
  · exact .revoke id
  · exact .withdraw id

theorem remove_moves (wrote : Bool) (id : String) (s : Service) :
    s.membership.Moves (s.remove wrote id).membership := by
  unfold remove
  dsimp only [membership]
  rw [Ledger.remove_holder]
  split_ifs
  · exact .revoke id
  · exact .withdraw id

theorem issue_moves (wrote : Bool) (id : String) (renewedWith : Option Fingerprint)
    (key : Fingerprint) (notAfter : Int) (facts : Facts) (now : Int) (s : Service)
    (hheld : ∀ old, renewedWith = some old → s.ledger.holder id = some old.hex) :
    s.membership.Moves (s.issue wrote id renewedWith key notAfter facts now).membership := by
  unfold issue
  dsimp only [membership]
  rw [Ledger.recordIssue_holder]
  exact .issue id renewedWith key _ hheld

theorem redeem_moves (hash : String → String) (wrote : Bool) (peer : Option Certificate)
    (r : EnrollRequest) (minted : String) (now : Int) (s : Service) :
    s.membership.Moves (s.redeem hash wrote peer r minted now).membership := by
  unfold redeem
  cases peer with
  | some cert => exact .idle
  | none =>
    dsimp only
    have hledger : ((s.ledger.redeemToken hash wrote r.token minted now).2.holder = s.ledger.holder)
        ∨ ∃ id, (s.ledger.redeemToken hash wrote r.token minted now).2.holder =
          Function.update s.ledger.holder id none := by
      rcases Ledger.redeemToken_holder hash wrote r.token minted now s.ledger with
        ⟨why, h⟩ | ⟨id, h, -⟩
      · exact .inl (by rw [h])
      · exact .inr ⟨id, h⟩
    split
    all_goals
      rename_i h
      rw [h] at hledger
      rcases hledger with hsame | ⟨id, hid⟩
      · simpa only [membership, hsame] using Membership.Moves.idle
      · simpa only [membership, hid] using Membership.Moves.withdraw id

/-- An authorisation admits the node under a key it does not contradict, or it does not admit it,
and either way the history is the caller's to extend. -/
theorem authorize_moves (wrote : Bool) (id key : String) (facts : Facts) (s : Service) :
    (∃ held, (s.ledger.authorize wrote id key facts).2 = s.ledger ∧ s.ledger.holder id = some held ∧
        Ledger.mismatch key held = false) ∨
      (admitted (s.ledger.authorize wrote id key facts).1 = false ∧
        s.membership.Moves ⟨(s.ledger.authorize wrote id key facts).2.holder, s.history⟩) := by
  rcases s.ledger.authorize_cases wrote id key facts with ⟨held, h, hheld, hkey⟩ | ⟨hno, hkeep⟩
  · exact .inl ⟨held, by rw [h], hheld, hkey⟩
  · refine .inr ⟨?_, ?_⟩
    · cases hv : (s.ledger.authorize wrote id key facts).1 with
      | error _ => rfl
      | ok verdict => exact hno verdict hv
    · rcases hkeep with hkeep | hkeep
      · rw [hkeep]
        exact .idle
      · rw [hkeep]
        exact .withdraw id

theorem authorizeRenewal_moves (wrote : Bool) (r : Renewing) (s : Service) :
    s.membership.Moves (s.authorizeRenewal wrote r).membership := by
  rcases s.authorize_moves wrote r.cert.nodeId "" r.facts with ⟨held, h, -, -⟩ | ⟨-, h⟩
  · simpa only [authorizeRenewal, membership, h] using Membership.Moves.idle
  · exact h

theorem session_moves (wrote : Bool) (cert : Certificate) (claimed : String) (facts : Facts)
    (s : Service) : s.membership.Moves (s.session wrote cert claimed facts).membership := by
  unfold session
  split_ifs with hclaimed
  · exact .idle
  · dsimp only [membership]
    rcases s.authorize_moves wrote cert.nodeId cert.key.hex facts with
      ⟨held, h, hheld, hkey⟩ | ⟨hno, h⟩
    · rw [h]
      split_ifs
      · exact .connect cert.nodeId cert.key held hheld hkey
      · exact .idle
    · rw [hno]
      exact h

/-- **The service refines the membership.** Every step whose renewals are made by the current
holder is a move of the abstract model. -/
theorem next_moves {hash : String → String} {a : Act} (hG : RenewedByHolder s a)
    (h : next hash s a = some t) : s.membership.Moves t.membership := by
  cases a with
  | mint wrote secret name ttl nodeId now =>
    obtain rfl : _ = t := by simpa [next] using h
    simpa only [membership, Ledger.mintToken_holder] using Membership.Moves.idle
  | revokeToken wrote secret now =>
    obtain rfl : _ = t := by simpa [next] using h
    simpa only [membership, Ledger.revokeToken_holder] using Membership.Moves.idle
  | sweep wrote now =>
    obtain rfl : _ = t := by simpa [next] using h
    simpa only [membership, Ledger.sweep_holder] using Membership.Moves.idle
  | noteSeen id now =>
    obtain rfl : _ = t := by simpa [next] using h
    simpa only [membership, Ledger.noteSeen_holder] using Membership.Moves.idle
  | deny wrote id reason =>
    obtain rfl : _ = t := by simpa [next] using h
    exact s.deny_moves wrote id reason
  | remove wrote id =>
    obtain rfl : _ = t := by simpa [next] using h
    exact s.remove_moves wrote id
  | redeem wrote peer r minted now =>
    obtain rfl : _ = t := by simpa [next] using h
    exact s.redeem_moves hash wrote peer r minted now
  | enroll wrote e notAfter now =>
    obtain ⟨-, rfl⟩ : e ∈ s.enrolling ∧ _ = t := by simpa [next] using h
    unfold enroll
    split
    · exact remove_moves wrote e.id { s with enrolling := s.enrolling.erase e }
    · exact issue_moves wrote e.id none _ notAfter e.facts now
        { s with enrolling := s.enrolling.erase e } (by simp)
  | authorizeRenewal wrote r =>
    obtain rfl : _ = t := by simpa [next] using h
    exact s.authorizeRenewal_moves wrote r
  | renew wrote r notAfter now =>
    obtain ⟨-, rfl⟩ : r ∈ s.renewing ∧ _ = t := by simpa [next] using h
    unfold renew
    split
    · exact .idle
    · exact issue_moves wrote r.cert.nodeId (some r.cert.key) _ notAfter r.facts now
        { s with renewing := s.renewing.erase r } (by rintro old ⟨rfl⟩; exact hG)
  | session wrote cert claimed facts =>
    obtain rfl : _ = t := by simpa [next] using h
    exact s.session_moves wrote cert claimed facts

/-! ### Lawful histories -/

/-- Soundness of the membership is kept by every step whose renewals the current holder made. -/
theorem preserves_sound (hash : String → String) :
    (system hash).Preserves RenewedByHolder fun s ↦ s.membership.Sound :=
  fun _ _ _ hs hG hn ↦ hs.moves (next_moves hG hn)

/-- **Only the key on record acts, and revocation is final**, in every run in which a renewal is
recorded only while its node is accepted under the key the renewal was made with. -/
theorem lawful_of_renewed_by_holder (hash : String → String) (s : Service)
    (hs : (system hash).Reachable RenewedByHolder s) : History.Lawful s.history := by
  refine (hs.invariant ?_ (preserves_sound hash)).lawful
  rintro s ⟨-, -, hhistory⟩
  exact Membership.sound_of_history_nil hhistory

private def firstKey : Fingerprint := ⟨"aa", by decide⟩

private def secondKey : Fingerprint := ⟨"bb", by decide⟩

private def thirdKey : Fingerprint := ⟨"cc", by decide⟩

/-- Enrol a node under the first key. -/
private def enrolment : List Act :=
  [.mint true "secret" "spark" 600 "n" 1,
    .redeem true none ⟨"secret", some firstKey, {}⟩ "" 2,
    .enroll true ⟨"n", some firstKey, {}⟩ 90 2]

/-- A renewal made with the first certificate, for a new key. -/
private def renewal (key : Fingerprint) : Renewing := ⟨⟨"n", firstKey⟩, some key, {}⟩

/-- The schedule of an honest renewal meets the condition, and its history is lawful. -/
theorem lawful_after_honest_renewal :
    ∃ s, (system id).runUnder RenewedByHolder {} (enrolment ++
        [.authorizeRenewal true (renewal secondKey), .renew true (renewal secondKey) 180 3]) =
          some s ∧ History.Lawful s.history := by
  obtain ⟨s, hs⟩ : ∃ s, (system id).runUnder RenewedByHolder {} (enrolment ++
      [.authorizeRenewal true (renewal secondKey), .renew true (renewal secondKey) 180 3]) =
        some s := ⟨_, rfl⟩
  exact ⟨s, hs, lawful_of_renewed_by_holder id s
    ⟨{}, ⟨rfl, rfl, rfl⟩, System.steps_of_runUnder hs⟩⟩

/-- A renewal does not compare the key and does not look again at the state it records over. After
one renewal, a second one made with the replaced certificate succeeds too; and a `deny` that falls
between the two halves of a renewal is undone by the second. -/
theorem renewal_is_not_lawful :
    (∃ s, (system id).Reachable Guard.free s ∧ ¬History.Lawful s.history ∧
      s.history =
        [.issued "n" (some firstKey) thirdKey true, .issued "n" (some firstKey) secondKey true,
          .issued "n" none firstKey true]) ∧
    ∃ s, (system id).Reachable Guard.free s ∧ ¬History.Lawful s.history ∧
      s.history =
        [.issued "n" (some firstKey) secondKey true, .revoked "n",
          .issued "n" none firstKey true] := by
  constructor
  · obtain ⟨s, hs, hhistory⟩ : ∃ s, (system id).run {} (enrolment ++
        [.authorizeRenewal true (renewal secondKey), .renew true (renewal secondKey) 180 3,
          .authorizeRenewal true (renewal thirdKey), .renew true (renewal thirdKey) 180 4]) =
            some s ∧ s.history =
        [.issued "n" (some firstKey) thirdKey true, .issued "n" (some firstKey) secondKey true,
          .issued "n" none firstKey true] := ⟨_, rfl, rfl⟩
    refine ⟨s, ⟨{}, ⟨rfl, rfl, rfl⟩, System.steps_of_run hs⟩, ?_, hhistory⟩
    rw [hhistory]
    decide
  · obtain ⟨s, hs, hhistory⟩ : ∃ s, (system id).run {} (enrolment ++
        [.authorizeRenewal true (renewal secondKey), .deny true "n" "reported stolen",
          .renew true (renewal secondKey) 180 3]) = some s ∧ s.history =
        [.issued "n" (some firstKey) secondKey true, .revoked "n",
          .issued "n" none firstKey true] := ⟨_, rfl, rfl⟩
    refine ⟨s, ⟨{}, ⟨rfl, rfl, rfl⟩, System.steps_of_run hs⟩, ?_, hhistory⟩
    rw [hhistory]
    decide

end Service

end SparkPulse.Agent
