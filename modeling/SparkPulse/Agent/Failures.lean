import SparkPulse.Agent.Renewal
import SparkPulse.Data.Dict

/-!
# Failed writes and failed enrolments

Every operation of the ledger changes the working copy and then writes, and nothing takes the change
back when the write raises. `Enroll` takes a redemption back by removing the node, and so removes
one that was there before the token was.
-/

namespace SparkPulse.Agent

open Ledger

/-! ## Operations -/

inductive LedgerOp
  | mint (secret name : String) (ttl : Int) (nodeId : String) (now : Int)
  | redeem (secret minted : String) (now : Int)
  | revoke (secret : String) (now : Int)
  | recordIssue (id fingerprint : String) (notAfter : Int) (facts : Facts) (now : Int)
  | deny (id reason : String)
  | remove (id : String)
  | authorize (id fingerprint : String) (facts : Facts)
  | sweep (now : Int)

/-- What an operation is answered with, and the ledger after it. -/
def LedgerOp.run (hash : String → String) (wrote : Bool) (l : Ledger) : LedgerOp → Outcome Unit
  | mint secret name ttl nodeId now => done (l.mintToken hash wrote secret name ttl nodeId now)
  | redeem secret minted now => done (l.redeemToken hash wrote secret minted now)
  | revoke secret now => done (l.revokeToken hash wrote secret now)
  | recordIssue id fingerprint notAfter facts now =>
    done (l.recordIssue wrote id fingerprint notAfter facts now)
  | deny id reason => l.deny wrote id reason
  | remove id => l.remove wrote id
  | authorize id fingerprint facts => done (l.authorize wrote id fingerprint facts)
  | sweep now => done (l.sweep wrote now)
where
  /-- The outcome without the value. -/
  done {α : Type} (r : Outcome α) : Outcome Unit := (r.1.map fun _ ↦ (), r.2)

/-! ## What a failure may leave -/

/-- Tables that hold the same records under the same keys. -/
structure Tables.Same (s t : Tables) : Prop where
  nodes : ∀ id, s.nodes.lookup id = t.nodes.lookup id
  tokens : ∀ k, s.tokens.lookup k = t.tokens.lookup k

/-- A record without the time of its last heartbeat. -/
def LedgerEntry.settled (entry : LedgerEntry) : LedgerEntry := { entry with lastSeen := 0 }

/-- The working copy is what a reload would give, heartbeats aside. -/
structure Ledger.InSync (l : Ledger) : Prop where
  nodes : ∀ id, (l.state.nodes.lookup id).map LedgerEntry.settled =
    (l.reload.state.nodes.lookup id).map LedgerEntry.settled
  tokens : ∀ k, l.state.tokens.lookup k = l.reload.state.tokens.lookup k

/-- If its write raises, the operation leaves the working copy as it was and as it is stored. -/
def FailsCleanly (hash : String → String) (op : LedgerOp) (l : Ledger) : Prop :=
  (op.run hash false l).1 = .error .writeFailed →
    (op.run hash false l).2.state.Same l.state ∧ (op.run hash false l).2.InSync

/-- When an operation does not come to its write, or writes what is there. -/
def LedgerOp.Harmless (hash : String → String) (l : Ledger) : LedgerOp → Prop
  | mint secret name ttl nodeId now =>
    l.state.tokens.lookup (hash secret) = some
      { tokenHash := hash secret, name := name, createdAt := now, expiresAt := now + ttl,
        assignNodeId := nodeId } ∧
      (∀ k ∈ l.stale now, k = hash secret) ∧ l.InSync
  | redeem secret minted now => ∀ grant, l.state.tokens.lookup (hash secret) = some grant →
    grant.usedAt = 0 → now < grant.expiresAt →
      now = 0 ∧ grant.nodeId = grant.mints minted ∧
        l.state.nodes.lookup (grant.mints minted) = some
          { nodeId := grant.mints minted, name := grant.name, state := .pending } ∧ l.InSync
  | revoke secret now => ∀ grant, l.state.tokens.lookup (hash secret) = some grant →
    grant.usedAt = 0 → now = 0 ∧ l.InSync
  | recordIssue .. => False
  | deny id reason => ∀ entry, l.state.nodes.lookup id = some entry →
    entry.state = .denied ∧ entry.deniedReason = reason ∧ l.InSync
  | remove id => l.state.nodes.lookup id = none ∧ l.InSync
  | authorize id fingerprint facts => ∀ entry, l.state.nodes.lookup id = some entry →
    entry.state = .accepted → mismatch fingerprint entry.publicKeyFingerprint = false ∧
      mismatch facts.hardwareFingerprint entry.hardwareFingerprint = false
  | sweep now => l.stale now = []

section
variable {hash : String → String} {l l' : Ledger} {rows : Rows} {id key : String}
  {entry : LedgerEntry} {grant : TokenGrant}

/-- After a write that raised, what it left is what the working copy was changed to. -/
theorem write_false : l.write false rows = (.error .writeFailed, l) := rfl

theorem Tables.Same.inSync_iff (h : l'.state.Same l.state) (hdb : l'.db = l.db) :
    l'.InSync ↔ l.InSync := by
  constructor
  · intro hsync
    refine ⟨fun id ↦ ?_, fun k ↦ ?_⟩
    · rw [← h.nodes id, hsync.nodes id, reload, reload, hdb]
    · rw [← h.tokens k, hsync.tokens k, reload, reload, hdb]
  · intro hsync
    refine ⟨fun id ↦ ?_, fun k ↦ ?_⟩
    · rw [h.nodes id, hsync.nodes id, reload, reload, hdb]
    · rw [h.tokens k, hsync.tokens k, reload, reload, hdb]

/-- What is asked of a ledger that an operation changed and did not write. -/
theorem clean_iff (hdb : l'.db = l.db) :
    l'.state.Same l.state ∧ l'.InSync ↔ l'.state.Same l.state ∧ l.InSync :=
  and_congr_right fun h ↦ h.inSync_iff hdb

/-- Putting a record changes nothing exactly when it is there. -/
theorem same_setNode : (l.setNode id entry).state.Same l.state ↔
    l.state.nodes.lookup id = some entry := by
  constructor
  · intro h
    rw [← h.nodes id, setNode, AList.lookup_insert]
  · refine fun h ↦ ⟨fun other ↦ ?_, fun _ ↦ rfl⟩
    rw [setNode]
    by_cases hid : other = id
    · rw [hid, AList.lookup_insert, h]
    · rw [AList.lookup_insert_ne hid]

theorem same_setToken : (l.setToken key grant).state.Same l.state ↔
    l.state.tokens.lookup key = some grant := by
  constructor
  · intro h
    rw [← h.tokens key, setToken, AList.lookup_insert]
  · refine fun h ↦ ⟨fun _ ↦ rfl, fun other ↦ ?_⟩
    rw [setToken]
    by_cases hkey : other = key
    · rw [hkey, AList.lookup_insert, h]
    · rw [AList.lookup_insert_ne hkey]

theorem same_setToken_setNode : ((l.setToken key grant).setNode id entry).state.Same l.state ↔
    l.state.tokens.lookup key = some grant ∧ l.state.nodes.lookup id = some entry := by
  rw [← same_setToken, ← same_setNode]
  constructor
  · exact fun h ↦ ⟨⟨fun _ ↦ rfl, h.tokens⟩, ⟨h.nodes, fun _ ↦ rfl⟩⟩
  · exact fun h ↦ ⟨h.2.nodes, h.1.tokens⟩

theorem mem_tokens_of_stale {now : Int} (h : key ∈ l.stale now) :
    ∃ grant, l.state.tokens.lookup key = some grant := by
  obtain ⟨e, he, rfl⟩ := List.mem_map.mp h
  exact ⟨e.2, AList.mem_lookup_iff.mpr (List.mem_filter.mp he).1⟩

theorem lookup_tokens_sweepLocked {now : Int} : (l.sweepLocked now).state.tokens.lookup key =
    if key ∈ l.stale now then none else l.state.tokens.lookup key :=
  Dict.lookup_foldl_erase _ _ _

/-- A sweep and a new token change nothing exactly when the token is there and nothing else is
stale. -/
theorem same_sweep_setToken {now : Int} :
    ((l.sweepLocked now).setToken key grant).state.Same l.state ↔
      l.state.tokens.lookup key = some grant ∧ ∀ k ∈ l.stale now, k = key := by
  have hlookup : ∀ k, ((l.sweepLocked now).setToken key grant).state.tokens.lookup k =
      if k = key then some grant else if k ∈ l.stale now then none
      else l.state.tokens.lookup k := by
    intro k
    rw [setToken]
    by_cases hk : k = key
    · rw [hk, AList.lookup_insert, if_pos rfl]
    · rw [AList.lookup_insert_ne hk, lookup_tokens_sweepLocked, if_neg hk]
  constructor
  · intro h
    refine ⟨?_, fun k hk ↦ by_contra fun hne ↦ ?_⟩
    · rw [← h.tokens key, hlookup, if_pos rfl]
    · obtain ⟨held, hheld⟩ := mem_tokens_of_stale hk
      have := h.tokens k
      rw [hlookup, if_neg hne, if_pos hk, hheld] at this
      cases this
  · rintro ⟨hkey, hstale⟩
    refine ⟨fun _ ↦ rfl, fun k ↦ ?_⟩
    rw [hlookup]
    by_cases hk : k = key
    · rw [if_pos hk, hk, hkey]
    · rw [if_neg hk, if_neg fun h ↦ hk (hstale k h)]

/-- Taking a record out changes nothing exactly when there is none. -/
theorem same_erase : Tables.Same { l.state with nodes := l.state.nodes.erase id } l.state ↔
    l.state.nodes.lookup id = none := by
  constructor
  · intro h
    rw [← h.nodes id, AList.lookup_erase]
  · refine fun h ↦ ⟨fun other ↦ ?_, fun _ ↦ rfl⟩
    by_cases hid : other = id
    · rw [hid, AList.lookup_erase, h]
    · rw [AList.lookup_erase_ne hid]

/-! ## Redemptions -/

/-- The token after a redemption. -/
def TokenGrant.redeem (minted : String) (now : Int) (grant : TokenGrant) : TokenGrant :=
  { grant with usedAt := now, nodeId := grant.mints minted }

/-- The record a redemption puts down for the node. -/
def TokenGrant.enrols (minted : String) (now : Int) (grant : TokenGrant) : LedgerEntry :=
  { nodeId := grant.mints minted, name := grant.name, state := .pending, enrolledAt := now }

/-- A token that a redemption at the time would spend. -/
def Live (hash : String → String) (l : Ledger) (secret : String) (now : Int) (grant : TokenGrant) :
    Prop :=
  l.state.tokens.lookup (hash secret) = some grant ∧ grant.usedAt = 0 ∧ now < grant.expiresAt

/-- A redemption is refused and changes nothing, or spends a live token and puts a pending record
down over whatever there was for the node. -/
theorem redeemToken_spec (hash : String → String) (wrote : Bool) (secret minted : String)
    (now : Int) (l : Ledger) :
    ((∃ why, l.redeemToken hash wrote secret minted now = (.error (.rejected why), l)) ∧
        ∀ grant, ¬Live hash l secret now grant) ∨
      ∃ grant, Live hash l secret now grant ∧
        l.redeemToken hash wrote secret minted now = returning (grant.mints minted)
          (((l.setToken (hash secret) (grant.redeem minted now)).setNode (grant.mints minted)
              (grant.enrols minted now)).write wrote
            { nodes := [grant.enrols minted now], tokens := [grant.redeem minted now] }) := by
  unfold redeemToken Live
  split
  · rename_i hnone
    exact .inl ⟨⟨_, rfl⟩, by simp [hnone]⟩
  · rename_i grant hgrant
    split_ifs with hused hexpired
    · exact .inl ⟨⟨_, rfl⟩, by simp [hgrant, hused]⟩
    · exact .inl ⟨⟨_, rfl⟩, by simpa [hgrant] using fun _ ↦ hexpired⟩
    · exact .inr ⟨grant, ⟨hgrant, not_not.mp hused, Int.not_le.mp hexpired⟩, rfl⟩

/-! ## One operation after another -/

variable {hash : String → String} {op : LedgerOp}

/-- An operation that does not come to a write that raises leaves nothing behind. -/
theorem failsCleanly_of_answered (h : (op.run hash false l).1 ≠ .error .writeFailed) :
    FailsCleanly hash op l := fun hfailed ↦ absurd hfailed h

/-- One that does leaves what it changed the working copy to. -/
theorem failsCleanly_iff_of_raised (h : op.run hash false l = (.error .writeFailed, l'))
    (hdb : l'.db = l.db) : FailsCleanly hash op l ↔ l'.state.Same l.state ∧ l.InSync := by
  unfold FailsCleanly
  rw [h, ← clean_iff hdb]
  exact ⟨fun hclean ↦ hclean rfl, fun hclean _ ↦ hclean⟩

theorem failsCleanly_mint (secret name : String) (ttl : Int) (nodeId : String) (now : Int) :
    FailsCleanly hash (.mint secret name ttl nodeId now) l ↔
      LedgerOp.Harmless hash l (.mint secret name ttl nodeId now) := by
  rw [LedgerOp.Harmless, ← and_assoc, ← same_sweep_setToken]
  exact failsCleanly_iff_of_raised rfl rfl

theorem failsCleanly_redeem (secret minted : String) (now : Int) :
    FailsCleanly hash (.redeem secret minted now) l ↔
      LedgerOp.Harmless hash l (.redeem secret minted now) := by
  rcases redeemToken_spec hash false secret minted now l with
    ⟨⟨why, hrefused⟩, hdead⟩ | ⟨grant, ⟨hgrant, hused, hlive⟩, hredeemed⟩
  · refine iff_of_true (failsCleanly_of_answered ?_) fun grant hgrant hused hlive ↦ ?_
    · simp [LedgerOp.run, hrefused, LedgerOp.run.done, Except.map]
    · exact absurd ⟨hgrant, hused, hlive⟩ (hdead grant)
  · have hrun : LedgerOp.run hash false l (.redeem secret minted now) = (.error .writeFailed,
        (l.setToken (hash secret) (grant.redeem minted now)).setNode (grant.mints minted)
          (grant.enrols minted now)) := by
      rw [LedgerOp.run, hredeemed]
      rfl
    have hspent : grant = grant.redeem minted now ↔
        now = 0 ∧ grant.nodeId = grant.mints minted := by
      rw [← hused]
      exact ⟨fun h ↦ ⟨congrArg TokenGrant.usedAt h.symm, congrArg TokenGrant.nodeId h⟩,
        fun h ↦ by rw [TokenGrant.redeem, h.1, ← h.2]⟩
    rw [failsCleanly_iff_of_raised hrun rfl, same_setToken_setNode, hgrant, Option.some.injEq,
      hspent]
    constructor
    · rintro ⟨⟨⟨rfl, hid⟩, hentry⟩, hsync⟩ other hother - -
      obtain rfl : grant = other := Option.some.inj (hgrant.symm.trans hother)
      exact ⟨rfl, hid, hentry, hsync⟩
    · intro h
      obtain ⟨rfl, hid, hentry, hsync⟩ := h grant hgrant hused hlive
      exact ⟨⟨⟨rfl, hid⟩, hentry⟩, hsync⟩

theorem failsCleanly_revoke (secret : String) (now : Int) :
    FailsCleanly hash (.revoke secret now) l ↔
      LedgerOp.Harmless hash l (.revoke secret now) := by
  rcases hgrant : l.state.tokens.lookup (hash secret) with _ | grant
  · refine iff_of_true (failsCleanly_of_answered ?_) (by simp [LedgerOp.Harmless, hgrant])
    simp [LedgerOp.run, LedgerOp.run.done, revokeToken, hgrant, Except.map]
  · by_cases hused : grant.usedAt = 0
    · have hrun : LedgerOp.run hash false l (.revoke secret now) = (.error .writeFailed,
          l.setToken (hash secret) { grant with usedAt := now }) := by
        simp [LedgerOp.run, LedgerOp.run.done, revokeToken, hgrant, hused, returning, write_false,
          Except.map]
      have hspent : grant = { grant with usedAt := now } ↔ now = 0 := by
        rw [← hused]
        exact ⟨fun h ↦ congrArg TokenGrant.usedAt h.symm, fun h ↦ by rw [h]⟩
      rw [failsCleanly_iff_of_raised hrun rfl, same_setToken, hgrant, Option.some.injEq, hspent]
      simp [LedgerOp.Harmless, hgrant, hused]
    · refine iff_of_true (failsCleanly_of_answered ?_) (by simp [LedgerOp.Harmless, hgrant, hused])
      simp [LedgerOp.run, LedgerOp.run.done, revokeToken, hgrant, hused, Except.map]

theorem failsCleanly_deny (reason : String) :
    FailsCleanly hash (.deny id reason) l ↔ LedgerOp.Harmless hash l (.deny id reason) := by
  rcases hentry : l.state.nodes.lookup id with _ | entry
  · refine iff_of_true (failsCleanly_of_answered ?_) (by simp [LedgerOp.Harmless, hentry])
    simp [LedgerOp.run, deny, hentry]
  · have hrun : LedgerOp.run hash false l (.deny id reason) =
        (.error .writeFailed, l.setNode id (entry.deny reason)) := by
      simp [LedgerOp.run, deny, hentry, write_false]
    have hdenied : entry = entry.deny reason ↔
        entry.state = .denied ∧ entry.deniedReason = reason :=
      ⟨fun h ↦ ⟨congrArg LedgerEntry.state h, congrArg LedgerEntry.deniedReason h⟩,
        fun h ↦ by rw [LedgerEntry.deny, ← h.1, ← h.2]⟩
    rw [failsCleanly_iff_of_raised hrun rfl, same_setNode, hentry, Option.some.injEq, hdenied]
    simp [LedgerOp.Harmless, hentry, and_assoc]

theorem failsCleanly_remove :
    FailsCleanly hash (.remove id) l ↔ LedgerOp.Harmless hash l (.remove id) := by
  have hrun : LedgerOp.run hash false l (.remove id) = (.error .writeFailed,
    { l with state := { l.state with nodes := l.state.nodes.erase id } }) := rfl
  rw [LedgerOp.Harmless, ← same_erase]
  exact failsCleanly_iff_of_raised hrun rfl

/-- Recording a certificate counts it, so it never leaves the record as it was. -/
theorem not_failsCleanly_recordIssue (fingerprint : String) (notAfter : Int) (facts : Facts)
    (now : Int) : ¬FailsCleanly hash (.recordIssue id fingerprint notAfter facts now) l := by
  have hrun : LedgerOp.run hash false l (.recordIssue id fingerprint notAfter facts now) =
    (.error .writeFailed, l.setNode id (l.issuedEntry id fingerprint notAfter facts now)) := rfl
  rw [failsCleanly_iff_of_raised hrun rfl, same_setNode]
  rintro ⟨hentry, -⟩
  have hcount : (l.issuedEntry id fingerprint notAfter facts now).issued > (l.entryFor id).issued :=
    Nat.lt_succ_of_le (le_max_left _ _)
  have hsame : l.entryFor id = l.issuedEntry id fingerprint notAfter facts now := by
    rw [entryFor, hentry]
    rfl
  rw [← hsame] at hcount
  exact lt_irrefl _ hcount

/-- A sweep that finds anything loses it from the working copy. -/
theorem failsCleanly_sweep (now : Int) :
    FailsCleanly hash (.sweep now) l ↔ LedgerOp.Harmless hash l (.sweep now) := by
  rcases hstale : l.stale now with _ | ⟨key, keys⟩
  · refine iff_of_true (failsCleanly_of_answered ?_) hstale
    simp [LedgerOp.run, LedgerOp.run.done, sweep, hstale, Except.map]
  · have hrun : LedgerOp.run hash false l (.sweep now) =
        (.error .writeFailed, l.sweepLocked now) := by
      simp [LedgerOp.run, LedgerOp.run.done, sweep, hstale, returning, save, write_false,
        Except.map]
    rw [failsCleanly_iff_of_raised hrun rfl, LedgerOp.Harmless, hstale]
    refine iff_of_false ?_ (List.cons_ne_nil _ _)
    rintro ⟨hsame, -⟩
    have hkey : key ∈ l.stale now := by
      rw [hstale]
      exact List.mem_cons_self
    obtain ⟨grant, hgrant⟩ := mem_tokens_of_stale hkey
    have := hsame.tokens key
    rw [lookup_tokens_sweepLocked, if_pos hkey, hgrant] at this
    cases this

/-- An authorisation denies an accepted node that presents another key or other hardware, and comes
to no write otherwise. -/
theorem authorize_spec (wrote : Bool) (id fingerprint : String) (facts : Facts) (l : Ledger) :
    (LedgerOp.Harmless (fun s ↦ s) l (.authorize id fingerprint facts) ∧
        ∃ verdict, l.authorize wrote id fingerprint facts = (.ok verdict, l)) ∨
      ∃ entry reason, l.state.nodes.lookup id = some entry ∧ entry.state = .accepted ∧
        (mismatch fingerprint entry.publicKeyFingerprint = true ∨
          mismatch facts.hardwareFingerprint entry.hardwareFingerprint = true) ∧
        l.authorize wrote id fingerprint facts = l.refuse wrote id reason entry := by
  unfold authorize
  split
  · rename_i hnone
    exact .inl ⟨by simp [LedgerOp.Harmless, hnone], _, rfl⟩
  · rename_i entry hentry
    split
    · rename_i hstate
      exact .inl ⟨by simp [LedgerOp.Harmless, hentry, hstate], _, rfl⟩
    · rename_i hstate
      exact .inl ⟨by simp [LedgerOp.Harmless, hentry, hstate], _, rfl⟩
    · rename_i hstate
      split_ifs with hkey hhardware
      · exact .inr ⟨entry, _, hentry, hstate, .inl hkey, rfl⟩
      · exact .inr ⟨entry, _, hentry, hstate, .inr hhardware, rfl⟩
      · refine .inl ⟨fun other hother _ ↦ ?_, _, rfl⟩
        obtain rfl : entry = other := Option.some.inj (hentry.symm.trans hother)
        exact ⟨Bool.eq_false_iff.mpr hkey, Bool.eq_false_iff.mpr hhardware⟩

theorem failsCleanly_authorize (fingerprint : String) (facts : Facts) :
    FailsCleanly hash (.authorize id fingerprint facts) l ↔
      LedgerOp.Harmless hash l (.authorize id fingerprint facts) := by
  rcases authorize_spec false id fingerprint facts l with
    ⟨hharmless, verdict, hverdict⟩ | ⟨entry, reason, hentry, haccepted, hmismatch, hrefused⟩
  · refine iff_of_true (failsCleanly_of_answered ?_) hharmless
    simp [LedgerOp.run, hverdict, LedgerOp.run.done, Except.map]
  · have hrun : LedgerOp.run hash false l (.authorize id fingerprint facts) =
        (.error .writeFailed, l.setNode id (entry.deny reason)) := by
      rw [LedgerOp.run, hrefused]
      rfl
    rw [failsCleanly_iff_of_raised hrun rfl, same_setNode, hentry]
    refine iff_of_false ?_ fun hharmless ↦ ?_
    · rintro ⟨hsame, -⟩
      have := congrArg LedgerEntry.state (Option.some.inj hsame)
      rw [haccepted] at this
      cases this
    · obtain ⟨hkey, hhardware⟩ := hharmless entry hentry haccepted
      rw [hkey, hhardware] at hmismatch
      simp at hmismatch

/-- **A raised write changes nothing exactly when there was nothing to change.** -/
theorem failsCleanly_iff : FailsCleanly hash op l ↔ op.Harmless hash l := by
  cases op with
  | mint secret name ttl nodeId now => exact failsCleanly_mint secret name ttl nodeId now
  | redeem secret minted now => exact failsCleanly_redeem secret minted now
  | revoke secret now => exact failsCleanly_revoke secret now
  | recordIssue id fingerprint notAfter facts now =>
    exact iff_of_false (not_failsCleanly_recordIssue fingerprint notAfter facts now) not_false
  | deny id reason => exact failsCleanly_deny reason
  | remove id => exact failsCleanly_remove
  | authorize id fingerprint facts => exact failsCleanly_authorize fingerprint facts
  | sweep now => exact failsCleanly_sweep now

end

/-! ## Enrolment -/

/-- How an enrolment ends without an identity. -/
inductive EnrollError
  | alreadyEnrolled (as : String)
  | rejected (why : EnrollmentRejected)
  | badCsr
  /-- A write of the ledger raised. -/
  | internal
  deriving DecidableEq

/-- Which writes of one enrolment commit. -/
structure EnrollWrites where
  redeem : Bool
  remove : Bool
  issue : Bool

def LedgerError.status : LedgerError → EnrollError
  | .rejected why => .rejected why
  | .writeFailed => .internal

/-- `Enroll`, with nothing between its calls: redeem, have a certificate issued, and record it, or
take the redemption back. -/
def enroll (hash : String → String) (peer : Option Certificate) (r : EnrollRequest)
    (minted : String) (now notAfter issuedAt : Int) (wrote : EnrollWrites) (l : Ledger) :
    Except EnrollError String × Ledger :=
  match peer with
  | some cert => (.error (.alreadyEnrolled cert.nodeId), l)
  | none =>
    match l.redeemToken hash wrote.redeem r.token minted now with
    | (.error e, l) => (.error e.status, l)
    | (.ok id, l) =>
      match r.csr with
      | none =>
        match l.remove wrote.remove id with
        | (.error e, l) => (.error e.status, l)
        | (.ok _, l) => (.error .badCsr, l)
      | some key =>
        match l.recordIssue wrote.issue id key.hex notAfter r.facts issuedAt with
        | (.error e, l) => (.error e.status, l)
        | (.ok _, l) => (.ok id, l)

/-- A record that makes its node a member: accepted, or denied. -/
def LedgerEntry.IsMember (entry : LedgerEntry) : Prop := entry.state ≠ .pending

/-- Members are as they were, in the working copy and in the database. -/
def KeepsMembers (l l' : Ledger) : Prop :=
  ∀ id entry, l.state.nodes.lookup id = some entry → entry.IsMember →
    l'.state.nodes.lookup id = some entry ∧ l'.db.nodes.lookup id = l.db.nodes.lookup id

/-- Whatever is asked with the token and whichever writes commit, an enrolment that fails keeps the
members. -/
def FailureKeepsMembers (hash : String → String) (l : Ledger) (peer : Option Certificate)
    (secret minted : String) (now : Int) : Prop :=
  ∀ csr facts notAfter issuedAt wrote e l',
    enroll hash peer { token := secret, csr, facts } minted now notAfter issuedAt wrote l =
      (.error e, l') → KeepsMembers l l'

/-- The request gets no further than its token, or the token is for a node that is no member. -/
def Unharmed (hash : String → String) (l : Ledger) (peer : Option Certificate)
    (secret minted : String) (now : Int) : Prop :=
  peer.isSome ∨ ∀ grant, Live hash l secret now grant →
    ∀ entry, l.state.nodes.lookup (grant.mints minted) = some entry → ¬entry.IsMember

/-! ### What an enrolment leaves alone -/

/-- Nothing is changed in the membership of any other node. -/
def SparesOthers (id : String) (l l' : Ledger) : Prop :=
  ∀ other, other ≠ id → l'.state.nodes.lookup other = l.state.nodes.lookup other ∧
    l'.db.nodes.lookup other = l.db.nodes.lookup other

section

variable {l l' l'' : Ledger} {id : String} {entry : LedgerEntry}

theorem SparesOthers.trans (h : SparesOthers id l l') (h' : SparesOthers id l' l'') :
    SparesOthers id l l'' := fun other hne ↦
  ⟨(h' other hne).1.trans (h other hne).1, (h' other hne).2.trans (h other hne).2⟩

theorem sparesOthers_setToken (key : String) (grant : TokenGrant) :
    SparesOthers id l (l.setToken key grant) := fun _ _ ↦ ⟨rfl, rfl⟩

theorem sparesOthers_setNode : SparesOthers id l (l.setNode id entry) := fun _ hne ↦
  ⟨AList.lookup_insert_ne hne, rfl⟩

/-- A write that names no other node. -/
theorem sparesOthers_write (wrote : Bool) {rows : Rows}
    (hnodes : ∀ entry ∈ rows.nodes, entry.nodeId = id) (hdrop : ∀ k ∈ rows.dropNodes, k = id) :
    SparesOthers id l (l.write wrote rows).2 := by
  have hput : ∀ (entries : List LedgerEntry) (db : Tables), (∀ entry ∈ entries, entry.nodeId = id) →
      ∀ other, other ≠ id →
        (entries.foldl (fun d e ↦ putNode e d) db).nodes.lookup other = db.nodes.lookup other := by
    intro entries
    induction entries with
    | nil => exact fun _ _ _ _ ↦ rfl
    | cons entry entries ih =>
      intro db hentries other hne
      have hne' : other ≠ entry.nodeId := by
        rw [hentries entry List.mem_cons_self]
        exact hne
      rw [List.foldl_cons, ih _ (fun e he ↦ hentries e (List.mem_cons_of_mem _ he)) other hne,
        putNode, AList.lookup_insert_ne hne']
  have htokens : ∀ (grants : List TokenGrant) (db : Tables),
      (grants.foldl (fun d g ↦ putToken g d) db).nodes = db.nodes := by
    intro grants
    induction grants with
    | nil => exact fun _ ↦ rfl
    | cons grant grants ih => exact fun db ↦ ih _
  cases wrote with
  | false => exact fun _ _ ↦ ⟨rfl, rfl⟩
  | true =>
    refine fun other hne ↦ ⟨rfl, ?_⟩
    change (rows.apply l.db).nodes.lookup other = _
    rw [Rows.apply, htokens, hput _ _ hnodes other hne, Dict.lookup_foldl_erase, if_neg]
    exact fun hmem ↦ hne (hdrop other hmem)

theorem sparesOthers_remove (wrote : Bool) : SparesOthers id l (l.remove wrote id).2 := by
  have herase : SparesOthers id l
      { l with state := { l.state with nodes := l.state.nodes.erase id } } :=
    fun _ hne ↦ ⟨AList.lookup_erase_ne hne, rfl⟩
  exact herase.trans (sparesOthers_write wrote (by simp) (by simp))

theorem sparesOthers_recordIssue (wrote : Bool) (fingerprint : String) (notAfter : Int)
    (facts : Facts) (now : Int) (hid : (l.entryFor id).nodeId = id) :
    SparesOthers id l (l.recordIssue wrote id fingerprint notAfter facts now).2 :=
  sparesOthers_setNode.trans
    (sparesOthers_write wrote (List.forall_mem_singleton.mpr hid) (by simp))

variable {hash : String → String} {peer : Option Certificate} {now : Int} {grant : TokenGrant}
  (r : EnrollRequest) (minted : String) (notAfter issuedAt : Int) (wrote : EnrollWrites)

/-- An enrolment that a live token lets through touches the node of the token and no other. -/
theorem sparesOthers_enroll (hlive : Live hash l r.token now grant) :
    SparesOthers (grant.mints minted) l
      (enroll hash none r minted now notAfter issuedAt wrote l).2 := by
  rcases redeemToken_spec hash wrote.redeem r.token minted now l with
    ⟨-, hdead⟩ | ⟨other, hother, hredeemed⟩
  · exact absurd hlive (hdead grant)
  obtain rfl : grant = other := Option.some.inj (hlive.1.symm.trans hother.1)
  have hspares : SparesOthers (grant.mints minted) l
      (l.redeemToken hash wrote.redeem r.token minted now).2 := by
    rw [hredeemed]
    exact (sparesOthers_setToken _ _).trans <| sparesOthers_setNode.trans <|
      sparesOthers_write _ (by simp [TokenGrant.enrols]) (by simp)
  have hentry : ((l.redeemToken hash wrote.redeem r.token minted now).2.entryFor
      (grant.mints minted)).nodeId = grant.mints minted := by
    rw [hredeemed, returning_snd, entryFor, write_state, setNode, AList.lookup_insert]
    rfl
  have hid : ∀ id, (l.redeemToken hash wrote.redeem r.token minted now).1 = .ok id →
      id = grant.mints minted := by
    rw [hredeemed]
    cases wrote.redeem with
    | false =>
      intro id h
      cases h
    | true => exact fun _ h ↦ (Except.ok.inj h).symm
  unfold enroll
  split
  · rename_i hpeer
    cases hpeer
  split
  · rename_i he
    rw [he] at hspares
    exact hspares
  rename_i hok
  rw [hok] at hspares hentry hid
  obtain rfl := hid _ rfl
  split
  · have hremove := hspares.trans (sparesOthers_remove wrote.remove)
    split <;> rename_i heq <;> rw [heq] at hremove <;> exact hremove
  · rename_i key _
    have hissue := hspares.trans
      (sparesOthers_recordIssue wrote.issue key.hex notAfter r.facts issuedAt hentry)
    split <;> rename_i heq <;> rw [heq] at hissue <;> exact hissue

/-- An enrolment that is refused at its token changes nothing. -/
theorem enroll_of_dead (hdead : ∀ grant, ¬Live hash l r.token now grant) :
    (enroll hash none r minted now notAfter issuedAt wrote l).2 = l := by
  rcases redeemToken_spec hash wrote.redeem r.token minted now l with
    ⟨⟨why, hrefused⟩, -⟩ | ⟨grant, hlive, -⟩
  · simp [enroll, hrefused]
  · exact absurd hlive (hdead grant)

/-- A bad signing request takes the node of the token out. -/
theorem enroll_bad (hlive : Live hash l r.token now grant) (hbad : r.csr = none) :
    (enroll hash none r minted now notAfter issuedAt ⟨true, true, true⟩ l).1 = .error .badCsr ∧
      (enroll hash none r minted now notAfter issuedAt ⟨true, true, true⟩ l).2.state.nodes.lookup
        (grant.mints minted) = none := by
  rcases redeemToken_spec hash true r.token minted now l with
    ⟨-, hdead⟩ | ⟨other, hother, hredeemed⟩
  · exact absurd hlive (hdead grant)
  obtain rfl : grant = other := Option.some.inj (hlive.1.symm.trans hother.1)
  simp [enroll, hredeemed, hbad, returning, write, remove, Except.map]

theorem failureKeepsMembers_iff {secret : String} :
    FailureKeepsMembers hash l peer secret minted now ↔
      Unharmed hash l peer secret minted now := by
  constructor
  · intro hkeeps
    rcases peer with _ | cert
    · refine .inr fun grant hlive entry hentry hmember ↦ ?_
      obtain ⟨hbad, hgone⟩ := enroll_bad { token := secret, csr := none, facts := {} } minted 0 0
        hlive rfl
      have hkept := hkeeps none {} 0 0 ⟨true, true, true⟩ .badCsr _ (Prod.ext hbad rfl) _ entry
        hentry hmember
      rw [hgone] at hkept
      cases hkept.1
    · exact .inl rfl
  · rintro hunharmed csr facts notAfter issuedAt wrote e l' henroll id entry hentry hmember
    have hl' : (enroll hash peer { token := secret, csr, facts } minted now notAfter issuedAt
      wrote l).2 = l' := congrArg Prod.snd henroll
    rcases peer with _ | cert
    · by_cases hdead : ∀ grant, ¬Live hash l secret now grant
      · have hrefused := enroll_of_dead { token := secret, csr, facts } minted notAfter issuedAt
          wrote hdead
        rw [hrefused] at hl'
        rw [← hl']
        exact ⟨hentry, rfl⟩
      · obtain ⟨grant, hlive⟩ := not_forall_not.mp hdead
        have hne : id ≠ grant.mints minted := by
          rintro rfl
          exact (hunharmed.resolve_left (by simp)) grant hlive entry hentry hmember
        have hspared := sparesOthers_enroll { token := secret, csr, facts } minted notAfter
          issuedAt wrote hlive id hne
        rw [hl'] at hspared
        exact ⟨hspared.1.trans hentry, hspared.2⟩
    · obtain rfl : l = l' := hl'
      exact ⟨hentry, rfl⟩

end

/-! ## The two together -/

/-- **When a failure changes nothing.** An operation whose write raises leaves the ledger as it was
and as it is stored exactly when it had nothing to change, and a failed enrolment keeps the members
exactly when its token is not for one of them. -/
theorem failures_iff (hash : String → String) :
    (∀ op l, FailsCleanly hash op l ↔ op.Harmless hash l) ∧
      ∀ l peer secret minted now, FailureKeepsMembers hash l peer secret minted now ↔
        Unharmed hash l peer secret minted now :=
  ⟨fun _ _ ↦ failsCleanly_iff, fun _ _ _ minted _ ↦ failureKeepsMembers_iff minted⟩

/-- A node that enrolled, and a second token minted for it. -/
private def memberAndToken : Ledger :=
  let minted := (mintToken (fun s ↦ s) true "first" "spark" 600 "n1" 1 {}).2
  let enrolled := (enroll (fun s ↦ s) none ⟨"first", some ⟨"key", by decide⟩, {}⟩ "" 2 90 3
    ⟨true, true, true⟩ minted).2
  (enrolled.mintToken (fun s ↦ s) true "second" "spark" 600 "n1" 4).2

/-- A token whose write raised can be redeemed, and a bad signing request with the second token
removes the enrolled node. -/
theorem left_and_removed :
    ¬FailsCleanly (fun s ↦ s) (.mint "secret" "spark" 600 "n1" 1) {} ∧
      ¬FailureKeepsMembers (fun s ↦ s) memberAndToken none "second" "" 5 := by
  constructor
  · rw [failsCleanly_iff]
    exact fun h ↦ nomatch h.1
  · rw [failureKeepsMembers_iff]
    rintro (h | h)
    · cases h
    · exact h
        { tokenHash := "second", name := "spark", createdAt := 4, expiresAt := 604,
          assignNodeId := "n1" } ⟨rfl, rfl, by decide⟩
        { nodeId := "n1", name := "spark", state := .accepted, enrolledAt := 2,
          publicKeyFingerprint := "key", certNotAfter := 90, issued := 1 } rfl
        (by simp [LedgerEntry.IsMember])

end SparkPulse.Agent
