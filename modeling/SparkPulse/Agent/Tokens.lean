import SparkPulse.Agent.Ledger
import SparkPulse.Data.Dict
import SparkPulse.Transition.System

/-!
# Enrollment tokens

The tokens of a ledger over its whole life, restarts included, while the database takes every write.
The working copy and the rows agree on the tokens then, so a restart brings back what there was, and
a secret that was drawn is in one of four conditions: live, redeemed, revoked, or forgotten.

The clock's readings do not fall. A token that was never used has `used_at` zero, so the clock must
not read zero when one is.
-/

namespace SparkPulse.Agent

open Transition

namespace Tokens

/-! ## Histories -/

inductive Event
  | minted (secret : String) (expiresAt : Int)
  /-- A redemption succeeded. -/
  | redeemed (secret : String) (now : Int)
  /-- A revocation was asked for. -/
  | revoked (secret : String)
  deriving DecidableEq

/-- A history, newest event first. -/
abbrev History := List Event

def Event.secret : Event → String
  | minted secret _ | redeemed secret _ | revoked secret => secret

/-- A redeemed secret was minted and is not expired, and was neither redeemed nor revoked. -/
def Event.Respects : Event → History → Prop
  | redeemed secret now, earlier =>
    (∃ expiresAt, minted secret expiresAt ∈ earlier) ∧
      (∀ expiresAt, minted secret expiresAt ∈ earlier → now < expiresAt) ∧
      (∀ t, redeemed secret t ∉ earlier) ∧ revoked secret ∉ earlier
  | _, _ => True

/-- Every secret was redeemed at most once, and while it could be. -/
def History.SingleUse : History → Prop
  | [] => True
  | event :: earlier => event.Respects earlier ∧ History.SingleUse earlier

/-! ## The desk -/

/-- The ledger, the last reading of the clock, and what happened to tokens. -/
structure Desk where
  ledger : Ledger
  clock : Int
  history : History := []

inductive Act
  | mint (secret name : String) (ttl : Int) (nodeId : String) (now : Int)
  | redeem (secret minted : String) (now : Int)
  | revoke (secret : String) (now : Int)
  | sweep (now : Int)
  | authorize (id fingerprint : String) (facts : Facts)
  | recordIssue (id fingerprint : String) (notAfter : Int) (facts : Facts) (now : Int)
  | deny (id reason : String)
  | remove (id : String)
  | noteSeen (id : String) (now : Int)
  /-- The control plane starts anew and reads the ledger from the database. -/
  | reload

/-- The reading of the clock that an act takes. -/
def Act.now : Act → Option Int
  | mint _ _ _ _ now | redeem _ _ now | revoke _ now | sweep now => some now
  | recordIssue _ _ _ _ now | noteSeen _ now => some now
  | _ => none

/-- The secret that an act is about. -/
def Act.secret : Act → Option String
  | mint secret .. | redeem secret .. | revoke secret _ => some secret
  | _ => none

variable (hash : String → String)

/-- The ledger after an act. Every write succeeds. -/
def Act.ledger (l : Ledger) : Act → Ledger
  | mint secret name ttl nodeId now => (l.mintToken hash true secret name ttl nodeId now).2
  | redeem secret minted now => (l.redeemToken hash true secret minted now).2
  | revoke secret now => (l.revokeToken hash true secret now).2
  | sweep now => (l.sweep true now).2
  | authorize id fingerprint facts => (l.authorize true id fingerprint facts).2
  | recordIssue id fingerprint notAfter facts now =>
    (l.recordIssue true id fingerprint notAfter facts now).2
  | deny id reason => (l.deny true id reason).2
  | remove id => (l.remove true id).2
  | noteSeen id now => l.noteSeen id now
  | reload => l.reload

/-- What an act on the ledger adds to the history. -/
def Act.events (l : Ledger) : Act → History
  | mint secret _ ttl _ now => [.minted secret (now + ttl)]
  | redeem secret minted now =>
    match (l.redeemToken hash true secret minted now).1 with
    | .ok _ => [.redeemed secret now]
    | .error _ => []
  | revoke secret _ => [.revoked secret]
  | _ => []

/-- One act, at a time that is not past. -/
def next (d : Desk) (a : Act) : Option Desk :=
  if ∀ t ∈ a.now, d.clock ≤ t then
    some {
      ledger := a.ledger hash d.ledger
      clock := a.now.getD d.clock
      history := a.events hash d.ledger ++ d.history }
  else none

/-- Acts in any order, from a ledger without tokens. -/
def system : System Desk Act where
  init d := d.history = [] ∧ d.ledger.state.tokens = ∅ ∧ d.ledger.db.tokens = ∅
  next := next hash

/-- A minted secret is drawn anew, and the hash tells apart the secrets that there are. -/
def Drawn : Guard Desk Act := fun d a ↦
  (∀ secret ∈ a.secret, ∀ e ∈ d.history, hash e.secret = hash secret → e.secret = secret) ∧
    match a with
    | .mint secret .. => ∀ e ∈ d.history, e.secret ≠ secret
    | _ => True

/-- The clock does not read zero when a token is used up. -/
def Reads : Act → Prop
  | .redeem _ _ now | .revoke _ now => now ≠ 0
  | _ => True

/-! ## The tokens of a ledger -/

section
variable {l : Ledger} {rows : Rows} {db : Tables}

theorem tokens_apply : (rows.apply db).tokens = rows.tokens.foldl
    (fun d g ↦ d.insert g.tokenHash g) (rows.dropTokens.foldl (fun d k ↦ d.erase k) db.tokens) := by
  have hnodes : ∀ (nodes : List LedgerEntry) (db : Tables),
      (nodes.foldl (fun d e ↦ putNode e d) db).tokens = db.tokens := by
    intro nodes
    induction nodes with
    | nil => exact fun _ ↦ rfl
    | cons e nodes ih => exact fun db ↦ ih _
  have htokens : ∀ (tokens : List TokenGrant) (db : Tables),
      (tokens.foldl (fun d g ↦ putToken g d) db).tokens =
        tokens.foldl (fun d g ↦ d.insert g.tokenHash g) db.tokens := by
    intro tokens
    induction tokens with
    | nil => exact fun _ ↦ rfl
    | cons g tokens ih => exact fun db ↦ ih _
  rw [Rows.apply, htokens, hnodes]

/-- The rows have the tokens of the working copy. -/
def Agrees (l : Ledger) : Prop := ∀ k, l.db.tokens.lookup k = l.state.tokens.lookup k

/-- Nothing happened to the tokens. -/
def SameTokens (l l' : Ledger) : Prop :=
  l'.state.tokens = l.state.tokens ∧ l'.db.tokens = l.db.tokens

theorem Agrees.same {l' : Ledger} (h : Agrees l) (hsame : SameTokens l l') : Agrees l' := by
  obtain ⟨hstate, hdb⟩ := hsame
  intro k
  rw [hstate, hdb, h k]

theorem sameTokens_write {l' : Ledger} (htokens : rows.tokens = []) (hdrop : rows.dropTokens = [])
    (hstate : l'.state.tokens = l.state.tokens) (hdb : l'.db = l.db) :
    SameTokens l (l'.write true rows).2 := by
  refine ⟨hstate, ?_⟩
  rw [Ledger.write, if_pos rfl, ← hdb]
  simp only [tokens_apply, htokens, hdrop, List.foldl_nil]

theorem sameTokens_deny {id reason : String} : SameTokens l (l.deny true id reason).2 := by
  rw [Ledger.deny]
  split
  · exact ⟨rfl, rfl⟩
  · exact sameTokens_write rfl rfl rfl rfl

theorem sameTokens_authorize {id fingerprint : String} {facts : Facts} :
    SameTokens l (l.authorize true id fingerprint facts).2 := by
  rw [Ledger.authorize]
  split
  · exact ⟨rfl, rfl⟩
  · split
    · exact ⟨rfl, rfl⟩
    · exact ⟨rfl, rfl⟩
    · split_ifs
      · exact sameTokens_write rfl rfl rfl rfl
      · exact sameTokens_write rfl rfl rfl rfl
      · exact ⟨rfl, rfl⟩

theorem sameTokens_noteSeen {id : String} {now : Int} : SameTokens l (l.noteSeen id now) := by
  rw [Ledger.noteSeen]
  split <;> exact ⟨rfl, rfl⟩

theorem lookup_sweepLocked {now : Int} {k : String} :
    (l.sweepLocked now).state.tokens.lookup k =
      if k ∈ l.stale now then none else l.state.tokens.lookup k :=
  Dict.lookup_foldl_erase _ _ _

theorem lookup_of_sweepLocked {now : Int} {k : String} {grant : TokenGrant}
    (h : (l.sweepLocked now).state.tokens.lookup k = some grant) :
    l.state.tokens.lookup k = some grant := by
  rw [lookup_sweepLocked] at h
  split_ifs at h
  exact h

/-- A mint puts the new grant under its hash, and takes out what is stale. -/
theorem mintToken_tokens (h : Agrees l) (secret name : String) (ttl : Int) (nodeId : String)
    (now : Int) :
    Agrees (l.mintToken hash true secret name ttl nodeId now).2 ∧
      (l.mintToken hash true secret name ttl nodeId now).2.state.tokens =
        (l.sweepLocked now).state.tokens.insert (hash secret)
          { tokenHash := hash secret, name := name, createdAt := now, expiresAt := now + ttl,
            assignNodeId := nodeId } := by
  refine ⟨fun k ↦ ?_, rfl⟩
  rw [Ledger.mintToken, Ledger.returning_snd, Ledger.write, if_pos rfl]
  simp only [tokens_apply, List.foldl_cons, List.foldl_nil, Ledger.setToken]
  by_cases hk : k = hash secret
  · rw [hk, AList.lookup_insert, AList.lookup_insert]
  · rw [AList.lookup_insert_ne hk, AList.lookup_insert_ne hk, Dict.lookup_foldl_erase,
      lookup_sweepLocked]
    split_ifs
    · rfl
    · exact h k

/-- A token is replaced in the working copy and in its row. -/
theorem agrees_write_token {l' : Ledger} {grant : TokenGrant} {nodes : List LedgerEntry} (h : Agrees l) (hdb : l'.db = l.db)
    (hstate : l'.state.tokens = l.state.tokens.insert grant.tokenHash grant) :
    Agrees (l'.write true { nodes := nodes, tokens := [grant] }).2 := by
  intro k
  rw [Ledger.write, if_pos rfl]
  simp only [tokens_apply, List.foldl_cons, List.foldl_nil, hstate, hdb]
  by_cases hk : k = grant.tokenHash
  · rw [hk, AList.lookup_insert, AList.lookup_insert]
  · rw [AList.lookup_insert_ne hk, AList.lookup_insert_ne hk, h k]

/-- After a sweep the rows have what the working copy is left with. -/
theorem agrees_sweep {now : Int}
    (hkeyed : ∀ k grant, l.state.tokens.lookup k = some grant → grant.tokenHash = k)
    (h : Agrees l) : Agrees (l.sweep true now).2 := by
  rw [Ledger.sweep]
  split_ifs with hstale
  · exact h
  · intro k
    rw [Ledger.returning_snd, Ledger.save, Ledger.write, if_pos rfl]
    simp only [tokens_apply, Ledger.reconciling]
    have hentries := Dict.lookup_foldl_entries TokenGrant.tokenHash
      (l.sweepLocked now).state.tokens
      (((l.sweepLocked now).db.tokens.keys.filter
        (· ∉ (l.sweepLocked now).state.tokens)).foldl (fun d k ↦ d.erase k)
          (l.sweepLocked now).db.tokens)
      (fun k grant hgrant ↦ hkeyed k grant (lookup_of_sweepLocked hgrant)) k
    refine hentries.trans ?_
    cases hk : (l.sweepLocked now).state.tokens.lookup k with
    | some grant => rfl
    | none =>
      rw [Option.none_or, Dict.lookup_foldl_erase]
      split_ifs with hmem
      · rfl
      · -- A row that the working copy lacks is among those dropped.
        rw [List.mem_filter, decide_eq_true_eq, not_and, not_not] at hmem
        by_contra hrow
        have hkey : k ∈ (l.sweepLocked now).db.tokens :=
          AList.lookup_isSome.mp (Option.isSome_iff_ne_none.mpr hrow)
        have hstate := AList.lookup_isSome.mpr (hmem (AList.mem_keys.mpr hkey))
        rw [hk] at hstate
        cases hstate

end

/-! ## What a ledger knows of its tokens -/

/-- A secret was used up, one way or the other. -/
def Spent (secret : String) (h : History) : Prop :=
  .revoked secret ∈ h ∨ ∃ t, .redeemed secret t ∈ h

/-- Every token is of a secret that was minted, expires when it was to, and is marked as used if the
secret is spent. -/
def Known (tokens : Dict TokenGrant) (h : History) : Prop :=
  ∀ k grant, tokens.lookup k = some grant → grant.tokenHash = k ∧
    ∃ secret, hash secret = k ∧ .minted secret grant.expiresAt ∈ h ∧
      (Spent secret h → grant.usedAt ≠ 0)

/-- A secret was minted once at most. -/
def MintedOnce (h : History) : Prop :=
  ∀ secret t t', .minted secret t ∈ h → .minted secret t' ∈ h → t = t'

structure Sound (d : Desk) : Prop where
  agrees : Agrees d.ledger
  known : Known hash d.ledger.state.tokens d.history
  mintedOnce : MintedOnce d.history
  singleUse : d.history.SingleUse

section
variable {hash} {l l' : Ledger} {tokens tokens' : Dict TokenGrant} {h : History}
  {d d' : Desk} {a : Act} {secret : String}

theorem Known.mono (hknown : Known hash tokens h)
    (htokens : ∀ k grant, tokens'.lookup k = some grant → tokens.lookup k = some grant) :
    Known hash tokens' h := fun k grant hgrant ↦ hknown k grant (htokens k grant hgrant)

/-- The hash of a secret finds the token of that secret. -/
theorem Known.of_hash (hknown : Known hash tokens h) {grant : TokenGrant}
    (hgrant : tokens.lookup (hash secret) = some grant)
    (hdrawn : ∀ e ∈ h, hash e.secret = hash secret → e.secret = secret) :
    grant.tokenHash = hash secret ∧ .minted secret grant.expiresAt ∈ h ∧
      (Spent secret h → grant.usedAt ≠ 0) := by
  obtain ⟨hkey, other, hother, hminted, hspent⟩ := hknown _ _ hgrant
  obtain rfl : other = secret := hdrawn _ hminted hother
  exact ⟨hkey, hminted, hspent⟩

/-- A token may be marked as used, and its secret spent. -/
theorem Known.spend {state : Dict TokenGrant} {grant : TokenGrant} {e : Event}
    (hknown : Known hash state h) (hkey : grant.tokenHash = hash secret)
    (hminted : .minted secret grant.expiresAt ∈ h) (hused : grant.usedAt ≠ 0)
    (he : ∀ other, Spent other (e :: h) → other = secret ∨ Spent other h) :
    Known hash (state.insert (hash secret) grant) (e :: h) := by
  intro k other hother
  by_cases hk : k = hash secret
  · subst hk
    rw [AList.lookup_insert] at hother
    obtain rfl := Option.some.inj hother
    exact ⟨hkey, secret, rfl, List.mem_cons_of_mem _ hminted, fun _ ↦ hused⟩
  · rw [AList.lookup_insert_ne hk] at hother
    obtain ⟨hkey', secret', rfl, hminted', hspent⟩ := hknown k other hother
    refine ⟨hkey', secret', rfl, List.mem_cons_of_mem _ hminted', fun hspent' ↦ hspent ?_⟩
    rcases he secret' hspent' with rfl | hspent'
    · exact (hk rfl).elim
    · exact hspent'

theorem spent_redeemed {other : String} {now : Int}
    (hspent : Spent other (.redeemed secret now :: h)) : other = secret ∨ Spent other h := by
  rcases hspent with hrevoked | ⟨t, hredeemed⟩
  · exact .inr (.inl (by simpa using hrevoked))
  · rcases List.mem_cons.mp hredeemed with heq | hmem
    · exact .inl (Event.redeemed.inj heq).1
    · exact .inr (.inr ⟨t, hmem⟩)

theorem spent_revoked {other : String}
    (hspent : Spent other (.revoked secret :: h)) : other = secret ∨ Spent other h := by
  rcases hspent with hrevoked | ⟨t, hredeemed⟩
  · rcases List.mem_cons.mp hrevoked with heq | hmem
    · exact .inl (Event.revoked.inj heq)
    · exact .inr (.inl hmem)
  · exact .inr (.inr ⟨t, by simpa using hredeemed⟩)

theorem Sound.same (hd : Sound hash d) (hsame : SameTokens d.ledger d'.ledger)
    (hhistory : d'.history = d.history) : Sound hash d' where
  agrees := hd.agrees.same hsame
  known := by rw [hsame.1, hhistory]; exact hd.known
  mintedOnce := hhistory ▸ hd.mintedOnce
  singleUse := hhistory ▸ hd.singleUse

/-- A secret that was drawn anew may be minted. -/
theorem Sound.mint (hd : Sound hash d) {name nodeId : String} {ttl now clock : Int}
    (hnew : ∀ e ∈ d.history, e.secret ≠ secret) :
    Sound hash ⟨(d.ledger.mintToken hash true secret name ttl nodeId now).2, clock,
      .minted secret (now + ttl) :: d.history⟩ := by
  obtain ⟨hagrees, htokens⟩ := mintToken_tokens hash hd.agrees secret name ttl nodeId now
  have hfresh : ¬Spent secret d.history := by
    rintro (hrevoked | ⟨t, hredeemed⟩)
    · exact hnew _ hrevoked rfl
    · exact hnew _ hredeemed rfl
  have hspent : ∀ other, Spent other (.minted secret (now + ttl) :: d.history) →
      Spent other d.history := by
    rintro other (hrevoked | ⟨t, hredeemed⟩)
    · exact .inl (by simpa using hrevoked)
    · exact .inr ⟨t, by simpa using hredeemed⟩
  refine ⟨hagrees, ?_, fun other t t' ht ht' ↦ ?_, ⟨trivial, hd.singleUse⟩⟩
  · rw [htokens]
    intro k grant hgrant
    by_cases hk : k = hash secret
    · subst hk
      rw [AList.lookup_insert] at hgrant
      obtain rfl := Option.some.inj hgrant
      exact ⟨rfl, secret, rfl, List.mem_cons_self, fun h ↦ (hfresh (hspent _ h)).elim⟩
    · rw [AList.lookup_insert_ne hk] at hgrant
      obtain ⟨hkey, other, hother, hminted, hused⟩ :=
        hd.known k grant (lookup_of_sweepLocked hgrant)
      exact ⟨hkey, other, hother, List.mem_cons_of_mem _ hminted, fun h ↦ hused (hspent _ h)⟩
  · rcases List.mem_cons.mp ht with heq | ht <;> rcases List.mem_cons.mp ht' with heq' | ht'
    · rw [(Event.minted.inj heq).2, (Event.minted.inj heq').2]
    · exact (hnew _ ht' (Event.minted.inj heq).1).elim
    · exact (hnew _ ht (Event.minted.inj heq').1).elim
    · exact hd.mintedOnce other t t' ht ht'

/-- A redemption is refused and changes nothing, or it spends a secret that could be redeemed. -/
theorem Sound.redeem (hd : Sound hash d) {minted : String} {now clock : Int}
    (hdrawn : ∀ e ∈ d.history, hash e.secret = hash secret → e.secret = secret)
    (hnow : now ≠ 0) :
    Sound hash ⟨(d.ledger.redeemToken hash true secret minted now).2, clock,
      (Act.redeem secret minted now).events hash d.ledger ++ d.history⟩ := by
  simp only [Act.events]
  rw [Ledger.redeemToken]
  cases hlookup : d.ledger.state.tokens.lookup (hash secret) with
  | none => exact hd.same ⟨rfl, rfl⟩ rfl
  | some grant =>
    simp only
    by_cases hused : grant.usedAt ≠ 0
    · rw [if_pos hused]
      exact hd.same ⟨rfl, rfl⟩ rfl
    rw [if_neg hused]
    by_cases hexpired : now ≥ grant.expiresAt
    · rw [if_pos hexpired]
      exact hd.same ⟨rfl, rfl⟩ rfl
    rw [if_neg hexpired]
    obtain ⟨hkey, hminted, hspent⟩ := hd.known.of_hash hlookup hdrawn
    have hunspent : ¬Spent secret d.history := fun h ↦ hused (hspent h)
    change Sound hash ⟨_, clock, .redeemed secret now :: d.history⟩
    refine ⟨?_, ?_, fun other t t' ht ht' ↦ ?_, ⟨⟨⟨_, hminted⟩, ?_, ?_, ?_⟩, hd.singleUse⟩⟩
    · exact agrees_write_token hd.agrees rfl (by rw [hkey]; rfl)
    · exact Known.spend hd.known hkey hminted hnow fun other ↦ spent_redeemed
    · exact hd.mintedOnce other t t' (by simpa using ht) (by simpa using ht')
    · intro t ht
      have := hd.mintedOnce secret _ _ hminted ht
      omega
    · exact fun t ht ↦ hunspent (.inr ⟨t, ht⟩)
    · exact fun h ↦ hunspent (.inl h)

/-- A revocation spends the secret. -/
theorem Sound.revoke (hd : Sound hash d) {now clock : Int}
    (hdrawn : ∀ e ∈ d.history, hash e.secret = hash secret → e.secret = secret)
    (hnow : now ≠ 0) :
    Sound hash ⟨(d.ledger.revokeToken hash true secret now).2, clock,
      .revoked secret :: d.history⟩ := by
  have hmintedOnce : MintedOnce (.revoked secret :: d.history) := fun other t t' ht ht' ↦
    hd.mintedOnce other t t' (by simpa using ht) (by simpa using ht')
  -- The other tokens are of other secrets, so the revocation does not concern them.
  have hothers (hself : ∀ grant, d.ledger.state.tokens.lookup (hash secret) = some grant →
      grant.usedAt ≠ 0) :
      Known hash d.ledger.state.tokens (.revoked secret :: d.history) := by
    intro k grant hgrant
    obtain ⟨hkey, other, rfl, hminted, hspent⟩ := hd.known k grant hgrant
    refine ⟨hkey, other, rfl, List.mem_cons_of_mem _ hminted, fun h ↦ ?_⟩
    rcases spent_revoked h with rfl | h
    · exact hself grant hgrant
    · exact hspent h
  rw [Ledger.revokeToken]
  cases hlookup : d.ledger.state.tokens.lookup (hash secret) with
  | none => exact ⟨hd.agrees, hothers (by simp [hlookup]), hmintedOnce, ⟨trivial, hd.singleUse⟩⟩
  | some grant =>
    simp only
    by_cases hused : grant.usedAt ≠ 0
    · rw [if_pos hused]
      refine ⟨hd.agrees, hothers fun other hother ↦ ?_, hmintedOnce, ⟨trivial, hd.singleUse⟩⟩
      rw [hlookup] at hother
      exact Option.some.inj hother ▸ hused
    · rw [if_neg hused]
      obtain ⟨hkey, hminted, -⟩ := hd.known.of_hash hlookup hdrawn
      refine ⟨?_, ?_, hmintedOnce, ⟨trivial, hd.singleUse⟩⟩
      · exact agrees_write_token hd.agrees rfl (by rw [hkey]; rfl)
      · exact Known.spend hd.known hkey hminted hnow fun other ↦ spent_revoked

theorem Sound.sweep (hd : Sound hash d) {now clock : Int} :
    Sound hash ⟨(d.ledger.sweep true now).2, clock, d.history⟩ := by
  refine ⟨agrees_sweep (fun k grant hgrant ↦ (hd.known k grant hgrant).1) hd.agrees,
    hd.known.mono fun k grant hgrant ↦ ?_, hd.mintedOnce, hd.singleUse⟩
  rw [Ledger.sweep] at hgrant
  split_ifs at hgrant
  · exact hgrant
  · exact lookup_of_sweepLocked hgrant

theorem Sound.reload (hd : Sound hash d) {clock : Int} :
    Sound hash ⟨d.ledger.reload, clock, d.history⟩ :=
  ⟨fun _ ↦ rfl, hd.known.mono fun k _ hgrant ↦ (hd.agrees k).symm.trans hgrant, hd.mintedOnce,
    hd.singleUse⟩

/-- One act keeps the tokens in order. -/
theorem Sound.next (hd : Sound hash d) (hdrawn : Drawn hash d a) (hreads : Reads a)
    (hnext : Tokens.next hash d a = some d') : Sound hash d' := by
  rw [Tokens.next] at hnext
  split_ifs at hnext with hclock
  obtain rfl := Option.some.inj hnext
  obtain ⟨hdrawn, hnew⟩ := hdrawn
  cases a with
  | mint secret name ttl nodeId now => exact hd.mint hnew
  | redeem secret minted now => exact hd.redeem (hdrawn secret rfl) hreads
  | revoke secret now => exact hd.revoke (hdrawn secret rfl) hreads
  | sweep now => exact hd.sweep
  | authorize id fingerprint facts => exact hd.same sameTokens_authorize rfl
  | recordIssue id fingerprint notAfter facts now => exact hd.same (sameTokens_write rfl rfl rfl rfl) rfl
  | deny id reason => exact hd.same sameTokens_deny rfl
  | remove id => exact hd.same (sameTokens_write rfl rfl rfl rfl) rfl
  | noteSeen id now => exact hd.same sameTokens_noteSeen rfl
  | reload => exact hd.reload

end

/-- **A token is redeemed once at most**, and only while it is neither revoked nor expired, in every
run in which the clock does not read zero when a token is used up. -/
theorem singleUse_of_reachable {d : Desk}
    (h : (system hash).Reachable (fun d a ↦ Drawn hash d a ∧ Reads a) d) :
    d.history.SingleUse := by
  have hsound : Sound hash d := by
    refine h.invariant (fun d hd ↦ ?_) fun d a d' hd hG hnext ↦ hd.next hG.1 hG.2 hnext
    obtain ⟨hhistory, hstate, hdb⟩ := hd
    refine ⟨fun k ↦ by rw [hstate, hdb], ?_, ?_, ?_⟩
    · rw [hstate]
      exact fun k grant hgrant ↦ by simp at hgrant
    · rw [hhistory]
      exact fun _ _ _ ht ↦ by simp at ht
    · rw [hhistory]
      trivial
  exact hsound.singleUse

private def atZero : Desk := { ledger := {}, clock := 0 }

theorem singleUse_redeemed : ∃ d, (system id).run atZero
      [.mint "secret" "spark" 600 "" 1, .redeem "secret" "node" 2] = some d ∧
    d.history = [.redeemed "secret" 2, .minted "secret" 601] ∧ d.history.SingleUse := by
  refine ⟨_, rfl, by decide, singleUse_of_reachable id ?_⟩
  have h : (system id).Reachable (fun d a ↦ Drawn id d a ∧ Reads a) atZero :=
    .init ⟨rfl, rfl, rfl⟩
  have h := h.next (a := .mint "secret" "spark" 600 "" 1)
    (by exact ⟨by simp [Drawn, atZero], trivial⟩) rfl
  exact h.next (a := .redeem "secret" "node" 2)
    (by exact ⟨⟨fun _ _ _ _ ↦ id, trivial⟩, by simp [Reads]⟩) rfl

/-- A token that is redeemed when the clock reads zero is not marked as used. -/
theorem redeemed_twice :
    ¬∀ hash d, (system hash).Reachable (Drawn hash) d → d.history.SingleUse := by
  intro hall
  have h : (system id).Reachable (Drawn id) atZero := .init ⟨rfl, rfl, rfl⟩
  have h := h.next (a := .mint "secret" "spark" 600 "" 0) (by simp [Drawn, atZero]) rfl
  have h := h.next (a := .redeem "secret" "node" 0) ⟨fun _ _ _ _ ↦ id, trivial⟩ rfl
  have h := h.next (a := .redeem "secret" "other" 0) ⟨fun _ _ _ _ ↦ id, trivial⟩ rfl
  obtain ⟨⟨-, -, honce, -⟩, -⟩ := hall id _ h
  exact honce 0 (by decide)

end Tokens

end SparkPulse.Agent
