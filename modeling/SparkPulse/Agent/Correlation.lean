import SparkPulse.Agent.Hub

/-!
# Every call gets its own outcome

The correlation of calls with results, over every interleaving of `AgentHub.system`. A call that
has neither an answer nor an outcome is *unanswered*; the invariant says that exactly the
unanswered calls stand in a pending table, each under its own command id on the connection it was
sent on, and that this connection is live. Which connections are live is a parameter: between the
moment a connection leaves the registry and the moment it is abandoned, it still holds calls.
-/

namespace SparkPulse.Agent

open Transition

variable {δ ρ : Type}

/-! ## One call -/

namespace HubCall

/-- Neither an answer nor an outcome. -/
def Unanswered (call : HubCall δ ρ) : Prop := call.future = none ∧ call.outcome = none

/-- An answer to this very call: a result with its command id, or its own node being unreachable. -/
def Answers (call : HubCall δ ρ) : Except NodeUnreachable (CommandResult ρ) → Prop
  | .ok result => result.commandId = call.commandId
  | .error e => e.nodeId = call.nodeId

/-- An outcome of this very call. It is cancelled only if its caller was. -/
def Ends (call : HubCall δ ρ) : CallOutcome ρ → Prop
  | .returned result => result.commandId = call.commandId
  | .unreachable e => e.nodeId = call.nodeId
  | .cancelled => call.cancelled = true

/-- Whatever the call was answered and whatever it ended with is its own. -/
structure Own (call : HubCall δ ρ) : Prop where
  answer : ∀ answer, call.future = some answer → call.Answers answer
  outcome : ∀ outcome, call.outcome = some outcome → call.Ends outcome

@[simp] theorem settle_nodeId (answer) (call : HubCall δ ρ) :
    (call.settle answer).nodeId = call.nodeId := by
  unfold settle
  split_ifs <;> rfl

@[simp] theorem settle_commandId (answer) (call : HubCall δ ρ) :
    (call.settle answer).commandId = call.commandId := by
  unfold settle
  split_ifs <;> rfl

@[simp] theorem settle_connection (answer) (call : HubCall δ ρ) :
    (call.settle answer).connection = call.connection := by
  unfold settle
  split_ifs <;> rfl

@[simp] theorem settle_outcome (answer) (call : HubCall δ ρ) :
    (call.settle answer).outcome = call.outcome := by
  unfold settle
  split_ifs <;> rfl

@[simp] theorem settle_cancelled (answer) (call : HubCall δ ρ) :
    (call.settle answer).cancelled = call.cancelled := by
  unfold settle
  split_ifs <;> rfl

/-- A settled call is answered: it keeps the answer it had, or takes the new one. -/
theorem settle_future (answer) (call : HubCall δ ρ) :
    (call.settle answer).future = some (call.future.getD answer) := by
  unfold settle
  cases h : call.future <;> simp [h]

theorem settle_settle (answer) (call : HubCall δ ρ) :
    (call.settle answer).settle answer = call.settle answer := by
  rw [settle, settle_future, Option.isNone_some, if_neg (by simp)]

theorem not_unanswered_settle (answer) (call : HubCall δ ρ) :
    ¬(call.settle answer).Unanswered := by
  rintro ⟨hfuture, -⟩
  rw [settle_future] at hfuture
  cases hfuture

theorem Own.congr {call call' : HubCall δ ρ} (h : call.Own) (hid : call'.commandId = call.commandId)
    (hnode : call'.nodeId = call.nodeId) (hfuture : call'.future = call.future)
    (houtcome : call'.outcome = call.outcome)
    (hcancelled : call.cancelled = true → call'.cancelled = true) : call'.Own where
  answer a ha := by
    have := h.answer a (hfuture ▸ ha)
    cases a <;> simpa [Answers, hid, hnode] using this
  outcome o ho := by
    have := h.outcome o (houtcome ▸ ho)
    cases o with
    | returned result => exact this.trans hid.symm
    | unreachable e => exact this.trans hnode.symm
    | cancelled => exact hcancelled this

theorem Own.settle {call : HubCall δ ρ} {answer} (h : call.Own) (ha : call.Answers answer) :
    (call.settle answer).Own where
  answer a hfuture := by
    rw [settle_future, Option.some.injEq] at hfuture
    have hown : call.Answers a := by
      cases hf : call.future with
      | none =>
        rw [hf, Option.getD_none] at hfuture
        exact hfuture ▸ ha
      | some b =>
        rw [hf, Option.getD_some] at hfuture
        exact h.answer a (hfuture ▸ hf)
    cases a <;> simpa [Answers] using hown
  outcome o ho := by
    rw [settle_outcome] at ho
    have := h.outcome o ho
    cases o <;> simpa [Ends] using this

end HubCall

/-! ## The invariant -/

namespace AgentHub

/-- Registered connections exist under their node's id, as do those commands were sent on; what calls
were answered is their own; and no command id is used twice. -/
structure Known (h : AgentHub δ ρ) : Prop where
  registered : ∀ nodeId c, h.connections.lookup nodeId = some c →
    ∃ conn, h.conns c = some conn ∧ conn.nodeId = nodeId
  sent : ∀ k call c, h.calls k = some call → call.connection = some c →
    ∃ conn, h.conns c = some conn ∧ conn.nodeId = call.nodeId
  own : ∀ k call, h.calls k = some call → call.Own
  minted : ∀ k call, h.calls k = some call → call.commandId ∈ h.minted
  distinct : ∀ k k' call call', h.calls k = some call → h.calls k' = some call' →
    call.commandId = call'.commandId → k = k'

/-- The entries of the pending tables are exactly the unanswered calls, each under its own command
id on the live connection it was sent on. -/
structure Correlated (live : Nat → Prop) (h : AgentHub δ ρ) : Prop extends Known h where
  waiting : ∀ c conn commandId k, h.conns c = some conn →
    conn.pending.lookup commandId = some k →
      ∃ call, h.calls k = some call ∧ call.connection = some c ∧ call.commandId = commandId ∧
        call.Unanswered
  unanswered : ∀ k call, h.calls k = some call → call.Unanswered →
    ∃ c conn, call.connection = some c ∧ h.conns c = some conn ∧
      conn.pending.lookup call.commandId = some k ∧ live c

/-- The connection is the registered one of some node. -/
def Current (h : AgentHub δ ρ) (c : Nat) : Prop := ∃ nodeId, h.connections.lookup nodeId = some c

variable {h : AgentHub δ ρ} {live live' : Nat → Prop}

theorem Correlated.mono (hh : Correlated live h) (hlive : ∀ c, live c → live' c) :
    Correlated live' h :=
  { hh with
    unanswered := fun k call hk hu ↦ by
      obtain ⟨c, conn, hc, hconn, hp, hl⟩ := hh.unanswered k call hk hu
      exact ⟨c, conn, hc, hconn, hp, hlive c hl⟩ }

theorem setConn_conns (c d : Nat) (conn : AgentConnection δ) (h : AgentHub δ ρ) :
    (h.setConn c conn).conns d = if d = c then some conn else h.conns d := by
  simp [setConn, Function.update_apply]

theorem setCall_calls (k j : Nat) (call : HubCall δ ρ) (h : AgentHub δ ρ) :
    (h.setCall k call).calls j = if j = k then some call else h.calls j := by
  simp [setCall, Function.update_apply]

/-! ### Replacing one connection or one call -/

/-- A connection may change anything but its node. -/
theorem Known.setConn (hh : Known h) {c : Nat} {conn conn' : AgentConnection δ}
    (hconn : h.conns c = some conn) (hnode : conn'.nodeId = conn.nodeId) :
    Known (h.setConn c conn') := by
  have hkeep : ∀ d nodeId, (∃ e, h.conns d = some e ∧ e.nodeId = nodeId) →
      ∃ e, (h.setConn c conn').conns d = some e ∧ e.nodeId = nodeId := by
    rintro d nodeId ⟨e, he, hen⟩
    rw [setConn_conns]
    by_cases hdc : d = c
    · subst hdc
      rw [hconn] at he
      obtain rfl := Option.some.inj he
      exact ⟨conn', if_pos rfl, hnode.trans hen⟩
    · exact ⟨e, by rw [if_neg hdc, he], hen⟩
  exact
    { registered := fun nodeId d hd ↦ hkeep d nodeId (hh.registered nodeId d hd)
      sent := fun k call d hk hd ↦ hkeep d call.nodeId (hh.sent k call d hk hd)
      own := hh.own
      minted := hh.minted
      distinct := hh.distinct }

/-- A call may change anything but its identity, as long as what it holds is its own. -/
theorem Known.setCall (hh : Known h) {k : Nat} {call call' : HubCall δ ρ}
    (hk : h.calls k = some call) (hid : call'.commandId = call.commandId)
    (hnode : call'.nodeId = call.nodeId) (hsent : call'.connection = call.connection)
    (hown : call'.Own) : Known (h.setCall k call') := by
  have hback : ∀ j other, (h.setCall k call').calls j = some other → other.Own ∧
      ∃ was, h.calls j = some was ∧ was.commandId = other.commandId ∧ was.nodeId = other.nodeId ∧
        was.connection = other.connection := by
    intro j other hj
    rw [setCall_calls] at hj
    by_cases hjk : j = k
    · rw [if_pos hjk, Option.some.injEq] at hj
      subst hjk hj
      exact ⟨hown, call, hk, hid.symm, hnode.symm, hsent.symm⟩
    · rw [if_neg hjk] at hj
      exact ⟨hh.own j other hj, other, hj, rfl, rfl, rfl⟩
  constructor
  · exact hh.registered
  · intro j other c hj hc
    obtain ⟨-, was, hwas, -, hn, hs⟩ := hback j other hj
    rw [← hn]
    exact hh.sent j was c hwas (hs.trans hc)
  · exact fun j other hj ↦ (hback j other hj).1
  · intro j other hj
    obtain ⟨-, was, hwas, hi, -, -⟩ := hback j other hj
    exact hi ▸ hh.minted j was hwas
  · intro i j a b hi hj hab
    obtain ⟨-, a', ha', haid, -, -⟩ := hback i a hi
    obtain ⟨-, b', hb', hbid, -, -⟩ := hback j b hj
    exact hh.distinct i j a' b' ha' hb' (by rw [haid, hbid, hab])

/-- A connection that keeps its node and the entries of its pending table. -/
theorem Correlated.setConn (hh : Correlated live h) {c : Nat} {conn conn' : AgentConnection δ}
    (hconn : h.conns c = some conn) (hnode : conn'.nodeId = conn.nodeId)
    (hpending : ∀ commandId, conn'.pending.lookup commandId = conn.pending.lookup commandId) :
    Correlated live (h.setConn c conn') where
  toKnown := hh.toKnown.setConn hconn hnode
  waiting d e i k he hk := by
    rw [setConn_conns] at he
    by_cases hdc : d = c
    · subst hdc
      rw [if_pos rfl, Option.some.injEq] at he
      rw [← he, hpending] at hk
      exact hh.waiting d conn i k hconn hk
    · rw [if_neg hdc] at he
      exact hh.waiting d e i k he hk
  unanswered k call hk hu := by
    obtain ⟨d, e, hd, he, hp, hl⟩ := hh.unanswered k call hk hu
    by_cases hdc : d = c
    · subst hdc
      rw [hconn] at he
      obtain rfl := Option.some.inj he
      exact ⟨d, conn', hd, by rw [setConn_conns, if_pos rfl], by rw [hpending, hp], hl⟩
    · exact ⟨d, e, hd, by rw [setConn_conns, if_neg hdc, he], hp, hl⟩

/-- A call that keeps its identity, and is unanswered exactly if it was. -/
theorem Correlated.setCall (hh : Correlated live h) {k : Nat} {call call' : HubCall δ ρ}
    (hk : h.calls k = some call) (hid : call'.commandId = call.commandId)
    (hnode : call'.nodeId = call.nodeId) (hsent : call'.connection = call.connection)
    (hown : call'.Own) (hunanswered : call'.Unanswered ↔ call.Unanswered) :
    Correlated live (h.setCall k call') where
  toKnown := hh.toKnown.setCall hk hid hnode hsent hown
  waiting d e i j he hj := by
    obtain ⟨other, hother, hd, hi, hu⟩ := hh.waiting d e i j he hj
    rw [setCall_calls]
    by_cases hjk : j = k
    · subst hjk
      rw [hk] at hother
      obtain rfl := Option.some.inj hother
      exact ⟨call', if_pos rfl, hsent.trans hd, hid.trans hi, hunanswered.2 hu⟩
    · exact ⟨other, by rw [if_neg hjk, hother], hd, hi, hu⟩
  unanswered j other hj hu := by
    rw [setCall_calls] at hj
    by_cases hjk : j = k
    · subst hjk
      rw [if_pos rfl, Option.some.injEq] at hj
      subst hj
      obtain ⟨d, e, hd, he, hp, hl⟩ := hh.unanswered j call hk (hunanswered.1 hu)
      exact ⟨d, e, hsent.trans hd, he, hid ▸ hp, hl⟩
    · rw [if_neg hjk] at hj
      exact hh.unanswered j other hj hu

/-- A call leaves the pending table of its connection as it is answered or ends. -/
theorem Correlated.release (hh : Correlated live h) {c k : Nat} {conn conn' : AgentConnection δ}
    {call call' : HubCall δ ρ} (hk : h.calls k = some call) (hc : call.connection = some c)
    (hconn : h.conns c = some conn) (hid : call'.commandId = call.commandId)
    (hnode : call'.nodeId = call.nodeId) (hsent : call'.connection = call.connection)
    (hown : call'.Own) (hanswered : ¬call'.Unanswered) (hnode' : conn'.nodeId = conn.nodeId)
    (hpending : conn'.pending = conn.pending.erase call.commandId) :
    Correlated live ((h.setConn c conn').setCall k call') where
  toKnown := (hh.toKnown.setConn hconn hnode').setCall hk hid hnode hsent hown
  waiting d e i j he hj := by
    -- an entry left in the table is another call's, so it is untouched
    have hother : ∃ other, h.calls j = some other ∧ other.connection = some d ∧
        other.commandId = i ∧ other.Unanswered ∧ j ≠ k := by
      change (h.setConn c conn').conns d = some e at he
      rw [setConn_conns] at he
      by_cases hdc : d = c
      · rw [if_pos hdc, Option.some.injEq] at he
        subst hdc he
        rw [hpending] at hj
        have hic : i ≠ call.commandId := by
          rintro rfl
          rw [AList.lookup_erase] at hj
          cases hj
        rw [AList.lookup_erase_ne hic] at hj
        obtain ⟨other, hother, hd, hi, hu⟩ := hh.waiting d conn i j hconn hj
        refine ⟨other, hother, hd, hi, hu, ?_⟩
        rintro rfl
        rw [hk] at hother
        obtain rfl := Option.some.inj hother
        exact hic hi.symm
      · rw [if_neg hdc] at he
        obtain ⟨other, hother, hd, hi, hu⟩ := hh.waiting d e i j he hj
        refine ⟨other, hother, hd, hi, hu, ?_⟩
        rintro rfl
        rw [hk] at hother
        obtain rfl := Option.some.inj hother
        rw [hc] at hd
        exact hdc (Option.some.inj hd).symm
    obtain ⟨other, hother, hd, hi, hu, hjk⟩ := hother
    exact ⟨other, by rw [setCall_calls, if_neg hjk]; exact hother, hd, hi, hu⟩
  unanswered j other hj hu := by
    rw [setCall_calls] at hj
    by_cases hjk : j = k
    · rw [if_pos hjk, Option.some.injEq] at hj
      exact absurd (hj ▸ hu) hanswered
    · rw [if_neg hjk] at hj
      obtain ⟨d, e, hd, he, hp, hl⟩ := hh.unanswered j other hj hu
      by_cases hdc : d = c
      · subst hdc
        rw [hconn] at he
        obtain rfl := Option.some.inj he
        have hne : other.commandId ≠ call.commandId := fun heq ↦
          hjk (hh.distinct j k other call hj hk heq)
        refine ⟨d, conn', hd, ?_, by rw [hpending, AList.lookup_erase_ne hne, hp], hl⟩
        exact (setConn_conns ..).trans (if_pos rfl)
      · exact ⟨d, e, hd, (setConn_conns ..).trans ((if_neg hdc).trans he), hp, hl⟩

/-- Removing a command id that nobody waits under changes no entry. -/
theorem Correlated.setConn_discard (hh : Correlated live h) {c : Nat}
    {conn conn' : AgentConnection δ} {commandId : String} (hconn : h.conns c = some conn)
    (hnode : conn'.nodeId = conn.nodeId) (hpending : conn'.pending = conn.pending.erase commandId)
    (hnone : conn.pending.lookup commandId = none) : Correlated live (h.setConn c conn') := by
  refine hh.setConn hconn hnode fun i ↦ ?_
  rw [hpending]
  by_cases hi : i = commandId
  · subst hi
    rw [AList.lookup_erase, hnone]
  · rw [AList.lookup_erase_ne hi]

/-! ### The steps -/

/-- A result reaches the call whose command id it carries, or nobody. -/
theorem Correlated.deliver (hh : Correlated live h) (c : Nat) (result : CommandResult ρ) :
    Correlated live (h.deliver c result) := by
  unfold AgentHub.deliver
  split
  · exact hh
  · rename_i conn hconn
    dsimp only
    split
    · rename_i hnone
      exact hh.setConn_discard hconn rfl rfl hnone
    · rename_i k hlookup
      obtain ⟨call, hk, hc, hid, -⟩ := hh.waiting c conn result.commandId k hconn hlookup
      have hcalls : (h.setConn c (conn.discard result.commandId)).calls k = some call := hk
      rw [AgentHub.settle, hcalls]
      refine hh.release hk hc hconn (HubCall.settle_commandId ..) (HubCall.settle_nodeId ..)
        (HubCall.settle_connection ..) ((hh.own k call hk).settle ?_)
        (HubCall.not_unanswered_settle _ _) rfl ?_
      · exact hid.symm
      · rw [hid]
        rfl

/-- Several calls settled with one answer. -/
def settleAll (ks : List Nat) (answer : Except NodeUnreachable (CommandResult ρ))
    (h : AgentHub δ ρ) : AgentHub δ ρ :=
  { h with calls := fun k ↦
      if k ∈ ks then (h.calls k).map (HubCall.settle answer) else h.calls k }

private theorem settle_eq (k : Nat) (answer : Except NodeUnreachable (CommandResult ρ))
    (h : AgentHub δ ρ) : h.settle k answer = h.settleAll [k] answer := by
  unfold AgentHub.settle
  cases hk : h.calls k with
  | none =>
    have hsame : h.calls = (h.settleAll [k] answer).calls := by
      funext j
      by_cases hjk : j = k <;> simp [settleAll, hjk, hk]
    exact congrArg (fun calls ↦ ({ h with calls } : AgentHub δ ρ)) hsame
  | some call =>
    refine congrArg (fun calls ↦ ({ h with calls } : AgentHub δ ρ)) (funext fun j ↦ ?_)
    by_cases hjk : j = k <;> simp [hjk, hk]

/-- What a run of `settle`s does: each named call is settled, once. -/
private theorem foldl_settle (answer : Except NodeUnreachable (CommandResult ρ)) (ks : List Nat)
    (h : AgentHub δ ρ) : ks.foldl (fun h k ↦ h.settle k answer) h = h.settleAll ks answer := by
  induction ks generalizing h with
  | nil => simp [settleAll]
  | cons k ks ih =>
    rw [List.foldl_cons, ih, settle_eq]
    refine congrArg (fun calls ↦ ({ h with calls } : AgentHub δ ρ)) (funext fun j ↦ ?_)
    by_cases hjk : j = k
    · subst hjk
      simp only [settleAll, List.mem_cons, true_or, if_true, Option.map_map]
      split_ifs
      · refine congrArg (fun f ↦ (h.calls j).map f) (funext fun call ↦ ?_)
        exact HubCall.settle_settle answer call
      · rfl
    · simp [settleAll, hjk]

/-- The calls in a connection's pending table. -/
def waiters (conn : AgentConnection δ) : List Nat := conn.pending.entries.map fun entry ↦ entry.2

private theorem mem_waiters {conn : AgentConnection δ} {k : Nat} :
    k ∈ waiters conn ↔ ∃ commandId, conn.pending.lookup commandId = some k := by
  constructor
  · intro hk
    obtain ⟨⟨i, j⟩, hmem, hj⟩ := List.mem_map.1 hk
    obtain rfl : j = k := hj
    exact ⟨i, AList.mem_lookup_iff.2 hmem⟩
  · rintro ⟨i, hi⟩
    exact List.mem_map.2 ⟨⟨i, k⟩, AList.mem_lookup_iff.1 hi, rfl⟩

/-- Abandoning a connection settles exactly the calls in its pending table. -/
private theorem abandon_eq {c : Nat} {conn : AgentConnection δ} (hconn : h.conns c = some conn)
    (reason : UnreachableReason) (detail : String) :
    h.abandon c reason detail =
      (h.setConn c conn.close).settleAll (waiters conn)
        (.error ⟨conn.nodeId, reason, detail⟩) := by
  simp only [AgentHub.abandon, hconn]
  rw [← foldl_settle, waiters, List.foldl_map]

/-- What a call was before its connection, or another one, was abandoned. -/
private theorem Correlated.was_of_abandon (hh : Correlated live h) {c k : Nat}
    {conn : AgentConnection δ} (hconn : h.conns c = some conn) {reason : UnreachableReason}
    {detail : String} {call : HubCall δ ρ}
    (hk : (h.abandon c reason detail).calls k = some call) :
    (k ∉ waiters conn ∧ h.calls k = some call) ∨
      ∃ was, h.calls k = some was ∧ was.connection = some c ∧
        call = was.settle (.error ⟨conn.nodeId, reason, detail⟩) := by
  rw [abandon_eq hconn] at hk
  by_cases hmem : k ∈ waiters conn
  · obtain ⟨i, hi⟩ := mem_waiters.1 hmem
    obtain ⟨was, hwas, hc, -, -⟩ := hh.waiting c conn i k hconn hi
    have hsettled : (h.calls k).map _ = some call := (if_pos hmem).symm.trans hk
    rw [hwas, Option.map_some, Option.some.injEq] at hsettled
    exact .inr ⟨was, hwas, hc, hsettled.symm⟩
  · exact .inl ⟨hmem, (if_neg hmem).symm.trans hk⟩

private theorem Correlated.known_abandon (hh : Correlated live h) {c : Nat}
    {conn : AgentConnection δ} (hconn : h.conns c = some conn) (reason : UnreachableReason)
    (detail : String) : Known (h.abandon c reason detail) := by
  have hknown : Known (h.setConn c conn.close) := hh.toKnown.setConn hconn rfl
  have hregistry : (h.abandon c reason detail).connections = h.connections := by
    rw [abandon_eq hconn]
    rfl
  have hconns : (h.abandon c reason detail).conns = (h.setConn c conn.close).conns := by
    rw [abandon_eq hconn]
    rfl
  have hminted : (h.abandon c reason detail).minted = h.minted := by
    rw [abandon_eq hconn]
    rfl
  have hid : ∀ k call, (h.abandon c reason detail).calls k = some call →
      ∃ was, h.calls k = some was ∧ was.commandId = call.commandId := by
    intro k call hk
    rcases hh.was_of_abandon hconn hk with ⟨-, hwas⟩ | ⟨was, hwas, -, rfl⟩
    · exact ⟨call, hwas, rfl⟩
    · exact ⟨was, hwas, (HubCall.settle_commandId ..).symm⟩
  constructor
  · rw [hregistry, hconns]
    exact hknown.registered
  · intro k call d hk hd
    rw [hconns]
    rcases hh.was_of_abandon hconn hk with ⟨-, hwas⟩ | ⟨was, hwas, -, rfl⟩
    · exact hknown.sent k call d hwas hd
    · rw [HubCall.settle_connection] at hd
      rw [HubCall.settle_nodeId]
      exact hknown.sent k was d hwas hd
  · intro k call hk
    rcases hh.was_of_abandon hconn hk with ⟨-, hwas⟩ | ⟨was, hwas, hc, rfl⟩
    · exact hh.own k call hwas
    · obtain ⟨e, he, hen⟩ := hh.sent k was c hwas hc
      rw [hconn] at he
      obtain rfl := Option.some.inj he
      exact (hh.own k was hwas).settle hen
  · intro k call hk
    obtain ⟨was, hwas, hi⟩ := hid k call hk
    rw [hminted]
    exact hi ▸ hh.minted k was hwas
  · intro i j a b hi hj hab
    obtain ⟨a', ha', haid⟩ := hid i a hi
    obtain ⟨b', hb', hbid⟩ := hid j b hj
    exact hh.distinct i j a' b' ha' hb' (by rw [haid, hbid, hab])

/-- After it is abandoned, a connection holds no call that is unanswered. -/
theorem Correlated.abandon (hh : Correlated live h) (c : Nat) (reason : UnreachableReason)
    (detail : String) :
    Correlated (fun d ↦ live d ∧ d ≠ c) (h.abandon c reason detail) := by
  cases hconn : h.conns c with
  | none =>
    simp only [AgentHub.abandon, hconn]
    refine { hh with unanswered := fun k call hk hu ↦ ?_ }
    obtain ⟨d, e, hd, he, hp, hl⟩ := hh.unanswered k call hk hu
    refine ⟨d, e, hd, he, hp, hl, ?_⟩
    rintro rfl
    rw [hconn] at he
    cases he
  | some conn =>
    have hconns : ∀ d, (h.abandon c reason detail).conns d =
        if d = c then some conn.close else h.conns d := by
      intro d
      rw [abandon_eq hconn]
      exact setConn_conns ..
    refine ⟨hh.known_abandon hconn reason detail, fun d e i k he hk ↦ ?_, fun k call hk hu ↦ ?_⟩
    · rw [hconns] at he
      by_cases hdc : d = c
      · rw [if_pos hdc, Option.some.injEq] at he
        rw [← he, AgentConnection.close, AList.lookup_empty] at hk
        cases hk
      · rw [if_neg hdc] at he
        obtain ⟨call, hcall, hd, hi, hu⟩ := hh.waiting d e i k he hk
        have hnot : k ∉ waiters conn := by
          intro hmem
          obtain ⟨i', hi'⟩ := mem_waiters.1 hmem
          obtain ⟨was, hwas, hc, -, -⟩ := hh.waiting c conn i' k hconn hi'
          rw [hcall] at hwas
          obtain rfl := Option.some.inj hwas
          rw [hc] at hd
          exact hdc (Option.some.inj hd).symm
        refine ⟨call, ?_, hd, hi, hu⟩
        rw [abandon_eq hconn]
        exact (if_neg hnot).trans hcall
    · rcases hh.was_of_abandon hconn hk with ⟨hnot, hwas⟩ | ⟨was, -, -, rfl⟩
      · obtain ⟨d, e, hd, he, hp, hl⟩ := hh.unanswered k call hwas hu
        have hdc : d ≠ c := by
          rintro rfl
          rw [hconn] at he
          obtain rfl := Option.some.inj he
          exact hnot (mem_waiters.2 ⟨_, hp⟩)
        exact ⟨d, e, hd, by rw [hconns, if_neg hdc, he], hp, hl, hdc⟩
      · exact absurd hu (HubCall.not_unanswered_settle _ _)

/-- Abandoning leaves the registry alone. -/
private theorem abandon_connections (c : Nat) (reason : UnreachableReason) (detail : String)
    (h : AgentHub δ ρ) : (h.abandon c reason detail).connections = h.connections := by
  cases hconn : h.conns c with
  | none => simp only [AgentHub.abandon, hconn]
  | some conn =>
    rw [abandon_eq hconn]
    rfl

theorem Correlated.attach (hh : Correlated h.Current h) {c : Nat} (hfresh : h.conns c = none)
    (nodeId : String) : Correlated (h.attach c nodeId).Current (h.attach c nodeId) := by
  -- the new connection is registered, the old one not yet abandoned
  have hbound : ∀ d e, h.conns d = some e → d ≠ c := by
    rintro d e he rfl
    rw [hfresh] at he
    cases he
  have hadded : Correlated h.Current
      { h.setConn c { nodeId } with connections := h.connections.insert nodeId c } := by
    constructor
    · constructor
      · intro n d hd
        by_cases hn : n = nodeId
        · subst hn
          rw [AList.lookup_insert, Option.some.injEq] at hd
          exact ⟨{ nodeId := n }, (setConn_conns ..).trans (if_pos hd.symm), rfl⟩
        · rw [AList.lookup_insert_ne hn] at hd
          obtain ⟨e, he, hen⟩ := hh.registered n d hd
          exact ⟨e, (setConn_conns ..).trans ((if_neg (hbound d e he)).trans he), hen⟩
      · intro k call d hk hd
        obtain ⟨e, he, hen⟩ := hh.sent k call d hk hd
        exact ⟨e, (setConn_conns ..).trans ((if_neg (hbound d e he)).trans he), hen⟩
      · exact hh.own
      · exact hh.minted
      · exact hh.distinct
    · intro d e i k he hk
      change (h.setConn c _).conns d = some e at he
      rw [setConn_conns] at he
      by_cases hdc : d = c
      · rw [if_pos hdc, Option.some.injEq] at he
        subst he
        rw [AList.lookup_empty] at hk
        cases hk
      · rw [if_neg hdc] at he
        exact hh.waiting d e i k he hk
    · intro k call hk hu
      obtain ⟨d, e, hd, he, hp, hl⟩ := hh.unanswered k call hk hu
      exact ⟨d, e, hd, (setConn_conns ..).trans ((if_neg (hbound d e he)).trans he), hp, hl⟩
  have hkept : ∀ d, h.Current d → h.connections.lookup nodeId ≠ some d →
      ∃ n, (h.connections.insert nodeId c).lookup n = some d := by
    rintro d ⟨n, hn⟩ hd
    have hne : n ≠ nodeId := by
      rintro rfl
      exact hd hn
    exact ⟨n, by rw [AList.lookup_insert_ne hne, hn]⟩
  unfold AgentHub.attach
  dsimp only
  split
  · rename_i p hp
    have hpc : p ≠ c := by
      obtain ⟨e, he, -⟩ := hh.registered nodeId p hp
      exact hbound p e he
    rw [if_pos hpc]
    refine (hadded.abandon p .disconnected _).mono ?_
    rintro d ⟨hd, hdp⟩
    rw [Current, abandon_connections]
    exact hkept d hd (by rw [hp]; exact fun heq ↦ hdp (Option.some.inj heq).symm)
  · rename_i hnone
    refine hadded.mono fun d hd ↦ hkept d hd ?_
    rw [hnone]
    exact nofun

theorem Correlated.detach (hh : Correlated h.Current h) (c : Nat) (conn : AgentConnection δ) :
    Correlated (h.detach c conn).Current (h.detach c conn) := by
  -- only the connection itself can have left the registry
  have hkept : ∀ d, h.Current d → d ≠ c →
      ∃ n, (if h.connections.lookup conn.nodeId = some c then
        { h with connections := h.connections.erase conn.nodeId } else h).connections.lookup n =
          some d := by
    rintro d ⟨n, hn⟩ hdc
    split_ifs with hcurrent
    · have hne : n ≠ conn.nodeId := by
        rintro rfl
        rw [hn] at hcurrent
        exact hdc (Option.some.inj hcurrent)
      exact ⟨n, by rw [AList.lookup_erase_ne hne, hn]⟩
    · exact ⟨n, hn⟩
  have hremoved : Correlated h.Current (if h.connections.lookup conn.nodeId = some c then
      { h with connections := h.connections.erase conn.nodeId } else h) := by
    split_ifs with hcurrent
    · refine { hh with registered := fun n d hd ↦ hh.registered n d ?_ }
      by_cases hn : n = conn.nodeId
      · subst hn
        rw [AList.lookup_erase] at hd
        cases hd
      · rwa [AList.lookup_erase_ne hn] at hd
    · exact hh
  refine (hremoved.abandon c .disconnected "the agent stream ended").mono ?_
  rintro d ⟨hd, hdc⟩
  rw [AgentHub.detach, Current, abandon_connections]
  exact hkept d hd hdc

theorem Correlated.shutdown (hh : Correlated h.Current h) :
    Correlated h.shutdown.Current h.shutdown := by
  -- the fold abandons every connection it meets
  have hfold : ∀ (entries : List (Sigma fun _ : String ↦ Nat)) (g : AgentHub δ ρ)
      (live : Nat → Prop), Correlated live g →
      Correlated (fun d ↦ live d ∧ ∀ entry ∈ entries, entry.2 ≠ d)
        (entries.foldl (fun g entry ↦ g.abandon entry.2 .shuttingDown
          "the control plane is shutting down") g) := by
    intro entries
    induction entries with
    | nil => exact fun g live hg ↦ hg.mono fun d hd ↦ ⟨hd, by simp⟩
    | cons entry entries ih =>
      intro g live hg
      refine (ih _ _ (hg.abandon entry.2 .shuttingDown _)).mono ?_
      rintro d ⟨⟨hd, hne⟩, hnot⟩
      exact ⟨hd, List.forall_mem_cons.2 ⟨hne.symm, hnot⟩⟩
  have hall := hfold h.connections.entries h h.Current hh
  refine { hall with registered := ?_, unanswered := fun k call hk hu ↦ ?_ }
  · intro n d hd
    rw [AgentHub.shutdown, AList.lookup_empty] at hd
    cases hd
  · obtain ⟨d, e, -, -, -, ⟨n, hn⟩, hnot⟩ := hall.unanswered k call hk hu
    exact absurd rfl (hnot ⟨n, d⟩ (AList.mem_lookup_iff.1 hn))

/-- A new call of a freshly minted command: refused at once, or registered on the current
connection of its node. -/
theorem Correlated.startCall (hh : Correlated h.Current h) {k : Nat} {commandId : String}
    (hk : h.calls k = none) (hfresh : commandId ∉ h.minted) (nodeId : String)
    (timeout timeoutSeconds : Option δ) (progress : Bool) :
    Correlated (h.startCall k nodeId commandId timeout timeoutSeconds progress).Current
      (h.startCall k nodeId commandId timeout timeoutSeconds progress) := by
  have hbound : ∀ j call, h.calls j = some call → j ≠ k ∧ call.commandId ≠ commandId := by
    intro j call hj
    refine ⟨?_, fun hid ↦ hfresh (hid ▸ hh.minted j call hj)⟩
    rintro rfl
    rw [hk] at hj
    cases hj
  -- what adding the frame of a new call does, whatever becomes of the connections
  have hknown : ∀ (g : AgentHub δ ρ) (call : HubCall δ ρ), Known g → g.calls = h.calls →
      g.minted = commandId :: h.minted → call.commandId = commandId → call.Own →
      (∀ c, call.connection = some c → ∃ conn, g.conns c = some conn ∧
        conn.nodeId = call.nodeId) → Known (g.setCall k call) := by
    intro g call hg hcalls hminted hid hown hsent
    have hback : ∀ j other, (g.setCall k call).calls j = some other →
        (j = k ∧ other = call) ∨ (j ≠ k ∧ h.calls j = some other) := by
      intro j other hj
      rw [setCall_calls, hcalls] at hj
      by_cases hjk : j = k
      · rw [if_pos hjk, Option.some.injEq] at hj
        exact .inl ⟨hjk, hj.symm⟩
      · rw [if_neg hjk] at hj
        exact .inr ⟨hjk, hj⟩
    constructor
    · exact hg.registered
    · intro j other c hj hc
      rcases hback j other hj with ⟨-, rfl⟩ | ⟨-, hj⟩
      · exact hsent c hc
      · exact hg.sent j other c (by rw [hcalls, hj]) hc
    · intro j other hj
      rcases hback j other hj with ⟨-, rfl⟩ | ⟨-, hj⟩
      · exact hown
      · exact hh.own j other hj
    · intro j other hj
      change other.commandId ∈ g.minted
      rw [hminted]
      rcases hback j other hj with ⟨-, rfl⟩ | ⟨-, hj⟩
      · exact hid ▸ List.mem_cons_self
      · exact List.mem_cons_of_mem _ (hh.minted j other hj)
    · intro i j a b hi hj hab
      rcases hback i a hi with ⟨hik, ha⟩ | ⟨-, hi'⟩ <;>
        rcases hback j b hj with ⟨hjk, hb⟩ | ⟨-, hj'⟩
      · rw [hik, hjk]
      · exact absurd (hab.symm.trans (ha ▸ hid)) (hbound j b hj').2
      · exact absurd (hab.trans (hb ▸ hid)) (hbound i a hi').2
      · exact hh.distinct i j a b hi' hj' hab
  have hmint : Correlated h.Current { h with minted := commandId :: h.minted } :=
    { hh with minted := fun j call hj ↦ List.mem_cons_of_mem _ (hh.minted j call hj) }
  unfold AgentHub.startCall
  dsimp only
  split
  · refine ⟨hknown _ _ hmint.toKnown rfl rfl rfl ⟨nofun, ?_⟩ nofun, ?_, ?_⟩
    · rintro outcome ⟨rfl⟩
      rfl
    · intro d e i j he hj
      obtain ⟨call, hcall, hd, hi, hu⟩ := hh.waiting d e i j he hj
      exact ⟨call, (setCall_calls ..).trans ((if_neg (hbound j call hcall).1).trans hcall), hd, hi,
        hu⟩
    · intro j call hj hu
      rw [setCall_calls] at hj
      by_cases hjk : j = k
      · rw [if_pos hjk, Option.some.injEq] at hj
        subst hj
        exact absurd hu.2 (by simp)
      · rw [if_neg hjk] at hj
        exact hh.unanswered j call hj hu
  · rename_i c hc
    obtain ⟨conn, hconn, hnode⟩ := hh.registered nodeId c hc
    simp only [hconn]
    have hsent : Known (({ h with minted := commandId :: h.minted } : AgentHub δ ρ).setConn c
        (conn.send commandId h.epoch (h.deadlineFor timeout timeoutSeconds) k progress)) :=
      hmint.toKnown.setConn hconn rfl
    have hconns : ∀ d, (if d = c then some (conn.send commandId h.epoch
        (h.deadlineFor timeout timeoutSeconds) k progress) else h.conns d) =
          (({ h with minted := commandId :: h.minted } : AgentHub δ ρ).setConn c
        (conn.send commandId h.epoch (h.deadlineFor timeout timeoutSeconds) k progress)).conns d :=
      fun d ↦ (setConn_conns ..).symm
    refine ⟨hknown _ _ hsent rfl rfl rfl ⟨nofun, nofun⟩ ?_, ?_, ?_⟩
    · rintro d ⟨rfl⟩
      exact ⟨_, (hconns c).symm.trans (if_pos rfl), hnode⟩
    · intro d e i j he hj
      have he := (hconns d).trans he
      by_cases hdc : d = c
      · subst hdc
        rw [if_pos rfl, Option.some.injEq] at he
        rw [← he, AgentConnection.send] at hj
        by_cases hi : i = commandId
        · subst hi
          rw [AList.lookup_insert, Option.some.injEq] at hj
          subst hj
          exact ⟨_, (setCall_calls ..).trans (if_pos rfl), rfl, rfl, rfl, rfl⟩
        · rw [AList.lookup_insert_ne hi] at hj
          obtain ⟨call, hcall, hd, hid, hu⟩ := hh.waiting d conn i j hconn hj
          exact ⟨call, (setCall_calls ..).trans ((if_neg (hbound j call hcall).1).trans hcall), hd,
            hid, hu⟩
      · rw [if_neg hdc] at he
        obtain ⟨call, hcall, hd, hid, hu⟩ := hh.waiting d e i j he hj
        exact ⟨call, (setCall_calls ..).trans ((if_neg (hbound j call hcall).1).trans hcall), hd,
          hid, hu⟩
    · intro j call hj hu
      rw [setCall_calls] at hj
      by_cases hjk : j = k
      · rw [if_pos hjk, Option.some.injEq] at hj
        subst hj hjk
        exact ⟨c, _, rfl, (hconns c).symm.trans (if_pos rfl), AList.lookup_insert _,
          ⟨nodeId, hc⟩⟩
      · rw [if_neg hjk] at hj
        obtain ⟨d, e, hd, he, hp, hl⟩ := hh.unanswered j call hj hu
        by_cases hdc : d = c
        · subst hdc
          rw [hconn] at he
          obtain rfl := Option.some.inj he
          refine ⟨d, _, hd, (hconns d).symm.trans (if_pos rfl), ?_, hl⟩
          rw [AgentConnection.send, AList.lookup_insert_ne (hbound j call hj).2, hp]
        · exact ⟨d, e, hd, (hconns d).symm.trans ((if_neg hdc).trans he), hp, hl⟩

/-- What a resumed call sees is its own. -/
theorem Own.wakeOutcome [ToString δ] {call : HubCall δ ρ} (h : call.Own) {wake : Wake}
    {outcome : CallOutcome ρ} (hw : AgentHub.wakeOutcome call wake = some outcome) :
    call.Ends outcome := by
  cases wake with
  | done =>
    obtain ⟨answer, hanswer, rfl⟩ := Option.map_eq_some_iff.1 hw
    have := h.answer answer hanswer
    cases answer <;> exact this
  | timedOut =>
    obtain ⟨-, rfl⟩ : call.expired = true ∧ _ = outcome := by
      simpa [AgentHub.wakeOutcome] using hw
    rfl
  | cancelled =>
    obtain ⟨hcancelled, rfl⟩ : call.cancelled = true ∧ _ = outcome := by
      simpa [AgentHub.wakeOutcome] using hw
    exact hcancelled

/-- A call that ends leaves no entry behind. -/
theorem Correlated.finishCall (hh : Correlated live h) {k : Nat} {call : HubCall δ ρ}
    (hk : h.calls k = some call) (wake : Wake) {outcome : CallOutcome ρ}
    (hends : call.Ends outcome) : Correlated live (h.finishCall k call wake outcome) := by
  have hown : ({ call with outcome := some outcome } : HubCall δ ρ).Own := by
    refine ⟨fun answer ha ↦ ?_, ?_⟩
    · have := (hh.own k call hk).answer answer ha
      cases answer <;> exact this
    · rintro o ⟨rfl⟩
      cases outcome <;> exact hends
  have hended : ¬({ call with outcome := some outcome } : HubCall δ ρ).Unanswered := fun hu ↦
    absurd hu.2 (by simp)
  have hset : ¬call.Unanswered → Correlated live (h.setCall k { call with outcome := some outcome }) :=
    fun hu ↦ hh.setCall hk rfl rfl rfl hown (iff_of_false hended hu)
  unfold AgentHub.finishCall
  dsimp only
  split
  · rename_i conn c hbind hc
    have hconn : h.conns c = some conn := by rwa [hc, Option.bind_some] at hbind
    have hnode : ((if wake = .done then conn else conn.cancelCommand call.commandId).discard
        call.commandId).nodeId = conn.nodeId := by split_ifs <;> rfl
    have hpending : ((if wake = .done then conn else conn.cancelCommand call.commandId).discard
        call.commandId).pending = conn.pending.erase call.commandId := by split_ifs <;> rfl
    by_cases hu : call.Unanswered
    · exact hh.release hk hc hconn rfl rfl rfl hown hended hnode hpending
    · refine (hset hu).setConn_discard hconn hnode hpending ?_
      cases hlookup : conn.pending.lookup call.commandId with
      | none => rfl
      | some j =>
        obtain ⟨other, hother, -, hid, hou⟩ := hh.waiting c conn _ j hconn hlookup
        obtain rfl := hh.distinct j k other call hother hk hid
        rw [hk] at hother
        obtain rfl := Option.some.inj hother
        exact absurd hou hu
  · rename_i hnone
    refine hset fun hu ↦ ?_
    obtain ⟨c, conn, hc, hconn, -, -⟩ := hh.unanswered k call hk hu
    exact hnone conn c (by rw [hc]; exact hconn) hc

private theorem settle_connections (k : Nat) (answer : Except NodeUnreachable (CommandResult ρ))
    (h : AgentHub δ ρ) : (h.settle k answer).connections = h.connections := by
  rw [settle_eq]
  rfl

private theorem deliver_connections (c : Nat) (result : CommandResult ρ) (h : AgentHub δ ρ) :
    (h.deliver c result).connections = h.connections := by
  unfold AgentHub.deliver
  split
  · rfl
  · dsimp only
    split
    · rfl
    · rw [settle_connections]
      rfl

private theorem finishCall_connections (k : Nat) (call : HubCall δ ρ) (wake : Wake)
    (outcome : CallOutcome ρ) (h : AgentHub δ ρ) :
    (h.finishCall k call wake outcome).connections = h.connections := by
  unfold AgentHub.finishCall
  dsimp only
  split <;> rfl

private theorem current_congr {g : AgentHub δ ρ} (hregistry : g.connections = h.connections) :
    g.Current = h.Current := by
  unfold Current
  rw [hregistry]

/-- Every step of the event loop keeps the correlation. -/
theorem Correlated.next [ToString δ] {g : AgentHub δ ρ} {a : Act δ ρ}
    (hh : Correlated h.Current h) (hn : AgentHub.next h a = some g) :
    Correlated g.Current g := by
  cases a with
  | attach c nodeId =>
    obtain ⟨hfresh, rfl⟩ : h.conns c = none ∧ _ = g := by simpa [AgentHub.next] using hn
    exact hh.attach hfresh nodeId
  | detach c =>
    obtain ⟨conn, -, rfl⟩ := Option.map_eq_some_iff.1 hn
    exact hh.detach c conn
  | call k nodeId commandId timeout timeoutSeconds progress =>
    obtain ⟨⟨hk, hfresh⟩, rfl⟩ : (h.calls k = none ∧ commandId ∉ h.minted) ∧ _ = g := by
      simpa [AgentHub.next] using hn
    exact hh.startCall hk hfresh nodeId timeout timeoutSeconds progress
  | deliver c result =>
    obtain rfl : _ = g := Option.some.inj hn
    rw [current_congr (deliver_connections ..)]
    exact hh.deliver c result
  | expire k =>
    obtain ⟨call, hk, -, rfl⟩ : ∃ call, h.calls k = some call ∧ call.outcome = none ∧ _ = g := by
      simpa [AgentHub.next, Option.bind_eq_some_iff] using hn
    exact hh.setCall hk rfl rfl rfl ((hh.own k call hk).congr rfl rfl rfl rfl fun hc ↦ hc) Iff.rfl
  | cancel k =>
    obtain ⟨call, hk, -, rfl⟩ : ∃ call, h.calls k = some call ∧ call.outcome = none ∧ _ = g := by
      simpa [AgentHub.next, Option.bind_eq_some_iff] using hn
    exact hh.setCall hk rfl rfl rfl ((hh.own k call hk).congr rfl rfl rfl rfl fun _ ↦ rfl) Iff.rfl
  | resume k wake =>
    obtain ⟨call, hk, outcome, hw, -, rfl⟩ : ∃ call, h.calls k = some call ∧
        ∃ outcome, wakeOutcome call wake = some outcome ∧ call.outcome = none ∧ _ = g := by
      simpa [AgentHub.next, Option.bind_eq_some_iff] using hn
    rw [current_congr (finishCall_connections ..)]
    exact hh.finishCall hk wake (Own.wakeOutcome (hh.own k call hk) hw)
  | drain c =>
    obtain ⟨conn, hconn, rfl⟩ := Option.map_eq_some_iff.1 hn
    exact hh.setConn hconn rfl fun _ ↦ rfl
  | shutdown =>
    obtain rfl : _ = g := Option.some.inj hn
    exact hh.shutdown

/-- **The invariant of the hub.** -/
theorem correlated_of_reachable [ToString δ] (hr : (system δ ρ).Reachable Guard.free h) :
    Correlated h.Current h := by
  refine hr.invariant (I := fun h ↦ Correlated h.Current h) ?_ fun _ _ _ hh _ hn ↦ hh.next hn
  rintro h₀ ⟨hregistry, hconns, hcalls⟩
  constructor
  · constructor <;> intros <;> simp_all
  · intro c conn i k hconn
    rw [hconns] at hconn
    cases hconn
  · intro k call hk
    rw [hcalls] at hk
    cases hk

/-! ## Outcomes are final -/

/-- A call keeps its identity, and an outcome once it has one. -/
private structure Keeps (call call' : HubCall δ ρ) : Prop where
  commandId : call'.commandId = call.commandId
  outcome : ∀ outcome, call.outcome = some outcome → call'.outcome = some outcome

/-- Every call of the first hub is one of the second, with the outcome it had. -/
private def Extends (h g : AgentHub δ ρ) : Prop :=
  ∀ k call, h.calls k = some call → ∃ call', g.calls k = some call' ∧ Keeps call call'

private theorem Extends.refl (h : AgentHub δ ρ) : h.Extends h :=
  fun _ call hk ↦ ⟨call, hk, rfl, fun _ ho ↦ ho⟩

private theorem Extends.trans {f g : AgentHub δ ρ} (hf : h.Extends f) (hg : f.Extends g) :
    h.Extends g := by
  intro k call hk
  obtain ⟨call₁, hk₁, hid₁, ho₁⟩ := hf k call hk
  obtain ⟨call₂, hk₂, hid₂, ho₂⟩ := hg k call₁ hk₁
  exact ⟨call₂, hk₂, hid₂.trans hid₁, fun o ho ↦ ho₂ o (ho₁ o ho)⟩

private theorem extends_of_calls {g : AgentHub δ ρ} (hcalls : g.calls = h.calls) :
    h.Extends g := by
  intro k call hk
  exact ⟨call, hcalls ▸ hk, rfl, fun _ ho ↦ ho⟩

private theorem extends_setCall {k : Nat} {call' : HubCall δ ρ}
    (hk : ∀ call, h.calls k = some call → Keeps call call') : h.Extends (h.setCall k call') := by
  intro j call hj
  rw [setCall_calls]
  by_cases hjk : j = k
  · exact ⟨call', if_pos hjk, hk call (hjk ▸ hj)⟩
  · exact ⟨call, by rw [if_neg hjk, hj], rfl, fun _ ho ↦ ho⟩

private theorem extends_settle (k : Nat) (answer : Except NodeUnreachable (CommandResult ρ))
    (h : AgentHub δ ρ) : h.Extends (h.settle k answer) := by
  unfold AgentHub.settle
  split
  · exact .refl h
  · rename_i call hk
    refine extends_setCall fun was hwas ↦ ?_
    rw [hk] at hwas
    obtain rfl := Option.some.inj hwas
    exact ⟨HubCall.settle_commandId .., fun o ho ↦ by rw [HubCall.settle_outcome, ho]⟩

private theorem extends_foldl {β : Type} (f : AgentHub δ ρ → β → AgentHub δ ρ)
    (hf : ∀ g b, Extends g (f g b)) (bs : List β) (h : AgentHub δ ρ) :
    h.Extends (bs.foldl f h) := by
  induction bs generalizing h with
  | nil => exact .refl h
  | cons b bs ih => exact (hf h b).trans (ih (f h b))

private theorem extends_abandon (c : Nat) (reason : UnreachableReason) (detail : String)
    (h : AgentHub δ ρ) : h.Extends (h.abandon c reason detail) := by
  unfold AgentHub.abandon
  split
  · exact .refl h
  · refine Extends.trans ?_ (extends_foldl _ (fun g entry ↦ ?_) _ _)
    · exact extends_of_calls rfl
    · exact extends_settle _ _ g

private theorem extends_next [ToString δ] {g : AgentHub δ ρ} {a : Act δ ρ}
    (hn : AgentHub.next h a = some g) : h.Extends g := by
  cases a with
  | attach c nodeId =>
    obtain ⟨-, rfl⟩ : h.conns c = none ∧ _ = g := by simpa [AgentHub.next] using hn
    unfold AgentHub.attach
    dsimp only
    split
    · split_ifs
      · refine Extends.trans ?_ (extends_abandon _ _ _ _)
        exact extends_of_calls rfl
      · exact extends_of_calls rfl
    · exact extends_of_calls rfl
  | detach c =>
    obtain ⟨conn, -, rfl⟩ := Option.map_eq_some_iff.1 hn
    refine Extends.trans (extends_of_calls ?_) (extends_abandon _ _ _ _)
    split_ifs <;> rfl
  | call k nodeId commandId timeout timeoutSeconds progress =>
    obtain ⟨⟨hk, -⟩, rfl⟩ : (h.calls k = none ∧ commandId ∉ h.minted) ∧ _ = g := by
      simpa [AgentHub.next] using hn
    have hnew : ∀ (f : AgentHub δ ρ) call, f.calls = h.calls → h.Extends (f.setCall k call) := by
      intro f call hf
      refine (extends_of_calls hf).trans (extends_setCall fun was hwas ↦ ?_)
      rw [hf, hk] at hwas
      cases hwas
    unfold AgentHub.startCall
    dsimp only
    split
    · exact hnew _ _ rfl
    · split
      · exact extends_of_calls rfl
      · exact hnew _ _ rfl
  | deliver c result =>
    obtain rfl : _ = g := Option.some.inj hn
    unfold AgentHub.deliver
    split
    · exact .refl h
    · dsimp only
      split
      · exact extends_of_calls rfl
      · refine Extends.trans ?_ (extends_settle _ _ _)
        exact extends_of_calls rfl
  | expire k =>
    obtain ⟨call, hk, -, rfl⟩ : ∃ call, h.calls k = some call ∧ call.outcome = none ∧ _ = g := by
      simpa [AgentHub.next, Option.bind_eq_some_iff] using hn
    refine extends_setCall fun was hwas ↦ ?_
    rw [hk] at hwas
    obtain rfl := Option.some.inj hwas
    exact ⟨rfl, fun o ho ↦ ho⟩
  | cancel k =>
    obtain ⟨call, hk, -, rfl⟩ : ∃ call, h.calls k = some call ∧ call.outcome = none ∧ _ = g := by
      simpa [AgentHub.next, Option.bind_eq_some_iff] using hn
    refine extends_setCall fun was hwas ↦ ?_
    rw [hk] at hwas
    obtain rfl := Option.some.inj hwas
    exact ⟨rfl, fun o ho ↦ ho⟩
  | resume k wake =>
    obtain ⟨call, hk, outcome, -, hnone, rfl⟩ : ∃ call, h.calls k = some call ∧
        ∃ outcome, wakeOutcome call wake = some outcome ∧ call.outcome = none ∧ _ = g := by
      simpa [AgentHub.next, Option.bind_eq_some_iff] using hn
    have hset : h.Extends (h.setCall k { call with outcome := some outcome }) := by
      refine extends_setCall fun was hwas ↦ ?_
      rw [hk] at hwas
      obtain rfl := Option.some.inj hwas
      exact ⟨rfl, fun o ho ↦ by rw [hnone] at ho; cases ho⟩
    unfold AgentHub.finishCall
    dsimp only
    split
    · exact hset.trans (extends_of_calls rfl)
    · exact hset
  | drain c =>
    obtain ⟨conn, -, rfl⟩ := Option.map_eq_some_iff.1 hn
    exact extends_of_calls rfl
  | shutdown =>
    obtain rfl : _ = g := Option.some.inj hn
    have habandoned := extends_foldl
      (fun g entry ↦ g.abandon entry.2 .shuttingDown "the control plane is shutting down")
      (fun g entry ↦ extends_abandon entry.2 _ _ g) h.connections.entries h
    exact habandoned.trans (extends_of_calls rfl)

private theorem extends_of_steps [ToString δ] {g : AgentHub δ ρ}
    (hs : (system δ ρ).Steps Guard.free h g) : h.Extends g := by
  induction hs with
  | refl => exact .refl h
  | tail _ _ hn ih => exact ih.trans (extends_next hn)

/-- **Every command gets exactly its own outcome.** In every reachable state: a call that has
completed ended with a result carrying its own command id or with its own node being unreachable
(or was cancelled by its caller), and keeps that outcome for ever; a call left pending, with no
outcome and nothing in its future, was sent on the connection that is currently registered for its
node; and every entry of a pending table is a call that has not completed, under its own command
id. -/
theorem calls_end_with_their_own_outcome [ToString δ] (h : AgentHub δ ρ)
    (hr : (system δ ρ).Reachable Guard.free h) :
    (∀ k call outcome, h.calls k = some call → call.outcome = some outcome →
      call.Ends outcome ∧ ∀ g, (system δ ρ).Steps Guard.free h g →
        ∃ call', g.calls k = some call' ∧ call'.commandId = call.commandId ∧
          call'.outcome = some outcome) ∧
    (∀ k call, h.calls k = some call → call.outcome = none → call.future = none →
      ∃ c, call.connection = some c ∧ h.connections.lookup call.nodeId = some c) ∧
    ∀ c conn commandId k, h.conns c = some conn → conn.pending.lookup commandId = some k →
      ∃ call, h.calls k = some call ∧ call.commandId = commandId ∧ call.outcome = none := by
  have hh := correlated_of_reachable hr
  refine ⟨fun k call outcome hk ho ↦ ⟨(hh.own k call hk).outcome outcome ho, ?_⟩, ?_, ?_⟩
  · intro g hg
    obtain ⟨call', hk', hid, hkeep⟩ := extends_of_steps hg k call hk
    exact ⟨call', hk', hid, hkeep outcome ho⟩
  · intro k call hk ho hf
    obtain ⟨c, conn, hc, hconn, -, n, hn⟩ := hh.unanswered k call hk ⟨hf, ho⟩
    obtain ⟨conn', hconn', hnode'⟩ := hh.registered n c hn
    obtain ⟨conn'', hconn'', hnode''⟩ := hh.sent k call c hk hc
    rw [hconn'] at hconn''
    obtain rfl := Option.some.inj hconn''
    rw [← hnode'', hnode']
    exact ⟨c, hc, hn⟩
  · intro c conn commandId k hconn hlookup
    obtain ⟨call, hk, -, hid, hu⟩ := hh.waiting c conn commandId k hconn hlookup
    exact ⟨call, hk, hid, hu.2⟩

/-- A call whose connection is displaced while it waits is answered, and then ends, as
unreachable. -/
theorem displaced_call_is_unreachable :
    ∃ h : AgentHub Nat Unit, (system Nat Unit).run { epoch := 1, defaultTimeout := 900 }
        [.attach 0 "n", .call 0 "n" "id" none none false, .attach 1 "n", .resume 0 .done] =
          some h ∧
      (∃ call, h.calls 0 = some call ∧ call.outcome = some (.unreachable
        ⟨"n", .disconnected, "displaced by a newer connection from the same node"⟩)) ∧
      ∀ g, (system Nat Unit).Steps Guard.free h g →
        ∃ call', g.calls 0 = some call' ∧ call'.commandId = "id" ∧ call'.outcome =
          some (.unreachable
            ⟨"n", .disconnected, "displaced by a newer connection from the same node"⟩) := by
  obtain ⟨h, hrun, call, hcall, hid, houtcome⟩ : ∃ h : AgentHub Nat Unit,
      (system Nat Unit).run { epoch := 1, defaultTimeout := 900 }
        [.attach 0 "n", .call 0 "n" "id" none none false, .attach 1 "n", .resume 0 .done] =
          some h ∧ ∃ call, h.calls 0 = some call ∧ call.commandId = "id" ∧
      call.outcome = some (.unreachable
        ⟨"n", .disconnected, "displaced by a newer connection from the same node"⟩) :=
    ⟨_, rfl, _, rfl, rfl, rfl⟩
  have hr : (system Nat Unit).Reachable Guard.free h :=
    ⟨_, ⟨rfl, fun _ ↦ rfl, fun _ ↦ rfl⟩, System.steps_of_run hrun⟩
  obtain ⟨-, hfinal⟩ := (calls_end_with_their_own_outcome h hr).1 0 call _ hcall houtcome
  exact ⟨h, hrun, ⟨call, hcall, houtcome⟩, fun g hg ↦ hid ▸ hfinal g hg⟩

end AgentHub

end SparkPulse.Agent
