import SparkPulse.Agent.Hub

/-!
# What the hub tells its listeners

`_notify` is called at the end of `attach`, with true, and of `detach`, with false. A node that
redials before its old stream has ended is attached twice, and the detach of the displaced
connection comes later; `detach` then leaves the registry alone, but tells the listeners that the
node is gone all the same.

A run is quiescent once every session but the registered ones has ended: a connection that was
displaced, or abandoned by `shutdown`, still has its own `detach` to come.
-/

namespace SparkPulse.Agent

open Transition

namespace AgentHub

variable {δ ρ : Type}

/-! ## Notifications -/

def isConnected (nodeId : String) (h : AgentHub δ ρ) : Bool :=
  (h.connections.lookup nodeId).isSome

/-- What `_notify` is called with in a step. -/
def notices (h : AgentHub δ ρ) : Act δ ρ → List (String × Bool)
  | .attach _ nodeId => [(nodeId, true)]
  | .detach c => ((h.conns c).map fun conn ↦ (conn.nodeId, false)).toList
  | _ => []

/-- The last of these notifications for a node says that it is connected. -/
def lastTold (nodeId : String) (told : List (String × Bool)) : Bool :=
  ((told.find? fun notice ↦ notice.1 = nodeId).map Prod.snd).getD false

theorem lastTold_cons (notice : String × Bool) (nodeId : String) (told : List (String × Bool)) :
    lastTold nodeId (notice :: told) =
      if notice.1 = nodeId then notice.2 else lastTold nodeId told := by
  rw [lastTold, List.find?_cons]
  by_cases h : notice.1 = nodeId <;> simp [h, lastTold]

/-- The hub, what its listeners were told, latest first, and the sessions that have ended. -/
structure Watched (δ ρ : Type) where
  hub : AgentHub δ ρ
  told : List (String × Bool) := []
  ended : List Nat := []

namespace Watched

/-- A step of the hub, and what it tells. -/
def next [ToString δ] (w : Watched δ ρ) (a : Act δ ρ) : Option (Watched δ ρ) :=
  (w.hub.next a).map fun hub ↦
    { hub
      told := w.hub.notices a ++ w.told
      ended := match a with
        | .detach c => c :: w.ended
        | _ => w.ended }

/-- The runs of a new hub with listeners from the start. -/
def system (δ ρ : Type) [ToString δ] : System (Watched δ ρ) (Act δ ρ) where
  init w := (AgentHub.system δ ρ).init w.hub ∧ w.told = [] ∧ w.ended = []
  next := next

/-- Every session that has not ended is the registered one of its node. -/
def Quiescent (w : Watched δ ρ) : Prop :=
  ∀ c conn, w.hub.conns c = some conn → c ∉ w.ended →
    w.hub.connections.lookup conn.nodeId = some c

/-- What is told of each node is what the registry has. -/
def Agrees (w : Watched δ ρ) : Prop := ∀ nodeId, lastTold nodeId w.told = w.hub.isConnected nodeId

/-- No connection is detached while another connection of its node is registered. -/
def detachesNoDisplaced (w : Watched δ ρ) : Act δ ρ → Bool
  | .detach c => (w.hub.conns c).all fun conn ↦
      (w.hub.connections.lookup conn.nodeId).all (· = c)
  | _ => true

end Watched

/-! ## Membership through a step -/

/-- The node of a connection. -/
def nodeOf (h : AgentHub δ ρ) (c : Nat) : Option String := (h.conns c).map AgentConnection.nodeId

variable {h : AgentHub δ ρ}

theorem nodeOf_setConn (c d : Nat) (conn : AgentConnection δ) :
    (h.setConn c conn).nodeOf d = if d = c then some conn.nodeId else h.nodeOf d := by
  change (Function.update h.conns c (some conn) d).map AgentConnection.nodeId = _
  rw [Function.update_apply]
  split_ifs <;> rfl

/-- Replacing a connection by one of the same node. -/
theorem nodeOf_setConn_same {c : Nat} {conn conn' : AgentConnection δ}
    (hconn : h.conns c = some conn) (hnode : conn'.nodeId = conn.nodeId) :
    (h.setConn c conn').nodeOf = h.nodeOf := by
  funext d
  rw [nodeOf_setConn]
  split_ifs with hd
  · rw [hd, nodeOf, hconn, hnode]
    rfl
  · rfl

/-- The registry and the nodes of the connections. -/
def Kept (h g : AgentHub δ ρ) : Prop := g.connections = h.connections ∧ g.nodeOf = h.nodeOf

theorem Kept.refl (h : AgentHub δ ρ) : h.Kept h := ⟨rfl, rfl⟩

theorem Kept.trans {f g : AgentHub δ ρ} (hf : h.Kept f) (hg : f.Kept g) : h.Kept g :=
  ⟨hg.1.trans hf.1, hg.2.trans hf.2⟩

theorem kept_setCall (k : Nat) (call : HubCall δ ρ) (h : AgentHub δ ρ) : h.Kept (h.setCall k call) :=
  ⟨rfl, rfl⟩

theorem kept_setConn {c : Nat} {conn conn' : AgentConnection δ} (hconn : h.conns c = some conn)
    (hnode : conn'.nodeId = conn.nodeId) : h.Kept (h.setConn c conn') :=
  ⟨rfl, nodeOf_setConn_same hconn hnode⟩

theorem kept_settle (k : Nat) (answer : Except NodeUnreachable (CommandResult ρ))
    (h : AgentHub δ ρ) : h.Kept (h.settle k answer) := by
  rw [settle]
  split
  · exact .refl h
  · exact kept_setCall k _ h

theorem kept_foldl {β : Type} (f : AgentHub δ ρ → β → AgentHub δ ρ)
    (hf : ∀ (h : AgentHub δ ρ) b, h.Kept (f h b)) (bs : List β) (h : AgentHub δ ρ) : h.Kept (bs.foldl f h) := by
  induction bs generalizing h with
  | nil => exact .refl h
  | cons b bs ih => exact (hf h b).trans (ih (f h b))

theorem kept_abandon (c : Nat) (reason : UnreachableReason) (detail : String) (h : AgentHub δ ρ) :
    h.Kept (h.abandon c reason detail) := by
  rw [abandon]
  split
  · exact .refl h
  next conn hconn =>
    have hclosed : h.Kept (h.setConn c conn.close) := kept_setConn hconn rfl
    refine hclosed.trans ?_
    exact kept_foldl _ (fun h entry ↦ kept_settle entry.snd
      (.error ⟨conn.nodeId, reason, detail⟩) h) conn.pending.entries _

/-- Calls, results, timers and the writer change neither the registry nor any connection's node. -/
theorem kept_next [ToString δ] {g : AgentHub δ ρ} {a : Act δ ρ} (hn : h.next a = some g)
    (ha : (∀ c nodeId, a ≠ .attach c nodeId) ∧ (∀ c, a ≠ .detach c) ∧ a ≠ .shutdown) :
    h.Kept g := by
  cases a with
  | attach c nodeId => exact absurd rfl (ha.1 c nodeId)
  | detach c => exact absurd rfl (ha.2.1 c)
  | shutdown => exact absurd rfl ha.2.2
  | call k nodeId commandId timeout timeoutSeconds progress =>
    simp only [next] at hn
    split_ifs at hn
    cases hn
    rw [startCall]
    split
    · exact ⟨rfl, rfl⟩
    · split
      · exact ⟨rfl, rfl⟩
      next c _ _ conn hconn =>
        have hminted : h.Kept { h with minted := commandId :: h.minted } := ⟨rfl, rfl⟩
        have hsent : ({ h with minted := commandId :: h.minted } : AgentHub δ ρ).Kept
            (({ h with minted := commandId :: h.minted } : AgentHub δ ρ).setConn c
              (conn.send commandId h.epoch (h.deadlineFor timeout timeoutSeconds) k progress)) :=
          kept_setConn hconn rfl
        exact hminted.trans (hsent.trans (kept_setCall k _ _))
  | deliver c result =>
    cases hn
    rw [deliver]
    split
    · exact .refl h
    next conn hconn =>
      have hdiscard : h.Kept (h.setConn c (conn.discard result.commandId)) :=
        kept_setConn hconn rfl
      dsimp only
      split
      · exact hdiscard
      · exact hdiscard.trans (kept_settle _ _ _)
  | expire k =>
    simp only [next, Option.bind_eq_bind, Option.bind_eq_some_iff] at hn
    obtain ⟨call, -, hg⟩ := hn
    split_ifs at hg
    cases hg
    exact kept_setCall k _ h
  | cancel k =>
    simp only [next, Option.bind_eq_bind, Option.bind_eq_some_iff] at hn
    obtain ⟨call, -, hg⟩ := hn
    split_ifs at hg
    cases hg
    exact kept_setCall k _ h
  | resume k wake =>
    simp only [next, Option.bind_eq_bind, Option.bind_eq_some_iff] at hn
    obtain ⟨call, -, outcome, -, hg⟩ := hn
    split_ifs at hg
    cases hg
    have hcall := kept_setCall k { call with outcome := some outcome } h
    rw [finishCall]
    dsimp only
    split
    next conn c hconn hc =>
      rw [hc, Option.bind_some] at hconn
      refine hcall.trans (kept_setConn hconn ?_)
      split_ifs <;> rfl
    · exact hcall
  | drain c =>
    simp only [next, Option.map_eq_some_iff] at hn
    obtain ⟨conn, hconn, rfl⟩ := hn
    exact kept_setConn hconn rfl

/-- Registering a new connection, before the one it displaces is abandoned. -/
def register (c : Nat) (nodeId : String) (h : AgentHub δ ρ) : AgentHub δ ρ :=
  { h.setConn c { nodeId } with connections := h.connections.insert nodeId c }

theorem nodeOf_register (c d : Nat) (nodeId : String) (h : AgentHub δ ρ) :
    (h.register c nodeId).nodeOf d = if d = c then some nodeId else h.nodeOf d :=
  nodeOf_setConn c d _

theorem attach_membership (c : Nat) (nodeId : String) (h : AgentHub δ ρ) :
    (h.attach c nodeId).connections = h.connections.insert nodeId c ∧
      ∀ d, (h.attach c nodeId).nodeOf d = if d = c then some nodeId else h.nodeOf d := by
  have hkept : (h.register c nodeId).Kept (h.attach c nodeId) := by
    rw [attach]
    split
    · split_ifs
      · exact kept_abandon _ _ _ (h.register c nodeId)
      · exact .refl _
    · exact .refl _
  refine ⟨hkept.1, fun d ↦ ?_⟩
  rw [hkept.2, nodeOf_register]

theorem detach_membership (c : Nat) (conn : AgentConnection δ) (h : AgentHub δ ρ) :
    (h.detach c conn).connections = (if h.connections.lookup conn.nodeId = some c then
      h.connections.erase conn.nodeId else h.connections) ∧ (h.detach c conn).nodeOf = h.nodeOf := by
  rw [detach]
  split_ifs
  · exact kept_abandon c .disconnected "the agent stream ended"
      { h with connections := h.connections.erase conn.nodeId }
  · exact kept_abandon c .disconnected "the agent stream ended" h

theorem shutdown_membership (h : AgentHub δ ρ) :
    h.shutdown.connections = ∅ ∧ h.shutdown.nodeOf = h.nodeOf := by
  refine ⟨rfl, ?_⟩
  exact (kept_foldl (fun h (entry : Sigma fun _ : String ↦ Nat) ↦
    h.abandon entry.2 .shuttingDown "the control plane is shutting down")
    (fun h entry ↦ kept_abandon entry.2 _ _ h) h.connections.entries h).2

/-! ## The invariant -/

namespace Watched

/-- What is told lags behind the registry only where a session has yet to end. -/
structure Sound (w : Watched δ ρ) : Prop where
  /-- A registered connection is its node's, and its session has not ended. -/
  registered : ∀ nodeId c, w.hub.connections.lookup nodeId = some c →
    w.hub.nodeOf c = some nodeId ∧ c ∉ w.ended
  /-- Only sessions that were attached have ended. -/
  known : ∀ c ∈ w.ended, w.hub.nodeOf c ≠ none
  connected : ∀ nodeId, w.hub.isConnected nodeId → lastTold nodeId w.told
  told : ∀ nodeId, lastTold nodeId w.told →
    ∃ c, w.hub.nodeOf c = some nodeId ∧ c ∉ w.ended

variable {w v : Watched δ ρ}

/-- A step that leaves the registry and the nodes alone, and tells nothing. -/
theorem Sound.of_kept (hw : Sound w) {hub : AgentHub δ ρ} (h : w.hub.Kept hub) :
    Sound { w with hub } where
  registered nodeId c hc := by
    rw [h.1] at hc
    rw [h.2]
    exact hw.registered nodeId c hc
  known c hc := by
    rw [h.2]
    exact hw.known c hc
  connected nodeId hc := by
    rw [isConnected, h.1] at hc
    exact hw.connected nodeId hc
  told nodeId hs := by
    rw [h.2]
    exact hw.told nodeId hs

theorem Sound.attach (hw : Sound w) {c : Nat} (hfresh : w.hub.conns c = none) (nodeId : String) :
    Sound { w with hub := w.hub.attach c nodeId, told := (nodeId, true) :: w.told } := by
  obtain ⟨hconnections, hnode⟩ := attach_membership c nodeId w.hub
  have hnone : w.hub.nodeOf c = none := by rw [nodeOf, hfresh, Option.map_none]
  have hnew : c ∉ w.ended := fun hc ↦ hw.known c hc hnone
  constructor
  · intro n d hd
    rw [hconnections] at hd
    rw [hnode]
    by_cases hn : n = nodeId
    · subst hn
      rw [AList.lookup_insert, Option.some.injEq] at hd
      subst hd
      exact ⟨if_pos rfl, hnew⟩
    · rw [AList.lookup_insert_ne hn] at hd
      obtain ⟨hown, hopen⟩ := hw.registered n d hd
      have hdc : d ≠ c := by
        rintro rfl
        rw [hnone] at hown
        cases hown
      exact ⟨(if_neg hdc).trans hown, hopen⟩
  · intro d hd
    have hdc : d ≠ c := fun h ↦ hnew (h ▸ hd)
    rw [hnode, if_neg hdc]
    exact hw.known d hd
  · intro n hc
    rw [lastTold_cons]
    split_ifs with hn
    · rfl
    · rw [isConnected, hconnections, AList.lookup_insert_ne (Ne.symm hn)] at hc
      exact hw.connected n hc
  · intro n hs
    rw [lastTold_cons] at hs
    split_ifs at hs with hn
    · have hn : nodeId = n := hn
      exact ⟨c, (hnode c).trans (by rw [if_pos rfl, hn]), hnew⟩
    · obtain ⟨d, hd, hopen⟩ := hw.told n hs
      refine ⟨d, (hnode d).trans ?_, hopen⟩
      have hdc : d ≠ c := by
        rintro rfl
        rw [hnone] at hd
        cases hd
      rw [if_neg hdc, hd]

theorem Sound.detach (hw : Sound w) {c : Nat} {conn : AgentConnection δ}
    (hconn : w.hub.conns c = some conn)
    (hg : ∀ d, w.hub.connections.lookup conn.nodeId = some d → d = c) :
    Sound { hub := w.hub.detach c conn, told := (conn.nodeId, false) :: w.told,
            ended := c :: w.ended } := by
  obtain ⟨hconnections, hnode⟩ := detach_membership c conn w.hub
  have hown : w.hub.nodeOf c = some conn.nodeId := by rw [nodeOf, hconn, Option.map_some]
  -- nothing is registered for the node any more, and the others are as they were
  have hlookup : ∀ n, (w.hub.detach c conn).connections.lookup n =
      if n = conn.nodeId then none else w.hub.connections.lookup n := by
    intro n
    rw [hconnections]
    by_cases hn : n = conn.nodeId
    · subst hn
      rw [if_pos rfl]
      split_ifs with hcurrent
      · exact AList.lookup_erase _ _
      · cases hl : w.hub.connections.lookup conn.nodeId with
        | none => rfl
        | some d => exact absurd (hg d hl ▸ hl) hcurrent
    · rw [if_neg hn]
      split_ifs
      · exact AList.lookup_erase_ne hn
      · rfl
  constructor
  · intro n d hd
    rw [hlookup] at hd
    split_ifs at hd with hn
    obtain ⟨hd', hopen⟩ := hw.registered n d hd
    rw [hnode]
    refine ⟨hd', fun hmem ↦ ?_⟩
    rcases List.mem_cons.mp hmem with rfl | hmem
    · rw [hown] at hd'
      exact hn (Option.some.inj hd').symm
    · exact hopen hmem
  · intro d hd
    rw [hnode]
    rcases List.mem_cons.mp hd with rfl | hd
    · rw [hown]
      exact nofun
    · exact hw.known d hd
  · intro n hc
    rw [isConnected, hlookup] at hc
    split_ifs at hc with hn
    · cases hc
    · rw [lastTold_cons, if_neg (Ne.symm hn)]
      exact hw.connected n hc
  · intro n hs
    rw [lastTold_cons] at hs
    split_ifs at hs with hn
    obtain ⟨d, hd, hopen⟩ := hw.told n hs
    rw [hnode]
    refine ⟨d, hd, fun hmem ↦ ?_⟩
    rcases List.mem_cons.mp hmem with rfl | hmem
    · rw [hown] at hd
      exact hn (Option.some.inj hd)
    · exact hopen hmem

theorem Sound.shutdown (hw : Sound w) : Sound { w with hub := w.hub.shutdown } := by
  obtain ⟨hconnections, hnode⟩ := shutdown_membership w.hub
  constructor
  · intro n c hc
    rw [hconnections] at hc
    cases hc
  · intro c hc
    rw [hnode]
    exact hw.known c hc
  · intro n hc
    rw [isConnected, hconnections] at hc
    cases hc
  · intro n hs
    rw [hnode]
    exact hw.told n hs

/-- The step lemma: as long as no displaced connection is detached, what is told stays sound. -/
theorem Sound.next [ToString δ] {a : Act δ ρ} (hw : Sound w) (hg : w.detachesNoDisplaced a = true)
    (hn : w.next a = some v) : Sound v := by
  obtain ⟨hub, hhub, rfl⟩ := Option.map_eq_some_iff.mp hn
  cases a with
  | attach c nodeId =>
    simp only [AgentHub.next] at hhub
    split_ifs at hhub with hfresh
    cases hhub
    exact hw.attach (Option.isNone_iff_eq_none.mp hfresh) nodeId
  | detach c =>
    obtain ⟨conn, hconn, rfl⟩ := Option.map_eq_some_iff.mp hhub
    have hcurrent : ∀ d, w.hub.connections.lookup conn.nodeId = some d → d = c := by
      intro d hd
      rw [detachesNoDisplaced, hconn] at hg
      simpa [hd] using hg
    have hnotice : w.hub.notices (.detach c) = [(conn.nodeId, false)] := by
      rw [notices, hconn]
      rfl
    rw [hnotice]
    exact hw.detach hconn hcurrent
  | shutdown =>
    cases hhub
    exact hw.shutdown
  | _ => exact hw.of_kept (kept_next hhub ⟨nofun, nofun, nofun⟩)

theorem sound_of_init [ToString δ] (hw : (system δ ρ).init w) : Sound w := by
  obtain ⟨⟨hconnections, hconns, -⟩, htold, hended⟩ := hw
  constructor
  · intro n c hc
    rw [hconnections] at hc
    cases hc
  · intro c hc
    rw [hended] at hc
    exact absurd hc List.not_mem_nil
  · intro n hc
    rw [isConnected, hconnections] at hc
    cases hc
  · intro n hs
    rw [lastTold, htold] at hs
    cases hs

/-- **What is told agrees with the registry.** In every run in which no connection is detached
while another one of its node is registered, once every session but the registered ones has ended
the last notification for each node says that it is connected exactly when it is. -/
theorem agrees_when_quiescent [ToString δ]
    (hw : (system δ ρ).Reachable (fun w a ↦ w.detachesNoDisplaced a = true) w)
    (hquiet : Quiescent w) : Agrees w := by
  have hsound : Sound w := hw.invariant (fun _ ↦ sound_of_init) fun _ _ _ ↦ Sound.next
  intro nodeId
  rw [Bool.eq_iff_iff]
  constructor
  · intro hs
    obtain ⟨c, hc, hopen⟩ := hsound.told nodeId hs
    obtain ⟨conn, hconn, rfl⟩ := Option.map_eq_some_iff.mp hc
    rw [isConnected, hquiet c conn hconn hopen]
    rfl
  · exact hsound.connected nodeId

/-! ## Two runs of a redial -/

private def unwatched : Watched Nat Unit where
  hub := { epoch := 1, defaultTimeout := 60 }

private theorem unwatched_init : (system Nat Unit).init unwatched :=
  ⟨⟨rfl, fun _ ↦ rfl, fun _ ↦ rfl⟩, rfl, rfl⟩

/-- With two sessions attached, one of them ended and the other one registered. -/
private theorem quiescent_of_two {w : Watched Nat Unit}
    (hnodes : ∀ c, w.hub.nodeOf c = if c = 1 then some "n" else if c = 0 then some "n" else none)
    (hended : 0 ∈ w.ended) (hregistered : w.hub.connections.lookup "n" = some 1) :
    Quiescent w := by
  intro c conn hconn hopen
  have hnode : w.hub.nodeOf c = some conn.nodeId := by rw [nodeOf, hconn, Option.map_some]
  rw [hnodes] at hnode
  split_ifs at hnode with h₁ h₀
  · rw [h₁, ← Option.some.inj hnode, hregistered]
  · exact absurd (h₀ ▸ hended) hopen

private def redialled : Watched Nat Unit where
  hub := attach 1 "n" (detach 0 { nodeId := "n" } (attach 0 "n" unwatched.hub))
  told := [("n", true), ("n", false), ("n", true)]
  ended := [0]

/-- A node that redials after its old session has ended is told as connected, and is. -/
theorem agrees_after_redial :
    (system Nat Unit).runUnder (fun w a ↦ w.detachesNoDisplaced a = true) unwatched
      [.attach 0 "n", .detach 0, .attach 1 "n"] = some redialled ∧
    redialled.hub.isConnected "n" = true ∧ Agrees redialled := by
  have hrun : (system Nat Unit).runUnder (fun w a ↦ w.detachesNoDisplaced a = true) unwatched
      [.attach 0 "n", .detach 0, .attach 1 "n"] = some redialled := rfl
  have hquiet : Quiescent redialled := by
    refine quiescent_of_two (fun c ↦ ?_) (List.mem_singleton.mpr rfl) rfl
    rw [redialled, (attach_membership 1 "n" _).2 c, (detach_membership 0 { nodeId := "n" } _).2,
      (attach_membership 0 "n" unwatched.hub).2 c]
    rfl
  exact ⟨hrun, rfl, agrees_when_quiescent ⟨_, unwatched_init, System.steps_of_runUnder hrun⟩ hquiet⟩

/-- The state in which the old session ends only after the node has redialled. -/
private def displaced : Watched Nat Unit where
  hub := detach 0 (AgentConnection.close { nodeId := "n" })
    (attach 1 "n" (attach 0 "n" unwatched.hub))
  told := [("n", false), ("n", true), ("n", true)]
  ended := [0]

/-- **A connected node is told as gone.** The node redials before its old session has ended; when it
ends, its detach tells the listeners that the node is gone, and nothing tells them otherwise. -/
theorem told_gone_while_connected : ¬∀ w : Watched Nat Unit,
    (system Nat Unit).Reachable Guard.free w → Quiescent w → Agrees w := by
  intro h
  have hrun : (system Nat Unit).run unwatched [.attach 0 "n", .attach 1 "n", .detach 0] =
      some displaced := rfl
  have hquiet : Quiescent displaced := by
    refine quiescent_of_two (fun c ↦ ?_) (List.mem_singleton.mpr rfl) rfl
    rw [displaced, (detach_membership 0 (AgentConnection.close { nodeId := "n" }) _).2,
      (attach_membership 1 "n" _).2 c, (attach_membership 0 "n" unwatched.hub).2 c]
    rfl
  have hagree := h displaced ⟨_, unwatched_init, System.steps_of_run hrun⟩ hquiet "n"
  exact absurd hagree (by decide)

end Watched

end AgentHub

end SparkPulse.Agent
