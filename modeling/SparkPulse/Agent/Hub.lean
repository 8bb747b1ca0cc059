import SparkPulse.Agent.Ledger
import SparkPulse.Transition.System

/-!
# The agent hub

The control plane's registry of connected agents, from `agent/hub.py`, with the futures its calls
wait on. Connections, calls and futures are objects with identity in the source; here each is named
by a number, and the hub's tables map numbers to them.

Everything runs on one event loop, so a step is what runs between two awaits. A call that has sent
its command waits in `asyncio.wait_for`; it is resumed once its future is done, its timer has fired
or its caller has cancelled it. Where more than one of these holds, which of them the resumed call
sees depends on the version of the interpreter, so any of them may be.
-/

namespace SparkPulse.Agent

open Transition

/-! ## Data -/

/-- Why no answer arrived. -/
inductive UnreachableReason
  | notConnected
  | disconnected
  | timedOut
  | shuttingDown
  deriving DecidableEq, Repr

def UnreachableReason.value : UnreachableReason → String
  | .notConnected => "not_connected"
  | .disconnected => "disconnected"
  | .timedOut => "timed_out"
  | .shuttingDown => "shutting_down"

/-- No result arrived, so the outcome on the node is unknown. -/
structure NodeUnreachable where
  nodeId : String
  reason : UnreachableReason := .notConnected
  detail : String := ""
  deriving DecidableEq, Repr

def NodeUnreachable.message (e : NodeUnreachable) : String :=
  let message := s!"node {e.nodeId} is unreachable ({e.reason.value})"
  if e.detail = "" then message else s!"{message}: {e.detail}"

/-- A result, with the id of the command it answers. -/
structure CommandResult (ρ : Type) where
  commandId : String
  body : ρ
  deriving DecidableEq, Repr

/-- What the servicer's writer sends to an agent. -/
inductive ControlMessage (δ : Type)
  | command (commandId : String) (epoch : Nat) (timeoutSeconds : δ)
  | cancel (commandId : String)
  deriving DecidableEq, Repr

/-- One agent's stream, from the control plane's side. -/
structure AgentConnection (δ : Type) where
  nodeId : String
  outbox : List (ControlMessage δ) := []
  closed : Bool := false
  /-- The calls waiting for a result, by command id. -/
  pending : Dict Nat := ∅
  /-- The commands with a progress callback. -/
  progress : List String := []

/-- How a call ended. -/
inductive CallOutcome (ρ : Type)
  | returned (result : CommandResult ρ)
  | unreachable (error : NodeUnreachable)
  | cancelled
  deriving DecidableEq, Repr

/-- The frame of one `call`, and the future it waits on. -/
structure HubCall (δ ρ : Type) where
  nodeId : String
  commandId : String
  /-- The connection its command was sent on. -/
  connection : Option Nat
  deadline : δ
  future : Option (Except NodeUnreachable (CommandResult ρ)) := none
  expired : Bool := false
  cancelled : Bool := false
  outcome : Option (CallOutcome ρ) := none

/-- The hub, every connection made to it and every call made on it. -/
structure AgentHub (δ ρ : Type) where
  epoch : Nat
  defaultTimeout : δ
  /-- The registry: the current connection of each node. -/
  connections : Dict Nat := ∅
  conns : Nat → Option (AgentConnection δ) := fun _ ↦ none
  calls : Nat → Option (HubCall δ ρ) := fun _ ↦ none
  /-- The command ids `new_command` has minted. -/
  minted : List String := []

/-! ## One connection -/

namespace AgentConnection

variable {δ : Type}

/-- Queue a command and register who waits for its result. -/
def send (commandId : String) (epoch : Nat) (deadline : δ) (k : Nat) (progress : Bool)
    (c : AgentConnection δ) : AgentConnection δ :=
  { c with
    pending := c.pending.insert commandId k
    progress := if progress then c.progress.insert commandId else c.progress
    outbox := c.outbox ++ [.command commandId epoch deadline] }

/-- Ask the agent to stop a command that is still running. -/
def cancelCommand (commandId : String) (c : AgentConnection δ) : AgentConnection δ :=
  { c with outbox := c.outbox ++ [.cancel commandId] }

/-- Stop waiting for a command, without resolving anything. -/
def discard (commandId : String) (c : AgentConnection δ) : AgentConnection δ :=
  { c with pending := c.pending.erase commandId, progress := c.progress.erase commandId }

/-- The table swap of `abandon`. -/
def close (c : AgentConnection δ) : AgentConnection δ :=
  { c with closed := true, pending := ∅, progress := [] }

end AgentConnection

/-- Set a future that is not done yet; a done one is left alone. -/
def HubCall.settle {δ ρ : Type} (answer : Except NodeUnreachable (CommandResult ρ))
    (call : HubCall δ ρ) : HubCall δ ρ :=
  if call.future.isNone then { call with future := some answer } else call

/-! ## The hub -/

namespace AgentHub

variable {δ ρ : Type}

def setConn (c : Nat) (conn : AgentConnection δ) (h : AgentHub δ ρ) : AgentHub δ ρ :=
  { h with conns := Function.update h.conns c (some conn) }

def setCall (k : Nat) (call : HubCall δ ρ) (h : AgentHub δ ρ) : AgentHub δ ρ :=
  { h with calls := Function.update h.calls k (some call) }

/-- Settle the future of a call. -/
def settle (k : Nat) (answer : Except NodeUnreachable (CommandResult ρ)) (h : AgentHub δ ρ) :
    AgentHub δ ρ :=
  match h.calls k with
  | none => h
  | some call => h.setCall k (call.settle answer)

/-- Hand a result to whoever is waiting for it, if anyone is. -/
def deliver (c : Nat) (result : CommandResult ρ) (h : AgentHub δ ρ) : AgentHub δ ρ :=
  match h.conns c with
  | none => h
  | some conn =>
    let h := h.setConn c (conn.discard result.commandId)
    match conn.pending.lookup result.commandId with
    | none => h
    | some k => h.settle k (.ok result)

/-- Fail every command still in flight on a connection as unknown. -/
def abandon (c : Nat) (reason : UnreachableReason) (detail : String) (h : AgentHub δ ρ) :
    AgentHub δ ρ :=
  match h.conns c with
  | none => h
  | some conn =>
    conn.pending.entries.foldl
      (fun h entry ↦ h.settle entry.2 (.error ⟨conn.nodeId, reason, detail⟩))
      (h.setConn c conn.close)

/-- Register a new connection; the one it displaces is abandoned. -/
def attach (c : Nat) (nodeId : String) (h : AgentHub δ ρ) : AgentHub δ ρ :=
  let previous := h.connections.lookup nodeId
  let h := h.setConn c { nodeId }
  let h := { h with connections := h.connections.insert nodeId c }
  match previous with
  | some p =>
    if p ≠ c then
      h.abandon p .disconnected "displaced by a newer connection from the same node"
    else h
  | none => h

/-- Remove a connection, if it is still the registered one, and fail everything it held. -/
def detach (c : Nat) (conn : AgentConnection δ) (h : AgentHub δ ρ) : AgentHub δ ρ :=
  let h :=
    if h.connections.lookup conn.nodeId = some c then
      { h with connections := h.connections.erase conn.nodeId }
    else h
  h.abandon c .disconnected "the agent stream ended"

/-- Abandon every registered connection and clear the registry. -/
def shutdown (h : AgentHub δ ρ) : AgentHub δ ρ :=
  let h := h.connections.entries.foldl
    (fun h entry ↦ h.abandon entry.2 .shuttingDown "the control plane is shutting down") h
  { h with connections := ∅ }

/-- The deadline of a call: the command's own, else the caller's, else the default. -/
def deadlineFor (timeout timeoutSeconds : Option δ) (h : AgentHub δ ρ) : δ :=
  timeoutSeconds.getD (timeout.getD h.defaultTimeout)

/-- `call` up to its await: without a connection it ends there. -/
def startCall (k : Nat) (nodeId commandId : String) (timeout timeoutSeconds : Option δ)
    (progress : Bool) (h : AgentHub δ ρ) : AgentHub δ ρ :=
  let deadline := h.deadlineFor timeout timeoutSeconds
  let h := { h with minted := commandId :: h.minted }
  match h.connections.lookup nodeId with
  | none =>
    h.setCall k
      { nodeId, commandId, connection := none, deadline
        outcome := some (.unreachable ⟨nodeId, .notConnected, "no agent is connected"⟩) }
  | some c =>
    match h.conns c with
    | none => h
    | some conn =>
      (h.setConn c (conn.send commandId h.epoch deadline k progress)).setCall k
        { nodeId, commandId, connection := some c, deadline }

/-- What a waiting call sees when it is resumed. -/
inductive Wake
  | done
  | timedOut
  | cancelled
  deriving DecidableEq, Repr

/-- The outcome a resumed call ends with, if it may be resumed so. -/
def wakeOutcome [ToString δ] (call : HubCall δ ρ) : Wake → Option (CallOutcome ρ)
  | .done => call.future.map fun
    | .ok result => .returned result
    | .error e => .unreachable e
  | .timedOut =>
    if call.expired then
      some (.unreachable ⟨call.nodeId, .timedOut, s!"no result within {call.deadline}s"⟩)
    else none
  | .cancelled => if call.cancelled then some .cancelled else none

/-- `call` after its await: a call that gave up asks the agent to stop, and in every case the
connection stops waiting. -/
def finishCall (k : Nat) (call : HubCall δ ρ) (wake : Wake) (outcome : CallOutcome ρ)
    (h : AgentHub δ ρ) : AgentHub δ ρ :=
  let h := h.setCall k { call with outcome := some outcome }
  match call.connection.bind h.conns, call.connection with
  | some conn, some c =>
    let conn := if wake = .done then conn else conn.cancelCommand call.commandId
    h.setConn c (conn.discard call.commandId)
  | _, _ => h

/-- One step of the event loop. -/
inductive Act (δ ρ : Type)
  /-- A new session of a node. -/
  | attach (c : Nat) (nodeId : String)
  /-- The session of a connection ends. -/
  | detach (c : Nat)
  /-- A call of a new command. -/
  | call (k : Nat) (nodeId commandId : String) (timeout timeoutSeconds : Option δ)
      (progress : Bool)
  /-- A result read from a connection's stream. -/
  | deliver (c : Nat) (result : CommandResult ρ)
  /-- The timer of a waiting call fires. -/
  | expire (k : Nat)
  /-- The caller of a waiting call is cancelled. -/
  | cancel (k : Nat)
  /-- A waiting call is resumed. -/
  | resume (k : Nat) (wake : Wake)
  /-- The writer takes the next message of a connection. -/
  | drain (c : Nat)
  | shutdown

/-- The step an action takes. New connections and calls are new objects, and the ids `new_command`
mints are never repeated. -/
def next [ToString δ] (h : AgentHub δ ρ) : Act δ ρ → Option (AgentHub δ ρ)
  | .attach c nodeId => if (h.conns c).isNone then some (h.attach c nodeId) else none
  | .detach c => (h.conns c).map fun conn ↦ h.detach c conn
  | .call k nodeId commandId timeout timeoutSeconds progress =>
    if (h.calls k).isNone ∧ commandId ∉ h.minted then
      some (h.startCall k nodeId commandId timeout timeoutSeconds progress)
    else none
  | .deliver c result => some (h.deliver c result)
  | .expire k => do
    let call ← h.calls k
    if call.outcome.isNone then some (h.setCall k { call with expired := true }) else none
  | .cancel k => do
    let call ← h.calls k
    if call.outcome.isNone then some (h.setCall k { call with cancelled := true }) else none
  | .resume k wake => do
    let call ← h.calls k
    let outcome ← wakeOutcome call wake
    if call.outcome.isNone then some (h.finishCall k call wake outcome) else none
  | .drain c => (h.conns c).map fun conn ↦ h.setConn c { conn with outbox := conn.outbox.tail }
  | .shutdown => some h.shutdown

/-- The interleavings of calls, results, timers and sessions on one hub, from a new one. -/
def system (δ ρ : Type) [ToString δ] : System (AgentHub δ ρ) (Act δ ρ) where
  init h := h.connections = ∅ ∧ (∀ c, h.conns c = none) ∧ (∀ k, h.calls k = none)
  next := next

end AgentHub

end SparkPulse.Agent
