import SparkPulse.Transition.System

/-!
# Epoch fencing

`Executor::execute` in `agent/src/executor/mod.rs` refuses a command whose epoch is below the
highest one the agent has seen. Epochs come from the control plane: each start of it builds a hub,
whose epoch stands in the Welcome of every session and on every command. Here a node's agent runs
against any number of control-plane starts, numbered in order.

Each command runs on a task of its own, so the epoch check, the note of the command's epoch and
each effect of the operation are separate steps. The highest epoch is kept in the agent's memory.
-/

namespace SparkPulse.Agent

open Transition

/-! ## The executor -/

/-- A command as the agent receives it. -/
structure Command (ω : Type) where
  commandId : String
  epoch : Nat
  op : Option ω
  deriving DecidableEq, Repr

structure CommandFailure where
  type : String
  message : String
  deriving DecidableEq, Repr

/-- The exception class name the control plane re-raises for a stale epoch. -/
def staleEpoch : String := "StaleEpochError"

/-- The part of the executor that fences: the highest epoch seen. -/
structure Executor where
  epoch : Nat := 0
  deriving DecidableEq, Repr

namespace Executor

variable {ω : Type}

/-- Record a controller epoch, keeping the highest. -/
def noteEpoch (epoch : Nat) (e : Executor) : Executor := { e with epoch := max e.epoch epoch }

/-- The failure `execute` returns without dispatching, if it does. -/
def refuses (command : Command ω) (e : Executor) : Option CommandFailure :=
  if command.op.isNone then some ⟨"ValueError", "command carries no op"⟩
  else if command.epoch ≠ 0 ∧ command.epoch < e.epoch then
    some ⟨staleEpoch, s!"command epoch {command.epoch} is older than {e.epoch}; " ++
      "a newer control plane has taken over"⟩
  else none

/-- A command that carries an epoch is not let through below the highest one seen. -/
theorem le_epoch_of_admitted {command : Command ω} {e : Executor}
    (h : e.refuses command = none) (hne : command.epoch ≠ 0) : e.epoch ≤ command.epoch := by
  by_contra hlt
  rw [refuses] at h
  split_ifs at h with _ hstale
  exact hstale ⟨hne, by omega⟩

end Executor

/-! ## One node -/

/-- How far a command's task has got. -/
inductive Stage
  | received
  | admitted
  | dispatched
  | finished
  deriving DecidableEq, Repr

/-- Past the check of its epoch, and not finished. -/
def Stage.underway : Stage → Bool
  | .admitted | .dispatched => true
  | _ => false

/-- The task of a command, with the control-plane start that issued it. -/
structure Task (ω : Type) where
  start : Nat
  command : Command ω
  stage : Stage := .received
  deriving DecidableEq, Repr

/-- What is observed at a node. -/
inductive Sight
  /-- A session or a command of this start arrives. -/
  | saw (start : Nat)
  | refused (start : Nat) (failure : CommandFailure)
  /-- A command of this start acts on the node. -/
  | acted (start : Nat) (commandId : String)
  deriving DecidableEq, Repr

/-- The epoch of the hub that a control-plane start serves: the one it is given, or a new one. -/
def hubEpoch (hub : Option Nat) : Nat := hub.getD 1

/-- One node's agent, the control-plane starts so far and what was observed, latest first. -/
structure AgentNode (ω : Type) where
  /-- The epoch of each start's hub. -/
  starts : List Nat := []
  executor : Executor := {}
  /-- The start the current session is with. -/
  session : Option Nat := none
  tasks : List (Task ω) := []
  log : List Sight := []
  deriving DecidableEq, Repr

namespace AgentNode

variable {ω : Type}

inductive Act (ω : Type)
  /-- The control plane starts, with a hub of a given epoch or the default one. -/
  | start (hub : Option Nat)
  /-- A session is established, and its Welcome read. -/
  | welcome (start : Nat)
  | endSession
  /-- A command of the session's hub is read, and its task spawned. -/
  | receive (commandId : String) (op : Option ω)
  | check (task : Nat)
  | note (task : Nat)
  /-- The operation of a task acts on the node, which it may do any number of times. -/
  | act (task : Nat)
  | finish (task : Nat)
  /-- The agent's process ends and is started again. -/
  | restart

/-- Move a task to a stage. -/
def setStage (t : Nat) (stage : Stage) (task : Task ω) (w : AgentNode ω) : AgentNode ω :=
  { w with tasks := w.tasks.set t { task with stage } }

/-- The task with this number, if it is at this stage. -/
def taskAt (t : Nat) (stage : Stage) (w : AgentNode ω) : Option (Task ω) :=
  w.tasks[t]?.filter fun task ↦ task.stage = stage

def see (start : Nat) (w : AgentNode ω) : AgentNode ω := { w with log := .saw start :: w.log }

def next (w : AgentNode ω) : Act ω → Option (AgentNode ω)
  | .start hub => some { w with starts := w.starts ++ [hubEpoch hub] }
  | .welcome start => w.starts[start]?.map fun epoch ↦
      { w.see start with session := some start, executor := w.executor.noteEpoch epoch }
  | .endSession => some { w with session := none }
  | .receive commandId op => w.session.bind fun start ↦ w.starts[start]?.map fun epoch ↦
      { w.see start with tasks := w.tasks ++ [{ start, command := ⟨commandId, epoch, op⟩ }] }
  | .check t => (w.taskAt t .received).map fun task ↦
      match w.executor.refuses task.command with
      | some failure =>
        { w.setStage t .finished task with log := .refused task.start failure :: w.log }
      | none => w.setStage t .admitted task
  | .note t => (w.taskAt t .admitted).map fun task ↦
      { w.setStage t .dispatched task with executor := w.executor.noteEpoch task.command.epoch }
  | .act t => (w.taskAt t .dispatched).map fun task ↦
      { w with log := .acted task.start task.command.commandId :: w.log }
  | .finish t => (w.taskAt t .dispatched).map fun task ↦ w.setStage t .finished task
  | .restart => some { w with executor := {}, session := none, tasks := [] }

def system (ω : Type) : System (AgentNode ω) (Act ω) where
  init w := w = {}
  next := next

/-- No command acts once a session or a command of a later start has been seen. -/
def Fenced : List Sight → Prop
  | [] => True
  | .acted start _ :: log => (∀ later, .saw later ∈ log → later ≤ start) ∧ Fenced log
  | _ :: log => Fenced log

/-- The starts seen, latest first. -/
def seen (log : List Sight) : List Nat := log.filterMap fun
  | .saw start => some start
  | _ => none

theorem mem_seen {start : Nat} {log : List Sight} : start ∈ seen log ↔ .saw start ∈ log := by
  rw [seen, List.mem_filterMap]
  constructor
  · rintro ⟨sight, hmem, h⟩
    cases sight <;> cases h
    exact hmem
  · exact fun hmem ↦ ⟨_, hmem, rfl⟩

/-- Every later start seen has a larger epoch than the task's, which the agent still holds. -/
def Outbid (w : AgentNode ω) (task : Task ω) : Prop :=
  ∀ later ∈ seen w.log, task.start < later → task.command.epoch ≠ 0 ∧
    ∃ epoch ∈ w.starts[later]?, task.command.epoch < epoch ∧ epoch ≤ w.executor.epoch

/-- A command is checked only when every later start seen outbids it, and a session is established
only when no command of an earlier start is past its check and unfinished. -/
def upholds (w : AgentNode ω) : Act ω → Prop
  | .check t => ∀ task ∈ w.taskAt t .received, w.Outbid task
  | .welcome start => ∀ task ∈ w.tasks, task.stage.underway = true → start ≤ task.start
  | _ => True

/-! ## What holds along a run -/

/-- What is seen is not later than any command that is underway. -/
structure Sound (w : AgentNode ω) : Prop where
  fenced : Fenced w.log
  /-- The start of the session has been seen. -/
  seen : ∀ start, w.session = some start → .saw start ∈ w.log
  /-- A command underway is of the latest start seen. -/
  latest : ∀ task ∈ w.tasks, task.stage.underway = true →
    ∀ later, .saw later ∈ w.log → later ≤ task.start

variable {w v : AgentNode ω}

theorem mem_of_taskAt {t : Nat} {stage : Stage} {task : Task ω} (h : w.taskAt t stage = some task) :
    task ∈ w.tasks ∧ task.stage = stage := by
  obtain ⟨hmem, hstage⟩ := Option.filter_eq_some_iff.mp h
  exact ⟨List.mem_of_getElem? hmem, of_decide_eq_true hstage⟩

/-- Moving one task keeps the others, and what is known of it carries over if it was underway. -/
theorem Sound.setStage {t : Nat} {stage : Stage} {task : Task ω} (hw : Sound w)
    (h : stage.underway = true → ∀ later, .saw later ∈ w.log → later ≤ task.start) :
    Sound (w.setStage t stage task) := by
  refine ⟨hw.fenced, hw.seen, fun other hmem hunder ↦ ?_⟩
  rcases List.mem_or_eq_of_mem_set hmem with hmem | rfl
  · exact hw.latest other hmem hunder
  · exact h hunder

/-- Seeing a start that no command underway is earlier than. -/
theorem Sound.see {start : Nat} (hw : Sound w)
    (h : ∀ task ∈ w.tasks, task.stage.underway = true → start ≤ task.start) :
    Sound (w.see start) := by
  refine ⟨hw.fenced, fun k hk ↦ List.mem_cons_of_mem _ (hw.seen k hk), ?_⟩
  intro task hmem hunder later hsaw
  rcases List.mem_cons.mp hsaw with heq | hsaw
  · cases heq
    exact h task hmem hunder
  · exact hw.latest task hmem hunder later hsaw

/-- A refusal is not a sighting. -/
theorem Sound.refused {start : Nat} {failure : CommandFailure} (hw : Sound w) :
    Sound { w with log := .refused start failure :: w.log } := by
  refine ⟨hw.fenced, fun k hk ↦ List.mem_cons_of_mem _ (hw.seen k hk), ?_⟩
  intro task hmem hunder later hsaw
  rcases List.mem_cons.mp hsaw with heq | hsaw
  · cases heq
  · exact hw.latest task hmem hunder later hsaw

/-- A command that acts is underway, so nothing later has been seen. -/
theorem Sound.acted {task : Task ω} (hw : Sound w) (hmem : task ∈ w.tasks)
    (hunder : task.stage.underway = true) :
    Sound { w with log := .acted task.start task.command.commandId :: w.log } := by
  refine ⟨⟨hw.latest task hmem hunder, hw.fenced⟩,
    fun k hk ↦ List.mem_cons_of_mem _ (hw.seen k hk), ?_⟩
  intro other hother hu later hsaw
  rcases List.mem_cons.mp hsaw with heq | hsaw
  · cases heq
  · exact hw.latest other hother hu later hsaw

/-- A command that is let through is of the latest start seen. -/
theorem latest_of_admitted {t : Nat} {task : Task ω} (hG : w.upholds (.check t))
    (htask : w.taskAt t .received = some task) (hadm : w.executor.refuses task.command = none) :
    ∀ later, .saw later ∈ w.log → later ≤ task.start := by
  intro later hsaw
  by_contra hlt
  obtain ⟨hne, epoch, -, hbump, hheld⟩ := hG task htask later (mem_seen.mpr hsaw) (by omega)
  have hle := Executor.le_epoch_of_admitted hadm hne
  omega

/-- The step lemma. -/
theorem Sound.next {a : Act ω} (hw : Sound w) (hG : w.upholds a) (hn : w.next a = some v) :
    Sound v := by
  cases a with
  | start hub =>
    cases hn
    exact ⟨hw.fenced, hw.seen, hw.latest⟩
  | welcome start =>
    obtain ⟨epoch, -, rfl⟩ := Option.map_eq_some_iff.mp hn
    have hsee := hw.see hG
    refine ⟨hsee.fenced, fun k hk ↦ ?_, hsee.latest⟩
    cases hk
    exact List.mem_cons_self
  | endSession =>
    cases hn
    exact ⟨hw.fenced, nofun, hw.latest⟩
  | receive commandId op =>
    obtain ⟨start, hsession, hn⟩ := Option.bind_eq_some_iff.mp hn
    obtain ⟨epoch, -, rfl⟩ := Option.map_eq_some_iff.mp hn
    -- the session's start was seen when the session was established
    have hsaw := hw.seen start hsession
    have hsee := hw.see fun task hmem hunder ↦ hw.latest task hmem hunder start hsaw
    refine ⟨hsee.fenced, hsee.seen, fun task hmem hunder ↦ ?_⟩
    rcases List.mem_append.mp hmem with hmem | hmem
    · exact hsee.latest task hmem hunder
    · rw [List.mem_singleton.mp hmem] at hunder
      cases hunder
  | check t =>
    obtain ⟨task, htask, rfl⟩ := Option.map_eq_some_iff.mp hn
    split
    · have hset : Sound (w.setStage t .finished task) := hw.setStage nofun
      exact hset.refused
    next hadm => exact hw.setStage fun _ ↦ latest_of_admitted hG htask hadm
  | note t =>
    obtain ⟨task, htask, rfl⟩ := Option.map_eq_some_iff.mp hn
    obtain ⟨hmem, hstage⟩ := mem_of_taskAt htask
    have hset : Sound (w.setStage t .dispatched task) := hw.setStage fun _ ↦
      hw.latest task hmem (by rw [hstage]; rfl)
    exact ⟨hset.fenced, hset.seen, hset.latest⟩
  | act t =>
    obtain ⟨task, htask, rfl⟩ := Option.map_eq_some_iff.mp hn
    obtain ⟨hmem, hstage⟩ := mem_of_taskAt htask
    exact hw.acted hmem (by rw [hstage]; rfl)
  | finish t =>
    obtain ⟨task, htask, rfl⟩ := Option.map_eq_some_iff.mp hn
    exact hw.setStage nofun
  | restart =>
    cases hn
    exact ⟨hw.fenced, nofun, nofun⟩

theorem sound_of_init (hw : (system ω).init w) : Sound w := by
  rw [show w = {} from hw]
  exact ⟨trivial, nofun, nofun⟩

/-- **Epoch fencing.** In every run in which each later start seen has a larger epoch that the agent
still holds when a command is checked, and no session is established over an earlier start's
command that is past its check, no command acts once a later start has been seen. -/
theorem fenced_of_upheld (hw : (system ω).Reachable upholds w) : Fenced w.log :=
  (hw.invariant (fun _ ↦ sound_of_init) fun _ _ _ ↦ Sound.next).fenced

/-- A node whose second start has the larger epoch, and still has a command of the first one. -/
private def bumped : AgentNode Unit where
  starts := [1, 2]
  executor := ⟨1⟩
  session := some 0
  tasks := [⟨0, ⟨"c", 1, some ()⟩, .received⟩]
  log := [.saw 0, .saw 0]

private theorem bumped_reachable : (system Unit).Reachable upholds bumped := by
  have hfirst : (system Unit).Reachable upholds { starts := [1] } :=
    .next (a := .start (some 1)) (.init rfl) trivial rfl
  have hwelcome : (system Unit).Reachable upholds
      { starts := [1], executor := ⟨1⟩, session := some 0, log := [.saw 0] } :=
    hfirst.next (a := .welcome 0) (fun _ hmem ↦ absurd hmem List.not_mem_nil) rfl
  have hreceive : (system Unit).Reachable upholds { bumped with starts := [1] } :=
    hwelcome.next (a := .receive "c" (some ())) trivial rfl
  exact hreceive.next (a := .start (some 2)) trivial rfl

/-- The command of the first start, checked after the second one's session began, is refused. -/
theorem fenced_after_bump : ∃ w : AgentNode Unit,
    (system Unit).run bumped [.welcome 1, .check 0] = some w ∧
    w.log.head? = some (.refused 0 ⟨staleEpoch,
      "command epoch 1 is older than 2; a newer control plane has taken over"⟩) ∧
    Fenced w.log := by
  have hwelcome : (system Unit).Reachable upholds
      { bumped with executor := ⟨2⟩, session := some 1, log := [.saw 1, .saw 0, .saw 0] } := by
    refine bumped_reachable.next (a := .welcome 1) ?_ rfl
    intro task hmem hunder
    rw [List.mem_singleton.mp hmem] at hunder
    cases hunder
  refine ⟨_, rfl, by decide, fenced_of_upheld (hwelcome.next (a := .check 0) ?_ rfl)⟩
  intro task htask later hlater hlt
  cases htask
  have hmem : later ∈ [1, 0, 0] := hlater
  have hone : later = 1 := by
    have hpos : 0 < later := hlt
    simp only [List.mem_cons, List.not_mem_nil, or_false] at hmem
    omega
  rw [hone]
  exact ⟨by decide, 2, rfl, by decide, by decide⟩

/-! ## Hubs with the default epoch -/

/-- **The first start's command acts after the second one's session began.** Each start builds its
hub with the default epoch, so the check lets the command through. -/
theorem acts_after_takeover : ¬∀ w : AgentNode Unit,
    (system Unit).Reachable Guard.free w → Fenced w.log := by
  intro h
  have hrun : (system Unit).run {} [.start none, .welcome 0, .receive "c" (some ()), .endSession,
      .start none, .welcome 1, .check 0, .note 0, .act 0] = some
        { starts := [1, 1], executor := ⟨1⟩, session := some 1
          tasks := [⟨0, ⟨"c", 1, some ()⟩, .dispatched⟩]
          log := [.acted 0 "c", .saw 1, .saw 0, .saw 0] } := rfl
  have hfenced := h _ ⟨_, rfl, System.steps_of_run hrun⟩
  exact absurd (hfenced.1 1 List.mem_cons_self) (by decide)

/-- Every start so far has built its hub with the default epoch. -/
structure Unbumped (w : AgentNode ω) : Prop where
  starts : ∀ epoch ∈ w.starts, epoch = 1
  executor : w.executor.epoch ≤ 1
  tasks : ∀ task ∈ w.tasks, task.command.epoch = 1
  log : ∀ start failure, .refused start failure ∈ w.log → failure.type ≠ staleEpoch

theorem Unbumped.setStage {t : Nat} {stage : Stage} {task : Task ω} (hw : Unbumped w)
    (hmem : task ∈ w.tasks) : Unbumped (w.setStage t stage task) := by
  refine ⟨hw.starts, hw.executor, fun other hother ↦ ?_, hw.log⟩
  rcases List.mem_or_eq_of_mem_set hother with hother | rfl
  · exact hw.tasks other hother
  · exact hw.tasks task hmem

theorem Unbumped.see {start : Nat} (hw : Unbumped w) : Unbumped (w.see start) := by
  refine ⟨hw.starts, hw.executor, hw.tasks, fun other failure hmem ↦ ?_⟩
  rcases List.mem_cons.mp hmem with heq | hmem
  · cases heq
  · exact hw.log other failure hmem

/-- No epoch is below the default one, so no command is refused for its epoch. -/
theorem Unbumped.type_of_refuses {task : Task ω} {failure : CommandFailure} (hw : Unbumped w)
    (hmem : task ∈ w.tasks) (h : w.executor.refuses task.command = some failure) :
    failure.type ≠ staleEpoch := by
  have hepoch := hw.tasks task hmem
  have hle := hw.executor
  rw [Executor.refuses] at h
  split_ifs at h with hop hstale
  · cases h
    decide
  · omega

theorem Unbumped.next {a : Act ω} (hw : Unbumped w) (hG : ∀ hub, a = .start hub → hub = none)
    (hn : w.next a = some v) : Unbumped v := by
  cases a with
  | start hub =>
    cases hn
    refine ⟨fun epoch hmem ↦ ?_, hw.executor, hw.tasks, hw.log⟩
    rcases List.mem_append.mp hmem with hmem | hmem
    · exact hw.starts epoch hmem
    · rw [List.mem_singleton.mp hmem, hG hub rfl]
      rfl
  | welcome start =>
    obtain ⟨epoch, hepoch, rfl⟩ := Option.map_eq_some_iff.mp hn
    have hsee : Unbumped (w.see start) := hw.see
    refine ⟨hsee.starts, ?_, hsee.tasks, hsee.log⟩
    have hone := hw.starts epoch (List.mem_of_getElem? hepoch)
    have hle := hw.executor
    exact Nat.max_le.mpr ⟨hle, by omega⟩
  | endSession =>
    cases hn
    exact ⟨hw.starts, hw.executor, hw.tasks, hw.log⟩
  | receive commandId op =>
    obtain ⟨start, -, hn⟩ := Option.bind_eq_some_iff.mp hn
    obtain ⟨epoch, hepoch, rfl⟩ := Option.map_eq_some_iff.mp hn
    have hsee : Unbumped (w.see start) := hw.see
    refine ⟨hsee.starts, hsee.executor, fun task hmem ↦ ?_, hsee.log⟩
    rcases List.mem_append.mp hmem with hmem | hmem
    · exact hsee.tasks task hmem
    · rw [List.mem_singleton.mp hmem]
      exact hw.starts epoch (List.mem_of_getElem? hepoch)
  | check t =>
    obtain ⟨task, htask, rfl⟩ := Option.map_eq_some_iff.mp hn
    obtain ⟨hmem, -⟩ := mem_of_taskAt htask
    split
    next failure hrefuse =>
      have hset : Unbumped (w.setStage t .finished task) := hw.setStage hmem
      refine ⟨hset.starts, hset.executor, hset.tasks, fun start other hother ↦ ?_⟩
      rcases List.mem_cons.mp hother with heq | hother
      · cases heq
        exact hw.type_of_refuses hmem hrefuse
      · exact hset.log start other hother
    · exact hw.setStage hmem
  | note t =>
    obtain ⟨task, htask, rfl⟩ := Option.map_eq_some_iff.mp hn
    obtain ⟨hmem, -⟩ := mem_of_taskAt htask
    have hset : Unbumped (w.setStage t .dispatched task) := hw.setStage hmem
    refine ⟨hset.starts, ?_, hset.tasks, hset.log⟩
    have hone := hw.tasks task hmem
    have hle := hw.executor
    exact Nat.max_le.mpr ⟨hle, by omega⟩
  | act t =>
    obtain ⟨task, htask, rfl⟩ := Option.map_eq_some_iff.mp hn
    refine ⟨hw.starts, hw.executor, hw.tasks, fun start failure hmem ↦ ?_⟩
    rcases List.mem_cons.mp hmem with heq | hmem
    · cases heq
    · exact hw.log start failure hmem
  | finish t =>
    obtain ⟨task, htask, rfl⟩ := Option.map_eq_some_iff.mp hn
    exact hw.setStage (mem_of_taskAt htask).1
  | restart =>
    cases hn
    exact ⟨hw.starts, Nat.zero_le 1, nofun, hw.log⟩

/-- **With default hubs nothing is fenced.** In every run in which each start builds its hub with
the default epoch, no command is ever refused for its epoch. -/
theorem never_stale_of_default
    (hw : (system ω).Reachable (fun _ a ↦ ∀ hub, a = .start hub → hub = none) w)
    {start : Nat} {failure : CommandFailure} (h : .refused start failure ∈ w.log) :
    failure.type ≠ staleEpoch := by
  have hunbumped : Unbumped w := by
    refine hw.invariant (fun s hs ↦ ?_) fun _ _ _ ↦ Unbumped.next
    rw [show s = {} from hs]
    exact ⟨nofun, Nat.zero_le 1, nofun, nofun⟩
  exact hunbumped.log start failure h

end AgentNode

end SparkPulse.Agent
