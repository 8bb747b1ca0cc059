import Mathlib.Data.List.AList
import SparkPulse.Transition.System

/-!
# Bounded commands

`run` of `executor/bounded.rs`: an external command in a process group of its own, which is drained
by two threads and waited for with a timeout. A command that overruns gets `SIGTERM`, a grace, and
`SIGKILL`, each sent to the group; the threads are joined at the end, and that waits for whoever
still holds a pipe.

The processes of the group fork, close their ends of the pipes, write and end when they like, and a
process that ignores `SIGTERM` is one that goes on after it. `SIGKILL` ends all of them. The leader
is a zombie until `run` waits for it; every other process is gone when it ends.
-/

namespace SparkPulse.Agent.Bounded

/-! ## Data -/

/-- What a process ends with. -/
inductive ExitStatus
  | code (n : ℕ)
  | signal (n : ℕ)
  deriving DecidableEq

inductive Signal
  | term
  | kill
  deriving DecidableEq

/-- The two pipes of a command. -/
inductive Stream
  | stdout
  | stderr
  deriving DecidableEq

/-- The write ends that a process holds. -/
structure Process where
  stdout : Bool := true
  stderr : Bool := true
  deriving DecidableEq

namespace Process

def holds (p : Process) : Stream → Bool
  | .stdout => p.stdout
  | .stderr => p.stderr

def close (p : Process) : Stream → Process
  | .stdout => { p with stdout := false }
  | .stderr => { p with stderr := false }

/-- Neither pipe is held. -/
def Released (p : Process) : Prop := p.stdout = false ∧ p.stderr = false

instance (p : Process) : Decidable p.Released := inferInstanceAs (Decidable (_ ∧ _))

theorem Released.close {p : Process} (h : p.Released) (stream : Stream) :
    (p.close stream).Released := by
  rcases stream with _ | _
  · exact ⟨rfl, h.2⟩
  · exact ⟨h.1, rfl⟩

end Process

inductive Leader
  | running
  /-- It ended and was not waited for. -/
  | ended (status : ExitStatus)
  | reaped (status : ExitStatus)
  deriving DecidableEq

/-- What a bounded run produced. -/
structure Output where
  /-- Nothing, if the command was killed at its timeout. -/
  status : Option ExitStatus
  stdout : List UInt8
  stderr : List UInt8
  deriving DecidableEq

/-- Where `run` is. -/
inductive Phase
  /-- `poll_for` asks for the leader's status, before a deadline; in the grace or before it. -/
  | trying (grace : Bool) (deadline : ℕ)
  /-- There was none. -/
  | tried (grace : Bool) (deadline : ℕ)
  | terminating
  | killing (leaderExited : Bool)
  | waiting
  /-- The drain threads are joined. -/
  | joining (status : Option ExitStatus)
  | returned (output : Output)
  deriving DecidableEq

/-- `KILL_GRACE`, in milliseconds. -/
def killGrace : ℕ := 500

structure State where
  /-- The id of the leader and of its group. -/
  pid : ℕ
  /-- The processes of the group that have not ended. -/
  procs : AList fun _ : ℕ ↦ Process
  leader : Leader := .running
  phase : Phase
  now : ℕ := 0
  stdout : List UInt8 := []
  stderr : List UInt8 := []
  /-- The signals sent to the group, and whether its leader had been waited for. -/
  signals : List (Signal × Bool) := []
  /-- What waiting for the leader gave to this function. -/
  collected : Option ExitStatus := none

inductive Act
  /-- `run` goes on. If it waits for the leader, that may fail. -/
  | step (fails : Bool)
  | fork (parent child : ℕ)
  | close (pid : ℕ) (stream : Stream)
  | write (pid : ℕ) (stream : Stream) (bytes : List UInt8)
  | exit (pid : ℕ) (status : ExitStatus)
  | pass (time : ℕ)

namespace State

variable (s : State)

/-- Nobody holds a write end of the pipes. -/
def Released : Prop := ∀ e ∈ s.procs.entries, e.2.Released

instance : Decidable s.Released := inferInstanceAs (Decidable (∀ e ∈ _, _))

/-- The leader has been waited for. -/
def isReaped : Bool :=
  match s.leader with
  | .reaped _ => true
  | _ => false

/-! ## The function -/

/-- `try_wait` or `wait` of a leader that ended. -/
def reap (status : ExitStatus) : State :=
  { s with leader := .reaped status, collected := some status }

/-- `kill_group`, of any signal: the processes that a `SIGTERM` ends are those that end next. -/
def killGroup : Signal → State
  | .term => { s with signals := s.signals ++ [(.term, s.isReaped)] }
  | .kill =>
    { s with
      signals := s.signals ++ [(.kill, s.isReaped)]
      procs := ∅
      leader := if s.leader = .running then .ended (.signal 9) else s.leader }

/-- Where `wait_bounded` goes on when `poll_for` returns. -/
def polled (grace : Bool) (status : Option ExitStatus) : Phase :=
  match grace, status with
  | false, some status => .joining (some status)
  | false, none => .terminating
  | true, status => .killing status.isSome

def next : Act → Option State
  | .step fails =>
    match s.phase with
    | .trying grace deadline =>
      if fails then some { s with phase := polled grace none }
      else
        match s.leader with
        | .running => some { s with phase := .tried grace deadline }
        | .ended status => some { s.reap status with phase := polled grace (some status) }
        | .reaped status => some { s with phase := polled grace (some status) }
    | .tried grace deadline =>
      some { s with
        phase := if deadline ≤ s.now then polled grace none else .trying grace deadline }
    | .terminating => some { s.killGroup .term with phase := .trying true (s.now + killGrace) }
    | .killing leaderExited =>
      some { s.killGroup .kill with phase := if leaderExited then .joining none else .waiting }
    | .waiting =>
      if fails then some { s with phase := .joining none }
      else
        match s.leader with
        | .running => none
        | .ended status => some { s.reap status with phase := .joining none }
        | .reaped _ => some { s with phase := .joining none }
    | .joining status =>
      if s.Released then some { s with phase := .returned ⟨status, s.stdout, s.stderr⟩ } else none
    | .returned _ => none
  | .fork parent child =>
    if child ∈ s.procs ∨ child = s.pid then none
    else (s.procs.lookup parent).map fun p ↦ { s with procs := s.procs.insert child p }
  | .close pid stream =>
    (s.procs.lookup pid).map fun p ↦ { s with procs := s.procs.insert pid (p.close stream) }
  | .write pid stream bytes =>
    (s.procs.lookup pid).bind fun p ↦
      if p.holds stream then
        some (match stream with
          | .stdout => { s with stdout := s.stdout ++ bytes }
          | .stderr => { s with stderr := s.stderr ++ bytes })
      else none
  | .exit pid status =>
    if pid ∈ s.procs then
      some { s with
        procs := s.procs.erase pid
        leader := if pid = s.pid then .ended status else s.leader }
    else none
  | .pass time => some { s with now := s.now + time }

/-- A command that was just spawned, with a timeout. -/
def system : Transition.System State Act where
  init s := ∃ pid timeout, s =
    { pid, procs := AList.singleton pid {}, phase := .trying false timeout }
  next := next

/-! ## What is promised -/

/-- `run` has come to its drain threads. -/
def Joining : Prop :=
  match s.phase with
  | .joining _ | .returned _ => True
  | _ => False

/-- When the drain threads are joined nobody of the group holds a pipe. The leader has been waited
for only here, and was signalled only before. -/
structure Prompt : Prop where
  released : s.Joining → s.Released
  waited : ∀ status, s.leader = .reaped status → s.collected = some status
  signalled : ∀ e ∈ s.signals, e.2 = false

/-- The leader ended and was not waited for. -/
def leaderEnded : Bool :=
  match s.leader with
  | .ended _ => true
  | _ => false

/-- The leader is about to be polled, in the grace or before it. -/
def isTrying (inGrace : Bool) : Bool :=
  match s.phase with
  | .trying grace _ => grace = inGrace
  | _ => false

/-- The leader is seen to have ended by itself only when nobody else holds a pipe, and it does not
end in the grace. -/
def endsLast : Act → Prop
  | .step fails =>
    fails = false ∧ s.leaderEnded → (s.isTrying false → s.Released) ∧ ¬s.isTrying true
  | _ => True

instance (a : Act) : Decidable (s.endsLast a) :=
  match a with
  | .step _ => inferInstanceAs (Decidable (_ ∧ _ → (_ → s.Released) ∧ ¬_))
  | .fork .. | .close .. | .write .. | .exit .. | .pass _ => inferInstanceAs (Decidable True)

/-! ## Runs -/

section
variable {s} {t : State} {a : Act}

theorem released_iff : s.Released ↔ ∀ pid p, s.procs.lookup pid = some p → p.Released :=
  ⟨fun h pid p hp ↦ h ⟨pid, p⟩ (AList.mem_lookup_iff.mp hp),
    fun h e he ↦ h e.1 e.2 (AList.mem_lookup_iff.mpr he)⟩

/-- A process that comes by its pipes from one that holds none holds none. -/
theorem Released.insert (h : s.Released) {pid : ℕ} {p : Process} (hp : p.Released) :
    State.Released { s with procs := s.procs.insert pid p } := by
  refine released_iff.mpr fun pid' p' hp' ↦ ?_
  by_cases hpid : pid' = pid
  · rw [hpid, AList.lookup_insert, Option.some.injEq] at hp'
    exact hp' ▸ hp
  · rw [AList.lookup_insert_ne hpid] at hp'
    exact released_iff.mp h pid' p' hp'

theorem Released.erase (h : s.Released) (pid : ℕ) :
    State.Released { s with procs := s.procs.erase pid } := by
  refine released_iff.mpr fun pid' p' hp' ↦ ?_
  by_cases hpid : pid' = pid
  · rw [hpid, AList.lookup_erase] at hp'
    cases hp'
  · rw [AList.lookup_erase_ne hpid] at hp'
    exact released_iff.mp h pid' p' hp'

/-- Before `run` comes to kill the group. -/
def Early (s : State) : Prop :=
  match s.phase with
  | .trying .. | .tried .. | .terminating | .killing _ => True
  | _ => False

/-- What holds all along: the leader is not waited for before the group was killed, unless nobody
holds a pipe. -/
structure Sound (s : State) : Prop extends s.Prompt where
  early : s.Early → s.isReaped = false
  killed : s.phase = .waiting → s.Released
  grace : s.phase ≠ .killing true

/-- What processes do keeps what holds all along. -/
theorem Sound.of_env (hs : s.Sound) (hphase : t.phase = s.phase) (hsignals : t.signals = s.signals)
    (hcollected : t.collected = s.collected)
    (hleader : t.leader = s.leader ∨ ∃ status, t.leader = .ended status)
    (hreleased : s.Released → t.Released) : t.Sound := by
  have hreaped : ∀ status, t.leader = .reaped status → s.leader = .reaped status := by
    intro status h
    rcases hleader with heq | ⟨status', heq⟩
    · exact heq.symm.trans h
    · rw [heq] at h
      cases h
  refine ⟨⟨fun h ↦ ?_, fun status h ↦ ?_, ?_⟩, fun h ↦ ?_, fun h ↦ ?_, ?_⟩
  · rw [Joining, hphase] at h
    exact hreleased (hs.released h)
  · rw [hcollected]
    exact hs.waited status (hreaped status h)
  · rw [hsignals]
    exact hs.signalled
  · rw [Early, hphase] at h
    have hnot := hs.early h
    rcases hleader with heq | ⟨status, heq⟩
    · rw [isReaped, heq]
      exact hnot
    · rw [isReaped, heq]
  · exact hreleased (hs.killed (hphase.symm.trans h))
  · rw [hphase]
    exact hs.grace

/-- What `run` does outside of the waits and the signals is to go on. -/
theorem Sound.goesOn (hs : s.Sound) {phase : Phase}
    (hjoining : Joining { s with phase } → s.Released)
    (hearly : Early { s with phase } → s.isReaped = false)
    (hkilled : phase = .waiting → s.Released) (hgrace : phase ≠ .killing true) :
    Sound { s with phase } :=
  ⟨⟨hjoining, hs.waited, hs.signalled⟩, hearly, hkilled, hgrace⟩

/-- A poll that does not see the leader ended goes on before the group is killed. -/
theorem Sound.polled_none (hs : s.Sound) (hreaped : s.isReaped = false) (grace : Bool) :
    Sound { s with phase := polled grace none } := by
  rcases grace with _ | _
  · exact hs.goesOn False.elim (fun _ ↦ hreaped) (fun h ↦ by cases h) (fun h ↦ by cases h)
  · exact hs.goesOn False.elim (fun _ ↦ hreaped) (fun h ↦ by cases h) (fun h ↦ by cases h)

theorem Sound.killGroup (hs : s.Sound) (hreaped : s.isReaped = false) (signal : Signal) :
    ∀ e ∈ (s.killGroup signal).signals, e.2 = false := by
  intro e he
  rcases signal with _ | _ <;>
    rcases List.mem_append.mp he with he | he
  · exact hs.signalled e he
  · exact (List.mem_singleton.mp he) ▸ hreaped
  · exact hs.signalled e he
  · exact (List.mem_singleton.mp he) ▸ hreaped

theorem Sound.of_step (hs : s.Sound) {fails : Bool} (hends : s.endsLast (.step fails))
    (h : s.next (.step fails) = some t) : t.Sound := by
  have hearly := hs.early
  rw [next] at h
  rcases hphase : s.phase with ⟨grace, deadline⟩ | ⟨grace, deadline⟩ | _ | leaderExited | _ |
    status | output <;> rw [hphase] at h <;> simp only at h <;> rw [Early, hphase] at hearly
  case trying =>
    have hreaped := hearly trivial
    rcases fails with _ | _
    · rw [if_neg Bool.false_ne_true] at h
      split at h
      · cases h
        exact hs.goesOn False.elim (fun _ ↦ hreaped) (fun h ↦ by cases h) (fun h ↦ by cases h)
      · rename_i status hleader
        cases h
        obtain ⟨hreleased, hgrace⟩ := hends ⟨rfl, by rw [leaderEnded, hleader]⟩
        rcases grace with _ | _
        · have hreleased := hreleased (by rw [isTrying, hphase]; rfl)
          exact ⟨⟨fun _ ↦ hreleased, fun _ h ↦ by cases h; rfl, hs.signalled⟩, False.elim,
            fun h ↦ (by cases h), fun h ↦ (by cases h)⟩
        · exact absurd (by rw [isTrying, hphase]; rfl) hgrace
      · rename_i status hleader
        rw [isReaped, hleader] at hreaped
        cases hreaped
    · cases h
      exact hs.polled_none hreaped grace
  case tried =>
    have hreaped := hearly trivial
    cases h
    split_ifs
    · exact hs.polled_none hreaped grace
    · exact hs.goesOn False.elim (fun _ ↦ hreaped) (fun h ↦ by cases h) (fun h ↦ by cases h)
  case terminating =>
    have hreaped := hearly trivial
    cases h
    exact ⟨⟨False.elim, hs.waited, hs.killGroup hreaped .term⟩, fun _ ↦ hreaped,
      fun h ↦ (by cases h), fun h ↦ (by cases h)⟩
  case killing =>
    have hreaped := hearly trivial
    rcases leaderExited with _ | _
    · cases h
      refine ⟨⟨False.elim, fun status hstatus ↦ ?_, hs.killGroup hreaped .kill⟩, False.elim,
        fun _ e he ↦ (by cases he), fun h ↦ (by cases h)⟩
      -- The leader is a zombie at the latest now.
      simp only [State.killGroup] at hstatus
      split_ifs at hstatus with hrunning
      rw [isReaped, hstatus] at hreaped
      cases hreaped
    · exact absurd hphase hs.grace
  case waiting =>
    have hreleased := hs.killed hphase
    rcases fails with _ | _
    · rw [if_neg Bool.false_ne_true] at h
      split at h
      · cases h
      · cases h
        exact ⟨⟨fun _ ↦ hreleased, fun _ h ↦ by cases h; rfl, hs.signalled⟩, False.elim,
          fun h ↦ (by cases h), fun h ↦ (by cases h)⟩
      · cases h
        exact hs.goesOn (fun _ ↦ hreleased) False.elim (fun h ↦ by cases h) (fun h ↦ by cases h)
    · cases h
      exact hs.goesOn (fun _ ↦ hreleased) False.elim (fun h ↦ by cases h) (fun h ↦ by cases h)
  case joining =>
    obtain ⟨hreleased, h⟩ := Option.ite_none_right_eq_some.mp h
    cases h
    exact hs.goesOn (fun _ ↦ hreleased) False.elim (fun h ↦ by cases h) (fun h ↦ by cases h)
  case returned => cases h

theorem Sound.of_next (hs : s.Sound) (hends : s.endsLast a) (h : s.next a = some t) :
    t.Sound := by
  rcases a with fails | ⟨parent, child⟩ | ⟨pid, stream⟩ | ⟨pid, stream, bytes⟩ | ⟨pid, status⟩ | time
  case step => exact hs.of_step hends h
  case fork =>
    obtain ⟨-, h⟩ := Option.ite_none_left_eq_some.mp h
    obtain ⟨p, hp, rfl⟩ := Option.map_eq_some_iff.mp h
    exact hs.of_env rfl rfl rfl (.inl rfl) fun hreleased ↦
      hreleased.insert (released_iff.mp hreleased parent p hp)
  case close =>
    obtain ⟨p, hp, rfl⟩ := Option.map_eq_some_iff.mp h
    exact hs.of_env rfl rfl rfl (.inl rfl) fun hreleased ↦
      hreleased.insert ((released_iff.mp hreleased pid p hp).close stream)
  case write =>
    obtain ⟨p, -, h⟩ := Option.bind_eq_some_iff.mp h
    obtain ⟨-, h⟩ := Option.ite_none_right_eq_some.mp h
    rcases stream with _ | _ <;> cases h <;> exact hs.of_env rfl rfl rfl (.inl rfl) id
  case exit =>
    obtain ⟨-, h⟩ := Option.ite_none_right_eq_some.mp h
    cases h
    refine hs.of_env rfl rfl rfl ?_ fun hreleased ↦ hreleased.erase pid
    simp only
    split_ifs
    · exact .inr ⟨status, rfl⟩
    · exact .inl rfl
  case pass =>
    cases h
    exact hs.of_env rfl rfl rfl (.inl rfl) id

theorem sound_of_init (h : system.init s) : s.Sound := by
  obtain ⟨pid, timeout, rfl⟩ := h
  exact ⟨⟨False.elim, fun _ h ↦ (by cases h), fun _ h ↦ (by cases h)⟩, fun _ ↦ rfl,
    fun h ↦ (by cases h), fun h ↦ (by cases h)⟩

/-- **A bounded command does not leave the agent waiting, where its leader ends last.** In every run
in which the leader is not seen to have ended while another process holds a pipe, and does not end
in the grace, nobody holds a pipe when the drain threads are joined, and the group is signalled only
before its leader was waited for. -/
theorem prompt_of_endsLast (h : system.Reachable endsLast s) : s.Prompt :=
  (h.invariant (fun _ ↦ sound_of_init) fun _ _ _ ↦ Sound.of_next).toPrompt

end

/-- A command that overruns, and ignores the signal to end. -/
private def overruns : List Act :=
  [.write 1 .stdout [104], .fork 1 2, .pass 20, .step false, .step false, .step false, .pass 500,
    .step false, .step false, .step false, .step false, .step false]

/-- A command that leaves a process behind. -/
private def leavesBehind : List Act := [.fork 1 2, .exit 1 (.code 0), .step false]

theorem prompt_overruns : ∃ s, system.runUnder endsLast
    { pid := 1, procs := AList.singleton 1 {}, phase := .trying false 20 } overruns = some s ∧
      s.Prompt ∧ s.phase = .returned ⟨none, [104], []⟩ := by
  have hrun : (system.runUnder endsLast
      { pid := 1, procs := AList.singleton 1 {}, phase := .trying false 20 } overruns).map phase =
        some (.returned ⟨none, [104], []⟩) := by
    decide +kernel
  obtain ⟨s, hs, hphase⟩ := Option.map_eq_some_iff.mp hrun
  exact ⟨s, hs, prompt_of_endsLast ⟨_, ⟨1, 20, rfl⟩, Transition.System.steps_of_runUnder hs⟩,
    hphase⟩

/-- The drain threads of a command that ended are joined while a process it left holds the pipes. -/
theorem leavesBehind_not_prompt :
    ∃ s, system.Reachable Transition.Guard.free s ∧ ¬s.Prompt := by
  have hrun : (system.run { pid := 1, procs := AList.singleton 1 {}, phase := .trying false 20 }
      leavesBehind).map (fun s ↦ (s.phase, decide s.Released)) =
        some (.joining (some (.code 0)), false) := by
    decide +kernel
  obtain ⟨s, hs, hview⟩ := Option.map_eq_some_iff.mp hrun
  obtain ⟨hphase, hreleased⟩ := Prod.mk.inj hview
  refine ⟨s, ⟨_, ⟨1, 20, rfl⟩, Transition.System.steps_of_run hs⟩, fun h ↦ ?_⟩
  exact of_decide_eq_false hreleased (h.released (by rw [Joining, hphase]; trivial))

end State

end SparkPulse.Agent.Bounded
