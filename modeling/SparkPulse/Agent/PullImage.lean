import Mathlib.Data.Rat.Defs
import SparkPulse.Deletion.Guards
import SparkPulse.Runtime.CancelledPull

/-!
# Pulling an image on a node

`pull_image` of `executor/images.rs`: the daemon's stream is read chunk by chunk until it ends,
breaks or falls silent for too long. A cancel sets a flag, at any moment; the function looks at the
flag before it waits for a chunk, and nowhere else. What it ends with goes over the wire by its type
and comes to the callers on the control plane as one of their own exceptions.
-/

namespace SparkPulse.Agent.PullImage

/-! ## Data -/

structure OpError where
  type : String
  message : String
  deriving DecidableEq

/-- `progress_detail` -/
structure Detail where
  current : Option ℤ := none
  total : Option ℤ := none

/-- A chunk of the daemon's stream. -/
structure Chunk where
  errorMessage : Option String := none
  status : Option String := none
  id : Option String := none
  detail : Option Detail := none

structure PullProgress where
  ref : String
  status : String
  layers : ℕ
  bytesDone : ℕ
  bytesTotal : ℕ
  percent : ℚ
  deriving DecidableEq

structure PullOutcome where
  ref : String
  repository : String
  tag : String
  bytesDone : ℕ
  bytesTotal : ℕ
  percent : ℚ
  id : String
  sizeBytes : ℕ
  deriving DecidableEq

/-- The bytes done and the bytes declared of each layer. -/
abbrev Layers := AList fun _ : String ↦ ℕ × ℕ

/-- `Layers::aggregate` -/
def aggregate (layers : Layers) : ℕ × ℕ × ℚ :=
  let done := (layers.entries.map fun e ↦ e.2.1).foldr (· + ·) 0
  let total := (layers.entries.map fun e ↦ e.2.2).foldr (· + ·) 0
  (done, total, if 0 < total then done / total * 100 else 0)

/-- What is asked for. Times are in milliseconds. -/
structure Request where
  reference : String
  throttle : ℕ := 1000
  /-- The silence that is a stall, and how it is printed in seconds. -/
  stall : Option (ℕ × String) := none
  wantsProgress : Bool := true

/-- Where the function is. -/
inductive Phase
  /-- Before the flag is looked at. -/
  | checking
  /-- It has waited for a chunk since a time. -/
  | awaiting (since : ℕ)
  /-- The stream ended and the image is inspected. -/
  | inspecting (done total : ℕ)
  | returned (outcome : Except OpError PullOutcome)

structure State where
  request : Request
  phase : Phase := .checking
  cancel : Bool := false
  now : ℕ := 0
  layers : Layers := ∅
  lastStatus : String := ""
  lastEmit : ℤ := -3600000
  emitted : List PullProgress := []
  /-- Whether the flag was set before the stream had decided the outcome. -/
  asked : Bool := false
  /-- The chunks that were consumed after that. -/
  late : ℕ := 0

inductive Act
  | cancel
  | check
  | chunk (c : Chunk)
  | broken (error : String)
  | silent
  | finish
  | inspected (info : Option (String × ℕ))
  | pass (time : ℕ)

/-! ## The function -/

/-- Where a chunk leaves the layers. -/
def countLayer (layers : Layers) (layerId status : String) (detail : Option Detail) : Layers :=
  if layerId = "" then layers
  else
    let (current, total) := (layers.lookup layerId).getD (0, 0)
    let declared := ((detail.bind Detail.total).getD 0).toNat
    let complete := status = "Pull complete" ∨ status = "Already exists"
    if 0 < declared then
      if "Download".toList <+: status.toList then
        layers.insert layerId (((detail.bind Detail.current).getD 0).toNat, declared)
      else if complete then layers.insert layerId (declared, declared)
      else layers.insert layerId (current, declared)
    else if complete then layers.insert layerId (total, total)
    else layers

namespace State

variable (s : State)

def pullCancelled : OpError :=
  ⟨"PullCancelled", s!"pull of {s.request.reference} cancelled"⟩

def pullFailed (error : String) : OpError :=
  ⟨"RuntimeError", s!"pull of {s.request.reference} failed: {error}"⟩

def pullStalled (printed : String) : OpError :=
  ⟨"PullStalled",
    s!"pull of {s.request.reference} stalled: no pull progress for {printed}s"⟩

def progressOf (status : String) : PullProgress :=
  let (done, total, percent) := aggregate s.layers
  { ref := s.request.reference, status, layers := s.layers.keys.length
    bytesDone := done, bytesTotal := total, percent }

/-- Report the progress, unless that was done a moment ago. -/
def emit : State :=
  if s.request.wantsProgress ∧ s.request.throttle ≤ s.now - s.lastEmit then
    { s with lastEmit := s.now, emitted := s.emitted ++ [s.progressOf s.lastStatus] }
  else s

/-- A chunk that reports no error. -/
def count (c : Chunk) : State :=
  let status := c.status.getD ""
  emit
    { s with
      lastStatus := if status = "" then s.lastStatus else status
      layers := countLayer s.layers (c.id.getD "") status c.detail }

/-- The end of the stream: the last report is of everything. -/
def finished : State :=
  let (done, total, _) := aggregate s.layers
  let layers : Layers := s.layers.keys.foldl
    (fun layers id ↦ layers.insert id
      (((s.layers.lookup id).getD (0, 0)).2, ((s.layers.lookup id).getD (0, 0)).2)) s.layers
  { s with
    phase := .inspecting done total
    layers := if s.request.wantsProgress then layers else s.layers
    emitted :=
      if s.request.wantsProgress then
        s.emitted ++ [{ s.progressOf "pull complete" with
          bytesDone := done, bytesTotal := total, percent := 100 }]
      else s.emitted }

def outcomeOf (done total : ℕ) (info : Option (String × ℕ)) : PullOutcome :=
  let (repository, tag) := Deletion.splitRef s.request.reference
  { ref := s.request.reference, repository, tag, bytesDone := done, bytesTotal := total
    percent := 100, id := (info.getD ("", 0)).1, sizeBytes := (info.getD ("", 0)).2 }

def next : Act → Option State
  | .cancel =>
    some { s with
      cancel := true
      asked := s.asked || match s.phase with
        | .checking | .awaiting _ => true
        | _ => false }
  | .check =>
    match s.phase with
    | .checking =>
      if s.cancel then some { s with phase := .returned (.error s.pullCancelled) }
      else some { s with phase := .awaiting s.now }
    | _ => none
  | .chunk c =>
    match s.phase with
    | .awaiting _ =>
      let s := if s.asked then { s with late := s.late + 1 } else s
      match c.errorMessage with
      | some message => some { s with phase := .returned (.error (s.pullFailed message)) }
      | none => some { s.count c with phase := .checking }
    | _ => none
  | .broken error =>
    match s.phase with
    | .awaiting _ => some { s with phase := .returned (.error (s.pullFailed error)) }
    | _ => none
  | .silent =>
    match s.phase, s.request.stall with
    | .awaiting since, some (deadline, printed) =>
      if since + deadline ≤ s.now then
        some { s with phase := .returned (.error (s.pullStalled printed)) }
      else none
    | _, _ => none
  | .finish =>
    match s.phase with
    | .awaiting _ => some s.finished
    | _ => none
  | .inspected info =>
    match s.phase with
    | .inspecting done total =>
      some { s with phase := .returned (.ok (s.outcomeOf done total info)) }
    | _ => none
  | .pass time => some { s with now := s.now + time }

/-- A pull that was just asked for. -/
def system : Transition.System State Act where
  init s := ∃ request, s = { request }
  next := next

end State

/-! ## Over the wire -/

/-- What a caller on the control plane gets of an outcome, by `CONTRACT_EXCEPTIONS`. -/
def received (nodeId : String) : Except OpError PullOutcome → Except Runtime.Exn Unit
  | .ok _ => .ok ()
  | .error ⟨type, message⟩ =>
    .error
      (if type = "PullCancelled" then .pullCancelled message
      else if type = "PullStalled" then .pullStalled message
      else .other s!"{nodeId}: {type}: {message}")

/-- The same, of the worker of a pull job. -/
def receivedByJob (nodeId : String) :
    Except OpError PullOutcome → Except Jobs.Failure (ℕ × ℕ × Option String)
  | .ok outcome =>
    .ok (outcome.bytesDone, outcome.bytesTotal, Jobs.orNone (some outcome.id))
  | .error ⟨type, message⟩ =>
    .error
      (if type = "PullCancelled" then .cancelled
      else if type = "PullStalled" then .other message
      else .other s!"{nodeId}: {type}: {message}")

/-- A pull of a deploy is answered so. -/
def Answered (reply : Except Runtime.Exn Unit) : ∀ e : Runtime.Call, e.Ret → Prop
  | .node _ _ (.pullImage ..), r => r = reply
  | _, _ => False

/-- The pull of a job is answered so. -/
def JobAnswered (reply : Except Jobs.Failure (ℕ × ℕ × Option String)) :
    ∀ c : Jobs.Call, c.Ret → Prop
  | .pullImage _, r => r = reply
  | _, _ => False

/-! ## A cancelled pull ends as cancelled -/

open Program Prog

/-- The callers of a pull that has this outcome record a teardown or a cancellation, and nothing
else. -/
def RecordedAsCancelled (outcome : Except OpError PullOutcome) : Prop :=
  ∀ nodeId,
    (∀ env plan record, (Runtime.pullPhase env plan record).After
      (Answered (received nodeId outcome)) fun q ↦
        q.Ends Runtime.RecordsTeardown (fun r ↦ ∃ record, r = .done record) fun _ ↦ False) ∧
    ∀ id, (Jobs.runPull id).After (JobAnswered (receivedByJob nodeId outcome)) fun q ↦
      q.Ends Jobs.RecordsCancelled (fun _ ↦ True) fun _ ↦ False

namespace State

/-- A pull whose flag was set before its outcome was decided returns `PullCancelled` and nothing
else, and consumes no further chunk; what it returns is recorded as what it is. -/
structure EndsAsCancelled (s : State) : Prop where
  returned : s.asked → ∀ outcome, s.phase = .returned outcome → outcome = .error s.pullCancelled
  undecided : s.asked → ∀ done total, s.phase ≠ .inspecting done total
  consumed : s.late = 0
  recorded : s.asked → ∀ outcome, s.phase = .returned outcome → RecordedAsCancelled outcome

/-- The flag is not set while the function waits for a chunk. -/
def notAwaited (s : State) : Act → Prop
  | .cancel => ∀ since, s.phase ≠ .awaiting since
  | _ => True

theorem recordedAsCancelled (s : State) : RecordedAsCancelled (.error s.pullCancelled) := by
  intro nodeId
  refine ⟨fun env plan record ↦ (Runtime.pullPhase_after env plan record).mono fun e r hr ↦ ?_,
    fun id ↦ (Jobs.runPull_after id).mono fun c r hr ↦ ?_⟩
  · rcases e with _ | _ | _ | _ | _ | _ | _ | _ | _ | _ | _ | _ | _ | _ | _ | _ | _ | _ | _ | _ |
      _ | _ | _ | ⟨phase, address, op⟩
    case node =>
      rcases op with _ | _ | _ | _ | _ | _ | _ | _ | _ | _ | ⟨ref, relay⟩ | _ | _ | _ | _
      case pullImage => exact ⟨_, hr⟩
      all_goals exact hr
    all_goals exact hr
  · rcases c with _ | _ | _ | _ | _ | _ | _ | _ | _ | _ | _ | _ | _ | _ | _ | _ | _ | _ | _ | _ | _ |
      _ | _
    case pullImage => exact hr
    all_goals exact hr

section
variable {s t : State} {a : Act}

/-- What holds all along: once the flag is set it is looked at next. -/
structure Sound (s : State) : Prop where
  looked : s.asked → s.cancel ∧ (s.phase = .checking ∨
    s.phase = .returned (.error s.pullCancelled))
  consumed : s.late = 0

theorem Sound.endsAsCancelled (hs : s.Sound) : s.EndsAsCancelled := by
  have hreturned : s.asked → ∀ outcome, s.phase = .returned outcome →
      outcome = .error s.pullCancelled := by
    intro hasked outcome houtcome
    rcases (hs.looked hasked).2 with h | h
    · rw [houtcome] at h
      cases h
    · rw [houtcome] at h
      exact Phase.returned.inj h
  refine ⟨hreturned, fun hasked done total h ↦ ?_, hs.consumed, fun hasked outcome houtcome ↦ ?_⟩
  · rcases (hs.looked hasked).2 with h' | h' <;> rw [h] at h' <;> cases h'
  · rw [hreturned hasked outcome houtcome]
    exact recordedAsCancelled s

/-- While a chunk is waited for the flag is not set. -/
theorem Sound.not_asked (hs : s.Sound) {since : ℕ} (h : s.phase = .awaiting since) :
    s.asked = false := by
  by_contra hasked
  rcases (hs.looked (by simpa using hasked)).2 with h' | h' <;> rw [h] at h' <;> cases h'

theorem emit_asked : s.emit.asked = s.asked ∧ s.emit.late = s.late := by
  rw [emit]
  split_ifs
  · exact ⟨rfl, rfl⟩
  · exact ⟨rfl, rfl⟩

/-- Where nothing was asked nothing is to be looked at. -/
theorem sound_of_not_asked (h : t.asked = false) (hlate : t.late = 0) : t.Sound :=
  ⟨fun hasked ↦ (by rw [h] at hasked; cases hasked), hlate⟩

theorem Sound.of_next (hs : s.Sound) (ha : s.notAwaited a) (h : s.next a = some t) : t.Sound := by
  rcases a with _ | _ | c | error | _ | _ | info | time <;> rw [next] at h
  case cancel =>
    cases h
    refine ⟨fun hasked ↦ ⟨rfl, ?_⟩, hs.consumed⟩
    rcases hphase : s.phase with _ | since | ⟨done, total⟩ | outcome
    case checking => exact .inl rfl
    case awaiting => exact (ha since hphase).elim
    case inspecting =>
      simp only [hphase, Bool.or_false] at hasked
      rcases (hs.looked hasked).2 with h | h <;> rw [hphase] at h <;> cases h
    case returned =>
      simp only [hphase, Bool.or_false] at hasked
      exact .inr (hphase.symm.trans ((hs.looked hasked).2.resolve_left fun h ↦ by
        rw [hphase] at h; cases h))
  case check =>
    split at h
    · split_ifs at h with hcancel <;> cases h
      · exact ⟨fun hasked ↦ ⟨hcancel, .inr rfl⟩, hs.consumed⟩
      · exact ⟨fun hasked ↦ absurd (hs.looked hasked).1 hcancel, hs.consumed⟩
    · cases h
  case chunk =>
    split at h
    · rename_i since hphase
      have hasked := hs.not_asked hphase
      rw [hasked, if_neg Bool.false_ne_true] at h
      split at h
      · cases h
        exact sound_of_not_asked hasked hs.consumed
      · cases h
        exact sound_of_not_asked (emit_asked.1.trans hasked) (emit_asked.2.trans hs.consumed)
    · cases h
  case broken =>
    split at h
    · rename_i since hphase
      cases h
      exact sound_of_not_asked (hs.not_asked hphase) hs.consumed
    · cases h
  case silent =>
    split at h
    · rename_i since deadline printed hphase hstall
      obtain ⟨-, h⟩ := Option.ite_none_right_eq_some.mp h
      cases h
      exact sound_of_not_asked (hs.not_asked hphase) hs.consumed
    · cases h
  case finish =>
    split at h
    · rename_i since hphase
      cases h
      exact sound_of_not_asked (hs.not_asked hphase) hs.consumed
    · cases h
  case inspected =>
    split at h
    · rename_i done total hphase
      cases h
      refine sound_of_not_asked (Bool.eq_false_iff.mpr fun hasked ↦ ?_) hs.consumed
      rcases (hs.looked hasked).2 with h | h <;> rw [hphase] at h <;> cases h
    · cases h
  case pass =>
    cases h
    exact ⟨hs.looked, hs.consumed⟩

theorem sound_of_init (h : system.init s) : s.Sound := by
  obtain ⟨request, rfl⟩ := h
  exact ⟨fun h ↦ (by cases h), rfl⟩

/-- **A cancelled pull ends as cancelled, where the flag is not set during a wait.** -/
theorem endsAsCancelled_of_notAwaited (h : system.Reachable notAwaited s) : s.EndsAsCancelled :=
  (h.invariant (fun _ ↦ sound_of_init) fun _ _ _ ↦ Sound.of_next).endsAsCancelled

end

instance (s : State) (a : Act) : Decidable (s.notAwaited a) :=
  match a with
  | .cancel =>
    match h : s.phase with
    | .awaiting since => .isFalse fun hne ↦ hne since h
    | .checking | .inspecting .. | .returned _ => .isTrue fun _ h' ↦ by rw [h] at h'; cases h'
  | .check | .chunk _ | .broken _ | .silent | .finish | .inspected _ | .pass _ => .isTrue trivial

/-- A pull that is cancelled when it has counted a chunk. -/
private def cancelledInTime : List Act :=
  [.check, .chunk { status := some "Downloading", id := some "l" }, .cancel, .check]

/-- A pull that is cancelled while the daemon is silent, and falls to its watchdog. -/
private def cancelledInSilence : List Act := [.check, .cancel, .pass 30000, .silent]

private def stalling : Request where
  reference := "r"
  stall := some (30000, "30")

theorem endsAsCancelled_cancelledInTime :
    ∃ s, system.runUnder notAwaited { request := stalling } cancelledInTime = some s ∧
      s.EndsAsCancelled ∧ s.asked := by
  have hrun : (system.runUnder notAwaited { request := stalling } cancelledInTime).map asked =
      some true := by
    rfl
  obtain ⟨s, hs, hasked⟩ := Option.map_eq_some_iff.mp hrun
  exact ⟨s, hs, endsAsCancelled_of_notAwaited
    ⟨_, ⟨stalling, rfl⟩, Transition.System.steps_of_runUnder hs⟩, hasked⟩

/-- A cancel that comes during a silence is answered with a stall. -/
theorem cancelledInSilence_not_endsAsCancelled :
    ∃ s, system.Reachable Transition.Guard.free s ∧ ¬s.EndsAsCancelled := by
  obtain ⟨s, hs, hasked, hphase⟩ : ∃ s : State,
      system.run { request := stalling } cancelledInSilence = some s ∧ s.asked = true ∧
        s.phase = .returned (.error (s.pullStalled "30")) := ⟨_, rfl, rfl, rfl⟩
  refine ⟨s, ⟨_, ⟨stalling, rfl⟩, Transition.System.steps_of_run hs⟩, fun h ↦ ?_⟩
  have htype : "PullStalled" = "PullCancelled" :=
    congrArg OpError.type (Except.error.inj (h.returned hasked _ hphase))
  exact absurd htype (by decide)

end State

end SparkPulse.Agent.PullImage
