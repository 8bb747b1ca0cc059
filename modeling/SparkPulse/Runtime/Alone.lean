import SparkPulse.Program.Solo
import SparkPulse.Runtime.Routine

/-!
# One program alone

A program of the runtime with nobody else on the control plane, and any answers from the nodes. The
facts about single calls that arguments over such runs need: what they add to the trace, and what
they do to the machines.
-/

namespace SparkPulse.Runtime

open Program Prog Transition

/-! ## What calls do to the trace and the machines -/

/-- Whether an event is a container coming into being, or a launch in one. -/
def Event.starts : Event → Bool
  | created .. | launched .. => true
  | _ => false

/-- Whether a call can create a container or launch in one. -/
def Call.starts : Call → Bool
  | node _ _ (.runContainer ..) | node _ _ (.exec _ .launch) => true
  | note e => e.starts
  | _ => false

theorem Routine.starts {s : Scope} {c : Call} (h : Routine s c) : c.starts = false := by
  unfold Call.starts
  split
  · exact absurd h id
  · exact absurd h id
  · exact absurd h id
  · rfl

theorem starts_of_routine {α : Type} {p : Op α} {s : Scope} (h : p.Uses (Routine s)) :
    p.Uses fun c ↦ c.starts = false := h.mono fun _ ↦ Routine.starts

/-- The machines have at most lost containers, by name, and the trace has grown, by nothing that
starts anything. -/
structure World.Shrinks (w w' : World) : Prop where
  containers : ∃ keep : String → String → Bool,
    w'.containers = w.containers.filter fun c ↦ keep c.machine c.name
  trace : ∃ new, w'.trace = new ++ w.trace ∧ ∀ e ∈ new, e.starts = false

namespace World.Shrinks

variable {u v w w' : World}

theorem of_eq (hc : w'.containers = w.containers) (ht : w'.trace = w.trace) : w.Shrinks w' where
  containers := ⟨fun _ _ ↦ true, by simp [hc]⟩
  trace := ⟨[], by simp [ht]⟩

theorem refl (w : World) : w.Shrinks w := of_eq rfl rfl

theorem trans (h : u.Shrinks v) (h' : v.Shrinks w) : u.Shrinks w where
  containers := by
    obtain ⟨keep, hkeep⟩ := h.containers
    obtain ⟨keep', hkeep'⟩ := h'.containers
    refine ⟨fun machine name ↦ keep machine name && keep' machine name, ?_⟩
    rw [hkeep', hkeep, List.filter_filter]
    simp only [Bool.and_comm]
  trace := by
    obtain ⟨new, hnew, hstarts⟩ := h.trace
    obtain ⟨new', hnew', hstarts'⟩ := h'.trace
    refine ⟨new' ++ new, by rw [hnew', hnew, List.append_assoc], fun e he ↦ ?_⟩
    rcases List.mem_append.mp he with he | he
    · exact hstarts' e he
    · exact hstarts e he

theorem log (h : u.Shrinks v) {e : Event} (he : e.starts = false) : u.Shrinks (v.log e) where
  containers := h.containers
  trace := by
    obtain ⟨new, hnew, hstarts⟩ := h.trace
    refine ⟨e :: new, by rw [World.log_trace, hnew]; rfl, fun e' he' ↦ ?_⟩
    rcases List.mem_cons.mp he' with rfl | he'
    · exact he
    · exact hstarts e' he'

/-- Taking away all containers of some names. -/
theorem of_filter (keep : String → String → Bool) (ht : w'.trace = w.trace)
    (hc : w'.containers = w.containers.filter fun c ↦ keep c.machine c.name) : w.Shrinks w' where
  containers := ⟨keep, hc⟩
  trace := ⟨[], by simp [ht]⟩

theorem without (w : World) (machine name : String) :
    w.Shrinks { w with containers := w.without machine name } :=
  of_filter (fun m n ↦ ¬(m = machine ∧ n = name)) rfl rfl

end World.Shrinks

namespace NodeOp

variable {machine : String} {op : NodeOp} {a : Answer} {w w' : World}

/-- Whether an operation can create a container or launch in one. -/
def starts : NodeOp → Bool
  | runContainer .. | exec _ .launch => true
  | _ => false

theorem shrinks_attempted (h : op.starts = false) : w.Shrinks (op.attempted machine a w) := by
  unfold attempted
  split
  · split_ifs
    · exact .without w machine _
    · exact .refl w
  · cases h
  · cases h
  · exact .refl w

theorem attempted_suffix (machine : String) (op : NodeOp) (a : Answer) (w : World) :
    w.trace <:+ (op.attempted machine a w).trace := by
  unfold attempted
  split
  · split_ifs
    · exact List.suffix_rfl
    · exact List.suffix_rfl
  · split_ifs
    · exact List.suffix_cons _ _
    · exact List.suffix_rfl
  · exact List.suffix_cons _ _
  · exact List.suffix_rfl

theorem shrinks_answered {r : op.Reply} (hop : op.starts = false)
    (h : op.answered machine a w = some (r, w')) : w.Shrinks w' := by
  cases op <;> simp only [answered] at h
  case containerStatus name =>
    split at h
    · cases h
      exact (World.Shrinks.without w machine name).log rfl
    · cases h
      exact .refl w
    · split_ifs at h
      cases h
      exact .refl w
  case listManaged deployment =>
    cases h
    refine World.Shrinks.log ?_ rfl
    exact .of_filter (fun m n ↦ ¬(m = machine ∧ n ∈ a.vanished)) rfl rfl
  case runContainer => cases hop
  all_goals
    cases h
    first | exact .refl w | exact shrinks_attempted hop

theorem answered_suffix {r : op.Reply} (h : op.answered machine a w = some (r, w')) :
    w.trace <:+ w'.trace := by
  by_cases hop : op.starts = false
  · obtain ⟨new, hnew, -⟩ := (shrinks_answered hop h).trace
    exact ⟨new, hnew.symm⟩
  · cases op <;> simp only [answered] at h
    case runContainer image name labels =>
      split_ifs at h
      cases h
      exact attempted_suffix machine _ a w
    case exec name command =>
      cases h
      exact attempted_suffix machine _ a w
    all_goals exact absurd rfl hop

end NodeOp

namespace Call

variable {env : Env} {i : Tid} {w w' : World} {a : Answer} {c : Call} {r : c.Ret}

theorem starts_node (phase : Phase) (address : String) (op : NodeOp) :
    (node phase address op).starts = op.starts := by
  unfold starts NodeOp.starts
  split <;> simp_all

/-- A call that starts nothing only takes away. -/
theorem shrinks_of_exec (h : c.exec env i w a = some (r, w')) (hc : c.starts = false) :
    w.Shrinks w' := by
  cases c
  case node phase address op =>
    rw [starts_node] at hc
    simp only [exec] at h
    split at h
    · cases h
      exact (NodeOp.shrinks_attempted hc).log rfl
    · obtain ⟨⟨r', w''⟩, hr, heq⟩ := Option.map_eq_some_iff.mp h
      cases heq
      exact NodeOp.shrinks_answered hc hr
  case note e =>
    cases h
    exact (World.Shrinks.refl w).log hc
  case acquire id =>
    obtain ⟨w'', hw, heq⟩ := Option.map_eq_some_iff.mp h
    cases heq
    unfold World.acquire at hw
    split at hw
    · cases hw
      exact .of_eq rfl rfl
    · split_ifs at hw
      cases hw
      exact .of_eq rfl rfl
  case release id =>
    obtain ⟨w'', hw, heq⟩ := Option.map_eq_some_iff.mp h
    cases heq
    unfold World.release at hw
    split at hw
    · cases hw
    · split_ifs at hw
      all_goals
        cases hw
        exact .of_eq rfl rfl
  case cancelPull id =>
    simp only [exec] at h
    split at h <;> cases h <;> exact .of_eq rfl rfl
  case now =>
    simp only [exec] at h
    split_ifs at h
    cases h
    exact .refl w
  all_goals
    cases h
    first | exact .of_eq rfl rfl | (refine World.Shrinks.log ?_ rfl; exact .of_eq rfl rfl)

/-- The trace only grows. -/
theorem trace_suffix (h : c.exec env i w a = some (r, w')) : w.trace <:+ w'.trace := by
  by_cases hc : c.starts = false
  · obtain ⟨new, hnew, -⟩ := (shrinks_of_exec h hc).trace
    exact ⟨new, hnew.symm⟩
  · cases c
    case node phase address op =>
      simp only [exec] at h
      split at h
      · cases h
        exact (NodeOp.attempted_suffix _ op a w).trans (List.suffix_cons _ _)
      · obtain ⟨⟨r', w''⟩, hr, heq⟩ := Option.map_eq_some_iff.mp h
        cases heq
        exact NodeOp.answered_suffix hr
    case note e =>
      cases h
      exact List.suffix_cons _ _
    all_goals exact absurd rfl hc

end Call

/-! ## A program alone -/

/-- Nobody else is running, and every call keeps the guarantee. -/
def alone (env : Env) (guar : World → World → Prop) : Setting Call.Ret World where
  perform w c r w' := ∃ a, c.exec env 0 w a = some (r, w')
  rely := Eq
  guar := guar

section
variable {α : Type} {env : Env} {guar : World → World → Prop} {w : World}

theorem safe_invoke {c : Call} {Q : c.Ret → World → Prop} {X : Exn → World → Prop} :
    (invoke c).Safe (alone env guar) Q X w ↔
      ∀ r w' a, c.exec env 0 w a = some (r, w') → guar w w' ∧ Q r w' := by
  rw [safe_call]
  constructor
  · intro h r w' a ha
    exact h w rfl r w' ⟨a, ha⟩
  · rintro h _ rfl r w' ⟨a, ha⟩
    exact h r w' a ha

/-- The rule of an operation on a node: it answers, or it raises. -/
theorem safe_node {phase : Phase} {address : String} {op : NodeOp} {Q : op.Reply → World → Prop}
    {X : Exn → World → Prop} (hguar : ∀ r w' a, (Call.node phase address op).exec env 0 w a =
      some (r, w') → guar w w')
    (hok : ∀ r w' a, op.answered (env.machine address) a w = some (r, w') → Q r w')
    (herror : ∀ x a, X x ((op.attempted (env.machine address) a w).log (.raised phase op x))) :
    (node phase address op).Safe (alone env guar) Q X w := by
  rw [node, safe_bind, safe_invoke]
  intro r w' a ha
  refine ⟨hguar r w' a ha, ?_⟩
  simp only [Call.exec] at ha
  split at ha
  · cases ha
    exact herror _ a
  · obtain ⟨⟨r', w''⟩, hr, heq⟩ := Option.map_eq_some_iff.mp ha
    cases heq
    exact hok r' w'' a hr

/-- The frame rule for programs that start nothing. -/
theorem safe_of_uses {p : Op α} {P : World → Prop} (h : p.Uses fun c ↦ c.starts = false)
    (hguar : ∀ w w', w.Shrinks w' → guar w w') (hP : ∀ w w', w.Shrinks w' → P w → P w') (hw : P w) :
    p.Safe (alone env guar) (fun _ ↦ P) (fun _ ↦ P) w := by
  refine h.safe (fun v w hv hvw ↦ hvw ▸ hv) (fun w c r w' hc hw ↦ ?_) hw
  rintro ⟨a, ha⟩
  have hshrinks := Call.shrinks_of_exec ha hc
  exact ⟨hguar w w' hshrinks, hP w w' hshrinks hw⟩

end

/-- The runs of one program from one world. -/
def running {α : Type} (env : Env) (p : Op α) (w : World) :
    System (Threads Unit Call.Ret Exn α World) (Unit × Answer) :=
  Threads.system (fun _ ↦ Call.exec env 0) fun s ↦ s = ⟨fun _ ↦ p, w⟩

/-- The run rule for one program: what every call keeps the run keeps, and a program that has ended
has ended as specified. -/
theorem running_rule {α : Type} {env : Env} {guar : World → World → Prop} {p : Op α} {w : World}
    {Q : α → World → Prop} {X : Exn → World → Prop} {I : World → Prop}
    {t : Threads Unit Call.Ret Exn α World} (h : p.Safe (alone env guar) Q X w)
    (hI : ∀ w w', guar w w' → I w → I w') (hw : I w)
    (ht : (running env p w).Reachable Guard.free t) :
    I t.world ∧ (∀ a, t.pool () = .ret a → Q a t.world) ∧
      (∀ x, t.pool () = .raise x → X x t.world) :=
  Threads.solo_rule h hI hw ht

end SparkPulse.Runtime
