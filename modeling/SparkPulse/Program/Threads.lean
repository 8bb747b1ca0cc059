import Mathlib.Logic.Function.Basic
import SparkPulse.Program.Basic
import SparkPulse.Transition.System

/-!
# Threads over one world

A machine runs a family of programs over a shared world, one call at a time. Each call is answered
by an oracle value of the schedule, so that a schedule determines the run and everything an
environment can do is a choice of the schedule.

The parallel rule is the usual one: if each thread keeps its guarantee as long as the others keep
to what it relies on, and every guarantee is within what the others rely on, then all of them do.
-/

namespace Program

open Transition

universe u v w

variable {Tid : Type} [DecidableEq Tid] {E : Type u} {R : E → Type v} {ε α : Type v} {W : Type w}
  {A : Type}

/-- The programs still to run, and the world. -/
structure Threads (Tid : Type) (R : E → Type v) (ε α : Type v) (W : Type w) where
  pool : Tid → Prog E R ε α
  world : W

namespace Threads

/-- The effect of a call by a thread, under an oracle value; `none` when the oracle value is no
answer to it, or the call has to wait. -/
abbrev Exec (Tid : Type) (R : E → Type v) (W : Type w) (A : Type) :=
  Tid → W → (e : E) → A → Option (R e × W)

/-- A condition on a call, in the world it is made in. -/
abbrev CallGuard (Tid : Type) (E : Type u) (W : Type w) := Tid → W → E → Prop

/-- One call by one thread. -/
def next (exec : Exec Tid R W A) (s : Threads Tid R ε α W) (a : Tid × A) :
    Option (Threads Tid R ε α W) :=
  match s.pool a.1 with
  | .ret _ | .raise _ => none
  | .op e k => (exec a.1 s.world e a.2).map fun r ↦ ⟨Function.update s.pool a.1 (k r.1), r.2⟩

/-- The system of all interleavings of the threads. -/
def system (exec : Exec Tid R W A) (init : Threads Tid R ε α W → Prop) :
    System (Threads Tid R ε α W) (Tid × A) where
  init := init
  next := next exec

/-- The guard on steps that a condition on calls is. -/
def stepGuard (g : CallGuard Tid E W) : Guard (Threads Tid R ε α W) (Tid × A) := fun s a ↦
  match s.pool a.1 with
  | .ret _ | .raise _ => True
  | .op e _ => g a.1 s.world e

instance (g : CallGuard Tid E W) [∀ i w e, Decidable (g i w e)] (s : Threads Tid R ε α W)
    (a : Tid × A) : Decidable (stepGuard g s a) := by
  unfold stepGuard
  split <;> infer_instance

/-- What a call by thread `i` can do under a guard. -/
def performs (exec : Exec Tid R W A) (g : CallGuard Tid E W) (i : Tid) (w : W) (e : E) (r : R e)
    (w' : W) : Prop :=
  g i w e ∧ ∃ a, exec i w e a = some (r, w')

variable {exec : Exec Tid R W A} {g : CallGuard Tid E W} {init : Threads Tid R ε α W → Prop}
  {s t : Threads Tid R ε α W}

/-- The one thing a step can be: a call of one thread, answered. -/
theorem next_cases {a : Tid × A} (hG : stepGuard g s a) (h : next exec s a = some t) :
    ∃ e k r, s.pool a.1 = .op e k ∧ performs exec g a.1 s.world e r t.world ∧
      t.pool = Function.update s.pool a.1 (k r) := by
  rw [next] at h
  rw [stepGuard] at hG
  split at h
  · cases h
  · cases h
  next e k hp =>
    rw [hp] at hG
    obtain ⟨⟨r, w'⟩, hr, rfl⟩ := Option.map_eq_some_iff.mp h
    exact ⟨e, k, r, hp, ⟨hG, a.2, hr⟩, rfl⟩

/-- A thread that takes no step in a run is left where it was. -/
theorem pool_of_run {i : Tid} {as : List (Tid × A)} (hi : ∀ a ∈ as, a.1 ≠ i)
    (h : (system exec init).run s as = some t) : t.pool i = s.pool i := by
  induction as generalizing s with
  | nil =>
    obtain rfl := Option.some.inj h
    rfl
  | cons a as ih =>
    rw [System.run_cons] at h
    obtain ⟨u, hu, hrest⟩ := Option.bind_eq_some_iff.mp h
    obtain ⟨e, k, r, -, -, hpool⟩ := next_cases (g := fun _ _ _ ↦ True) (s := s) (a := a) (by
      unfold stepGuard
      split <;> trivial) hu
    rw [ih (fun b hb ↦ hi b (List.mem_cons_of_mem _ hb)) hrest, hpool,
      Function.update_of_ne (hi a List.mem_cons_self).symm]

/-! ## The parallel rule -/

section
variable (S : Tid → Setting R W) (Q : Tid → α → W → Prop) (X : Tid → ε → W → Prop)

/-- Each thread is as its specification left it, up to what it relies on since its last call. -/
def Poised (s : Threads Tid R ε α W) : Prop :=
  ∀ i, ∃ v, (S i).rely v s.world ∧ (s.pool i).Safe (S i) (Q i) (X i) v

/-- Guarantees are preorders that stay within what the other threads rely on. -/
structure Compatible (S : Tid → Setting R W) : Prop where
  refl : ∀ i w, (S i).rely w w
  trans : ∀ i u v w, (S i).rely u v → (S i).rely v w → (S i).rely u w
  par : ∀ i j, i ≠ j → ∀ v w, (S i).guar v w → (S j).rely v w

variable {S Q X}

omit [DecidableEq Tid] in
theorem Compatible.poised (hS : Compatible S) (h : ∀ i, (s.pool i).Safe (S i) (Q i) (X i) s.world) :
    Poised S Q X s := fun i ↦ ⟨s.world, hS.refl i _, h i⟩

/-- The step rule: a step of one thread keeps its guarantee, and leaves all threads poised. -/
theorem Poised.next {a : Tid × A} (hS : Compatible S)
    (hperform : ∀ i w e r w', performs exec g i w e r w' → (S i).perform w e r w')
    (hs : Poised S Q X s) (hG : stepGuard g s a) (h : Threads.next exec s a = some t) :
    (S a.1).guar s.world t.world ∧ Poised S Q X t := by
  obtain ⟨e, k, r, hp, hr, ht⟩ := next_cases hG h
  obtain ⟨v, hv, hsafe⟩ := hs a.1
  rw [hp] at hsafe
  obtain ⟨hg, hk⟩ := hsafe _ hv r _ (hperform _ _ _ _ _ hr)
  refine ⟨hg, fun i ↦ ?_⟩
  by_cases hi : i = a.1
  · subst hi
    refine ⟨t.world, hS.refl _ _, ?_⟩
    rw [ht, Function.update_self]
    exact hk
  · obtain ⟨v', hv', hsafe'⟩ := hs i
    refine ⟨v', hS.trans i _ _ _ hv' (hS.par _ _ (Ne.symm hi) _ _ hg), ?_⟩
    rw [ht, Function.update_of_ne hi]
    exact hsafe'

/-- The parallel rule: over a whole run the threads stay poised, and what every guarantee keeps
the run keeps. -/
theorem Poised.steps {I : W → Prop} (hS : Compatible S)
    (hperform : ∀ i w e r w', performs exec g i w e r w' → (S i).perform w e r w')
    (hI : ∀ i w w', (S i).guar w w' → I w → I w')
    (h : (system exec init).Steps (stepGuard g) s t) (hs : Poised S Q X s) (hw : I s.world) :
    Poised S Q X t ∧ I t.world := by
  refine h.invariant (I := fun s ↦ Poised S Q X s ∧ I s.world) ?_ ⟨hs, hw⟩
  rintro s a t ⟨hs, hw⟩ hG hn
  obtain ⟨hg, ht⟩ := hs.next hS hperform hG hn
  exact ⟨ht, hI _ _ _ hg hw⟩

end

/-! ## An invariant, and what each thread is left -/

section
variable {I : W → Prop} {Keeps : Tid → W → W → Prop}

/-- Threads that keep an invariant of the world, and of each other what `Keeps` says: `Keeps i v w`
is what the other threads leave to thread `i` from `v` to `w`. -/
def sharing (exec : Exec Tid R W A) (g : CallGuard Tid E W) (I : W → Prop)
    (Keeps : Tid → W → W → Prop) (i : Tid) : Setting R W where
  perform := performs exec g i
  rely v w := I v → I w ∧ Keeps i v w
  guar v w := I v → I w ∧ ∀ j, j ≠ i → Keeps j v w

omit [DecidableEq Tid] in
theorem compatible_sharing (hrefl : ∀ i w, Keeps i w w)
    (htrans : ∀ i u v w, Keeps i u v → Keeps i v w → Keeps i u w) :
    Compatible (sharing exec g I Keeps) where
  refl i w hw := ⟨hw, hrefl i w⟩
  trans i u v w huv hvw hu := by
    obtain ⟨hv, huv⟩ := huv hu
    obtain ⟨hw, hvw⟩ := hvw hv
    exact ⟨hw, htrans i u v w huv hvw⟩
  par i j hij v w h hv := ⟨(h hv).1, (h hv).2 j (Ne.symm hij)⟩

omit [DecidableEq Tid] in
/-- The rule for one call of a thread that shares the world: what it knows must be kept by the
others, and its call must keep the invariant and what the others are left. -/
theorem safe_sharing_op {i : Tid} {e : E} {k : R e → Prog E R ε α} {Q : α → W → Prop}
    {X : ε → W → Prop} {P : W → Prop} {w : W}
    (hP : ∀ u v, Keeps i u v → P u → P v) (hw : I w ∧ P w)
    (hcall : ∀ v r v', I v → P v → performs exec g i v e r v' →
      (I v' ∧ ∀ j, j ≠ i → Keeps j v v') ∧ (k r).Safe (sharing exec g I Keeps i) Q X v') :
    (Prog.op e k).Safe (sharing exec g I Keeps i) Q X w := by
  intro v hv r v' hr
  obtain ⟨hI, hkeep⟩ := hv hw.1
  obtain ⟨hg, hk⟩ := hcall v r v' hI (hP w v hkeep hw.2) hr
  exact ⟨fun _ ↦ hg, hk⟩

omit [DecidableEq Tid] in
/-- Where a thread that shares the world ends, the invariant holds. -/
theorem safe_sharing_inv {i : Tid} {p : Prog E R ε α} {Q : α → W → Prop} {X : ε → W → Prop} {w : W}
    (h : p.Safe (sharing exec g I Keeps i) Q X w) (hw : I w) :
    p.Safe (sharing exec g I Keeps i) (fun a w ↦ I w ∧ Q a w) (fun x w ↦ I w ∧ X x w) w := by
  induction p generalizing w with
  | ret a => exact ⟨hw, h⟩
  | raise x => exact ⟨hw, h⟩
  | op e k ih =>
    intro v hv r v' hr
    obtain ⟨hg, hk⟩ := h v hv r v' hr
    exact ⟨hg, ih r hk (hg (hv hw).1).1⟩

/-- The parallel rule for threads that share the world. -/
theorem Poised.sharing_steps {Q : Tid → α → W → Prop} {X : Tid → ε → W → Prop}
    (hS : Compatible (sharing exec g I Keeps))
    (h : (system exec init).Steps (stepGuard g) s t) (hI : I s.world)
    (hs : ∀ i, (s.pool i).Safe (sharing exec g I Keeps i) (Q i) (X i) s.world) :
    Poised (sharing exec g I Keeps) Q X t ∧ I t.world :=
  Poised.steps hS (fun _ _ _ _ _ h ↦ h) (fun _ _ _ hg hI ↦ (hg hI).1) h (hS.poised hs) hI

/-- What others keep holds of a thread that has ended. -/
theorem Poised.sharing_ended {Q : Tid → α → W → Prop} {X : Tid → ε → W → Prop}
    (hQ : ∀ i a v w, Keeps i v w → Q i a v → Q i a w)
    (hX : ∀ i x v w, Keeps i v w → X i x v → X i x w)
    (hS : Compatible (sharing exec g I Keeps))
    (h : (system exec init).Steps (stepGuard g) s t) (hI : I s.world)
    (hs : ∀ i, (s.pool i).Safe (sharing exec g I Keeps i) (Q i) (X i) s.world) :
    (∀ i a, t.pool i = .ret a → Q i a t.world) ∧ ∀ i x, t.pool i = .raise x → X i x t.world := by
  have hposed := (Poised.sharing_steps hS h hI fun i ↦ safe_sharing_inv (hs i) hI).1
  refine ⟨fun i a ha ↦ ?_, fun i x hx ↦ ?_⟩
  · obtain ⟨v, hrely, hsafe⟩ := hposed i
    rw [ha] at hsafe
    exact hQ i a v _ (hrely hsafe.1).2 hsafe.2
  · obtain ⟨v, hrely, hsafe⟩ := hposed i
    rw [hx] at hsafe
    exact hX i x v _ (hrely hsafe.1).2 hsafe.2

end

/-! ## One thread alone -/

section
variable {S : Tid → Setting R W} {Q : Tid → α → W → Prop} {X : Tid → ε → W → Prop} {i : Tid}

omit [DecidableEq Tid] in
/-- A thread that has ended ended as specified, when nobody else was running. -/
theorem Poised.ended (hs : Poised S Q X s) (hrely : ∀ v w, (S i).rely v w → v = w) :
    (∀ a, s.pool i = .ret a → Q i a s.world) ∧ (∀ x, s.pool i = .raise x → X i x s.world) := by
  obtain ⟨v, hv, hsafe⟩ := hs i
  obtain rfl := hrely _ _ hv
  refine ⟨fun a ha ↦ ?_, fun x hx ↦ ?_⟩
  · rwa [ha] at hsafe
  · rwa [hx] at hsafe

end

end Threads

end Program
