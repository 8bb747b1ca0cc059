import Mathlib.Logic.Relation
import Mathlib.Data.List.Basic

/-!
# Deterministic labelled systems and guarded runs

A system is given by its initial states and a partial successor function: an action either applies
in a state, and then determines the next one, or it does not. All the nondeterminism of an
interleaving is in the choice of the action, so a schedule is a list of actions and can be run.

A *guard* is a relation between a state and the action about to be taken in it. Runs under a guard
are the runs every step of which satisfies it; the free guard gives all runs. Guards are what an
assumption about an environment, or the exact condition under which an implementation is right,
looks like from the outside: they constrain the state before a step, never its result.
-/

namespace Transition

universe u v

variable {σ : Type u} {α : Type v}

/-- Initial states and a partial, deterministic successor function. -/
structure System (σ : Type u) (α : Type v) where
  /-- The states a run may start from. -/
  init : σ → Prop
  /-- The state an action leads to, when the action applies. -/
  next : σ → α → Option σ

/-- A condition on the state before a step and the action taken in it. -/
abbrev Guard (σ : Type u) (α : Type v) := σ → α → Prop

/-- The guard that admits every step. -/
def Guard.free : Guard σ α := fun _ _ ↦ True

namespace System

variable (S : System σ α)

/-! ## Runs -/

/-- Run a schedule, failing at the first action that does not apply. -/
def run : σ → List α → Option σ
  | s, [] => some s
  | s, a :: as => (S.next s a).bind fun t ↦ run t as

@[simp] theorem run_nil (s : σ) : S.run s [] = some s := rfl

theorem run_cons (s : σ) (a : α) (as : List α) :
    S.run s (a :: as) = (S.next s a).bind fun t ↦ S.run t as := rfl

theorem run_append (s : σ) (as bs : List α) :
    S.run s (as ++ bs) = (S.run s as).bind fun t ↦ S.run t bs := by
  induction as generalizing s with
  | nil => rfl
  | cons a as ih =>
    rw [List.cons_append, run_cons, run_cons, Option.bind_assoc]
    congr 1
    funext t
    exact ih t

/-- `S.Steps G s t`: a run from `s` to `t` every step of which satisfies the guard. -/
inductive Steps (G : Guard σ α) (s : σ) : σ → Prop
  /-- The empty run. -/
  | refl : Steps G s s
  /-- One more guarded step at the end of a run. -/
  | tail {t u : σ} {a : α} : Steps G s t → G t a → S.next t a = some u → Steps G s u

/-- The states guarded runs from an initial state end in. -/
def Reachable (G : Guard σ α) (t : σ) : Prop := ∃ s, S.init s ∧ S.Steps G s t

variable {S} {G H : Guard σ α} {s t u : σ}

theorem Steps.single {a : α} (hG : G s a) (h : S.next s a = some t) : S.Steps G s t :=
  .tail .refl hG h

theorem Steps.trans (hst : S.Steps G s t) (htu : S.Steps G t u) : S.Steps G s u := by
  induction htu with
  | refl => exact hst
  | tail _ hG h ih => exact .tail ih hG h

/-- A run under a guard is a run under every weaker one. -/
theorem Steps.mono (hGH : ∀ s a, G s a → H s a) (h : S.Steps G s t) : S.Steps H s t := by
  induction h with
  | refl => exact .refl
  | tail _ hG hn ih => exact .tail ih (hGH _ _ hG) hn

theorem Reachable.init (h : S.init s) : S.Reachable G s := ⟨s, h, .refl⟩

theorem Reachable.steps (h : S.Reachable G s) (hst : S.Steps G s t) : S.Reachable G t := by
  obtain ⟨s₀, h₀, hs⟩ := h
  exact ⟨s₀, h₀, hs.trans hst⟩

theorem Reachable.next {a : α} (h : S.Reachable G s) (hG : G s a) (hn : S.next s a = some t) :
    S.Reachable G t := h.steps (.single hG hn)

/-! ## Invariants -/

/-- `I` is preserved by every guarded step. -/
def Preserves (S : System σ α) (G : Guard σ α) (I : σ → Prop) : Prop :=
  ∀ ⦃s : σ⦄ ⦃a : α⦄ ⦃t : σ⦄, I s → G s a → S.next s a = some t → I t

/-- The run rule: what each guarded step preserves, a guarded run preserves. -/
theorem Steps.invariant {I : σ → Prop} (hI : S.Preserves G I) (h : S.Steps G s t) (hs : I s) :
    I t := by
  induction h with
  | refl => exact hs
  | tail _ hG hn ih => exact hI ih hG hn

/-- The invariant rule for reachable states. -/
theorem Reachable.invariant {I : σ → Prop} (hinit : ∀ s, S.init s → I s) (hI : S.Preserves G I)
    (h : S.Reachable G t) : I t := by
  obtain ⟨s, hs, hst⟩ := h
  exact hst.invariant hI (hinit s hs)

/-- A preserved property may be strengthened by one already known to be preserved. -/
theorem Preserves.and {I J : σ → Prop} (hI : S.Preserves G I)
    (hJ : ∀ ⦃s : σ⦄ ⦃a : α⦄ ⦃t : σ⦄, I s → J s → G s a → S.next s a = some t → J t) :
    S.Preserves G fun s ↦ I s ∧ J s :=
  fun _ _ _ hs hG hn ↦ ⟨hI hs.1 hG hn, hJ hs.1 hs.2 hG hn⟩

/-! ## Schedules and runs -/

/-- Run a schedule, failing at the first action that does not apply or breaks the guard. -/
def runUnder (S : System σ α) (G : Guard σ α) [∀ s a, Decidable (G s a)] :
    σ → List α → Option σ
  | s, [] => some s
  | s, a :: as => if G s a then (S.next s a).bind fun t ↦ runUnder S G t as else none

/-- A schedule that runs under the guard is a guarded run. -/
theorem steps_of_runUnder [∀ s a, Decidable (G s a)] {as : List α}
    (h : S.runUnder G s as = some t) : S.Steps G s t := by
  induction as generalizing s with
  | nil =>
    obtain rfl : s = t := by simpa [runUnder] using h
    exact .refl
  | cons a as ih =>
    by_cases hG : G s a
    · rw [runUnder, if_pos hG, Option.bind_eq_some_iff] at h
      obtain ⟨u, hu, h⟩ := h
      exact (Steps.single hG hu).trans (ih h)
    · rw [runUnder, if_neg hG] at h
      cases h

/-- A schedule that runs is a run. -/
theorem steps_of_run {as : List α} (h : S.run s as = some t) : S.Steps Guard.free s t := by
  induction as generalizing s with
  | nil =>
    obtain rfl : s = t := by simpa using h
    exact .refl
  | cons a as ih =>
    rw [run_cons, Option.bind_eq_some_iff] at h
    obtain ⟨u, hu, h⟩ := h
    exact (Steps.single trivial hu).trans (ih h)

/-- Every guarded run is the run of some schedule. -/
theorem Steps.exists_run (h : S.Steps G s t) : ∃ as, S.run s as = some t := by
  induction h with
  | refl => exact ⟨[], rfl⟩
  | tail _ _ hn ih =>
    obtain ⟨as, has⟩ := ih
    exact ⟨as ++ [_], by rw [run_append, has, Option.bind_some, run_cons, hn]; rfl⟩

end System

end Transition
