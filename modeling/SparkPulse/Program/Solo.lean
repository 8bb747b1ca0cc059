import SparkPulse.Program.Threads

/-!
# One program and its surroundings

The machine of one thread: a single program whose calls are answered out of a world that others may
change. What the others do is part of how a call is executed, so that the schedule decides it
together with the answer.

Such a run comes to its end whatever the replies are: a program is a well-founded tree, and each
step goes down one branch of it.
-/

namespace Program.Threads

open Transition

universe u v w

variable {E : Type u} {R : E → Type v} {ε α : Type v} {W : Type w} {A : Type}

/-- The runs of one program from one world. -/
def solo (exec : W → (e : E) → A → Option (R e × W)) (p : Prog E R ε α) (w : W) :
    System (Threads Unit R ε α W) (Unit × A) :=
  system (fun _ ↦ exec) fun s ↦ s = ⟨fun _ ↦ p, w⟩

/-- The program has come to its end, with what it returns or raises. -/
def Ended (s : Threads Unit R ε α W) (result : Except ε α) : Prop := s.pool () = .ofExcept result

/-- What the program has come to, when it has ended. -/
def result (s : Threads Unit R ε α W) : Option (Except ε α) :=
  match s.pool () with
  | .ret a => some (.ok a)
  | .raise x => some (.error x)
  | .op .. => none

theorem ended_iff {s : Threads Unit R ε α W} {r : Except ε α} :
    s.Ended r ↔ s.result = some r := by
  rw [Ended, result]
  rcases s.pool () with a | x | ⟨e, k⟩ <;> rcases r with y | b <;>
    simp [Prog.ofExcept]

/-- The setting of a program alone: all that happens beside it happens in its calls. -/
def solitude (exec : W → (e : E) → A → Option (R e × W)) (guar : W → W → Prop) : Setting R W where
  perform w e r w' := ∃ a, exec w e a = some (r, w')
  rely v w := v = w
  guar := guar

variable {exec : W → (e : E) → A → Option (R e × W)} {guar : W → W → Prop} {p : Prog E R ε α}
  {w : W} {t : Threads Unit R ε α W}

/-- The run rule for one program: what every call keeps the run keeps, and a program that has ended
has ended as specified. -/
theorem solo_rule {Q : α → W → Prop} {X : ε → W → Prop} {I : W → Prop}
    (h : p.Safe (solitude exec guar) Q X w) (hI : ∀ w w', guar w w' → I w → I w') (hw : I w)
    (ht : (solo exec p w).Reachable Guard.free t) :
    I t.world ∧ (∀ a, t.pool () = .ret a → Q a t.world) ∧
      (∀ x, t.pool () = .raise x → X x t.world) := by
  obtain ⟨_, rfl, hsteps⟩ := ht
  have hcompatible : Compatible fun _ : Unit ↦ solitude exec guar :=
    ⟨fun _ _ ↦ rfl, fun _ _ _ _ ↦ Eq.trans, fun i j hij ↦ absurd (Subsingleton.elim i j) hij⟩
  have hpoised : Poised (fun _ : Unit ↦ solitude exec guar) (fun _ ↦ Q) (fun _ ↦ X)
      ⟨fun _ ↦ p, w⟩ := hcompatible.poised fun _ ↦ h
  obtain ⟨hend, hIt⟩ := hpoised.steps (g := fun _ _ _ ↦ True) hcompatible
    (fun _ w e r w' hp ↦ hp.2) (fun _ ↦ hI)
    (hsteps.mono fun s a _ ↦ by unfold stepGuard; split <;> trivial) hw
  exact ⟨hIt, hend.ended fun _ _ ↦ id⟩

/-- The one thing a step can be: the next call of the program, answered. -/
theorem solo_next_cases {s : Threads Unit R ε α W} {a : Unit × A}
    (h : next (fun _ ↦ exec) s a = some t) :
    ∃ e k r, s.pool () = .op e k ∧ exec s.world e a.2 = some (r, t.world) ∧ t.pool () = k r := by
  rw [next] at h
  split at h
  · cases h
  · cases h
  next e k hp =>
    obtain ⟨⟨r, w'⟩, hr, rfl⟩ := Option.map_eq_some_iff.mp h
    have hself : Function.update s.pool () (k r) () = k r := Function.update_self ..
    exact ⟨e, k, r, hp, hr, hself⟩

/-- The calls still to come are among those the program began with. -/
theorem uses_of_solo {B : E → Prop} (hp : p.Uses B) (ht : (solo exec p w).Reachable Guard.free t) :
    (t.pool ()).Uses B := by
  refine ht.invariant (I := fun t ↦ (t.pool ()).Uses B) ?_ ?_
  · rintro _ rfl
    exact hp
  · rintro s a u hs - hn
    obtain ⟨e, k, r, hpool, -, hu⟩ := solo_next_cases hn
    rw [hpool] at hs
    rw [hu]
    exact hs.2 r

/-- A program whose calls can always be answered goes on until it has ended. -/
theorem ended_or_next (hp : p.Uses fun e ↦ ∀ w, ∃ a, (exec w e a).isSome = true)
    (ht : (solo exec p w).Reachable Guard.free t) :
    (∃ r, t.Ended r) ∨ ∃ a u, (solo exec p w).next t a = some u := by
  have hrest := uses_of_solo hp ht
  rcases hpool : t.pool () with a | x | ⟨e, k⟩
  · exact .inl ⟨.ok a, hpool⟩
  · exact .inl ⟨.error x, hpool⟩
  · rw [hpool] at hrest
    obtain ⟨a, ha⟩ := hrest.1 t.world
    obtain ⟨⟨r, w'⟩, hr⟩ := Option.isSome_iff_exists.mp ha
    refine .inr ⟨((), a), ⟨Function.update t.pool () (k r), w'⟩, ?_⟩
    simp only [solo, system, next, hpool, hr, Option.map_some]

/-- No run goes on for ever. -/
theorem solo_ends (run : ℕ → Threads Unit R ε α W) :
    ¬∀ n, ∃ a, (solo exec p w).next (run n) a = some (run (n + 1)) := by
  intro hrun
  have hends : ∀ (q : Prog E R ε α) (run : ℕ → Threads Unit R ε α W), (run 0).pool () = q →
      ¬∀ n, ∃ a, (solo exec p w).next (run n) a = some (run (n + 1)) := by
    intro q
    induction q with
    | ret | raise =>
      intro run h₀ hrun
      obtain ⟨a, ha⟩ := hrun 0
      obtain ⟨e, k, r, hpool, -⟩ := solo_next_cases ha
      rw [h₀] at hpool
      cases hpool
    | op e k ih =>
      intro run h₀ hrun
      obtain ⟨a, ha⟩ := hrun 0
      obtain ⟨e', k', r, hpool, -, hnext⟩ := solo_next_cases ha
      rw [h₀] at hpool
      obtain ⟨rfl, hk⟩ := Prog.op.inj hpool
      obtain rfl := eq_of_heq hk
      exact ih r (fun n ↦ run (n + 1)) hnext fun n ↦ hrun (n + 1)
  exact hends _ run rfl hrun

end Program.Threads
