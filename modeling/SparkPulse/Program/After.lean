import SparkPulse.Program.Basic

/-!
# What a program does after an answer

`After A P` says of a program that wherever one of its calls is answered as in `A`, the rest of it
satisfies `P`. `Ends` is the usual thing to say of that rest: which calls it still makes, what it
returns and what it raises. Both compose along the ways programs are put together, so that a claim
about the answer to one call deep in a program becomes a claim about its end.
-/

namespace Program.Prog

universe u v

variable {E : Type u} {R : E → Type v} {ε α β : Type v} {p : Prog E R ε α}

/-! ## How a program ends -/

/-- Every call is in the class `A`, and what is returned or raised is in `Q` or in `X`. -/
def Ends (A : E → Prop) (Q : α → Prop) (X : ε → Prop) : Prog E R ε α → Prop
  | .ret a => Q a
  | .raise x => X x
  | .op e k => A e ∧ ∀ r, (k r).Ends A Q X

section
variable {A : E → Prop} {Q : α → Prop} {X : ε → Prop}

@[simp] theorem ends_pure {a : α} : (pure a : Prog E R ε α).Ends A Q X ↔ Q a := .rfl

@[simp] theorem ends_raise {x : ε} : (.raise x : Prog E R ε α).Ends A Q X ↔ X x := .rfl

theorem ends_call_bind {e : E} {f : R e → Prog E R ε α} (he : A e)
    (hf : ∀ r, (f r).Ends A Q X) : (call e >>= f).Ends A Q X := ⟨he, hf⟩

theorem Ends.mono {Q' : α → Prop} {X' : ε → Prop} (h : p.Ends A Q X) (hQ : ∀ a, Q a → Q' a)
    (hX : ∀ x, X x → X' x) : p.Ends A Q' X' := by
  induction p with
  | ret a => exact hQ a h
  | raise x => exact hX x h
  | op e k ih => exact ⟨h.1, fun r ↦ ih r (h.2 r)⟩

theorem Ends.bind {f : α → Prog E R ε β} {Q' : β → Prop} (h : p.Ends A Q X)
    (hf : ∀ a, Q a → (f a).Ends A Q' X) : (p >>= f).Ends A Q' X := by
  induction p with
  | ret a => exact hf a h
  | raise x => exact h
  | op e k ih => exact ⟨h.1, fun r ↦ ih r (h.2 r)⟩

/-- What is raised comes to be returned. -/
theorem Ends.attempt {Q' : Except ε α → Prop} {X' : ε → Prop} (h : p.Ends A Q X)
    (hok : ∀ a, Q a → Q' (.ok a)) (herror : ∀ x, X x → Q' (.error x)) :
    p.attempt.Ends A Q' X' := by
  induction p with
  | ret a => exact hok a h
  | raise x => exact herror x h
  | op e k ih => exact ⟨h.1, fun r ↦ ih r (h.2 r)⟩

theorem Ends.ensure {cleanup : Prog E R ε PUnit} (h : p.Ends A Q X)
    (hcleanup : cleanup.Ends A (fun _ ↦ True) X) : (p.ensure cleanup).Ends A Q X := by
  have hattempt : p.attempt.Ends A (fun r ↦ (ofExcept r : Prog E R ε α).Ends A Q X) X :=
    h.attempt (fun _ h ↦ h) fun _ h ↦ h
  exact hattempt.bind fun _ hr ↦ hcleanup.bind fun _ _ ↦ hr

end

/-! ## After an answer -/

/-- Wherever a call is answered as in `A`, the rest of the program satisfies `P`. -/
def After (A : ∀ e, R e → Prop) (P : Prog E R ε α → Prop) : Prog E R ε α → Prop
  | .ret _ => True
  | .raise _ => True
  | .op e k => ∀ r, (A e r → P (k r)) ∧ (k r).After A P

section
variable {A : ∀ e, R e → Prop} {P : Prog E R ε α → Prop}

@[simp] theorem after_pure {a : α} : (pure a : Prog E R ε α).After A P := trivial

@[simp] theorem after_raise {x : ε} : (.raise x : Prog E R ε α).After A P := trivial

theorem after_call {e : E} {P : Prog E R ε (R e) → Prop} (h : ∀ r, A e r → P (.ret r)) :
    (call e : Prog E R ε (R e)).After A P := fun r ↦ ⟨h r, trivial⟩

/-- Of fewer answers less is said. -/
theorem After.mono {B : ∀ e, R e → Prop} (h : p.After A P) (hBA : ∀ e r, B e r → A e r) :
    p.After B P := by
  induction p with
  | ret | raise => trivial
  | op e k ih => exact fun r ↦ ⟨fun hr ↦ (h r).1 (hBA e r hr), ih r (h r).2⟩

/-- A program that does not make such calls. -/
theorem Uses.after (h : p.Uses fun e ↦ ∀ r, ¬A e r) : p.After A P := by
  induction p with
  | ret | raise => trivial
  | op e k ih => exact fun r ↦ ⟨fun hr ↦ (h.1 r hr).elim, ih r (h.2 r)⟩

theorem After.bind {f : α → Prog E R ε β} {P' : Prog E R ε β → Prop} (h : p.After A P)
    (hP : ∀ q, P q → P' (q >>= f)) (hf : ∀ a, (f a).After A P') : (p >>= f).After A P' := by
  induction p with
  | ret a => exact hf a
  | raise => trivial
  | op e k ih => exact fun r ↦ ⟨fun hr ↦ hP _ ((h r).1 hr), ih r (h r).2⟩

/-- A program that does not make such calls, and then one that may. -/
theorem Uses.after_bind {f : α → Prog E R ε β} {P' : Prog E R ε β → Prop}
    (h : p.Uses fun e ↦ ∀ r, ¬A e r) (hf : ∀ a, (f a).After A P') : (p >>= f).After A P' :=
  (h.after (P := fun _ ↦ False)).bind (fun _ ↦ False.elim) hf

theorem After.attempt {P' : Prog E R ε (Except ε α) → Prop} (h : p.After A P)
    (hP : ∀ q, P q → P' q.attempt) : p.attempt.After A P' := by
  induction p with
  | ret | raise => trivial
  | op e k ih => exact fun r ↦ ⟨fun hr ↦ hP _ ((h r).1 hr), ih r (h r).2⟩

theorem After.ensure {cleanup : Prog E R ε PUnit} {Q : Prog E R ε α → Prop} (h : p.After A P)
    (hP : ∀ q, P q → Q (q.ensure cleanup)) (hcleanup : cleanup.Uses fun e ↦ ∀ r, ¬A e r) :
    (p.ensure cleanup).After A Q := by
  have hattempt : p.attempt.After A fun q ↦ ∃ q', P q' ∧ q = q'.attempt :=
    h.attempt fun q hq ↦ ⟨q, hq, rfl⟩
  refine hattempt.bind ?_ fun r ↦ (hcleanup.bind fun _ ↦ ?_).after
  · rintro _ ⟨q, hq, rfl⟩
    exact hP q hq
  · rcases r with _ | _ <;> trivial

theorem After.ite {c : Prop} [Decidable c] {q : Prog E R ε α} (h : c → p.After A P)
    (h' : ¬c → q.After A P) : (if c then p else q).After A P := by
  by_cases hc : c
  · rw [if_pos hc]
    exact h hc
  · rw [if_neg hc]
    exact h' hc

end

end Program.Prog
