import Mathlib.Logic.Basic

/-!
# Programs over named calls

A program either returns, raises, or makes a call and continues with its reply. The calls it can
make are a type `E`, and `R e` is the type of the replies to `e`. What a call does is not part of
a program: it is given by a *setting*, which says which replies and which next worlds a call can
have, what the rest of the world may do between two calls, and what the program owes the rest of
the world in return.

`Safe` is the meaning of a specification in a setting. It is defined by recursion on the program,
so it holds of a program cut short after any number of calls, and of one that waits for ever.

## Main definitions

* `Program.Prog`: programs, with `attempt` and `ensure` for handlers and clean-up.
* `Program.Setting`, `Program.Prog.Safe`: specifications.
* `Program.Prog.Uses`, `Program.Prog.Yields`, `Program.Prog.Raises`: the calls a program makes, what
  it returns and what it raises, whatever the replies.

## Main results

* `Program.Prog.safe_bind`, `Program.Prog.safe_attempt`: specifications compose.
* `Program.Prog.Uses.safe`: what every call of a class preserves, a program making only calls of
  that class preserves.
-/

namespace Program

universe u v w

/-- A program that makes calls in `E`, raises in `ε` and returns in `α`. -/
inductive Prog (E : Type u) (R : E → Type v) (ε : Type v) (α : Type v) : Type (max u v)
  | ret (a : α)
  | raise (x : ε)
  | op (e : E) (k : R e → Prog E R ε α)

namespace Prog

variable {E : Type u} {R : E → Type v} {ε α β : Type v}

/-- Make one call. -/
def call (e : E) : Prog E R ε (R e) := .op e .ret

/-- Sequencing: what the first program raises goes past the second. -/
protected def bind : Prog E R ε α → (α → Prog E R ε β) → Prog E R ε β
  | .ret a, f => f a
  | .raise x, _ => .raise x
  | .op e k, f => .op e fun r ↦ (k r).bind f

instance : Monad (Prog E R ε) where
  pure := .ret
  bind := Prog.bind

/-- Run a program and report what it raised as a value. -/
def attempt : Prog E R ε α → Prog E R ε (Except ε α)
  | .ret a => .ret (.ok a)
  | .raise x => .ret (.error x)
  | .op e k => .op e fun r ↦ (k r).attempt

/-- Return what was returned, raise what was raised. -/
def ofExcept : Except ε α → Prog E R ε α
  | .ok a => .ret a
  | .error x => .raise x

/-- Run a program and then a clean-up, whatever happened. -/
def ensure (p : Prog E R ε α) (cleanup : Prog E R ε PUnit) : Prog E R ε α := do
  let outcome ← p.attempt
  cleanup
  ofExcept outcome

end Prog

/-! ## Settings -/

/-- What surrounds a program: the effect of its calls, the steps of others between two of them,
and the steps it may take itself. -/
structure Setting {E : Type u} (R : E → Type v) (W : Type w) where
  /-- A call in a world may be answered so and lead to this world. -/
  perform : W → (e : E) → R e → W → Prop
  /-- What others may do between two calls. -/
  rely : W → W → Prop
  /-- What each call of the program must amount to. -/
  guar : W → W → Prop

namespace Prog

variable {E : Type u} {R : E → Type v} {ε α β : Type v} {W : Type w} (S : Setting R W)

/-- From this world on every call keeps the guarantee, and the program ends, if it does, in a
world that satisfies the postcondition for the value returned or raised. -/
def Safe : Prog E R ε α → (α → W → Prop) → (ε → W → Prop) → W → Prop
  | .ret a, Q, _, w => Q a w
  | .raise x, _, X, w => X x w
  | .op e k, Q, X, w =>
    ∀ w₁, S.rely w w₁ → ∀ r w₂, S.perform w₁ e r w₂ → S.guar w₁ w₂ ∧ (k r).Safe Q X w₂

variable {S} {Q Q' : α → W → Prop} {X X' : ε → W → Prop} {w : W} {p : Prog E R ε α}

@[simp] theorem safe_ret {a : α} : (.ret a : Prog E R ε α).Safe S Q X w ↔ Q a w := .rfl

@[simp] theorem safe_pure {a : α} : (pure a : Prog E R ε α).Safe S Q X w ↔ Q a w := .rfl

@[simp] theorem safe_raise {x : ε} : (.raise x : Prog E R ε α).Safe S Q X w ↔ X x w := .rfl

theorem safe_call {e : E} {Q : R e → W → Prop} : (call e : Prog E R ε (R e)).Safe S Q X w ↔
    ∀ w₁, S.rely w w₁ → ∀ r w₂, S.perform w₁ e r w₂ → S.guar w₁ w₂ ∧ Q r w₂ := .rfl

/-- The rule of consequence. -/
theorem Safe.mono (h : p.Safe S Q X w) (hQ : ∀ a w, Q a w → Q' a w)
    (hX : ∀ x w, X x w → X' x w) : p.Safe S Q' X' w := by
  induction p generalizing w with
  | ret a => exact hQ a w h
  | raise x => exact hX x w h
  | op e k ih =>
    intro w₁ hw₁ r w₂ hp
    obtain ⟨hg, hk⟩ := h w₁ hw₁ r w₂ hp
    exact ⟨hg, ih r hk⟩

/-- Two specifications of one program hold together. -/
theorem Safe.and (h : p.Safe S Q X w) (h' : p.Safe S Q' X' w) :
    p.Safe S (fun a w ↦ Q a w ∧ Q' a w) (fun x w ↦ X x w ∧ X' x w) w := by
  induction p generalizing w with
  | ret a => exact ⟨h, h'⟩
  | raise x => exact ⟨h, h'⟩
  | op e k ih =>
    intro w₁ hw₁ r w₂ hp
    obtain ⟨hg, hk⟩ := h w₁ hw₁ r w₂ hp
    exact ⟨hg, ih r hk (h' w₁ hw₁ r w₂ hp).2⟩

/-- The rule of sequencing. -/
@[simp] theorem safe_bind {f : α → Prog E R ε β} {Q : β → W → Prop} :
    (p >>= f).Safe S Q X w ↔ p.Safe S (fun a w ↦ (f a).Safe S Q X w) X w := by
  induction p generalizing w with
  | ret a => exact .rfl
  | raise x => exact .rfl
  | op e k ih =>
    refine forall_congr' fun w₁ ↦ forall_congr' fun _ ↦ forall_congr' fun r ↦
      forall_congr' fun w₂ ↦ forall_congr' fun _ ↦ and_congr_right fun _ ↦ ?_
    exact ih r

/-- The rule of handlers. -/
@[simp] theorem safe_attempt {Q : Except ε α → W → Prop} :
    p.attempt.Safe S Q X w ↔ p.Safe S (fun a w ↦ Q (.ok a) w) (fun x w ↦ Q (.error x) w) w := by
  induction p generalizing w with
  | ret a => exact .rfl
  | raise x => exact .rfl
  | op e k ih =>
    refine forall_congr' fun w₁ ↦ forall_congr' fun _ ↦ forall_congr' fun r ↦
      forall_congr' fun w₂ ↦ forall_congr' fun _ ↦ and_congr_right fun _ ↦ ?_
    exact ih r

/-- The rule of clean-up. -/
theorem safe_ensure {cleanup : Prog E R ε PUnit} : (p.ensure cleanup).Safe S Q X w ↔
    p.Safe S (fun a w ↦ cleanup.Safe S (fun _ w ↦ Q a w) X w)
      (fun x w ↦ cleanup.Safe S (fun _ w ↦ X x w) X w) w := by
  rw [ensure, safe_bind, safe_attempt]
  simp only [safe_bind, ofExcept, safe_ret, safe_raise]

/-! ## The calls a program makes -/

/-- Every call the program can come to make is in the class `A`. -/
def Uses (A : E → Prop) : Prog E R ε α → Prop
  | .ret _ => True
  | .raise _ => True
  | .op e k => A e ∧ ∀ r, (k r).Uses A

variable {A B : E → Prop}

@[simp] theorem uses_ret {a : α} : (.ret a : Prog E R ε α).Uses A := trivial

@[simp] theorem uses_pure {a : α} : (pure a : Prog E R ε α).Uses A := trivial

@[simp] theorem uses_raise {x : ε} : (.raise x : Prog E R ε α).Uses A := trivial

@[simp] theorem uses_call {e : E} : (call e : Prog E R ε (R e)).Uses A ↔ A e :=
  and_iff_left fun _ ↦ trivial

theorem Uses.mono (h : p.Uses A) (hAB : ∀ e, A e → B e) : p.Uses B := by
  induction p with
  | ret => trivial
  | raise => trivial
  | op e k ih => exact ⟨hAB e h.1, fun r ↦ ih r (h.2 r)⟩

theorem Uses.bind {f : α → Prog E R ε β} (h : p.Uses A) (hf : ∀ a, (f a).Uses A) :
    (p >>= f).Uses A := by
  induction p with
  | ret a => exact hf a
  | raise => trivial
  | op e k ih => exact ⟨h.1, fun r ↦ ih r (h.2 r)⟩

theorem Uses.attempt (h : p.Uses A) : p.attempt.Uses A := by
  induction p with
  | ret => trivial
  | raise => trivial
  | op e k ih => exact ⟨h.1, fun r ↦ ih r (h.2 r)⟩

theorem Uses.ensure {cleanup : Prog E R ε PUnit} (h : p.Uses A) (hc : cleanup.Uses A) :
    (p.ensure cleanup).Uses A :=
  h.attempt.bind fun outcome ↦ hc.bind fun _ ↦ by cases outcome <;> trivial

theorem Uses.ite {c : Prop} [Decidable c] {q : Prog E R ε α} (h : c → p.Uses A)
    (h' : ¬c → q.Uses A) : (if c then p else q).Uses A := by
  by_cases hc : c
  · rw [if_pos hc]
    exact h hc
  · rw [if_neg hc]
    exact h' hc

/-- The frame rule: a property that others keep, and that every call of a class keeps while doing
what is guaranteed, holds throughout a program that makes only such calls. -/
theorem Uses.safe {P : W → Prop} (h : p.Uses A) (hrely : ∀ w w', P w → S.rely w w' → P w')
    (hcall : ∀ w e r w', A e → P w → S.perform w e r w' → S.guar w w' ∧ P w') (hP : P w) :
    p.Safe S (fun _ ↦ P) (fun _ ↦ P) w := by
  induction p generalizing w with
  | ret => exact hP
  | raise => exact hP
  | op e k ih =>
    intro w₁ hw₁ r w₂ hp
    obtain ⟨hg, hP₂⟩ := hcall w₁ e r w₂ h.1 (hrely w w₁ hP hw₁) hp
    exact ⟨hg, ih r (h.2 r) hP₂⟩

/-! ## Among more calls -/

section
variable {E' : Type*} {R' : E' → Type v} (f : E → E') (reply : ∀ e, R' (f e) → R e)

/-- A program that makes each of its calls as a call of another type. -/
def embed : Prog E R ε α → Prog E' R' ε α
  | .ret a => .ret a
  | .raise x => .raise x
  | .op e k => .op (f e) fun r ↦ (k (reply e r)).embed

variable {f reply}

theorem Uses.embed {A : E' → Prop} (h : p.Uses fun e ↦ A (f e)) : (p.embed f reply).Uses A := by
  induction p with
  | ret => trivial
  | raise => trivial
  | op e k ih => exact ⟨h.1, fun r ↦ ih _ (h.2 _)⟩

end

/-! ## The values a program returns -/

/-- Whatever the replies, a value the program returns satisfies `P`. -/
def Yields (P : α → Prop) : Prog E R ε α → Prop
  | .ret a => P a
  | .raise _ => True
  | .op _ k => ∀ r, (k r).Yields P

theorem yields_true (p : Prog E R ε α) : p.Yields fun _ ↦ True := by
  induction p with
  | ret | raise => trivial
  | op e k ih => exact ih

theorem Yields.bind {P : α → Prop} {P' : β → Prop} {f : α → Prog E R ε β} (h : p.Yields P)
    (hf : ∀ a, P a → (f a).Yields P') : (p >>= f).Yields P' := by
  induction p with
  | ret a => exact hf a h
  | raise => trivial
  | op e k ih => exact fun r ↦ ih r (h r)

/-- What is known of the values returned may be used after any run. -/
theorem Yields.safe {P : α → Prop} (h : p.Yields P) (hp : p.Safe S Q X w) :
    p.Safe S (fun a w ↦ P a ∧ Q a w) X w := by
  induction p generalizing w with
  | ret a => exact ⟨h, hp⟩
  | raise x => exact hp
  | op e k ih =>
    intro w₁ hw₁ r w₂ hr
    obtain ⟨hg, hk⟩ := hp w₁ hw₁ r w₂ hr
    exact ⟨hg, ih r (h r) hk⟩

/-! ## What a program raises -/

/-- Whatever the replies, what the program raises satisfies `X`. -/
def Raises (X : ε → Prop) : Prog E R ε α → Prop
  | .ret _ => True
  | .raise x => X x
  | .op _ k => ∀ r, (k r).Raises X

section
variable {P : ε → Prop}

@[simp] theorem raises_pure {a : α} : (pure a : Prog E R ε α).Raises P := trivial

@[simp] theorem raises_call {e : E} : (call e : Prog E R ε (R e)).Raises P := fun _ ↦ trivial

theorem Raises.bind {f : α → Prog E R ε β} (h : p.Raises P) (hf : ∀ a, (f a).Raises P) :
    (p >>= f).Raises P := by
  induction p with
  | ret a => exact hf a
  | raise x => exact h
  | op e k ih => exact fun r ↦ ih r (h r)

/-- What is handled is not raised. -/
theorem raises_attempt (p : Prog E R ε α) : p.attempt.Raises P := by
  induction p with
  | ret | raise => trivial
  | op e k ih => exact ih

theorem Raises.ite {c : Prop} [Decidable c] {q : Prog E R ε α} (h : c → p.Raises P)
    (h' : ¬c → q.Raises P) : (if c then p else q).Raises P := by
  by_cases hc : c
  · rw [if_pos hc]
    exact h hc
  · rw [if_neg hc]
    exact h' hc

theorem Raises.embed {E' : Type*} {R' : E' → Type v} {f : E → E'} {reply : ∀ e, R' (f e) → R e}
    (h : p.Raises P) : (p.embed f reply).Raises P := by
  induction p with
  | ret => trivial
  | raise x => exact h
  | op e k ih => exact fun r ↦ ih _ (h _)

/-- What is known of the exceptions raised may be used after any run. -/
theorem Raises.safe (h : p.Raises P) (hp : p.Safe S Q X w) :
    p.Safe S Q (fun x w ↦ P x ∧ X x w) w := by
  induction p generalizing w with
  | ret a => exact hp
  | raise x => exact ⟨h, hp⟩
  | op e k ih =>
    intro w₁ hw₁ r w₂ hr
    obtain ⟨hg, hk⟩ := hp w₁ hw₁ r w₂ hr
    exact ⟨hg, ih r (h r) hk⟩

end

/-! ## A run to the end -/

section
variable (exec : W → (e : E) → Option (R e × W))

/-- Run a program to its end, where nobody else takes a step: what it returns or raises, and the
world it leaves; `none` when a call has no answer. -/
def run : Prog E R ε α → W → Option (Except ε α × W)
  | .ret a, w => some (.ok a, w)
  | .raise x, w => some (.error x, w)
  | .op e k, w => (exec w e).bind fun r ↦ (k r.1).run r.2

variable {exec} {w w' : W}

@[simp] theorem run_pure {a : α} : (pure a : Prog E R ε α).run exec w = some (.ok a, w) := rfl

theorem run_call {e : E} {r : R e} (h : exec w e = some (r, w')) :
    (call e : Prog E R ε (R e)).run exec w = some (.ok r, w') := by
  simp only [call, run, h, Option.bind_some]

theorem run_bind {a : α} {f : α → Prog E R ε β} (h : p.run exec w = some (.ok a, w')) :
    (p >>= f).run exec w = (f a).run exec w' := by
  induction p generalizing w with
  | ret b =>
    obtain ⟨hb, rfl⟩ := Prod.mk.inj (Option.some.inj h)
    obtain rfl := Except.ok.inj hb
    rfl
  | raise x =>
    obtain ⟨hx, -⟩ := Prod.mk.inj (Option.some.inj h)
    cases hx
  | op e k ih =>
    obtain ⟨⟨r, v⟩, hr, hrest⟩ := Option.bind_eq_some_iff.mp h
    exact (congrArg (Option.bind · _) hr).trans (ih r hrest)

/-- Where every call has an answer the program comes to its end. -/
theorem exists_run (hexec : ∀ w e, (exec w e).isSome = true) (p : Prog E R ε α) (w : W) :
    ∃ outcome w', p.run exec w = some (outcome, w') := by
  induction p generalizing w with
  | ret a => exact ⟨_, _, rfl⟩
  | raise x => exact ⟨_, _, rfl⟩
  | op e k ih =>
    obtain ⟨⟨r, v⟩, hr⟩ := Option.isSome_iff_exists.mp (hexec w e)
    obtain ⟨outcome, w', hrest⟩ := ih r v
    exact ⟨outcome, w', (congrArg (Option.bind · _) hr).trans hrest⟩

/-- The setting of a program that nobody else takes a step beside. -/
def solitary (exec : W → (e : E) → Option (R e × W)) : Setting R W where
  perform w e r w' := exec w e = some (r, w')
  rely v w := v = w
  guar _ _ := True

/-- A specification says how a run to the end comes out. -/
theorem Safe.of_run {outcome : Except ε α} (h : p.Safe (solitary exec) Q X w)
    (hrun : p.run exec w = some (outcome, w')) :
    (∀ a, outcome = .ok a → Q a w') ∧ ∀ x, outcome = .error x → X x w' := by
  induction p generalizing w with
  | ret a =>
    obtain ⟨rfl, rfl⟩ := Prod.mk.inj (Option.some.inj hrun)
    exact ⟨fun _ h' ↦ Except.ok.inj h' ▸ h, fun _ h' ↦ nomatch h'⟩
  | raise x =>
    obtain ⟨rfl, rfl⟩ := Prod.mk.inj (Option.some.inj hrun)
    exact ⟨fun _ h' ↦ (nomatch h'), fun _ h' ↦ Except.error.inj h' ▸ h⟩
  | op e k ih =>
    obtain ⟨⟨r, v⟩, hr, hrest⟩ := Option.bind_eq_some_iff.mp hrun
    exact ih r (h w rfl r v hr).2 hrest

end

end Prog

end Program
