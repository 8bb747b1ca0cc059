import Mathlib.Logic.Function.Basic

/-!
# Changes to a keyed store

A store is seen as a partial map from keys to records. What one operation changes of its own is a
*delta*: for each key it keeps, patches, puts or drops the record there. Replaying deltas one after
another is the serial meaning of a history of operations.

A whole-set write replaces the store by a set its caller prepared from an earlier reading. Its own
change is the delta between what the caller read and what it writes. Writing the set and applying
that delta to the store agree only as far as nobody has disturbed, since the reading, what the
delta does not mention.
-/

namespace Transition

universe u v w

/-- A store, as a partial map. -/
abbrev View (κ : Type u) (ρ : Type v) := κ → Option ρ

/-- An operation's own change to one record. -/
inductive Own (ρ : Type v) (π : Type w)
  | keep
  | patch (p : π)
  | put (r : ρ)
  | drop

/-- An operation's own change to a store. -/
abbrev Delta (κ : Type u) (ρ : Type v) (π : Type w) := κ → Own ρ π

variable {κ : Type u} {ρ : Type v} {π : Type w}

section
variable (act : π → ρ → ρ)

/-- A patch does nothing to a record that is not there. -/
def Own.apply : Own ρ π → Option ρ → Option ρ
  | .keep, r => r
  | .patch p, r => r.map (act p)
  | .put r, _ => some r
  | .drop, _ => none

def Delta.apply (d : Delta κ ρ π) (s : View κ ρ) : View κ ρ := fun k ↦ (d k).apply act (s k)

/-- Apply deltas, oldest last in the list. -/
def replay (s : View κ ρ) : List (Delta κ ρ π) → View κ ρ
  | [] => s
  | d :: older => d.apply act (replay s older)

@[simp] theorem replay_nil (s : View κ ρ) : replay act s ([] : List (Delta κ ρ π)) = s := rfl

@[simp] theorem replay_cons (s : View κ ρ) (d : Delta κ ρ π) (older : List (Delta κ ρ π)) :
    replay act s (d :: older) = d.apply act (replay act s older) := rfl

theorem replay_append (s : View κ ρ) (newer older : List (Delta κ ρ π)) :
    replay act s (newer ++ older) = replay act (replay act s older) newer := by
  induction newer with
  | nil => rfl
  | cons d newer ih => rw [List.cons_append, replay_cons, ih, replay_cons]

end

/-- Whether a change puts a record. -/
def Own.puts : Own ρ π → Bool
  | .put _ => true
  | _ => false

/-- Whether a change drops the record. -/
def Own.drops : Own ρ π → Bool
  | .drop => true
  | _ => false

/-- What is put and never dropped is there, in whatever order the deltas are replayed. -/
theorem replay_ne_none {act : π → ρ → ρ} {s : View κ ρ} {k : κ} {ds : List (Delta κ ρ π)}
    (hput : ∃ d ∈ ds, (d k).puts = true) (hdrop : ∀ d ∈ ds, (d k).drops = false) :
    replay act s ds k ≠ none := by
  induction ds with
  | nil => simp at hput
  | cons d ds ih =>
    have hd := hdrop d (by simp)
    rw [replay_cons, Delta.apply]
    cases hdk : d k with
    | put r => simp [Own.apply]
    | drop => simp [hdk, Own.drops] at hd
    | keep | patch p =>
      obtain ⟨d', hd', hput'⟩ := hput
      have hmem : d' ∈ ds := by
        rcases List.mem_cons.mp hd' with rfl | hmem
        · simp [hdk, Own.puts] at hput'
        · exact hmem
      have hrest := ih ⟨d', hmem, hput'⟩ fun d hd ↦ hdrop d (by simp [hd])
      simpa [Own.apply] using hrest

section
variable [DecidableEq κ]

/-- The delta that changes one key. -/
def Delta.single (k : κ) (own : Own ρ π) : Delta κ ρ π := Function.update (fun _ ↦ .keep) k own

theorem Delta.single_apply (act : π → ρ → ρ) (k : κ) (own : Own ρ π) (s : View κ ρ) :
    (Delta.single k own).apply act s = Function.update s k (own.apply act (s k)) := by
  funext j
  by_cases hj : j = k
  · subst hj
    simp [Delta.apply, Delta.single]
  · simp [Delta.apply, Delta.single, Function.update_of_ne hj, Own.apply]

end

/-! ## The delta of a whole-set write -/

section
variable (diff : ρ → ρ → π)

/-- What a caller that read the first record and writes the second changes of its own. -/
def Own.between : Option ρ → Option ρ → Own ρ π
  | none, none => .keep
  | none, some r => .put r
  | some _, none => .drop
  | some r, some r' => .patch (diff r r')

def Delta.between (loaded saved : View κ ρ) : Delta κ ρ π :=
  fun k ↦ Own.between diff (loaded k) (saved k)

variable (act : π → ρ → ρ)

/-- Nobody has disturbed what a whole-set write does not mention: a record neither read nor written
is not stored, and a record both read and written is stored, and differs from the one read at most
where the write changes it. -/
def Undisturbed (loaded saved stored : Option ρ) : Prop :=
  match loaded, saved with
  | none, none => stored = none
  | some r, some r' => stored.map (act (diff r r')) = some r'
  | none, some _ => True
  | some _, none => True

variable {act diff}

/-- **A whole-set write is its own delta exactly when nothing was disturbed.** -/
theorem Own.apply_between_iff {loaded saved stored : Option ρ} :
    (Own.between diff loaded saved).apply act stored = saved ↔
      Undisturbed diff act loaded saved stored := by
  cases loaded <;> cases saved <;> simp [Own.between, Own.apply, Undisturbed]

theorem Delta.apply_between_iff {loaded saved stored : View κ ρ} :
    (Delta.between diff loaded saved).apply act stored = saved ↔
      ∀ k, Undisturbed diff act (loaded k) (saved k) (stored k) := by
  rw [funext_iff]
  exact forall_congr' fun k ↦ Own.apply_between_iff

end

end Transition
