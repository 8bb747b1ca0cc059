import Mathlib.Data.Set.Insert
import Mathlib.Logic.Function.Basic

/-!
# A directory, and what a loss of power leaves of it

A volume is one directory of files. A name leads to a file by its number, and programs write to files
by number. Beside what they see there is what stable storage may hold: for each name everything it
has led to since the directory was last synced, and for each file its content only if that was
synced. A loss of power picks for each name one of these, and replaces what was not synced by
anything at all.

What one name of a volume amounts to, when only synced files are renamed to it, is a register: a
cell with a set of values that may still come back.
-/

namespace Filesystem

/-! ## Registers -/

/-- A cell, and the values a loss may leave in it. -/
structure Register (τ : Type) where
  now : Option τ
  held : Set (Option τ)

/-- What can be done to a register, and seen of it. -/
inductive Act (τ : Type)
  | stored (x : Option τ)
  | synced
  /-- A loss, and what it left. -/
  | lost (x : Option τ)
  | loaded (x : Option τ)
  deriving DecidableEq

namespace Register

variable {τ : Type}

def next (r : Register τ) : Act τ → Register τ
  | .stored x => ⟨x, insert x r.held⟩
  | .synced => ⟨r.now, {r.now}⟩
  | .lost x => ⟨x, {x}⟩
  | .loaded _ => r

def Allows (r : Register τ) : Act τ → Prop
  | .lost x => x ∈ r.held
  | .loaded x => x = r.now
  | .stored _ | .synced => True

/-- A register after a history, whose latest act comes first. -/
def after (r : Register τ) : List (Act τ) → Register τ
  | [] => r
  | a :: log => (r.after log).next a

/-- A history a register can have. -/
def Lawful (r : Register τ) : List (Act τ) → Prop
  | [] => True
  | a :: log => (r.after log).Allows a ∧ r.Lawful log

/-- What a register holds it held at first, or was stored in it. -/
theorem mem_held_after {r : Register τ} {log : List (Act τ)} {x : Option τ}
    (hr : r.now ∈ r.held) (h : r.Lawful log) :
    (r.after log).now ∈ (r.after log).held ∧
      (x ∈ (r.after log).held → x ∈ r.held ∨ .stored x ∈ log) := by
  induction log with
  | nil => exact ⟨hr, .inl⟩
  | cons a log ih =>
    obtain ⟨hnow, hheld⟩ := ih h.2
    have hmono : x ∈ (r.after log).held → x ∈ r.held ∨ .stored x ∈ a :: log := fun hx ↦
      (hheld hx).imp_right (List.mem_cons_of_mem a)
    rw [after]
    cases a with
    | stored y =>
      refine ⟨Set.mem_insert y _, fun hx ↦ ?_⟩
      rcases Set.mem_insert_iff.mp hx with rfl | hx
      · exact .inr List.mem_cons_self
      · exact hmono hx
    | synced =>
      refine ⟨Set.mem_singleton _, fun hx ↦ hmono ?_⟩
      obtain rfl := Set.mem_singleton_iff.mp hx
      exact hnow
    | lost y =>
      refine ⟨Set.mem_singleton y, fun hx ↦ hmono ?_⟩
      obtain rfl := Set.mem_singleton_iff.mp hx
      exact h.1
    | loaded y => exact ⟨hnow, hmono⟩

/-- A register is loaded only with what it held at first, or what was stored in it. -/
theorem Lawful.of_loaded {r : Register τ} {log : List (Act τ)} {x : Option τ} (hr : r.now ∈ r.held)
    (h : r.Lawful log) (hx : .loaded x ∈ log) : x ∈ r.held ∨ .stored x ∈ log := by
  induction log with
  | nil => cases hx
  | cons a log ih =>
    rcases List.mem_cons.mp hx with rfl | hx
    · obtain ⟨hnow, hheld⟩ := mem_held_after (x := x) hr h.2
      refine (hheld ?_).imp_right (List.mem_cons_of_mem _)
      rw [show x = (r.after log).now from h.1]
      exact hnow
    · exact (ih h.2 hx).imp_right (List.mem_cons_of_mem a)

/-- Once something is stored, and unless nothing is stored over it, the register is not empty again
after a sync. -/
theorem isSome_of_synced {r : Register τ} {log past : List (Act τ)} {x : τ}
    (h : r.Lawful (log ++ .synced :: past)) (hx : (r.after past).now = some x)
    (hstored : ∀ y, .stored y ∈ log → y.isSome) :
    (r.after (log ++ .synced :: past)).now.isSome ∧
      ∀ y ∈ (r.after (log ++ .synced :: past)).held, y.isSome := by
  induction log with
  | nil =>
    have hsome : (r.after past).now.isSome := by
      rw [hx]
      rfl
    refine ⟨hsome, fun y hy ↦ ?_⟩
    obtain rfl := Set.mem_singleton_iff.mp hy
    exact hsome
  | cons a log ih =>
    obtain ⟨hnow, hheld⟩ := ih h.2 fun y hy ↦ hstored y (List.mem_cons_of_mem a hy)
    rw [List.cons_append, after]
    cases a with
    | stored y =>
      have hy := hstored y List.mem_cons_self
      refine ⟨hy, fun z hz ↦ ?_⟩
      rcases Set.mem_insert_iff.mp hz with rfl | hz
      · exact hy
      · exact hheld z hz
    | synced =>
      refine ⟨hnow, fun z hz ↦ ?_⟩
      obtain rfl := Set.mem_singleton_iff.mp hz
      exact hnow
    | lost y =>
      have hy := hheld y h.1
      refine ⟨hy, fun z hz ↦ ?_⟩
      obtain rfl := Set.mem_singleton_iff.mp hz
      exact hy
    | loaded y => exact ⟨hnow, hheld⟩

/-- So it is not loaded empty. -/
theorem not_mem_loaded_none {r : Register τ} {log past : List (Act τ)} {x : τ}
    (h : r.Lawful (log ++ .synced :: past)) (hx : (r.after past).now = some x)
    (hstored : ∀ y, .stored y ∈ log → y.isSome) : .loaded none ∉ log := by
  induction log with
  | nil => exact List.not_mem_nil
  | cons a log ih =>
    have hstored' : ∀ y, .stored y ∈ log → y.isSome := fun y hy ↦
      hstored y (List.mem_cons_of_mem a hy)
    refine List.not_mem_cons_of_ne_of_not_mem ?_ (ih h.2 hstored')
    rintro rfl
    have hsome := (isSome_of_synced h.2 hx hstored').1
    rw [← show none = (r.after (log ++ .synced :: past)).now from h.1] at hsome
    cases hsome

end Register

/-! ## Volumes -/

structure Volume (ν τ : Type) where
  entries : ν → Option ℕ := fun _ ↦ none
  /-- What stable storage may have a name lead to. -/
  held : ν → List (Option ℕ) := fun _ ↦ [none]
  data : ℕ → τ
  synced : ℕ → Bool := fun _ ↦ false
  /-- The number of the file that is created next. -/
  next : ℕ := 0

namespace Volume

variable {ν τ : Type}

/-- Let a name lead somewhere. -/
def point [DecidableEq ν] (V : Volume ν τ) (n : ν) (f : Option ℕ) : Volume ν τ :=
  { V with
    entries := Function.update V.entries n f
    held := Function.update V.held n (f :: V.held n) }

def create [DecidableEq ν] (V : Volume ν τ) (n : ν) (empty : τ) : Volume ν τ :=
  { V.point n (some V.next) with
    data := Function.update V.data V.next empty
    synced := Function.update V.synced V.next false
    next := V.next + 1 }

def write (V : Volume ν τ) (f : ℕ) (x : τ) : Volume ν τ :=
  { V with data := Function.update V.data f x, synced := Function.update V.synced f false }

def sync (V : Volume ν τ) (f : ℕ) : Volume ν τ :=
  { V with synced := Function.update V.synced f true }

/-- `rename`, which replaces what is there. -/
def rename [DecidableEq ν] (V : Volume ν τ) (source target : ν) : Volume ν τ :=
  (V.point target (V.entries source)).point source none

def unlink [DecidableEq ν] (V : Volume ν τ) (n : ν) : Volume ν τ := V.point n none

def syncDir (V : Volume ν τ) : Volume ν τ := { V with held := fun n ↦ [V.entries n] }

/-- A loss of power: `choice` picks what each name leads to, `garbage` what was not synced. -/
def lose (V : Volume ν τ) (choice : ν → ℕ) (garbage : ℕ → τ) : Volume ν τ :=
  { V with
    entries := fun n ↦ ((V.held n)[choice n]?).getD (V.entries n)
    held := fun n ↦ [((V.held n)[choice n]?).getD (V.entries n)]
    data := fun f ↦ if V.synced f then V.data f else garbage f }

def content (V : Volume ν τ) (n : ν) : Option τ := (V.entries n).map V.data

/-! ## A name as a register -/

/-- A name that only synced files were renamed to stands for a register. -/
structure Settled (V : Volume ν τ) (n : ν) (r : Register τ) : Prop where
  now : r.now = V.content n
  entry : V.entries n ∈ V.held n
  held : ∀ f ∈ V.held n, f.map V.data ∈ r.held
  synced : ∀ f, some f ∈ V.held n → V.synced f = true
  old : ∀ f, some f ∈ V.held n → f < V.next

variable {V : Volume ν τ} {n m : ν} {r : Register τ}

/-- What does not touch the name, nor what is synced, leaves the register. -/
theorem Settled.of_kept {W : Volume ν τ} (h : V.Settled n r) (hentries : W.entries n = V.entries n)
    (hheld : W.held n = V.held n) (hnext : V.next ≤ W.next)
    (hkept : ∀ f, some f ∈ V.held n → W.synced f = true ∧ W.data f = V.data f) : W.Settled n r := by
  have hmap (f : Option ℕ) (hf : f ∈ V.held n) : f.map W.data = f.map V.data :=
    Option.map_congr fun x hx ↦ (hkept x (hx ▸ hf)).2
  constructor
  · rw [h.now, content, content, hentries, hmap _ h.entry]
  · rw [hentries, hheld]
    exact h.entry
  · intro f hf
    rw [hheld] at hf
    rw [hmap f hf]
    exact h.held f hf
  · intro f hf
    rw [hheld] at hf
    exact (hkept f hf).1
  · intro f hf
    rw [hheld] at hf
    exact (h.old f hf).trans_le hnext

theorem Settled.write (h : V.Settled n r) {f : ℕ} (hf : some f ∉ V.held n) (x : τ) :
    (V.write f x).Settled n r := by
  refine h.of_kept rfl rfl le_rfl fun g hg ↦ ?_
  have hne : g ≠ f := fun heq ↦ hf (heq ▸ hg)
  exact ⟨(Function.update_of_ne hne ..).trans (h.synced g hg), Function.update_of_ne hne ..⟩

theorem synced_sync (V : Volume ν τ) (f : ℕ) {g : ℕ} (hg : V.synced g = true) :
    (V.sync f).synced g = true := by
  change Function.update V.synced f true g = true
  rw [Function.update_apply]
  split_ifs
  · rfl
  · exact hg

theorem Settled.sync (h : V.Settled n r) (f : ℕ) : (V.sync f).Settled n r :=
  h.of_kept rfl rfl le_rfl fun g hg ↦ ⟨synced_sync V f (h.synced g hg), rfl⟩

theorem Settled.syncDir (h : V.Settled n r) : V.syncDir.Settled n (r.next .synced) := by
  constructor
  · exact h.now
  · exact List.mem_singleton_self _
  · intro f hf
    rw [List.mem_singleton.mp hf]
    exact Set.mem_singleton_iff.mpr h.now.symm
  · intro f hf
    exact h.synced f (List.mem_singleton.mp hf ▸ h.entry)
  · intro f hf
    exact h.old f (List.mem_singleton.mp hf ▸ h.entry)

theorem Settled.lose_entry (h : V.Settled n r) (choice : ν → ℕ) (garbage : ℕ → τ) :
    (V.lose choice garbage).entries n ∈ V.held n := by
  change ((V.held n)[choice n]?).getD (V.entries n) ∈ V.held n
  cases hpick : (V.held n)[choice n]? with
  | none => exact h.entry
  | some f => exact List.mem_of_getElem? hpick

/-- A loss leaves something that was held. -/
theorem Settled.lose (h : V.Settled n r) (choice : ν → ℕ) (garbage : ℕ → τ) :
    r.Allows (.lost ((V.lose choice garbage).content n)) ∧
      (V.lose choice garbage).Settled n (r.next (.lost ((V.lose choice garbage).content n))) := by
  have hentry := h.lose_entry choice garbage
  have hheld : (V.lose choice garbage).held n = [(V.lose choice garbage).entries n] := rfl
  have hdata (f : ℕ) (hf : some f ∈ V.held n) : (V.lose choice garbage).data f = V.data f :=
    if_pos (h.synced f hf)
  have hmap : (V.lose choice garbage).content n = ((V.lose choice garbage).entries n).map V.data :=
    Option.map_congr fun f hf ↦ hdata f (hf ▸ hentry)
  refine ⟨?_, rfl, ?_, ?_, ?_, ?_⟩
  · rw [hmap]
    exact h.held _ hentry
  · rw [hheld]
    exact List.mem_singleton_self _
  · intro f hf
    rw [hheld] at hf
    rw [List.mem_singleton.mp hf]
    exact Set.mem_singleton _
  · intro f hf
    rw [hheld] at hf
    exact h.synced f (List.mem_singleton.mp hf ▸ hentry)
  · intro f hf
    rw [hheld] at hf
    exact h.old f (List.mem_singleton.mp hf ▸ hentry)

/-! ### Names that change -/

variable [DecidableEq ν]

theorem Settled.point_of_ne (h : V.Settled n r) (hne : n ≠ m) (f : Option ℕ) :
    (V.point m f).Settled n r :=
  h.of_kept (Function.update_of_ne hne ..) (Function.update_of_ne hne ..) le_rfl
    fun g hg ↦ ⟨h.synced g hg, rfl⟩

theorem Settled.create (h : V.Settled n r) (hne : n ≠ m) (empty : τ) :
    (V.create m empty).Settled n r := by
  refine h.of_kept (Function.update_of_ne hne ..) (Function.update_of_ne hne ..) (Nat.le_succ _)
    fun f hf ↦ ?_
  have hf' : f ≠ V.next := (h.old f hf).ne
  exact ⟨(Function.update_of_ne hf' ..).trans (h.synced f hf), Function.update_of_ne hf' ..⟩

/-- A synced file becomes what the name leads to. -/
theorem Settled.point (h : V.Settled n r) {f : ℕ} (hsynced : V.synced f = true) (hold : f < V.next) :
    (V.point n (some f)).Settled n (r.next (.stored (some (V.data f)))) := by
  have hentries : (V.point n (some f)).entries n = some f := Function.update_self ..
  have hheld : (V.point n (some f)).held n = some f :: V.held n := Function.update_self ..
  constructor
  · rw [content, hentries]
    rfl
  · rw [hentries, hheld]
    exact List.mem_cons_self
  · intro g hg
    rw [hheld] at hg
    rcases List.mem_cons.mp hg with rfl | hg
    · exact Set.mem_insert _ _
    · exact Set.mem_insert_of_mem _ (h.held g hg)
  · intro g hg
    rw [hheld] at hg
    rcases List.mem_cons.mp hg with heq | hg
    · rw [Option.some.inj heq]
      exact hsynced
    · exact h.synced g hg
  · intro g hg
    rw [hheld] at hg
    rcases List.mem_cons.mp hg with heq | hg
    · rw [Option.some.inj heq]
      exact hold
    · exact h.old g hg

/-- The rename of a synced file is a store. -/
theorem Settled.rename (h : V.Settled n r) (hne : n ≠ m) {f : ℕ} (hentry : V.entries m = some f)
    (hsynced : V.synced f = true) (hold : f < V.next) :
    (V.rename m n).Settled n (r.next (.stored (some (V.data f)))) := by
  rw [Volume.rename, hentry]
  exact (h.point hsynced hold).point_of_ne hne none

end Volume

end Filesystem
