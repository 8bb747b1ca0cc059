import SparkPulse.EventLog.History
import SparkPulse.Program.Threads

/-!
# Trimming beside recording

`event_log.record` and `trim`: the events of a resource are counted, the oldest in excess are looked
up and these are deleted, each by a statement of its own. What others delete in between is counted
all the same, so that more events go than are in excess.
-/

namespace SparkPulse.EventLog

open Program Prog

variable {c : Clock}

/-- `MAX_PER_RESOURCE` -/
@[irreducible] def maxPerResource : ℕ := 1000

/-- `RETENTION_DAYS`, in seconds. -/
def retention : ℚ := 30 * 86400

/-- `AGE_SWEEP_INTERVAL` -/
def ageSweepInterval : ℚ := 300

/-- What the database raises. -/
inductive Failure
  | sqlError
  deriving DecidableEq, Repr

/-! ## Calls -/

/-- The statements, each with the commit after it if it writes. -/
inductive Call (c : Clock)
  | insert (event : Event c)
  | count (resource : String)
  | oldest (resource : String) (excess : ℕ)
  /-- The deletion of a trim, of that resource. -/
  | remove (resource : String) (doomed : List ℕ)
  /-- The test of `sweep_if_due`, under its lock; it returns the cutoff of the sweep. -/
  | sweepDue
  | expired (cutoff : ℚ)
  | removeExpired (doomed : List ℕ)
  | forget (resource : String)

@[reducible] def Call.Result : Call c → Type
  | insert _ | remove .. | removeExpired _ | forget _ => Unit
  | count _ => ℕ
  | oldest .. | expired _ => List ℕ
  | sweepDue => Option ℚ

@[reducible] def Call.Ret (e : Call c) : Type := Except Failure e.Result

abbrev Op (c : Clock) := Prog (Call c) Call.Ret Failure

/-- Execute a statement. -/
def execute (e : Call c) : Op c e.Result := Prog.op e Prog.ofExcept

/-- Delete what was looked up. -/
def removeAll (resource : String) (doomed : List ℕ) : Op c ℕ :=
  if doomed = [] then return 0
  else do
    execute (.remove resource doomed)
    return doomed.length

/-- Look up the oldest events and delete them. -/
def removeOldest (resource : String) (excess : ℕ) : Op c ℕ :=
  if excess = 0 then return 0
  else do
    let doomed ← execute (.oldest resource excess)
    removeAll resource doomed

/-- `trim` -/
def trim (resource : String) : Op c ℕ :=
  if resource = "" then return 0
  else do
    let held ← execute (.count resource)
    removeOldest resource (held - maxPerResource)

/-- `sweep`, from its cutoff on -/
def sweep (cutoff : ℚ) : Op c ℕ := do
  let doomed ← execute (.expired cutoff)
  if doomed = [] then return 0
  else do
    execute (.removeExpired doomed)
    return doomed.length

/-- `sweep_if_due` -/
def sweepIfDue : Op c ℕ := do
  match ← execute .sweepDue with
  | none => return 0
  | some cutoff => sweep cutoff

/-- What `record` does after the event is written. -/
def retain (resource : String) : Op c ℕ := do
  let _ ← trim resource
  sweepIfDue

/-- `record` -/
def record (event : Event c) : Op c Bool := do
  match ← (execute (.insert event)).attempt with
  | .error _ => return false
  | .ok () => do
    let _ ← (retain event.resource).attempt
    return true

/-- A call from outside. -/
inductive Request (c : Clock)
  | record (event : Event c)
  | trim (resource : String)
  | forget (resource : String)

def Request.program : Request c → Op c Unit
  | .record event => do let _ ← EventLog.record event
  | .trim resource => do let _ ← EventLog.trim resource
  | .forget resource => execute (.forget resource)

/-! ## Threads -/

/-- A deletion of a trim: the rows it found, and the numbers it deleted. -/
structure Trimmed where
  rows : List Row
  doomed : List ℕ
  deriving DecidableEq

/-- The table, and what is recorded beside it: what each thread counted last, the numbers that were
given since it looked up the oldest events, and what trims have deleted. -/
structure World (c : Clock) where
  table : Table c
  lastSweep : ℚ := 0
  counted : ℕ → ℕ := fun _ ↦ 0
  given : ℕ → List ℕ := fun _ ↦ []
  trimmed : List Trimmed := []

/-- What the schedule decides about a statement: whether it works, and what the time is. -/
structure Answer where
  works : Bool := true
  now : ℚ := 0

namespace World

/-- An event is inserted, unless its id is in the table. -/
def insert (w : World c) (event : Event c) : Option (World c) :=
  if h : event.eventId ∉ w.table.rows.map Row.eventId then
    some { w with
      table := w.table.insert event h
      given := fun i ↦ w.table.nextSeq :: w.given i }
  else none

/-- The oldest events of a resource. -/
def oldest (w : World c) (resource : String) (excess : ℕ) : List ℕ :=
  ((w.table.held resource).take excess).map Row.seq

/-- The deletion of a trim. -/
def remove (w : World c) (doomed : List ℕ) : World c :=
  { w with
    table := w.table.delete fun r ↦ r.seq ∈ doomed
    trimmed := w.trimmed ++ [⟨w.table.rows, doomed⟩] }

/-- Whether a sweep is due. -/
def isDue (w : World c) (now : ℚ) : Bool :=
  !(w.lastSweep ≠ 0 ∧ now - w.lastSweep < ageSweepInterval)

end World

/-- The effect of a statement that works; `none` when it violates a constraint. -/
def Call.effect (i : ℕ) (w : World c) (e : Call c) (now : ℚ) : Option (e.Result × World c) :=
  match e with
  | .insert event => (w.insert event).map fun w' ↦ ((), w')
  | .count resource =>
    let held := (w.table.held resource).length
    some (held, { w with counted := Function.update w.counted i held })
  | .oldest resource excess =>
    some (w.oldest resource excess, { w with given := Function.update w.given i [] })
  | .remove _ doomed => some ((), w.remove doomed)
  | .sweepDue =>
    if w.isDue now then some (some (now - retention), { w with lastSweep := now })
    else some (none, w)
  | .expired cutoff =>
    some ((w.table.rows.filter fun r ↦ r.recordedAt < cutoff).map Row.seq, w)
  | .removeExpired doomed =>
    some ((), { w with table := w.table.delete fun r ↦ r.seq ∈ doomed })
  | .forget resource =>
    some ((), { w with table := w.table.delete fun r ↦ r.resource = resource })

def Call.exec (i : ℕ) (w : World c) (e : Call c) (a : Answer) : Option (e.Ret × World c) :=
  match if a.works then e.effect i w a.now else none with
  | none => some (.error .sqlError, w)
  | some (result, w') => some (.ok result, w')

/-- The threads that still have to run, and the table. -/
abbrev Machine (c : Clock) := Threads ℕ (Call.Ret (c := c)) Failure Unit (World c)

/-- All interleavings of requests over any table. -/
def system (requests : ℕ → Request c) : Transition.System (Machine c) (ℕ × Answer) :=
  Threads.system Call.exec fun s ↦
    (∀ i, s.pool i = (requests i).program) ∧ s.world.trimmed = []

/-! ## What is spared -/

/-- What a trim has deleted had enough newer events of its resource beside it. -/
def Trimmed.Spares (t : Trimmed) : Prop :=
  ∀ row ∈ t.rows, row.seq ∈ t.doomed → maxPerResource ≤
    (t.rows.filter fun r ↦ r.resource = row.resource ∧ row.seq < r.seq).length

/-- The newest events of a resource have not been deleted by trimming. -/
def Spared (w : World c) : Prop := ∀ t ∈ w.trimmed, t.Spares

/-- When a trim deletes, as many events are held as it has counted, but for those of the doomed that
are gone, and no number of the doomed was given anew. -/
def stillHeld : Threads.CallGuard ℕ (Call c) (World c) := fun i w e ↦
  match e with
  | .remove resource doomed => (∀ seq ∈ doomed, seq ∉ w.given i) ∧
      w.counted i ≤ (w.table.held resource).length +
        (doomed.filter fun seq ↦ seq ∉ (w.table.held resource).map Row.seq).length
  | _ => True

/-- Of a resource, what a thread has looked up and is still there is older than the rest. -/
def Ahead (i : ℕ) (resource : String) (doomed : List ℕ) (w : World c) : Prop :=
  ∀ row ∈ w.table.rows, row.seq ∈ doomed → row.seq ∉ w.given i →
    row.resource = resource ∧
      ∀ r ∈ w.table.held resource, r.seq ∉ doomed → row.seq < r.seq

/-- What the other threads leave to a thread. -/
def Keeps (i : ℕ) (v w : World c) : Prop :=
  w.counted i = v.counted i ∧
    ∀ resource doomed, Ahead i resource doomed v → Ahead i resource doomed w

/-! ## One statement -/

section
variable {v w w' : World c} {i j : ℕ} {resource : String} {doomed : List ℕ}

theorem keeps_of_subset (hrows : ∀ r ∈ w.table.rows, r ∈ v.table.rows)
    (hcounted : w.counted j = v.counted j) (hgiven : w.given j = v.given j) : Keeps j v w := by
  refine ⟨hcounted, fun resource doomed h row hrow hseq hnew ↦ ?_⟩
  obtain ⟨hresource, holder⟩ := h row (hrows row hrow) hseq (hgiven ▸ hnew)
  refine ⟨hresource, fun r hr ↦ holder r ?_⟩
  obtain ⟨hr, hres⟩ := Table.mem_held.mp hr
  exact Table.mem_held.mpr ⟨hrows r hr, hres⟩

theorem keeps_insert {event : Event c} (h : w.insert event = some w') : Keeps j w w' := by
  rw [World.insert] at h
  split_ifs at h with hid
  obtain rfl := Option.some.inj h
  refine ⟨rfl, fun resource doomed h row hrow hseq hnew ↦ ?_⟩
  rw [List.mem_cons, not_or] at hnew
  rcases List.mem_append.mp hrow with hrow | hrow
  · obtain ⟨hresource, holder⟩ := h row hrow hseq hnew.2
    refine ⟨hresource, fun r hr hkept ↦ ?_⟩
    obtain ⟨hr, hres⟩ := Table.mem_held.mp hr
    rcases List.mem_append.mp hr with hr | hr
    · exact holder r (Table.mem_held.mpr ⟨hr, hres⟩) hkept
    · obtain rfl := List.mem_singleton.mp hr
      exact w.table.lt_nextSeq hrow
  · obtain rfl := List.mem_singleton.mp hrow
    exact absurd rfl hnew.1

/-- A statement of one thread leaves the others what they know. -/
theorem keeps_effect {e : Call c} {now : ℚ} {result : e.Result} (hj : j ≠ i)
    (h : e.effect i w now = some (result, w')) : Keeps j w w' := by
  cases e with
  | insert event =>
    obtain ⟨u, hu, heq⟩ := Option.map_eq_some_iff.mp h
    obtain ⟨-, rfl⟩ := Prod.mk.inj heq
    exact keeps_insert hu
  | count resource =>
    obtain ⟨-, rfl⟩ := Prod.mk.inj (Option.some.inj h)
    exact keeps_of_subset (fun _ hr ↦ hr) (Function.update_of_ne hj ..) rfl
  | oldest resource excess =>
    obtain ⟨-, rfl⟩ := Prod.mk.inj (Option.some.inj h)
    exact keeps_of_subset (fun _ hr ↦ hr) rfl (Function.update_of_ne hj ..)
  | sweepDue =>
    rw [Call.effect] at h
    split_ifs at h
    · obtain ⟨-, rfl⟩ := Prod.mk.inj (Option.some.inj h)
      exact keeps_of_subset (fun _ hr ↦ hr) rfl rfl
    · obtain ⟨-, rfl⟩ := Prod.mk.inj (Option.some.inj h)
      exact keeps_of_subset (fun _ hr ↦ hr) rfl rfl
  | expired cutoff =>
    obtain ⟨-, rfl⟩ := Prod.mk.inj (Option.some.inj h)
    exact keeps_of_subset (fun _ hr ↦ hr) rfl rfl
  | remove resource doomed =>
    obtain ⟨-, rfl⟩ := Prod.mk.inj (Option.some.inj h)
    exact keeps_of_subset (fun _ hr ↦ List.mem_of_mem_filter hr) rfl rfl
  | removeExpired doomed =>
    obtain ⟨-, rfl⟩ := Prod.mk.inj (Option.some.inj h)
    exact keeps_of_subset (fun _ hr ↦ List.mem_of_mem_filter hr) rfl rfl
  | forget resource =>
    obtain ⟨-, rfl⟩ := Prod.mk.inj (Option.some.inj h)
    exact keeps_of_subset (fun _ hr ↦ List.mem_of_mem_filter hr) rfl rfl

theorem seqs_nodup (table : Table c) : (table.rows.map Row.seq).Nodup :=
  List.pairwise_map.mpr (table.seqs_lt.imp fun h ↦ h.ne)

theorem held_seqs_nodup (table : Table c) (resource : String) :
    ((table.held resource).map Row.seq).Nodup :=
  (seqs_nodup table).sublist (List.filter_sublist.map _)

/-- What is looked up is ahead of the rest. -/
theorem ahead_oldest (excess : ℕ) : Ahead i resource (w.oldest resource excess)
    { w with given := Function.update w.given i [] } := by
  intro row hrow hseq _
  obtain ⟨r, hr, heq⟩ := List.mem_map.mp hseq
  have hheld := Table.mem_held.mp (List.mem_of_mem_take hr)
  obtain rfl := List.inj_on_of_nodup_map (seqs_nodup w.table) hheld.1 hrow heq
  refine ⟨hheld.2, fun r' hr' hkept ↦ ?_⟩
  have hlt : ((w.table.held resource).take excess ++ (w.table.held resource).drop excess).Pairwise
      fun r r' ↦ r.seq < r'.seq := by
    rw [List.take_append_drop]
    exact w.table.seqs_lt.filter _
  have hrest : r' ∈ (w.table.held resource).drop excess := by
    have hmem : r' ∈ w.table.held resource := hr'
    rw [← List.take_append_drop excess (w.table.held resource)] at hmem
    exact (List.mem_append.mp hmem).resolve_left fun h ↦ hkept (List.mem_map_of_mem h)
  exact (List.pairwise_append.mp hlt).2.2 r hr r' hrest

theorem length_oldest_le (excess : ℕ) : (w.oldest resource excess).length ≤ excess := by
  rw [World.oldest, List.length_map]
  exact List.length_take_le ..

/-- There are no more doomed rows than doomed numbers that are held. -/
theorem length_doomed_rows_le (table : Table c) (resource : String) (doomed : List ℕ) :
    ((table.held resource).filter fun r ↦ r.seq ∈ doomed).length ≤
      (doomed.filter fun seq ↦ seq ∈ (table.held resource).map Row.seq).length := by
  rw [← List.length_map (f := Row.seq)]
  refine ((held_seqs_nodup table resource).sublist
    (List.filter_sublist.map Row.seq)).length_le_of_subset fun seq hseq ↦ ?_
  obtain ⟨r, hr, rfl⟩ := List.mem_map.mp hseq
  obtain ⟨hheld, hdoomed⟩ := List.mem_filter.mp hr
  exact List.mem_filter.mpr ⟨of_decide_eq_true hdoomed, decide_eq_true (List.mem_map_of_mem hheld)⟩

/-- **The step rule of a trim.** What it deletes is older than what it leaves of the resource, and
that is enough. -/
theorem spares_remove {n : ℕ} (hlength : doomed.length + maxPerResource ≤ n)
    (hahead : ∀ row ∈ w.table.rows, row.seq ∈ doomed → row.resource = resource ∧
      ∀ r ∈ w.table.held resource, r.seq ∉ doomed → row.seq < r.seq)
    (hcounted : n ≤ (w.table.held resource).length +
      (doomed.filter fun seq ↦ seq ∉ (w.table.held resource).map Row.seq).length) :
    Trimmed.Spares ⟨w.table.rows, doomed⟩ := by
  intro row hrow hseq
  obtain ⟨rfl, holder⟩ := hahead row hrow hseq
  have hrows := length_doomed_rows_le w.table row.resource doomed
  have hheld := List.length_eq_length_filter_add (l := w.table.held row.resource)
    fun r ↦ decide (r.seq ∈ doomed)
  have hdoomed := List.length_eq_length_filter_add (l := doomed)
    fun seq ↦ decide (seq ∈ (w.table.held row.resource).map Row.seq)
  have hnewer : ((w.table.held row.resource).filter fun r ↦ !decide (r.seq ∈ doomed)).length ≤
      (w.table.rows.filter fun r ↦ r.resource = row.resource ∧ row.seq < r.seq).length := by
    rw [Table.held, List.filter_filter, ← List.countP_eq_length_filter,
      ← List.countP_eq_length_filter]
    refine List.countP_mono_left fun r hr hkept ↦ ?_
    obtain ⟨hleft, hsame⟩ := Bool.and_eq_true_iff.mp hkept
    have hresource := of_decide_eq_true hsame
    refine decide_eq_true ⟨hresource, holder r (Table.mem_held.mpr ⟨hr, hresource⟩) ?_⟩
    simpa using hleft
  simp only [decide_not] at hcounted
  change maxPerResource ≤
    (w.table.rows.filter fun r ↦ r.resource = row.resource ∧ row.seq < r.seq).length
  omega

end

/-! ## Requests beside each other -/

/-- Each thread in its surroundings, where what trims have deleted was old enough. -/
abbrev sparing : ℕ → Setting (Call.Ret (c := c)) (World c) :=
  Threads.sharing Call.exec stillHeld Spared Keeps

theorem compatible_sparing : Threads.Compatible (sparing (c := c)) :=
  Threads.compatible_sharing (fun _ _ ↦ ⟨rfl, fun _ _ h ↦ h⟩) fun _ _ _ _ huv hvw ↦
    ⟨hvw.1.trans huv.1, fun resource doomed h ↦ hvw.2 _ _ (huv.2 resource doomed h)⟩

section
variable {w w' : World c} {i n : ℕ} {resource : String} {doomed : List ℕ} {e : Call c}

/-- A statement is no deletion of a trim. -/
def Call.Harmless (e : Call c) : Prop := ∀ resource doomed, e ≠ .remove resource doomed

theorem exec_cases {a : Answer} {r : e.Ret} (h : e.exec i w a = some (r, w')) :
    (r = .error .sqlError ∧ w' = w) ∨
      ∃ result, r = .ok result ∧ e.effect i w a.now = some (result, w') := by
  rw [Call.exec] at h
  split at h
  · obtain ⟨rfl, rfl⟩ := Prod.mk.inj (Option.some.inj h)
    exact Or.inl ⟨rfl, rfl⟩
  next result u heffect =>
    obtain ⟨rfl, rfl⟩ := Prod.mk.inj (Option.some.inj h)
    split_ifs at heffect
    exact Or.inr ⟨result, rfl, heffect⟩

theorem trimmed_effect {now : ℚ} {result : e.Result} (he : e.Harmless)
    (h : e.effect i w now = some (result, w')) : w'.trimmed = w.trimmed := by
  cases e with
  | remove resource doomed => exact absurd rfl (he resource doomed)
  | insert event =>
    obtain ⟨u, hu, heq⟩ := Option.map_eq_some_iff.mp h
    obtain ⟨-, rfl⟩ := Prod.mk.inj heq
    rw [World.insert] at hu
    split_ifs at hu
    obtain rfl := Option.some.inj hu
    rfl
  | sweepDue =>
    rw [Call.effect] at h
    split_ifs at h
    · obtain ⟨-, rfl⟩ := Prod.mk.inj (Option.some.inj h)
      rfl
    · obtain ⟨-, rfl⟩ := Prod.mk.inj (Option.some.inj h)
      rfl
  | _ =>
    obtain ⟨-, rfl⟩ := Prod.mk.inj (Option.some.inj h)
    rfl

/-- The rule for one statement: what the thread knows is kept by the others, and what the statement
does keeps what was deleted old enough. -/
theorem safe_execute {P : World c → Prop} {Q : e.Result → World c → Prop}
    (hP : ∀ u v, Keeps i u v → P u → P v) (hw : Spared w ∧ P w)
    (heffect : ∀ v now result v', Spared v → P v → stillHeld i v e →
      e.effect i v now = some (result, v') → Spared v' ∧ Q result v') :
    (execute e).Safe (sparing i) (fun result w ↦ Spared w ∧ Q result w) (fun _ ↦ Spared) w := by
  refine Threads.safe_sharing_op hP hw ?_
  rintro v r v' hv hPv ⟨hguard, a, hexec⟩
  rcases exec_cases hexec with ⟨rfl, rfl⟩ | ⟨result, rfl, hresult⟩
  · exact ⟨⟨hv, fun j _ ↦ ⟨rfl, fun _ _ h ↦ h⟩⟩, hv⟩
  · have hspared := heffect v a.now result v' hv hPv hguard hresult
    exact ⟨⟨hspared.1, fun j hj ↦ keeps_effect hj hresult⟩, hspared⟩

theorem safe_execute_harmless (he : e.Harmless) (hw : Spared w) :
    (execute e).Safe (sparing i) (fun _ ↦ Spared) (fun _ ↦ Spared) w := by
  refine (safe_execute (P := fun _ ↦ True) (Q := fun _ _ ↦ True) (fun _ _ _ _ ↦ trivial)
    ⟨hw, trivial⟩ fun v now result v' hv _ _ h ↦ ⟨?_, trivial⟩).mono (fun _ _ h ↦ h.1) fun _ _ h ↦ h
  rw [Spared, trimmed_effect he h]
  exact hv

theorem safe_removeAll (hlength : doomed.length + maxPerResource ≤ n) (hw : Spared w)
    (hcounted : w.counted i = n) (hahead : Ahead i resource doomed w) :
    (removeAll resource doomed).Safe (sparing i) (fun _ ↦ Spared) (fun _ ↦ Spared) w := by
  unfold removeAll
  split_ifs
  · exact hw
  · rw [safe_bind]
    refine (safe_execute (Q := fun _ _ ↦ True)
      (P := fun w ↦ w.counted i = n ∧ Ahead i resource doomed w)
      (fun u v hkeep h ↦ ⟨hkeep.1.trans h.1, hkeep.2 _ _ h.2⟩) ⟨hw, hcounted, hahead⟩ ?_).mono
      (fun _ _ h ↦ h.1) fun _ _ h ↦ h
    rintro v now result v' hv ⟨hcounted, hahead⟩ ⟨hnew, hstill⟩ heffect
    obtain ⟨-, rfl⟩ := Prod.mk.inj (Option.some.inj heffect)
    refine ⟨fun t ht ↦ ?_, trivial⟩
    rcases List.mem_append.mp ht with ht | ht
    · exact hv t ht
    · obtain rfl := List.mem_singleton.mp ht
      exact spares_remove hlength (fun row hrow hseq ↦ hahead row hrow hseq (hnew _ hseq))
        (hcounted ▸ hstill)

theorem safe_removeOldest (hw : Spared w) (hcounted : w.counted i = n) :
    (removeOldest resource (n - maxPerResource)).Safe (sparing i) (fun _ ↦ Spared)
      (fun _ ↦ Spared) w := by
  unfold removeOldest
  split_ifs with hexcess
  · exact hw
  · rw [safe_bind]
    refine (safe_execute (e := .oldest resource (n - maxPerResource))
      (P := fun w ↦ w.counted i = n)
      (Q := fun doomed w ↦ List.length doomed ≤ n - maxPerResource ∧ w.counted i = n ∧
        Ahead i resource doomed w)
      (fun u v hkeep h ↦ hkeep.1.trans h) ⟨hw, hcounted⟩ ?_).mono ?_ fun _ _ h ↦ h
    · rintro v now doomed v' hv hcounted - heffect
      obtain ⟨rfl, rfl⟩ := Prod.mk.inj (Option.some.inj heffect)
      exact ⟨hv, length_oldest_le _, hcounted, ahead_oldest _⟩
    · rintro doomed v ⟨hv, hlength, hcounted, hahead⟩
      exact safe_removeAll (by omega) hv hcounted hahead

/-- **One trim.** -/
theorem safe_trim (hw : Spared w) :
    (trim resource).Safe (sparing i) (fun _ ↦ Spared) (fun _ ↦ Spared) w := by
  unfold trim
  split_ifs
  · exact hw
  · rw [safe_bind]
    refine (safe_execute (P := fun _ ↦ True) (Q := fun held w ↦ w.counted i = held)
      (fun _ _ _ _ ↦ trivial) ⟨hw, trivial⟩ ?_).mono ?_ fun _ _ h ↦ h
    · rintro v now held v' hv - - heffect
      obtain ⟨rfl, rfl⟩ := Prod.mk.inj (Option.some.inj heffect)
      exact ⟨hv, Function.update_self ..⟩
    · exact fun held v h ↦ safe_removeOldest h.1 h.2

theorem safe_sweep (cutoff : ℚ) (hw : Spared w) :
    (sweep cutoff).Safe (sparing i) (fun _ ↦ Spared) (fun _ ↦ Spared) w := by
  unfold sweep
  rw [safe_bind]
  refine (safe_execute_harmless (by rintro _ _ ⟨⟩) hw).mono (fun doomed v hv ↦ ?_) fun _ _ h ↦ h
  split_ifs
  · exact hv
  · rw [safe_bind]
    exact safe_execute_harmless (by rintro _ _ ⟨⟩) hv

theorem safe_sweepIfDue (hw : Spared w) :
    sweepIfDue.Safe (sparing i) (fun _ ↦ Spared) (fun _ ↦ Spared) w := by
  unfold sweepIfDue
  rw [safe_bind]
  refine (safe_execute_harmless (by rintro _ _ ⟨⟩) hw).mono (fun due v hv ↦ ?_) fun _ _ h ↦ h
  rcases due with _ | cutoff
  · exact hv
  · exact safe_sweep cutoff hv

theorem safe_record {event : Event c} (hw : Spared w) :
    (record event).Safe (sparing i) (fun _ ↦ Spared) (fun _ ↦ Spared) w := by
  unfold record
  rw [safe_bind, safe_attempt]
  refine (safe_execute_harmless (by rintro _ _ ⟨⟩) hw).mono (fun _ v hv ↦ ?_) fun _ _ h ↦ h
  have hretain : (retain event.resource).Safe (sparing i) (fun _ ↦ Spared) (fun _ ↦ Spared) v := by
    unfold retain
    rw [safe_bind]
    exact (safe_trim hv).mono (fun _ _ h ↦ safe_sweepIfDue h) fun _ _ h ↦ h
  simp only [safe_bind, safe_attempt]
  exact hretain

theorem safe_program (request : Request c) (hw : Spared w) :
    request.program.Safe (sparing i) (fun _ ↦ Spared) (fun _ ↦ Spared) w := by
  cases request with
  | record event => exact safe_bind.mpr (safe_record hw)
  | trim resource => exact safe_bind.mpr (safe_trim hw)
  | forget resource => exact safe_execute_harmless (by rintro _ _ ⟨⟩) hw

end

/-- **Trimming in runs.** When every trim deletes where as many events are held as it has counted,
but for those of the doomed that are gone, and no number of the doomed was given anew, then no trim
deletes one of the newest events of a resource. -/
theorem spared_of_stillHeld {requests : ℕ → Request c} {s t : Machine c}
    (hs : (system requests).init s)
    (h : (system requests).Steps (Threads.stepGuard stillHeld) s t) : Spared t.world := by
  obtain ⟨hpool, htrimmed⟩ := hs
  have hspared : Spared s.world := by
    rw [Spared, htrimmed]
    exact fun t ht ↦ nomatch ht
  refine (Threads.Poised.sharing_steps (Q := fun _ _ ↦ Spared) (X := fun _ _ ↦ Spared)
    compatible_sparing h hspared fun i ↦ ?_).2
  rw [hpool]
  exact safe_program (requests i) hspared

instance (i : ℕ) (w : World c) (e : Call c) : Decidable (stillHeld i w e) := by
  cases e with
  | remove resource doomed =>
    exact inferInstanceAs (Decidable (_ ∧ _ ≤ _))
  | _ => exact .isTrue trivial

private theorem newYear_mem : 1 ≤ 2026 ∧ 2026 ≤ 9999 := by omega

private theorem firstOf_mem : 1 ≤ 1 ∧ 1 ≤ 12 := by omega

private theorem firstDay_mem : 1 ≤ 1 ∧ 1 ≤ daysIn 2026 1 := by decide

private theorem midnight_lt : 0 < 24 := by omega

private theorem onTheMinute_lt : 0 < 60 := by omega

private theorem onTheSecond_lt : 0 < 1000000 := by omega

private def newYear : Moment :=
  ⟨2026, 1, 1, 0, 0, 0, 0, newYear_mem, firstOf_mem, firstDay_mem, midnight_lt, onTheMinute_lt,
    onTheMinute_lt, onTheSecond_lt⟩

private def planned : Event utcClock := { eventId := "a", timestamp := newYear, resource := "run" }

private def started : Event utcClock := { eventId := "b", timestamp := newYear, resource := "run" }

private def noEvents : Machine utcClock :=
  ⟨fun _ ↦ (Request.record planned).program, { table := .empty }⟩

private theorem planned_new :
    planned.eventId ∉ (Table.empty (c := utcClock)).rows.map Row.eventId := List.not_mem_nil

private theorem started_new :
    started.eventId ∉ (Table.empty.insert planned planned_new).rows.map Row.eventId := by decide

/-- Two events of one time. -/
private def atOneTime : Table utcClock :=
  (Table.empty.insert planned planned_new).insert started started_new

end SparkPulse.EventLog
