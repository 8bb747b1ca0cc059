import SparkPulse.Data.Moment
import SparkPulse.Reconciler.Sweep
import SparkPulse.Runtime.Composition
import SparkPulse.Runtime.Frame

/-!
# Records that can expire

`purge_expired` drops a record that is over once its `stopped_at` is old enough, and keeps one that
names no time for ever. Any number of requests, listings, sweeps and purges run, interleaved call by
call. Whatever settles a record names the time, but for the list: it settles records under the key
that their plan wrote as null, which `setdefault` leaves as it is, and it adopts containers that have
exited with no time at all. So the records that are over name their times as long as no list is about
to save one of these, and no longer.
-/

namespace SparkPulse.Reconciler

open Program Prog Transition SparkPulse.Runtime

/-! ## Stop times -/

/-- The moment a record was stopped at, where it names one. -/
def stopMoment (r : Record) : Option Moment := r.stoppedAt.join.bind Moment.fromisoformat

/-- A record says when it was over, if it is. -/
def Dated (r : Record) : Prop := r.status.finished = true → (stopMoment r).isSome = true

/-- Every record that is over says when. -/
def AllDated (s : Store) : Prop := ∀ r ∈ s.rows, Dated r

section
variable {s : Store} {r : Record} {id t : String} {p : Patch} {redact : String → Option String}

instance (r : Record) : Decidable (Dated r) := inferInstanceAs (Decidable (_ → _))

instance (s : Store) : Decidable (AllDated s) := inferInstanceAs (Decidable (∀ r ∈ s.rows, Dated r))

theorem dated_redacted : Dated (Store.redacted redact r) ↔ Dated r := by
  unfold Store.redacted
  split <;> exact .rfl

theorem dated_of_moving (hp : Moving p) : Dated (p.apply r) := by
  obtain ⟨status, hstatus, hfinished⟩ := hp
  intro h
  rw [show (p.apply r).status = status by rw [Patch.apply, hstatus, Option.getD_some],
    hfinished] at h
  cases h

theorem stopMoment_of_settlesAt (hp : SettlesAt t p) :
    stopMoment (p.apply r) = Moment.fromisoformat t := by
  rw [stopMoment, Patch.apply, hp.2]
  rfl

theorem dated_of_settlesAt (ht : (Moment.fromisoformat t).isSome = true) (hp : SettlesAt t p) :
    Dated (p.apply r) := fun _ ↦ (stopMoment_of_settlesAt hp).symm ▸ ht

/-- A patch that names neither the status nor the time. -/
theorem Dated.apply (hr : Dated r) (hstatus : p.status = none) (hstopped : p.stoppedAt = none) :
    Dated (p.apply r) := by
  rw [Dated, stopMoment, Patch.apply, hstatus, hstopped]
  exact hr

theorem allDated_iff_get : AllDated s ↔ ∀ id r, s.get id = some r → Dated r :=
  ⟨fun h _ _ hr ↦ h _ (Store.get_eq_some_iff.mp hr).1, fun h r hr ↦ h _ r (Store.get_of_mem hr)⟩

namespace AllDated

theorem repair (hs : AllDated s) : AllDated (s.repair redact) := by
  intro r' hr'
  obtain ⟨r, hr, rfl⟩ := List.mem_map.mp hr'
  exact dated_redacted.mpr (hs r hr)

theorem update (hs : AllDated s) (hp : ∀ r, Dated r → Dated (p.apply r)) :
    AllDated (s.update id p) := by
  intro r' hr'
  obtain ⟨r, hr, rfl⟩ := List.mem_map.mp hr'
  split_ifs
  · exact hp r (hs r hr)
  · exact hs r hr

theorem updateRecord (hs : AllDated s) (hp : ∀ r, Dated r → Dated (p.apply r)) :
    AllDated (s.updateRecord redact id p).2 := by
  rw [allDated_iff_get]
  intro id' r hr
  rw [Store.get_updateRecord] at hr
  exact allDated_iff_get.mp (hs.repair.update hp) id' r hr

theorem persist (hs : AllDated s) (hr : Dated r) : AllDated (s.persist redact r) := by
  rw [allDated_iff_get]
  intro id r' hr'
  rw [Store.get_persist] at hr'
  split_ifs at hr'
  · exact Option.some.inj hr' ▸ hr
  · exact allDated_iff_get.mp hs.repair id r' hr'

theorem dropRecord (hs : AllDated s) : AllDated (s.dropRecord redact id).2 := by
  rw [allDated_iff_get]
  intro id' r hr
  rw [Store.get_dropRecord] at hr
  exact allDated_iff_get.mp hs.repair id' r (Option.ite_none_left_eq_some.mp hr).2

theorem deleteMany (hs : AllDated s) (ids : List String) : AllDated (s.deleteMany ids) :=
  fun r hr ↦ hs r (List.mem_filter.mp hr).1

end AllDated

theorem allDated_save_iff {records : List Record} :
    AllDated (s.save records) ↔ ∀ id r, (Store.byId records).lookup id = some r → Dated r := by
  rw [allDated_iff_get]
  simp only [Store.get_save]

theorem AllDated.save {records : List Record} (h : ∀ r ∈ records, Dated r) :
    AllDated (s.save records) := by
  rw [allDated_save_iff]
  intro id r hr
  rw [Store.lookup_byId] at hr
  exact h r (by simpa using List.mem_of_find?_eq_some (Option.ite_none_left_eq_some.mp hr).2)

end

/-! ## What a list settles -/

section
variable (env : Env) (records : List Record) (containers : List (Container × String))

/-- A record that the list moves to `stopped`. -/
def Lost (r : Record) : Prop :=
  (judged r && (rankEntries r).any (rankLost env containers)) = true

instance (r : Record) : Decidable (Lost env containers r) := inferInstanceAs (Decidable (_ = true))

/-- The containers that the list adopts. -/
def strangers : List (Container × String) :=
  containers.filter (unknownTo (records.filter fun r ↦ r.runtime = runtimeName))

/-- Of the containers adopted as one deployment the last is recorded. -/
def lastStranger (id : String) : Option (Container × String) :=
  (strangers records containers).reverse.find? fun c ↦ deploymentOf c.1 = id

/-- A list that finds these containers settles no record without a time: a record whose rank is
gone has no `stopped_at`, or has a time there, and what is recorded of the containers adopted as one
deployment is running. -/
structure Foreseen : Prop where
  lost : ∀ r ∈ records, Lost env containers r → r.stoppedAt = none ∨ (stopMoment r).isSome = true
  adopted : ∀ c ∈ strangers records containers, deploymentOf c.1 ≠ "" →
    ∀ c' ∈ lastStranger records containers (deploymentOf c.1), c'.2 = "running"

theorem foreseen_iff : Foreseen env records containers ↔
    (∀ r ∈ records, Lost env containers r → r.stoppedAt = none ∨ (stopMoment r).isSome = true) ∧
      ∀ c ∈ strangers records containers, deploymentOf c.1 ≠ "" →
        ∀ c' ∈ lastStranger records containers (deploymentOf c.1), c'.2 = "running" :=
  ⟨fun h ↦ ⟨h.lost, h.adopted⟩, fun h ↦ ⟨h.1, h.2⟩⟩

instance : Decidable (Foreseen env records containers) :=
  decidable_of_iff _ (foreseen_iff env records containers).symm

variable {env records containers} {now : String} {r : Record} {c : Container × String}

theorem dated_adopted : Dated (adopted now c) ↔ c.2 = "running" := by
  by_cases h : c.2 = "running" <;> simp [Dated, adopted, h, stopMoment, Status.finished]

theorem dated_reconciled (hnow : (Moment.fromisoformat now).isSome = true) (hr : Dated r) :
    Dated (reconciled env containers now r) ↔
      (Lost env containers r → r.stoppedAt = none ∨ (stopMoment r).isSome = true) := by
  rw [reconciled, Lost]
  split_ifs with h
  · rw [forall_prop_of_true h]
    rcases hstopped : r.stoppedAt with _ | _ | t <;>
      simp [Dated, Status.finished, stopMoment, hstopped, hnow]
  · exact iff_of_true hr fun hlost ↦ absurd hlost h

theorem reconciled_id : (reconciled env containers now r).id = r.id := by
  unfold reconciled
  split_ifs <;> rfl

theorem lookup_listedRecords (id : String) :
    (Store.byId (listedRecords env containers now records)).lookup id = if id = "" then none else
      ((lastStranger records containers id).map (adopted now)).or
        ((records.reverse.find? fun r ↦ r.id = id).map (reconciled env containers now)) := by
  have hstrangers : (((strangers records containers).map (adopted now)).reverse.find?
      fun r ↦ r.id = id) = (lastStranger records containers id).map (adopted now) := by
    rw [← List.map_reverse, List.find?_map]
    rfl
  have hrecords : ((records.map (reconciled env containers now)).reverse.find?
      fun r ↦ r.id = id) =
        (records.reverse.find? fun r ↦ r.id = id).map (reconciled env containers now) := by
    rw [← List.map_reverse, List.find?_map]
    simp only [Function.comp_def, reconciled_id]
  rw [Store.lookup_byId, listedRecords, List.reverse_append, List.find?_append, ← hstrangers,
    ← hrecords]
  rfl

theorem mem_of_lastStranger {id : String} (h : lastStranger records containers id = some c) :
    c ∈ strangers records containers ∧ deploymentOf c.1 = id :=
  ⟨by simpa using List.mem_of_find?_eq_some h, by simpa using List.find?_some h⟩

/-- No container is adopted as a run the list moves to `stopped`. -/
theorem lastStranger_of_lost (hr : r ∈ records) (h : Lost env containers r) :
    lastStranger records containers r.id = none := by
  rw [← Option.not_isSome_iff_eq_none, Option.isSome_iff_exists]
  rintro ⟨c, hc⟩
  obtain ⟨hmem, hid⟩ := mem_of_lastStranger hc
  have hunknown := (List.mem_filter.mp hmem).2
  rw [unknownTo, Bool.and_eq_true, List.all_eq_true] at hunknown
  have hnative : r.runtime = runtimeName := by
    rw [Lost, judged] at h
    simp only [Bool.and_eq_true, decide_eq_true_eq] at h
    exact h.1.1.1
  have hknown := hunknown.2 r (List.mem_filter.mpr ⟨hr, by simpa using hnative⟩)
  exact of_decide_eq_true hknown hid.symm

/-- **What a list saves is dated** if and only if that was to be foreseen. -/
theorem allDated_save_listed_iff {s : Store} (hnow : (Moment.fromisoformat now).isSome = true)
    (hdated : ∀ r ∈ records, Dated r) (hnodup : (records.map Record.id).Nodup)
    (hnamed : ∀ r ∈ records, r.id ≠ "") :
    AllDated (s.save (listedRecords env containers now records)) ↔
      Foreseen env records containers := by
  rw [allDated_save_iff]
  constructor
  · intro h
    refine ⟨fun r hr hlost ↦ ?_, fun c _ hid c' hc' ↦ ?_⟩
    · have hfind : (records.reverse.find? fun r' ↦ r'.id = r.id) = some r := by
        obtain ⟨r', hr'⟩ : ∃ r', (records.reverse.find? fun r' ↦ r'.id = r.id) = some r' := by
          rw [← Option.isSome_iff_exists, List.find?_isSome]
          exact ⟨r, by simpa using hr, by simp⟩
        have hmem : r' ∈ records := by simpa using List.mem_of_find?_eq_some hr'
        have hid : r'.id = r.id := by simpa using List.find?_some hr'
        rw [hr', List.inj_on_of_nodup_map hnodup hmem hr hid]
      refine (dated_reconciled hnow (hdated r hr)).mp (h r.id _ ?_) hlost
      rw [lookup_listedRecords, if_neg (hnamed r hr), lastStranger_of_lost hr hlost, hfind]
      rfl
    · refine dated_adopted.mp (h (deploymentOf c.1) (adopted now c') ?_)
      rw [lookup_listedRecords, if_neg hid, hc']
      rfl
  · intro h id r hr
    rw [lookup_listedRecords] at hr
    obtain ⟨hid, hr⟩ := Option.ite_none_left_eq_some.mp hr
    rcases hlast : lastStranger records containers id with _ | c
    · rw [hlast, Option.map_none, Option.none_or] at hr
      obtain ⟨r', hr', rfl⟩ := Option.map_eq_some_iff.mp hr
      have hmem : r' ∈ records := by simpa using List.mem_of_find?_eq_some hr'
      exact (dated_reconciled hnow (hdated r' hmem)).mpr (h.lost r' hmem)
    · rw [hlast] at hr
      obtain rfl := Option.some.inj hr
      obtain ⟨hmem, rfl⟩ := mem_of_lastStranger hlast
      exact dated_adopted.mpr (h.adopted c hmem hid c hlast)

end

/-! ## Threads that are observed -/

/-- A world, and what each thread has of the records and of the containers of this machine. -/
structure Observed where
  world : World
  /-- The rows the thread read last. -/
  loaded : Tid → List Record := fun _ ↦ []
  /-- The containers listed to it since. -/
  found : Tid → Option (List (Container × String)) := fun _ ↦ none

namespace Observed

/-- The clock tells the time as `isoformat` writes it. -/
def honest : (c : Call) → c.Ret → Bool
  | .now, t => (Moment.fromisoformat t).any fun m ↦ m.isoformat = t
  | _, _ => true

/-- What a thread has after a reply. -/
def note (w : Observed) (i : Tid) : (c : Call) → c.Ret → World → Observed
  | .rows, rows, w' => ⟨w', Function.update w.loaded i rows, Function.update w.found i none⟩
  | .node _ _ (.listManaged none), .ok containers, w' =>
    { w with world := w', found := Function.update w.found i (some containers) }
  | _, _, w' => { w with world := w' }

/-- The effect of a call. -/
def exec (env : Env) : Threads.Exec Tid Call.Ret Observed Answer := fun i w c a ↦
  ((c.exec env i w.world a).filter fun r ↦ honest c r.1).map fun r ↦ (r.1, w.note i c r.1 r.2)

/-- What the thread has of the records: as they are loaded. -/
def records (env : Env) (w : Observed) (i : Tid) : List Record :=
  (w.loaded i).map (Store.redacted env.redact)

variable {env : Env} {i : Tid} {w w' : Observed} {c : Call} {a : Answer} {r : c.Ret}

@[simp] theorem note_world {w' : World} : (w.note i c r w').world = w' := by
  unfold note
  split <;> rfl

theorem note_of_ne {w' : World} {j : Tid} (hj : j ≠ i) :
    (w.note i c r w').loaded j = w.loaded j ∧ (w.note i c r w').found j = w.found j := by
  unfold note
  split <;> simp [Function.update_of_ne hj]

theorem of_exec (h : exec env i w c a = some (r, w')) :
    c.exec env i w.world a = some (r, w'.world) ∧ honest c r = true ∧
      w' = w.note i c r w'.world := by
  obtain ⟨⟨r', w₁⟩, hexec, heq⟩ := Option.map_eq_some_iff.mp h
  obtain ⟨rfl, rfl⟩ := Prod.mk.inj heq
  obtain ⟨hexec, hhonest⟩ := Option.filter_eq_some_iff.mp hexec
  exact ⟨by rwa [note_world], hhonest, by rw [note_world]⟩

end Observed

/-- Whoever saves a list has found nothing that it would settle without a time. -/
def foreseen (env : Env) : Threads.CallGuard Tid Call Observed := fun i w c ↦
  match c with
  | .save _ _ => ∀ containers ∈ w.found i, Foreseen env (w.records env i) containers
  | _ => True

/-- A call saves a list. -/
def saves : Call → Bool
  | .save _ _ => true
  | _ => false

theorem foreseen_iff_of_saves (env : Env) (i : Tid) (w : Observed) (c : Call) :
    foreseen env i w c ↔
      (saves c = true → ∀ containers ∈ w.found i, Foreseen env (w.records env i) containers) := by
  cases c <;> simp [foreseen, saves]

instance (env : Env) (i : Tid) (w : Observed) (c : Call) : Decidable (foreseen env i w c) :=
  decidable_of_iff _ (foreseen_iff_of_saves env i w c).symm

/-- The setting of a thread: the records stay dated, and each thread is left what it has. -/
abbrev retaining (env : Env) : Tid → Setting Call.Ret Observed :=
  Threads.sharing (Observed.exec env) (foreseen env) (fun w ↦ AllDated w.world.store)
    fun i v w ↦ w.loaded i = v.loaded i ∧ w.found i = v.found i

theorem compatible_retaining (env : Env) : Threads.Compatible (retaining env) :=
  Threads.compatible_sharing (fun _ _ ↦ ⟨rfl, rfl⟩) fun _ _ _ _ huv hvw ↦
    ⟨hvw.1.trans huv.1, hvw.2.trans huv.2⟩

/-- From dated records on, the program keeps them dated. -/
def Retains (env : Env) (i : Tid) (α : Type) (p : Op α) : Prop :=
  ∀ w, AllDated w.world.store → p.Safe (retaining env i) (fun _ w ↦ AllDated w.world.store)
    (fun _ w ↦ AllDated w.world.store) w

section
variable {env : Env} {i : Tid} {α β : Type}

/-- A call that keeps the records dated whatever they are. -/
theorem retains_call {c : Call} (h : ∀ w a r w', c.exec env i w a = some (r, w') →
    Observed.honest c r = true → AllDated w.store → AllDated w'.store) :
    Retains env i _ (invoke c) := by
  intro w hw
  rw [safe_call]
  rintro w₁ hrely r w₂ ⟨-, a, ha⟩
  obtain ⟨hdated, -⟩ := hrely hw
  obtain ⟨hexec, hhonest, hnote⟩ := Observed.of_exec ha
  have hkept : AllDated w₂.world.store := h _ _ _ _ hexec hhonest hdated
  refine ⟨fun _ ↦ ⟨hkept, fun j hj ↦ ?_⟩, hkept⟩
  rw [hnote]
  exact Observed.note_of_ne hj

theorem Retains.bind {p : Op α} {f : α → Op β} (h : Retains env i α p)
    (hf : ∀ a, Retains env i β (f a)) : Retains env i β (p >>= f) := by
  intro w hw
  rw [safe_bind]
  exact (h w hw).mono (fun a w' hw' ↦ hf a w' hw') fun _ _ hw' ↦ hw'

theorem retains_updateRecord {id : String} {p : Patch} (hp : ∀ r, Dated r → Dated (p.apply r)) :
    Retains env i _ (updateRecord id p) :=
  retains_call (c := .updateRecord id p) fun _ _ _ _ h _ hw ↦ by
    cases h
    exact hw.updateRecord hp

theorem retains_updateRow {id : String} {p : Patch} (hp : ∀ r, Dated r → Dated (p.apply r)) :
    Retains env i _ (updateRow id p) :=
  retains_call (c := .updateRow id p) fun _ _ _ _ h _ hw ↦ by
    cases h
    exact hw.update hp

theorem isSome_of_honest {t : String} (h : Observed.honest .now t = true) :
    (Moment.fromisoformat t).isSome = true := by
  obtain ⟨m, hm, -⟩ := (Option.any_eq_true _ _).mp h
  rw [hm, Option.isSome_some]

/-- What is done with the time is done with a moment. -/
theorem retains_now {f : String → Op β}
    (hf : ∀ t, (Moment.fromisoformat t).isSome = true → Retains env i β (f t)) :
    Retains env i β (now >>= f) := by
  intro w hw
  rw [safe_bind, now, safe_call]
  rintro w₁ hrely t w₂ ⟨-, a, ha⟩
  obtain ⟨hdated, -⟩ := hrely hw
  obtain ⟨hexec, hhonest, hnote⟩ := Observed.of_exec ha
  have hkept : AllDated w₂.world.store := by
    rw [(Call.records_of_exec hexec rfl).1]
    exact hdated
  refine ⟨fun _ ↦ ⟨hkept, fun j hj ↦ ?_⟩, hf t (isSome_of_honest hhonest) w₂ hkept⟩
  rw [hnote]
  exact Observed.note_of_ne hj

/-- **Whatever settles a record of a request names the time.** -/
theorem composes_retains (env : Env) (i : Tid) : Composes (Retains env i) where
  pure _ _ hw := hw
  raise _ _ hw := hw
  bind := Retains.bind
  attempt h w hw := safe_attempt.mpr (h w hw)
  asks c hc := retains_call fun w _ _ _ h _ hw ↦ by
    rw [(Call.records_of_exec h hc).1]
    exact hw
  repairs _ _ := retains_updateRow fun _ hr ↦ hr.apply rfl rfl
  moves _ _ hp := retains_updateRecord fun _ _ ↦ dated_of_moving hp
  settles _ _ _ _ hp hf := retains_now fun t ht ↦
    (retains_updateRecord fun _ _ ↦ dated_of_settlesAt ht (hp t)).bind hf
  drops _ := retains_call fun _ _ _ _ h _ hw ↦ by
    cases h
    exact hw.dropRecord

theorem retains_persist {plan : DeployPlan} {status : Status} (hstatus : status.finished = false) :
    Retains env i _ (persistPlannedRecord plan status) := by
  refine Retains.bind (retains_call (c := .persist (recordFromPlan plan status))
    fun _ _ _ _ h _ hw ↦ ?_) fun _ ↦ (composes_retains env i).pure _
  cases h
  refine hw.persist fun hfinished ↦ ?_
  rw [show (recordFromPlan plan status).status = status from rfl, hstatus] at hfinished
  cases hfinished

/-! ## Sweeps and lists -/

theorem sweepRecords_uses {only : Option String} {scope : Scope} (h : scope.phases .observe)
    (rs : List Record) : (Runtime.sweepRecords only rs).Uses (Routine scope) := by
  have hgone (o : Orphan) : (orphanGone o).Uses (Routine scope) := by
    refine (uses_node h).bind fun _ ↦ (uses_node h).bind fun _ ↦ ?_
    refine .ite (fun _ ↦ uses_pure) fun _ ↦ .ite (fun _ ↦ uses_pure) fun _ ↦ ?_
    exact (uses_node h).bind fun _ ↦ (uses_node h).bind fun _ ↦ uses_pure
  have hremaining (os : List Orphan) : (remainingOrphans os).Uses (Routine scope) := by
    induction os with
    | nil => exact uses_pure
    | cons o os ih =>
      refine (hgone o).attempt.bind fun outcome ↦ ?_
      rcases outcome with x | _ | _
      · exact ih.bind fun _ ↦ uses_pure
      · exact ih.bind fun _ ↦ uses_pure
      · exact ih
  induction rs with
  | nil => exact uses_pure
  | cons r rs ih =>
    refine .ite (fun _ ↦ ih.bind fun _ ↦ uses_pure) fun _ ↦ ?_
    exact (hremaining _).bind fun _ ↦ ih.bind fun _ ↦ uses_pure

/-- A sweep over orphans changes neither statuses nor times. -/
theorem sweepRecords_yields {only : Option String} {rs : List Record} (h : ∀ r ∈ rs, Dated r) :
    (Runtime.sweepRecords only rs).Yields fun swept ↦ ∀ r ∈ swept, Dated r := by
  induction rs with
  | nil => exact fun _ hr ↦ nomatch hr
  | cons r rs ih =>
    obtain ⟨hr, hrs⟩ := List.forall_mem_cons.mp h
    rw [Runtime.sweepRecords]
    split_ifs
    · exact (ih hrs).bind fun swept hswept ↦ List.forall_mem_cons.mpr ⟨hr, hswept⟩
    · refine (yields_true _).bind fun remaining _ ↦ (ih hrs).bind fun swept hswept ↦ ?_
      exact List.forall_mem_cons.mpr ⟨hr, hswept⟩

/-- A load, and what is done with the records it gives: these are what the thread has. -/
theorem retains_load {f : List Record → Op β} (hf : ∀ w rows, (rows.map Record.id).Nodup →
      (∀ r ∈ rows, r.id ≠ "") → (∀ r ∈ rows, Dated r) → AllDated w.world.store →
      w.records env i = rows → (f rows).Safe (retaining env i) (fun _ w ↦ AllDated w.world.store)
        (fun _ w ↦ AllDated w.world.store) w) :
    Retains env i β (loadRecords env >>= f) := by
  intro w hw
  rw [loadRecords, safe_bind, safe_bind, safe_call]
  rintro w₁ hrely rows w₂ ⟨-, a, ha⟩
  obtain ⟨hdated, -⟩ := hrely hw
  obtain ⟨hexec, -, hnote⟩ := Observed.of_exec ha
  obtain ⟨hrows, hstore⟩ := Prod.mk.inj (Option.some.inj hexec)
  have hkept : AllDated w₂.world.store := by
    rw [← hstore]
    exact hdated
  have hhas : w₂.loaded i = rows := by
    rw [hnote]
    exact Function.update_self ..
  refine ⟨fun _ ↦ ⟨hkept, fun j hj ↦ hnote ▸ Observed.note_of_ne hj⟩, ?_⟩
  -- repairs change neither what is loaded nor what is dated
  have hrepair : (repairLoaded env rows).Safe (retaining env i)
      (fun _ w ↦ AllDated w.world.store ∧ w.loaded i = rows)
      (fun _ w ↦ AllDated w.world.store ∧ w.loaded i = rows) w₂ := by
    have huses : (repairLoaded env rows).Uses fun c ↦
        ∃ id command, c = .updateRow id { launchCommand := some command } :=
      repairLoaded_uses_of (fun id command ↦ ⟨id, command, rfl⟩) rows
    refine huses.safe (fun v w hv hvw ↦ ?_) (fun u c r v hc hu huv ↦ ?_) ⟨hkept, hhas⟩
    · obtain ⟨hkept, hsame, -⟩ := hvw hv.1
      exact ⟨hkept, hsame.trans hv.2⟩
    · obtain ⟨id, command, rfl⟩ := hc
      obtain ⟨-, a, ha⟩ := huv
      obtain ⟨hexec, -, hnote⟩ := Observed.of_exec ha
      have hkept : AllDated v.world.store := by
        rw [← (Prod.mk.inj (Option.some.inj hexec)).2]
        exact hu.1.update fun _ hr ↦ hr.apply rfl rfl
      rw [hnote]
      exact ⟨fun _ ↦ ⟨hkept, fun _ _ ↦ ⟨rfl, rfl⟩⟩, hkept, hu.2⟩
  refine ((repairLoaded_yields rows).safe hrepair).mono (fun records w₃ hw₃ ↦ ?_)
    fun _ _ hw₃ ↦ hw₃.1
  obtain ⟨rfl, hkept₃, hhas₃⟩ := hw₃
  refine hf w₃ _ ?_ ?_ ?_ hkept₃ (by rw [Observed.records, hhas₃])
  · rw [List.map_map, show Record.id ∘ Store.redacted env.redact = Record.id from
      funext fun r ↦ Store.redacted_id env.redact r, ← hrows]
    exact w₁.world.store.nodup
  · intro r' hr'
    obtain ⟨r, hr, rfl⟩ := List.mem_map.mp hr'
    rw [Store.redacted_id]
    exact w₁.world.store.named r (hrows ▸ hr)
  · intro r' hr'
    obtain ⟨r, hr, rfl⟩ := List.mem_map.mp hr'
    exact dated_redacted.mpr (hdated r (hrows ▸ hr))

theorem retains_sweepOrphans {only : Option String} :
    Retains env i _ (Runtime.sweepOrphans env only) := by
  refine retains_load fun w rows _ _ hrows hw _ ↦ ?_
  rw [safe_bind]
  have hswept := (composes_retains env i).of_routine ""
    (@sweepRecords_uses only (Composes.movingScope "") trivial rows) w hw
  refine ((sweepRecords_yields hrows).safe hswept).mono (fun swept w₁ hw₁ ↦ ?_) fun _ _ h ↦ h
  have hsave : Retains env i _ (saveRecords rows swept) :=
    retains_call (c := .save rows swept) fun _ _ _ _ h _ _ ↦ by
      cases h
      exact .save hw₁.1
  exact (composes_retains env i).ite (hsave.bind fun _ ↦ (composes_retains env i).pure _)
    ((composes_retains env i).pure _) w₁ hw₁.2

/-- A call that writes no record leaves the thread what it notes. -/
theorem safe_ask {c : Call} (hc : c.writes = false) {w : Observed} (hw : AllDated w.world.store)
    {X : Exn → Observed → Prop} : (invoke c).Safe (retaining env i) (fun r w' ↦
      AllDated w'.world.store ∧ Observed.honest c r = true ∧
        ∃ v : Observed, v.loaded i = w.loaded i ∧ v.found i = w.found i ∧ w' = v.note i c r w'.world) X w := by
  rw [safe_call]
  rintro w₁ hrely r w₂ ⟨-, a, ha⟩
  obtain ⟨hdated, hloaded, hfound⟩ := hrely hw
  obtain ⟨hexec, hhonest, hnote⟩ := Observed.of_exec ha
  have hkept : AllDated w₂.world.store := by
    rw [(Call.records_of_exec hexec hc).1]
    exact hdated
  exact ⟨fun _ ↦ ⟨hkept, fun j hj ↦ hnote ▸ Observed.note_of_ne hj⟩, hkept, hhonest, w₁, hloaded,
    hfound, hnote⟩

/-- After a listing the thread has the containers listed. -/
theorem safe_listHere {w : Observed} (hw : AllDated w.world.store) :
    listHere.Safe (retaining env i) (fun containers w' ↦ AllDated w'.world.store ∧
      w'.records env i = w.records env i ∧ w'.found i = some containers)
      (fun _ w' ↦ AllDated w'.world.store) w := by
  rw [listHere, safe_bind, Runtime.node, safe_bind]
  refine (safe_ask rfl hw).mono (fun outcome w₁ hw₁ ↦ ?_) fun _ _ h ↦ h
  obtain ⟨hdated₁, -, v, hloaded₁, hfound₁, hnote₁⟩ := hw₁
  rcases outcome with x | _
  · exact hdated₁
  change ((Runtime.node .observe "" (.listManaged none)).Safe _ _ _ w₁)
  rw [Runtime.node, safe_bind]
  refine (safe_ask rfl hdated₁).mono (fun outcome w₂ hw₂ ↦ ?_) fun _ _ h ↦ h
  obtain ⟨hdated₂, -, u, hloaded₂, hfound₂, hnote₂⟩ := hw₂
  rcases outcome with x | containers
  · exact hdated₂
  refine ⟨hdated₂, ?_, ?_⟩
  · have hsame₁ : w₁.loaded i = w.loaded i := by
      rw [hnote₁]
      exact hloaded₁
    have hsame₂ : w₂.loaded i = u.loaded i := by
      rw [hnote₂]
      rfl
    rw [Observed.records, Observed.records, hsame₂, hloaded₂, hsame₁]
  · rw [hnote₂]
    exact Function.update_self ..

theorem retains_list : Retains env i _ (listDeployments env) := by
  have hK := composes_retains env i
  refine retains_load fun w rows hnodup hnamed hrows hw hhas ↦ ?_
  rw [safe_bind, safe_attempt]
  refine (safe_listHere hw).mono (fun containers w₁ hw₁ ↦ ?_) fun _ _ h ↦ h
  obtain ⟨hdated₁, hhas₁, hfound₁⟩ := hw₁
  dsimp only
  rw [safe_bind]
  refine (safe_ask (c := .now) rfl hdated₁).mono (fun t w₂ hw₂ ↦ ?_) fun _ _ h ↦ h
  obtain ⟨hdated₂, hhonest, v, hloaded₂, hfound₂, hnote₂⟩ := hw₂
  have hrest : Retains env i _ (do
      let _ ← (Runtime.sweepOrphans env none).attempt
      return (listedRecords env containers t rows).filter fun r ↦ r.runtime = runtimeName) :=
    hK.bind (hK.attempt retains_sweepOrphans) fun _ ↦ hK.pure _
  split_ifs with hchanged
  · rw [safe_bind, saveRecords, safe_call]
    rintro w₃ hrely r w₄ ⟨hforeseen, a, ha⟩
    obtain ⟨hdated₃, hloaded₃, hfound₃⟩ := hrely hdated₂
    obtain ⟨hexec, -, hnote₄⟩ := Observed.of_exec ha
    have hfound : w₃.found i = some containers := by
      rw [hfound₃, hnote₂]
      exact hfound₂.trans hfound₁
    have hhas₃ : w₃.records env i = rows := by
      rw [← hhas, ← hhas₁, Observed.records, Observed.records, hloaded₃, hnote₂]
      exact congrArg (List.map _) hloaded₂
    -- nothing the list has found is settled without a time
    have hkept : AllDated w₄.world.store := by
      rw [← (Prod.mk.inj (Option.some.inj hexec)).2]
      have hseen := hforeseen containers hfound
      rw [hhas₃] at hseen
      exact (allDated_save_listed_iff (isSome_of_honest hhonest) hrows hnodup hnamed).mpr hseen
    refine ⟨fun _ ↦ ⟨hkept, fun j hj ↦ hnote₄ ▸ Observed.note_of_ne hj⟩, ?_⟩
    exact hrest w₄ hkept
  · exact hrest w₂ hdated₂

/-! ## The reconciler -/

theorem retains_mark {id state reason : String} {intent : Option String} :
    Retains env i _ (mark id state reason intent) := by
  have hK := composes_retains env i
  have hmarked : Retains env i _ (do
      let updated ← updateRow id (markPatch state reason intent)
      if updated.isSome then
        publish .deploymentSync id (if reason = "" then s!"sync: {state}" else reason)
      return updated) :=
    (retains_updateRow fun _ hr ↦ hr.apply rfl rfl).bind fun _ ↦
      hK.ite (hK.bind hK.publish fun _ ↦ hK.pure _) (hK.pure _)
  exact hK.ite (hK.bind (hK.raise _) fun _ ↦ hmarked) hmarked

theorem retains_markTouched {id state reason : String} {intent : Option String} :
    Retains env i _ (markTouched id state reason intent) :=
  retains_mark.bind fun _ ↦ (composes_retains env i).pure _

theorem retains_finishStop {id : String} : Retains env i _ (finishStop env id) := by
  have hK := composes_retains env i
  refine hK.bind (hK.attempt hK.stopDeployment) fun outcome ↦ ?_
  rcases outcome with x | _ | result
  · exact retains_markTouched
  · exact hK.pure _
  · exact hK.ite retains_markTouched retains_markTouched

theorem retains_finishDelete {id : String} : Retains env i _ (finishDelete env id) := by
  have hK := composes_retains env i
  refine hK.bind (hK.attempt hK.deleteDeployment) fun outcome ↦ ?_
  rcases outcome with x | _ | _
  · exact retains_markTouched
  · exact retains_markTouched
  · exact hK.bind hK.publish fun _ ↦ hK.pure _

theorem retains_settle {id : String} {record : Record} :
    Retains env i _ (settle env id record) := by
  have hK := composes_retains env i
  refine hK.ite (hK.pure _) (hK.bind (hK.attempt retains_list) fun outcome ↦ ?_)
  rcases outcome with x | _
  · exact retains_markTouched
  · refine hK.bind (hK.asks (.row id) rfl) fun found ↦ ?_
    rcases found with _ | current
    · exact hK.pure _
    · exact hK.ite (hK.pure _) retains_markTouched

theorem retains_converge {record : Record} {state : String} :
    Retains env i _ (converge env record state) := by
  have hK := composes_retains env i
  refine hK.ite (hK.pure _) (hK.ite retains_finishDelete (hK.ite ?_ (hK.pure _)))
  exact hK.ite retains_finishStop retains_settle

theorem retains_sweep : Retains env i _ (sweep env) := by
  have hK := composes_retains env i
  have hswept (rs : List Record) : Retains env i _ (sweepRecords env rs) := by
    induction rs with
    | nil => exact hK.pure _
    | cons r rs ih =>
      exact hK.ite ih (hK.bind retains_converge fun _ ↦ hK.bind ih fun _ ↦ hK.pure _)
  exact hK.bind (hK.of_routine "" loadRecords_uses) hswept

/-! ## Purging -/

theorem retains_purge {records : List Record} : Retains env i _ (purgeExpired records) := by
  have hK := composes_retains env i
  have hsplit (rs : List Record) : Retains env i _ (splitExpired rs) := by
    induction rs with
    | nil => exact hK.pure _
    | cons r rs ih =>
      have hrest (isOld : Bool) : Retains env i _ (do
          let found ← splitExpired rs
          if isOld then
            return (found.1, if r.id = "" then found.2 else r.id :: found.2)
          return (r :: found.1, found.2)) :=
        hK.bind ih fun _ ↦ hK.ite (hK.pure _) (hK.pure _)
      rw [splitExpired]
      split
      · exact hrest false
      · exact hK.bind (hK.asks (.isExpired _) rfl) hrest
  refine hK.bind (hsplit records) fun found ↦ ?_
  have hdelete : Retains env i _ (deleteMany found.2) :=
    retains_call (c := .deleteMany found.2) fun _ _ _ _ h _ hw ↦ by
      cases h
      exact hw.deleteMany _
  exact hK.ite (hK.bind hdelete fun _ ↦ hK.pure _) (hK.pure _)

end

/-! ## What a purge drops -/

/-- An event of the log: the deployment it is about, and what it says. -/
structure LoggedEvent where
  resource : String
  kind : EventType
  message : String

/-- `event_log.forget` -/
def forget (events : List LoggedEvent) (resource : String) : List LoggedEvent :=
  events.filter fun e ↦ e.resource ≠ resource

/-- A world and its event log. -/
structure Books where
  world : World
  events : List LoggedEvent

/-- What a purge is told: of a stop time whether it is before the cutoff, where it can be read. -/
def purgeAnswer (cutoff : Moment) : Call → Answer
  | .isExpired t => { yes := (Moment.fromisoformat t).any fun m ↦ m < cutoff }
  | _ => {}

/-- The effect of a call of a purge: with the named rows their events go. -/
def Books.exec (env : Env) (i : Tid) (cutoff : Moment) (b : Books) (c : Call) :
    Option (c.Ret × Books) :=
  (c.exec env i b.world (purgeAnswer cutoff c)).map fun r ↦ (r.1, {
    world := r.2
    events := match c with
      | .deleteMany ids => ids.foldl forget b.events
      | _ => b.events })

/-- A record that is over, since before the cutoff. -/
def past (cutoff : Moment) (r : Record) : Bool :=
  r.status.finished && (stopMoment r).any fun m ↦ m < cutoff

section
variable {env : Env} {i : Tid} {cutoff : Moment} {b : Books} {r : Record}

theorem foldl_forget (ids : List String) (events : List LoggedEvent) :
    ids.foldl forget events = events.filter fun e ↦ e.resource ∉ ids := by
  induction ids generalizing events with
  | nil => simp
  | cons id ids ih =>
    rw [List.foldl_cons, ih, forget, List.filter_filter]
    refine List.filter_congr fun e _ ↦ ?_
    simp [not_or, Bool.and_comm]

theorem past_of_stoppedTime_eq_none (h : stoppedTime r = none) : past cutoff r = false := by
  rw [stoppedTime] at h
  rw [past, stopMoment]
  split_ifs at h with hfinished
  · rcases hstopped : r.stoppedAt with _ | _ | t
    · simp
    · simp
    · rw [hstopped] at h
      simp only at h
      split_ifs at h with ht
      subst ht
      simp [Moment.fromisoformat, Digits.read]
  · simp [hfinished]

theorem past_of_stoppedTime {t : String} (h : stoppedTime r = some t) :
    past cutoff r = (Moment.fromisoformat t).any fun m ↦ m < cutoff := by
  rw [stoppedTime] at h
  rw [past, stopMoment]
  split_ifs at h with hfinished
  rcases hstopped : r.stoppedAt with _ | _ | t'
  · simp [hstopped] at h
  · simp [hstopped] at h
  · rw [hstopped] at h
    simp only at h
    split_ifs at h
    obtain rfl := Option.some.inj h
    simp [hfinished]

/-- What is split off are the records that are past. -/
theorem run_splitExpired (rs : List Record) (hnamed : ∀ r ∈ rs, r.id ≠ "") :
    (splitExpired rs).run (Books.exec env i cutoff) b =
      some (.ok (rs.filter fun r ↦ !past cutoff r, (rs.filter (past cutoff)).map Record.id), b) := by
  induction rs with
  | nil => rfl
  | cons r rs ih =>
    obtain ⟨hr, hrs⟩ := List.forall_mem_cons.mp hnamed
    rw [splitExpired]
    split
    next hnone =>
      have hpast : past cutoff r = false := past_of_stoppedTime_eq_none hnone
      rw [List.filter_cons_of_pos (by simp [hpast]), List.filter_cons_of_neg (by simp [hpast])]
      exact (run_bind run_pure).trans (run_bind (ih hrs))
    next t ht =>
      have hpast : past cutoff r = _ := past_of_stoppedTime ht
      have hcall : Books.exec env i cutoff b (.isExpired t) = some (past cutoff r, b) := by
        rw [hpast]
        rfl
      rw [run_bind (run_call hcall), run_bind (ih hrs)]
      rcases h : past cutoff r with _ | _
      · rw [List.filter_cons_of_pos (by simp [h]), List.filter_cons_of_neg (by simp [h])]
        rfl
      · rw [List.filter_cons_of_neg (by simp [h]), List.filter_cons_of_pos (by simp [h])]
        simp only [if_neg hr]
        rfl

/-- **A purge drops the records that are past, with their events, and nothing else.** -/
theorem run_purgeExpired (b : Books) : ∃ b',
    (purgeExpired b.world.store.rows).run (Books.exec env i cutoff) b =
      some (.ok b'.world.store.rows, b') ∧
    b'.world.store.rows = b.world.store.rows.filter (fun r ↦ !past cutoff r) ∧
    b'.events = b.events.filter fun e ↦
      e.resource ∉ (b.world.store.rows.filter (past cutoff)).map Record.id := by
  set rows := b.world.store.rows with hrows
  have hsplit := @run_splitExpired env i cutoff b rows b.world.store.named
  have hkept : (rows.filter fun r ↦ r.id ∉ (rows.filter (past cutoff)).map Record.id) =
      rows.filter fun r ↦ !past cutoff r := by
    refine List.filter_congr fun r hr ↦ ?_
    rw [Bool.eq_iff_iff, decide_eq_true_eq, Bool.not_eq_true', ← Bool.not_eq_true, not_iff_not,
      List.mem_map]
    constructor
    · rintro ⟨q, hq, hid⟩
      obtain ⟨hq, hpast⟩ := List.mem_filter.mp hq
      rwa [List.inj_on_of_nodup_map b.world.store.nodup hq hr hid] at hpast
    · exact fun hpast ↦ ⟨r, List.mem_filter.mpr ⟨hr, hpast⟩, rfl⟩
  rw [purgeExpired, run_bind hsplit]
  dsimp only
  split_ifs with hexpired
  · set ids := (rows.filter (past cutoff)).map Record.id
    let b' : Books := ⟨b.world.commit (Store.deleteDelta ids) (b.world.store.deleteMany ids),
      ids.foldl forget b.events⟩
    have hcall : Books.exec env i cutoff b (.deleteMany ids) = some (_, b') := rfl
    have hrows' : b'.world.store.rows = rows.filter fun r ↦ !past cutoff r := hkept
    refine ⟨b', ?_, hrows', foldl_forget ids b.events⟩
    rw [deleteMany, run_bind (run_call hcall), run_pure, hrows']
  · have hnone : (rows.filter (past cutoff)).map Record.id = [] := not_not.mp hexpired
    have hall : rows.filter (fun r ↦ !past cutoff r) = rows := by
      rw [← hkept, hnone]
      simp
    refine ⟨b, ?_, hall.symm, by rw [hnone]; simp⟩
    rw [hall]
    rfl

end

/-- What comes of a purge with this cutoff: the record is gone with its events, and of the others
only what is past. -/
structure Drops (cutoff : Moment) (r : Record) (b b' : Books) : Prop where
  record : r ∉ b'.world.store.rows
  events : ∀ e ∈ b'.events, e.resource ≠ r.id
  records_kept : ∀ q ∈ b.world.store.rows, past cutoff q = false → q ∈ b'.world.store.rows
  events_kept : ∀ e ∈ b.events, (∀ q ∈ b.world.store.rows, past cutoff q = true →
    e.resource ≠ q.id) → e ∈ b'.events
  sublist : b'.world.store.rows.Sublist b.world.store.rows ∧ b'.events.Sublist b.events

/-- A record that can expire: it names a moment it was stopped at, and a purge whose cutoff is later
drops it, with its events, and only it. -/
def Expires (env : Env) (w : World) (r : Record) : Prop :=
  ∃ m, stopMoment r = some m ∧ ∀ i events cutoff, m < cutoff → ∃ b',
    (purgeExpired w.store.rows).run (Books.exec env i cutoff) ⟨w, events⟩ =
      some (.ok b'.world.store.rows, b') ∧ Drops cutoff r ⟨w, events⟩ b'

theorem expires_of_dated {env : Env} {w : World} {r : Record} (hr : r ∈ w.store.rows)
    (hfinished : r.status.finished = true) (hdated : Dated r) : Expires env w r := by
  obtain ⟨m, hm⟩ := Option.isSome_iff_exists.mp (hdated hfinished)
  refine ⟨m, hm, fun i events cutoff hcutoff ↦ ?_⟩
  have hpast : past cutoff r = true := by
    rw [past, hfinished, hm, Bool.true_and, Option.any_some, decide_eq_true_eq]
    exact hcutoff
  obtain ⟨b', hrun, hrows, hevents⟩ := @run_purgeExpired env i cutoff ⟨w, events⟩
  refine ⟨b', hrun, ?_, ?_, ?_, ?_, ?_⟩
  · rw [hrows, List.mem_filter, hpast]
    exact fun h ↦ absurd h.2 (by simp)
  · intro e he hid
    rw [hevents, List.mem_filter, decide_eq_true_eq, hid] at he
    exact he.2 (List.mem_map_of_mem (List.mem_filter.mpr ⟨hr, hpast⟩))
  · intro q hq hnot
    rw [hrows]
    exact List.mem_filter.mpr ⟨hq, by rw [hnot]; rfl⟩
  · intro e he hnot
    rw [hevents]
    refine List.mem_filter.mpr ⟨he, decide_eq_true fun hmem ↦ ?_⟩
    obtain ⟨q, hq, hid⟩ := List.mem_map.mp hmem
    obtain ⟨hq, hqpast⟩ := List.mem_filter.mp hq
    exact hnot q hq hqpast hid.symm
  · rw [hrows, hevents]
    exact ⟨List.filter_sublist, List.filter_sublist⟩

/-! ## Runs -/

/-- What goes on in the control plane. -/
inductive Activity
  | request (request : Request)
  | mark (id state reason : String) (intent : Option String)
  | list
  | sweepOrphans (only : Option String)
  | sweep
  | purge

/-- What an activity runs. -/
def Activity.program (env : Env) : Activity → Op Unit
  | request asked => asked.program env
  | mark id state reason intent => do let _ ← Reconciler.mark id state reason intent
  | list => do let _ ← listDeployments env
  | sweepOrphans only => do let _ ← Runtime.sweepOrphans env only
  | sweep => do let _ ← Reconciler.sweep env
  | purge => do let _ ← purgeExpired (← loadRecords env)

theorem retains_activity {env : Env} {i : Tid} (activity : Activity) :
    Retains env i _ (activity.program env) := by
  have hK := composes_retains env i
  rcases activity with asked | ⟨id, state, reason, intent⟩ | _ | only | _ | _
  · exact hK.request (fun _ _ ↦ retains_persist) asked
  · exact retains_mark.bind fun _ ↦ hK.pure _
  · exact retains_list.bind fun _ ↦ hK.pure _
  · exact retains_sweepOrphans.bind fun _ ↦ hK.pure _
  · exact retains_sweep.bind fun _ ↦ hK.pure _
  · exact hK.bind (hK.of_routine "" loadRecords_uses) fun _ ↦
      retains_purge.bind fun _ ↦ hK.pure _

/-- Any number of activities, interleaved, from dated records. -/
def activities (env : Env) : System (Threads Tid Call.Ret Exn Unit Observed) (Tid × Answer) :=
  Threads.system (Observed.exec env) fun s ↦
    (∀ i, ∃ activity : Activity, s.pool i = activity.program env) ∧ AllDated s.world.world.store

section
variable {env : Env} {s t : Threads Tid Call.Ret Exn Unit Observed}

/-- **Every record that is over can expire**, in every run in which no list is about to settle one
without a time. -/
theorem finished_expire (hs : (activities env).init s)
    (h : (activities env).Steps (Threads.stepGuard (foreseen env)) s t) :
    ∀ r ∈ t.world.world.store.rows, r.status.finished = true → Expires env t.world.world r := by
  obtain ⟨hpool, hdated⟩ := hs
  have hkept : AllDated t.world.world.store := by
    refine (Threads.Poised.sharing_steps (Q := fun _ _ w ↦ AllDated w.world.store)
      (X := fun _ _ w ↦ AllDated w.world.store) (compatible_retaining env) h hdated
      fun i ↦ ?_).2
    obtain ⟨activity, hactivity⟩ := hpool i
    rw [hactivity]
    exact retains_activity activity s.world hdated
  exact fun r hr hfinished ↦ expires_of_dated hr hfinished (hkept r hr)

end

/-! ## Runs of a deploy and a list

Beside the deployment there is a container on this machine that nobody recorded. -/

private theorem thisMachine_local : decide ("" = "") = true := rfl

private def thisMachine : Env where
  isLocal a := a = ""
  isLocal_empty := thisMachine_local
  redact _ := none
  serveProgram command := command
  controlLabel := ""
  readyTimeout := 900

private theorem servedPlan_named : "a" ≠ "" := by decide

private def servedPlan (port generation : ℕ) : DeployPlan where
  deploymentId := "a"
  port := port
  generation := generation
  rankPlans := [{
    rank := 0
    node := ""
    container := {
      image := "i"
      name := rankContainerName "a" 0 generation
      labels := { deployment := some "a", generation := some generation, rank := some 0 } }
    isHead := true }]
  named := servedPlan_named
  manned := List.cons_ne_nil _ _
  ranked := rfl
  made r hr := by
    obtain rfl := List.mem_singleton.mp hr
    exact ⟨rfl, rfl, rfl, rfl, rfl⟩

private def servedPlanner : Planner where
  deploymentId := "a"
  nodeList := []
  preferred := some 8000
  rendezvousPort := none
  rpcPort := none
  finish port _ generation := .ok (servedPlan port generation)
  fits port _ generation plan hplan := by
    obtain rfl := Except.ok.inj hplan
    exact ⟨rfl, rfl, rfl, rfl, rfl⟩

private def deployThenList : Threads Tid Call.Ret Exn Unit Observed where
  pool i := (if i = 0 then Activity.request (.create servedPlanner [] false) else .list).program
    thisMachine
  world := { world := {
    store := ⟨[], List.nodup_nil, Store.named_nil⟩
    containers := [⟨"", "spark-pulse-b", "i", { deployment := some "b" }⟩] } }

private def told : Answer := { text := "2026-01-01T00:00:00+00:00" }

private theorem deployThenList_init : (activities thisMachine).init deployThenList := by
  refine ⟨fun i ↦ ⟨_, rfl⟩, fun r hr ↦ ?_⟩
  cases hr

/-- A deploy that fails is dropped in time. -/
theorem failed_expires : ∃ t : Threads Tid Call.Ret Exn Unit Observed,
    t.world.world.store.rows.map (fun r ↦ (r.id, r.status)) = [("a", .error), ("b", .running)] ∧
    ∀ r ∈ t.world.world.store.rows, r.status.finished = true →
      Expires thisMachine t.world.world r := by
  have hrun : ((activities thisMachine).runUnder (Threads.stepGuard (foreseen thisMachine))
      deployThenList (List.replicate 27 (0, told) ++ List.replicate 5 (1, told) ++
        List.replicate 13 (0, told))).map
        (fun t ↦ t.world.world.store.rows.map fun r ↦ (r.id, r.status)) =
      some [("a", .error), ("b", .running)] := by
    decide +kernel
  obtain ⟨t, ht, hrows⟩ := Option.map_eq_some_iff.mp hrun
  exact ⟨t, hrows, finished_expire deployThenList_init (System.steps_of_runUnder ht)⟩

private def gone : Answer :=
  { vanished := ["spark-pulse-a-r0-g1"], status := fun _ ↦ "exited" }

/-- **Records are kept for ever.** The list settles the deployment, whose container is gone, under the
null its plan wrote, and adopts the container that has exited with no time. -/
theorem listed_never_expires : ∃ t, (activities thisMachine).Reachable Guard.free t ∧
    t.world.world.store.rows.map (fun r ↦ (r.id, r.status, r.stoppedAt)) =
      [("a", .stopped, some none), ("b", .stopped, some none)] ∧
    ∀ r ∈ t.world.world.store.rows, ¬Expires thisMachine t.world.world r := by
  have hrun : ((activities thisMachine).run deployThenList
      (List.replicate 27 (0, told) ++ [(1, told), (1, told), (1, gone), (1, told), (1, told)])).map
        (fun t ↦ t.world.world.store.rows.map fun r ↦ (r.id, r.status, r.stoppedAt)) =
      some [("a", .stopped, some none), ("b", .stopped, some none)] := by
    decide +kernel
  obtain ⟨t, ht, hrows⟩ := Option.map_eq_some_iff.mp hrun
  refine ⟨t, ⟨deployThenList, deployThenList_init, System.steps_of_run ht⟩, hrows, ?_⟩
  rintro r hr ⟨m, hm, -⟩
  have hmem := List.mem_map_of_mem (f := fun r ↦ (r.id, r.status, r.stoppedAt)) hr
  rw [hrows] at hmem
  have hnull : r.stoppedAt = some none := by
    simp only [List.mem_cons, Prod.mk.injEq, List.not_mem_nil, or_false] at hmem
    rcases hmem with hmem | hmem
    · exact hmem.2.2
    · exact hmem.2.2
  rw [stopMoment, hnull] at hm
  cases hm

end SparkPulse.Reconciler
