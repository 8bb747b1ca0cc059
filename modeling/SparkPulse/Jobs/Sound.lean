import SparkPulse.Jobs.Basic

/-!
# Jobs end once

The check for a running job and the insertion of a new one are two lock sections, and so are reading
a job as queued and writing that it is cancelled, and writing an end and announcing it. As long as
nothing comes between two of them that matters, a model has one job at a time, what ends a job is
final, and the finish listeners are told of it once.

The invariant behind the last part is on who still has to announce an end: an end is announced, or
some thread has yet to do so; and one that was announced is remembered as long as anybody has.
-/

namespace SparkPulse.Jobs

open Program Transition

/-! ## The property and the condition -/

namespace Registry

/-- The job has ended, whether or not it is still listed. -/
def Ended (w : Registry) (id : JobId) : Prop := ∃ s, w.last id = some s ∧ s.terminal = true

/-- An end of the job has been announced. -/
def Announced (w : Registry) (id : JobId) : Prop :=
  id ∈ w.told.map Prod.fst ∨ id ∈ w.telling.map Prod.snd

/-- A subject has at most one job that is queued or running. -/
def OneActive (w : Registry) : Prop :=
  ∀ id id' job job', w.jobs id = some job → w.jobs id' = some job' →
    job.status.active = true → job'.status.active = true → job.subject = job'.subject → id = id'

/-- A job that has ended keeps its status, its error and its byte counts while it is listed. -/
def Frozen (v w : Registry) : Prop :=
  ∀ id job job', v.jobs id = some job → job.status.terminal = true → w.jobs id = some job' →
    job'.status = job.status ∧ job'.error = job.error ∧ job'.bytesDone = job.bytesDone ∧
      job'.bytesTotal = job.bytesTotal

end Registry

/-- Every thread that was started has run to its end. -/
def Settled (s : Threads Tid Call.Ret Failure Unit Registry) : Prop :=
  ∀ i, s.world.started i = true → ∀ c next, s.pool i ≠ .op c next

/-- One job at a time for each subject, and the listeners told once of each end: the status told is
the last the job had, and once all threads are through, no end is left untold. -/
structure Sound (k : Kind) (s : Threads Tid Call.Ret Failure Unit Registry) : Prop where
  one : s.world.OneActive
  once : (s.world.told.map Prod.fst).Nodup
  final : ∀ id status, (id, status) ∈ s.world.told →
    s.world.last id = some status ∧ status.terminal = true
  all : k = .download → Settled s → ∀ id status, s.world.last id = some status →
    status.terminal = true → (id, status) ∈ s.world.told

/-- What an update gives of the status, the error and the byte counts, the job has already. -/
def Fields.Agrees (f : Fields) (job : Job) : Prop :=
  (∀ status ∈ f.status, job.status = status) ∧ (∀ error ∈ f.error, job.error = some error) ∧
    (∀ n ∈ f.bytesDone, job.bytesDone = n) ∧ ∀ n ∈ f.bytesTotal, job.bytesTotal = n

instance (f : Fields) (job : Job) : Decidable (f.Agrees job) := by
  unfold Fields.Agrees
  infer_instance

/-- A job is inserted only while its subject has none that is queued or running; an update that
lands on a job which has ended gives nothing new; and a job that was announced is cleared only when
no other thread still has to announce it. -/
def Undisturbed : Threads.CallGuard Tid Call Registry := fun _ w c ↦
  match c with
  | .insert job => ∀ j ∈ w.listing, ¬(j.status.active = true ∧ j.subject = job.subject)
  | .set id fields => ∀ job ∈ w.jobs id, job.status.terminal = true → fields.Agrees job
  | .clear => ∀ o ∈ w.owed, o.2 ∈ w.notified → w.stale o.2 = false
  | _ => True

instance (i : Tid) (w : Registry) (c : Call) : Decidable (Undisturbed i w c) := by
  cases c <;> unfold Undisturbed <;> infer_instance

/-! ## The invariant -/

structure Inv (w : Registry) : Prop where
  one : w.OneActive
  listed : ∀ id job, w.jobs id = some job → job.id = id ∧ w.last id = some job.status
  fresh : ∀ id status, w.last id = some status → id < w.next
  owed : ∀ t id, (t, id) ∈ w.owed → w.Ended id
  begun : ∀ t id, (t, id) ∈ w.owed ∨ (t, id) ∈ w.telling → w.started t = true
  once : (w.told.map Prod.fst ++ w.telling.map Prod.snd).Nodup
  told : ∀ id status, (id, status) ∈ w.told → w.last id = some status ∧ status.terminal = true
  /-- What was announced is remembered while it is listed, or anybody has to announce it. -/
  known : ∀ id, w.Announced id →
    w.Ended id ∧ (id ∈ w.notified ∨ w.jobs id = none ∧ ∀ t, (t, id) ∉ w.owed)
  announced : ∀ id ∈ w.notified, w.Announced id
  all : ∀ id, w.Ended id → w.Announced id ∨ ∃ t, (t, id) ∈ w.owed

/-- What the other threads leave to thread `i`. -/
structure Keeps (i : Tid) (v w : Registry) : Prop where
  owed : ∀ id, (i, id) ∈ w.owed ↔ (i, id) ∈ v.owed
  telling : ∀ id, (i, id) ∈ w.telling ↔ (i, id) ∈ v.telling
  last : ∀ id status, v.last id = some status → status.terminal = true → w.last id = some status

theorem Keeps.refl (i : Tid) (w : Registry) : Keeps i w w :=
  ⟨fun _ ↦ .rfl, fun _ ↦ .rfl, fun _ _ h _ ↦ h⟩

theorem Keeps.trans {i : Tid} {u v w : Registry} (huv : Keeps i u v) (hvw : Keeps i v w) :
    Keeps i u w where
  owed id := (hvw.owed id).trans (huv.owed id)
  telling id := (hvw.telling id).trans (huv.telling id)
  last id status h hterm := hvw.last id status (huv.last id status h hterm) hterm

/-- The setting of thread `i`. -/
abbrev shared (i : Tid) : Setting Call.Ret Registry :=
  Threads.sharing Call.exec Undisturbed Inv Keeps i

/-- A call of thread `i` keeps the invariant, and what the other threads are left. -/
def Leaves (i : Tid) (v w : Registry) : Prop := Inv w ∧ ∀ j, j ≠ i → Keeps j v w

/-! ## Listing -/

theorem mem_listing {w : Registry} (hw : Inv w) {id : JobId} {job : Job}
    (h : w.jobs id = some job) : job ∈ w.listing := by
  rw [Registry.listing, List.mem_filterMap]
  exact ⟨id, List.mem_range.mpr (hw.fresh id _ (hw.listed id job h).2), h⟩

/-! ## The calls -/

section
variable {i : Tid} {v w : Registry}

/-- What a call by a started thread does. -/
theorem exec_of_performs {g : Threads.CallGuard Tid Call Registry} {c : Call} {r : c.Ret}
    (h : Threads.performs Call.exec g i v c r w) :
    v.started i = true ∧ ∃ a, Call.exec i v c a = some (r, w) := by
  obtain ⟨-, a, h⟩ := h
  refine ⟨?_, a, h⟩
  unfold Call.exec at h
  split_ifs at h with hnot
  exact Bool.not_eq_false _ ▸ hnot

/-- Nothing an invariant speaks of changes. -/
theorem leaves_same (hv : Inv v) : Leaves i v v := ⟨hv, fun j _ ↦ Keeps.refl j v⟩

theorem leaves_cancelled (hv : Inv v) (ids : List JobId) :
    Leaves i v { v with cancelled := ids } :=
  ⟨⟨hv.one, hv.listed, hv.fresh, hv.owed, hv.begun, hv.once, hv.told, hv.known, hv.announced,
    hv.all⟩, fun _ _ ↦ ⟨fun _ ↦ .rfl, fun _ ↦ .rfl, fun _ _ h _ ↦ h⟩⟩

theorem leaves_stopped (hv : Inv v) (ids : List JobId) :
    Leaves i v { v with stopped := ids } :=
  ⟨⟨hv.one, hv.listed, hv.fresh, hv.owed, hv.begun, hv.once, hv.told, hv.known, hv.announced,
    hv.all⟩, fun _ _ ↦ ⟨fun _ ↦ .rfl, fun _ ↦ .rfl, fun _ _ h _ ↦ h⟩⟩

theorem started_spawn {t u : Tid} {plan : List PlanEntry} (h : v.started u = true) :
    ({ v with spawned := Function.update v.spawned t (some plan) } : Registry).started u = true := by
  rcases u with n | id | id
  · rfl
  all_goals
    simp only [Registry.started, Function.update_apply]
    split_ifs
    · rfl
    · exact h

theorem leaves_spawn (hv : Inv v) (t : Tid) (plan : List PlanEntry) :
    Leaves i v { v with spawned := Function.update v.spawned t (some plan) } :=
  ⟨⟨hv.one, hv.listed, hv.fresh, hv.owed, fun u id h ↦ started_spawn (hv.begun u id h), hv.once,
    hv.told, hv.known, hv.announced, hv.all⟩, fun _ _ ↦ ⟨fun _ ↦ .rfl, fun _ ↦ .rfl, fun _ _ h _ ↦ h⟩⟩

/-! ### Inserting a job -/

theorem insert_last (job : Job) (createdAt : String) (id : JobId) :
    (v.insert job createdAt).2.last id =
      if id = v.next then some job.status else v.last id := Function.update_apply ..

theorem insert_jobs (job : Job) (createdAt : String) (id : JobId) :
    (v.insert job createdAt).2.jobs id =
      if id = v.next then some { job with id := v.next, createdAt } else v.jobs id :=
  Function.update_apply ..

theorem insert_last_of_ended (hv : Inv v) {job : Job} {createdAt : String} {id : JobId}
    {status : Status} (h : v.last id = some status) :
    (v.insert job createdAt).2.last id = some status := by
  have hlt := hv.fresh id status h
  rw [insert_last, if_neg (Nat.ne_of_lt hlt)]
  exact h

theorem insert_ended (hv : Inv v) {job : Job} {createdAt : String}
    (hjob : job.status.terminal = false) (id : JobId) :
    (v.insert job createdAt).2.Ended id ↔ v.Ended id := by
  constructor
  · rintro ⟨status, hlast, hterm⟩
    rw [insert_last] at hlast
    split_ifs at hlast with hid
    · obtain rfl := Option.some.inj hlast
      rw [hjob] at hterm
      cases hterm
    · exact ⟨status, hlast, hterm⟩
  · rintro ⟨status, hlast, hterm⟩
    exact ⟨status, insert_last_of_ended hv hlast, hterm⟩

theorem insert_oneActive (hv : Inv v) {job : Job} {createdAt : String}
    (hg : ∀ j ∈ v.listing, ¬(j.status.active = true ∧ j.subject = job.subject)) :
    (v.insert job createdAt).2.OneActive := by
  intro id id' j j' hj hj' hactive hactive' hsubject
  rw [insert_jobs] at hj hj'
  split_ifs at hj hj' with hid hid' hid'
  · rw [hid, hid']
  · obtain rfl := Option.some.inj hj
    exact absurd ⟨hactive', hsubject.symm⟩ (hg j' (mem_listing hv hj'))
  · obtain rfl := Option.some.inj hj'
    exact absurd ⟨hactive, hsubject⟩ (hg j (mem_listing hv hj))
  · exact hv.one id id' j j' hj hj' hactive hactive' hsubject

theorem leaves_insert (hv : Inv v) {job : Job} {createdAt : String}
    (hjob : job.status.terminal = false)
    (hg : ∀ j ∈ v.listing, ¬(j.status.active = true ∧ j.subject = job.subject)) :
    Leaves i v (v.insert job createdAt).2 := by
  refine ⟨⟨insert_oneActive hv hg, ?_, ?_, ?_, hv.begun, hv.once, ?_, ?_, ?_, ?_⟩,
    fun _ _ ↦ ⟨fun _ ↦ .rfl, fun _ ↦ .rfl, fun _ _ h _ ↦ insert_last_of_ended hv h⟩⟩
  · intro id j hj
    rw [insert_jobs] at hj
    rw [insert_last]
    split_ifs at hj ⊢ with hid
    · obtain rfl := Option.some.inj hj
      exact ⟨hid.symm, rfl⟩
    · exact hv.listed id j hj
  · intro id status hlast
    show id < v.next + 1
    rw [insert_last] at hlast
    split_ifs at hlast with hid
    · exact hid ▸ Nat.lt_succ_self id
    · exact Nat.lt_succ_of_lt (hv.fresh id status hlast)
  · exact fun t id h ↦ (insert_ended hv hjob id).mpr (hv.owed t id h)
  · exact fun id status h ↦ ⟨insert_last_of_ended hv (hv.told id status h).1, (hv.told id status h).2⟩
  · intro id h
    obtain ⟨hend, hknown⟩ := hv.known id h
    refine ⟨(insert_ended hv hjob id).mpr hend, hknown.imp_right fun ⟨hnone, howed⟩ ↦ ⟨?_, howed⟩⟩
    obtain ⟨status, hlast, -⟩ := hend
    rw [insert_jobs, if_neg (Nat.ne_of_lt (hv.fresh id status hlast))]
    exact hnone
  · exact hv.announced
  · exact fun id h ↦ hv.all id ((insert_ended hv hjob id).mp h)

/-! ### Updating a job -/

/-- What an update of a listed job does under the condition. -/
structure Sets (i : Tid) (id : JobId) (fields : Fields) (job : Job) (v w : Registry) : Prop where
  listed : v.jobs id = some job
  agrees : job.status.terminal = true → fields.Agrees job
  world : (v.set i id fields).2 = w

theorem update_status (fields : Fields) (job : Job) :
    (fields.update job).status = fields.status.getD job.status := rfl

theorem update_status_of_terminal {fields : Fields} {job : Job}
    (hagrees : job.status.terminal = true → fields.Agrees job)
    (h : job.status.terminal = true) : (fields.update job).status = job.status := by
  rw [update_status]
  rcases hstatus : fields.status with _ | status
  · rfl
  · exact ((hagrees h).1 status hstatus).symm

namespace Sets

variable {id : JobId} {fields : Fields} {job : Job}

theorem eq (h : Sets i id fields job v w) : w = { v with
    jobs := Function.update v.jobs id (some (fields.update job))
    last := Function.update v.last id (some (fields.update job).status)
    owed := if fields.status.any Status.terminal then (i, id) :: v.owed else v.owed } := by
  rw [← h.world, Registry.set, h.listed]

theorem jobs (h : Sets i id fields job v w) (id' : JobId) :
    w.jobs id' = if id' = id then some (fields.update job) else v.jobs id' := by
  rw [h.eq]
  exact Function.update_apply ..

theorem last (h : Sets i id fields job v w) (id' : JobId) :
    w.last id' = if id' = id then some (fields.update job).status else v.last id' := by
  rw [h.eq]
  exact Function.update_apply ..

theorem mem_owed (h : Sets i id fields job v w) (o : Tid × JobId) :
    o ∈ w.owed ↔ o ∈ v.owed ∨ fields.status.any Status.terminal = true ∧ o = (i, id) := by
  rw [h.eq]
  show o ∈ (if _ then _ else _) ↔ _
  split_ifs with hterm
  · rw [List.mem_cons]
    tauto
  · tauto

theorem last_of_ended (hv : Inv v) (h : Sets i id fields job v w) {id' : JobId} {status : Status}
    (hlast : v.last id' = some status) (hterm : status.terminal = true) :
    w.last id' = some status := by
  rw [h.last]
  split_ifs with hid
  · subst hid
    rw [(hv.listed _ _ h.listed).2] at hlast
    obtain rfl := Option.some.inj hlast
    rw [update_status_of_terminal h.agrees hterm]
  · exact hlast

theorem ended (hv : Inv v) (h : Sets i id fields job v w) {id' : JobId} (hend : v.Ended id') :
    w.Ended id' := by
  obtain ⟨status, hlast, hterm⟩ := hend
  exact ⟨status, h.last_of_ended hv hlast hterm, hterm⟩

/-- A job that is seen to have ended had ended, or the update ended it. -/
theorem ended_cases (hv : Inv v) (h : Sets i id fields job v w) {id' : JobId}
    (hend : w.Ended id') :
    v.Ended id' ∨ fields.status.any Status.terminal = true ∧ id' = id := by
  obtain ⟨status, hlast, hterm⟩ := hend
  rw [h.last] at hlast
  split_ifs at hlast with hid
  · obtain rfl := Option.some.inj hlast
    rw [update_status] at hterm
    rcases hstatus : fields.status with _ | new
    · rw [hstatus] at hterm
      exact .inl ⟨job.status, hid ▸ (hv.listed _ _ h.listed).2, hterm⟩
    · rw [hstatus] at hterm
      exact .inr ⟨hterm, hid⟩
  · exact .inl ⟨status, hlast, hterm⟩

theorem oneActive (hv : Inv v) (h : Sets i id fields job v w) : w.OneActive := by
  -- an update that leaves a job active found it active
  have hback : ∀ id' j', w.jobs id' = some j' → j'.status.active = true →
      ∃ j, v.jobs id' = some j ∧ j.status.active = true ∧ j.subject = j'.subject := by
    intro id' j' hj' hactive
    rw [h.jobs] at hj'
    split_ifs at hj' with hid
    · obtain rfl := Option.some.inj hj'
      refine ⟨job, hid ▸ h.listed, ?_, rfl⟩
      by_contra hnot
      have hterm : job.status.terminal = true := by
        rw [Status.active_eq_not_terminal] at hnot
        simpa using hnot
      rw [update_status_of_terminal h.agrees hterm] at hactive
      exact hnot hactive
    · exact ⟨j', hj', hactive, rfl⟩
  intro id₁ id₂ j₁ j₂ hj₁ hj₂ hactive₁ hactive₂ hsubject
  obtain ⟨k₁, hk₁, hactive₁, hs₁⟩ := hback id₁ j₁ hj₁ hactive₁
  obtain ⟨k₂, hk₂, hactive₂, hs₂⟩ := hback id₂ j₂ hj₂ hactive₂
  exact hv.one id₁ id₂ k₁ k₂ hk₁ hk₂ hactive₁ hactive₂ (hs₁.trans (hsubject.trans hs₂.symm))

theorem leaves (hv : Inv v) (hstart : v.started i = true) (h : Sets i id fields job v w) :
    Leaves i v w := by
  have hrest : w.next = v.next ∧ w.told = v.told ∧ w.telling = v.telling ∧
      w.notified = v.notified ∧ w.spawned = v.spawned := by
    rw [h.eq]
    exact ⟨rfl, rfl, rfl, rfl, rfl⟩
  obtain ⟨hnext, htold, htelling, hnotified, hspawned⟩ := hrest
  have hannounced : ∀ id', w.Announced id' ↔ v.Announced id' := by
    intro id'
    rw [Registry.Announced, Registry.Announced, htold, htelling]
  have hstarted : ∀ t, w.started t = v.started t := by
    intro t
    rcases t with n | n | n
    · rfl
    all_goals simp only [Registry.started, hspawned]
  refine ⟨⟨h.oneActive hv, ?_, ?_, ?_, ?_, ?_, ?_, ?_, ?_, ?_⟩, ?_⟩
  · intro id' j hj
    rw [h.jobs] at hj
    rw [h.last]
    split_ifs at hj ⊢ with hid
    · obtain rfl := Option.some.inj hj
      exact ⟨hid ▸ (hv.listed _ _ h.listed).1, rfl⟩
    · exact hv.listed id' j hj
  · intro id' status hlast
    rw [hnext]
    rw [h.last] at hlast
    split_ifs at hlast with hid
    · exact hid ▸ hv.fresh id _ (hv.listed _ _ h.listed).2
    · exact hv.fresh id' status hlast
  · intro t id' howed
    rcases (h.mem_owed _).mp howed with howed | ⟨hterm, hid⟩
    · exact h.ended hv (hv.owed t id' howed)
    · obtain ⟨new, hnew, hterm⟩ := (Option.any_eq_true _ _).mp hterm
      obtain rfl := (Prod.mk.inj hid).2
      refine ⟨new, ?_, hterm⟩
      rw [h.last, if_pos rfl, update_status, hnew]
      rfl
  · intro t id' hmem
    rw [hstarted]
    rw [h.mem_owed, htelling] at hmem
    rcases hmem with (howed | ⟨-, hid⟩) | htell
    · exact hv.begun t id' (.inl howed)
    · exact (Prod.mk.inj hid).1 ▸ hstart
    · exact hv.begun t id' (.inr htell)
  · rw [htold, htelling]
    exact hv.once
  · intro id' status hmem
    rw [htold] at hmem
    obtain ⟨hlast, hterm⟩ := hv.told id' status hmem
    exact ⟨h.last_of_ended hv hlast hterm, hterm⟩
  · intro id' hann
    obtain ⟨hend, hknown⟩ := hv.known id' ((hannounced id').mp hann)
    refine ⟨h.ended hv hend, ?_⟩
    rw [hnotified]
    refine hknown.imp_right fun ⟨hnone, howed⟩ ↦ ?_
    have hid : id' ≠ id := fun heq ↦ by
      rw [heq, h.listed] at hnone
      cases hnone
    refine ⟨?_, fun t ht ↦ ?_⟩
    · rw [h.jobs, if_neg hid]
      exact hnone
    · rcases (h.mem_owed _).mp ht with ht | ⟨-, heq⟩
      · exact howed t ht
      · exact hid (Prod.mk.inj heq).2
  · intro id' hmem
    rw [hnotified] at hmem
    exact (hannounced id').mpr (hv.announced id' hmem)
  · intro id' hend
    rw [hannounced]
    rcases h.ended_cases hv hend with hend | ⟨hterm, hid⟩
    · exact (hv.all id' hend).imp_right fun ⟨t, ht⟩ ↦ ⟨t, (h.mem_owed _).mpr (.inl ht)⟩
    · exact .inr ⟨i, (h.mem_owed _).mpr (.inr ⟨hterm, by rw [hid]⟩)⟩
  · intro j hj
    refine ⟨fun id' ↦ ?_, fun id' ↦ by rw [htelling], fun _ _ hlast hterm ↦
      h.last_of_ended hv hlast hterm⟩
    rw [h.mem_owed]
    refine or_iff_left fun ⟨_, heq⟩ ↦ hj (Prod.mk.inj heq).1

end Sets

/-! ### Clearing the jobs that have ended -/

theorem clear_jobs {id : JobId} {job : Job} : v.clear.jobs id = some job ↔
    v.jobs id = some job ∧ job.status.terminal = false := by
  show (v.jobs id).filter _ = some job ↔ _
  rw [Option.filter_eq_some_iff, Bool.not_eq_true']

theorem leaves_clear (hv : Inv v)
    (hg : ∀ o ∈ v.owed, o.2 ∈ v.notified → v.stale o.2 = false) : Leaves i v v.clear := by
  have hstale : ∀ id, v.stale id = true → v.clear.jobs id = none := by
    intro id h
    obtain ⟨job, hjob, hterm⟩ := (Option.any_eq_true _ _).mp h
    rw [Option.eq_none_iff_forall_not_mem]
    intro j hj
    obtain ⟨hj, hnot⟩ := clear_jobs.mp hj
    rw [hjob] at hj
    obtain rfl := Option.some.inj hj
    rw [hterm] at hnot
    cases hnot
  refine ⟨⟨?_, ?_, hv.fresh, hv.owed, hv.begun, hv.once, hv.told, ?_, ?_, hv.all⟩,
    fun _ _ ↦ ⟨fun _ ↦ .rfl, fun _ ↦ .rfl, fun _ _ h _ ↦ h⟩⟩
  · intro id id' j j' hj hj'
    exact hv.one id id' j j' (clear_jobs.mp hj).1 (clear_jobs.mp hj').1
  · exact fun id job hjob ↦ hv.listed id job (clear_jobs.mp hjob).1
  · intro id hann
    obtain ⟨hend, hknown⟩ := hv.known id hann
    refine ⟨hend, ?_⟩
    rcases hknown with hmem | ⟨hnone, howed⟩
    · by_cases h : v.stale id = true
      · refine .inr ⟨hstale id h, fun t ht ↦ ?_⟩
        rw [hg (t, id) ht hmem] at h
        cases h
      · exact .inl (List.mem_filter.mpr ⟨hmem, by simpa using h⟩)
    · refine .inr ⟨?_, howed⟩
      show (v.jobs id).filter _ = none
      rw [hnone]
      rfl
  · exact fun id hmem ↦ hv.announced id (List.mem_filter.mp hmem).1

/-! ### Announcing an end -/

/-- Thread `i` has nothing to announce or to tell. -/
def Idle (i : Tid) (w : Registry) : Prop := (∀ id, (i, id) ∉ w.owed) ∧ ∀ id, (i, id) ∉ w.telling

/-- The one end that thread `i` has still to announce. -/
structure Owes (i : Tid) (id : JobId) (status : Status) (w : Registry) : Prop where
  owed : ∀ id', (i, id') ∈ w.owed ↔ id' = id
  telling : ∀ id', (i, id') ∉ w.telling
  last : w.last id = some status
  terminal : status.terminal = true

/-- The one end that thread `i` has announced and still to tell. -/
structure Tells (i : Tid) (id : JobId) (status : Status) (w : Registry) : Prop where
  owed : ∀ id', (i, id') ∉ w.owed
  telling : ∀ id', (i, id') ∈ w.telling ↔ id' = id
  last : w.last id = some status
  terminal : status.terminal = true

theorem Idle.keeps (hkeep : Keeps i v w) (h : Idle i v) : Idle i w :=
  ⟨fun id hmem ↦ h.1 id ((hkeep.owed id).mp hmem),
    fun id hmem ↦ h.2 id ((hkeep.telling id).mp hmem)⟩

theorem Owes.keeps {id : JobId} {status : Status} (hkeep : Keeps i v w)
    (h : Owes i id status v) : Owes i id status w where
  owed id' := (hkeep.owed id').trans (h.owed id')
  telling id' hmem := h.telling id' ((hkeep.telling id').mp hmem)
  last := hkeep.last id status h.last h.terminal
  terminal := h.terminal

theorem Tells.keeps {id : JobId} {status : Status} (hkeep : Keeps i v w)
    (h : Tells i id status v) : Tells i id status w where
  owed id' hmem := h.owed id' ((hkeep.owed id').mp hmem)
  telling id' := (hkeep.telling id').trans (h.telling id')
  last := hkeep.last id status h.last h.terminal
  terminal := h.terminal

theorem mem_dropped {os : List (Tid × JobId)} {o : Tid × JobId} {id : JobId} :
    o ∈ os.filter (fun o ↦ o ≠ (i, id)) ↔ o ∈ os ∧ o ≠ (i, id) := by
  rw [List.mem_filter, decide_eq_true_iff]

theorem dropped_of_ne {os : List (Tid × JobId)} {j : Tid} {id id' : JobId} (hj : j ≠ i) :
    (j, id') ∈ os.filter (fun o ↦ o ≠ (i, id)) ↔ (j, id') ∈ os :=
  mem_dropped.trans (and_iff_left fun heq ↦ hj (Prod.mk.inj heq).1)

section
variable {id : JobId} {status : Status}

/-- An end that was announced already: nothing is left to do. -/
theorem announce_known (hv : Inv v) (h : Owes i id status v) (hmem : id ∈ v.notified) :
    (v.announce i id).1 = false ∧ Leaves i v (v.announce i id).2 ∧
      Idle i (v.announce i id).2 := by
  rw [Registry.announce, if_pos hmem]
  refine ⟨rfl, ⟨⟨hv.one, hv.listed, hv.fresh, ?_, ?_, hv.once, hv.told, ?_, hv.announced, ?_⟩,
    fun j hj ↦ ⟨fun id' ↦ dropped_of_ne hj, fun _ ↦ .rfl, fun _ _ h _ ↦ h⟩⟩, ?_, h.telling⟩
  · exact fun t id' ht ↦ hv.owed t id' (mem_dropped.mp ht).1
  · exact fun t id' ht ↦ hv.begun t id' (ht.imp_left fun ht ↦ (mem_dropped.mp ht).1)
  · intro id' hann
    obtain ⟨hend, hknown⟩ := hv.known id' hann
    exact ⟨hend, hknown.imp_right fun ⟨hnone, howed⟩ ↦
      ⟨hnone, fun t ht ↦ howed t (mem_dropped.mp ht).1⟩⟩
  · intro id' hend
    by_cases hid : id' = id
    · exact .inl (hid ▸ hv.announced id hmem)
    · refine (hv.all id' hend).imp_right fun ⟨t, ht⟩ ↦ ⟨t, mem_dropped.mpr ⟨ht, fun heq ↦ ?_⟩⟩
      exact hid (Prod.mk.inj heq).2
  · intro id' ht
    obtain ⟨ht, hne⟩ := mem_dropped.mp ht
    exact hne (by rw [(h.owed id').mp ht])

/-- An end that was not: the thread goes on to tell it. -/
theorem announce_new (hv : Inv v) (hstart : v.started i = true) (h : Owes i id status v)
    (hmem : id ∉ v.notified) :
    (v.announce i id).1 = true ∧ Leaves i v (v.announce i id).2 ∧
      Tells i id status (v.announce i id).2 := by
  have howed : (i, id) ∈ v.owed := (h.owed id).mpr rfl
  have hnot : ¬v.Announced id := by
    intro hann
    rcases (hv.known id hann).2 with hknown | ⟨-, hnobody⟩
    · exact hmem hknown
    · exact hnobody i howed
  rw [Registry.announce, if_neg hmem]
  refine ⟨rfl, ⟨⟨hv.one, hv.listed, hv.fresh, ?_, ?_, ?_, hv.told, ?_, ?_, ?_⟩,
    fun j hj ↦ ⟨fun id' ↦ dropped_of_ne hj, fun id' ↦ ?_, fun _ _ h _ ↦ h⟩⟩, ?_⟩
  · exact fun t id' ht ↦ hv.owed t id' (mem_dropped.mp ht).1
  · intro t id' ht
    rcases ht with ht | ht
    · exact hv.begun t id' (.inl (mem_dropped.mp ht).1)
    · rcases List.mem_cons.mp ht with heq | ht
      · exact (Prod.mk.inj heq).1 ▸ hstart
      · exact hv.begun t id' (.inr ht)
  · rw [List.map_cons, List.nodup_middle]
    exact List.nodup_cons.mpr ⟨fun h ↦ hnot (List.mem_append.mp h), hv.once⟩
  · intro id' hann
    by_cases hid : id' = id
    · subst hid
      exact ⟨⟨status, h.last, h.terminal⟩, .inl List.mem_cons_self⟩
    · have hann : v.Announced id' := by
        rcases hann with hann | hann
        · exact .inl hann
        · exact .inr ((List.mem_cons.mp hann).resolve_left hid)
      obtain ⟨hend, hknown⟩ := hv.known id' hann
      refine ⟨hend, ?_⟩
      rcases hknown with hknown | ⟨hnone, hnobody⟩
      · exact .inl (List.mem_cons_of_mem _ hknown)
      · exact .inr ⟨hnone, fun t ht ↦ hnobody t (mem_dropped.mp ht).1⟩
  · intro id' hid'
    rcases List.mem_cons.mp hid' with rfl | hid'
    · exact .inr List.mem_cons_self
    · exact (hv.announced id' hid').imp_right (List.mem_cons_of_mem _)
  · intro id' hend
    by_cases hid : id' = id
    · exact .inl (.inr (hid ▸ List.mem_cons_self))
    · refine (hv.all id' hend).imp (Or.imp_right (List.mem_cons_of_mem _))
        fun ⟨t, ht⟩ ↦ ⟨t, mem_dropped.mpr ⟨ht, fun heq ↦ hid (Prod.mk.inj heq).2⟩⟩
  · exact List.mem_cons.trans (or_iff_right fun heq ↦ hj (Prod.mk.inj heq).1)
  · refine ⟨fun id' ht ↦ ?_, fun id' ↦ ?_, h.last, h.terminal⟩
    · obtain ⟨ht, hne⟩ := mem_dropped.mp ht
      exact hne (by rw [(h.owed id').mp ht])
    · rw [List.mem_cons, or_iff_left (h.telling id')]
      exact ⟨fun heq ↦ (Prod.mk.inj heq).2, fun heq ↦ by rw [heq]⟩

end

/-- Telling the listeners of the end that was announced. -/
theorem leaves_tell (hv : Inv v) {job : Job} (h : Tells i job.id job.status v) :
    Leaves i v (v.tell i job) ∧ Idle i (v.tell i job) := by
  have htelling : (i, job.id) ∈ v.telling := (h.telling job.id).mpr rfl
  have hmem : job.id ∈ v.telling.map Prod.snd := List.mem_map.mpr ⟨_, htelling, rfl⟩
  obtain ⟨htold, hnodup, hdisj⟩ := List.nodup_append.mp hv.once
  have hann : ∀ id, (v.tell i job).Announced id ↔ v.Announced id := by
    intro id
    show id ∈ (job.id :: v.told.map Prod.fst) ∨ id ∈ List.map Prod.snd (v.telling.filter _) ↔ _
    constructor
    · rintro (hid | hid)
      · rcases List.mem_cons.mp hid with rfl | hid
        · exact .inr hmem
        · exact .inl hid
      · obtain ⟨o, ho, rfl⟩ := List.mem_map.mp hid
        exact .inr (List.mem_map.mpr ⟨o, (mem_dropped.mp ho).1, rfl⟩)
    · rintro (hid | hid)
      · exact .inl (List.mem_cons_of_mem _ hid)
      · obtain ⟨o, ho, rfl⟩ := List.mem_map.mp hid
        by_cases heq : o = (i, job.id)
        · exact .inl (heq ▸ List.mem_cons_self)
        · exact .inr (List.mem_map.mpr ⟨o, mem_dropped.mpr ⟨ho, heq⟩, rfl⟩)
  refine ⟨⟨⟨hv.one, hv.listed, hv.fresh, hv.owed, ?_, ?_, ?_, ?_, ?_, ?_⟩, fun j hj ↦
    ⟨fun _ ↦ .rfl, fun id ↦ dropped_of_ne hj, fun _ _ h _ ↦ h⟩⟩, h.owed, ?_⟩
  · exact fun t id ht ↦ hv.begun t id (ht.imp_right fun ht ↦ (mem_dropped.mp ht).1)
  · show (job.id :: v.told.map Prod.fst ++ List.map Prod.snd (v.telling.filter _)).Nodup
    refine List.nodup_cons.mpr ⟨fun hid ↦ ?_, hv.once.sublist ?_⟩
    · rcases List.mem_append.mp hid with hid | hid
      · exact hdisj _ hid _ hmem rfl
      · obtain ⟨o, ho, heq⟩ := List.mem_map.mp hid
        obtain ⟨ho, hne⟩ := mem_dropped.mp ho
        exact hne (List.inj_on_of_nodup_map hnodup ho htelling heq)
    · exact List.Sublist.append_left (List.filter_sublist.map _) _
  · intro id status hmem
    rcases List.mem_cons.mp hmem with heq | hmem
    · obtain ⟨rfl, rfl⟩ := Prod.mk.inj heq
      exact ⟨h.last, h.terminal⟩
    · exact hv.told id status hmem
  · exact fun id hid ↦ hv.known id ((hann id).mp hid)
  · exact fun id hid ↦ (hann id).mpr (hv.announced id hid)
  · exact fun id hend ↦ (hv.all id hend).imp_left (hann id).mpr
  · intro id ht
    obtain ⟨ht, hne⟩ := mem_dropped.mp ht
    exact hne (by rw [(h.telling id).mp ht])

/-! ### Any call -/

/-- A call that neither announces nor tells; it inserts new jobs only. -/
def Call.Quiet : Call → Prop
  | .announce _ | .tell _ => False
  | .insert job => job.status = .queued
  | _ => True

/-- A quiet call that writes no end. -/
def Call.Harmless : Call → Prop
  | .announce _ | .tell _ => False
  | .insert job => job.status = .queued
  | .set _ fields => fields.status.any Status.terminal = false
  | _ => True

theorem Call.Harmless.quiet {c : Call} (h : c.Harmless) : c.Quiet := by
  cases c <;> trivial

theorem sets_of_performs {id : JobId} {fields : Fields} {r : Option Job}
    (h : Threads.performs Call.exec Undisturbed i v (.set id fields) r w) :
    r = none ∧ v = w ∨ ∃ job, r = some (fields.update job) ∧ Sets i id fields job v w := by
  obtain ⟨hg, a, h⟩ := h
  unfold Call.exec at h
  split_ifs at h
  have hset := Option.some.inj h
  rcases hjob : v.jobs id with _ | job
  · rw [Registry.set, hjob] at hset
    exact .inl ⟨(Prod.mk.inj hset).1.symm, (Prod.mk.inj hset).2⟩
  · refine .inr ⟨job, ?_, hjob, hg job hjob, congrArg Prod.snd hset⟩
    rw [Registry.set, hjob] at hset
    exact (Prod.mk.inj hset).1.symm

theorem leaves_of_quiet (hv : Inv v) {c : Call} {r : c.Ret} (hc : c.Quiet)
    (h : Threads.performs Call.exec Undisturbed i v c r w) : Leaves i v w := by
  obtain ⟨hstart, a, hr⟩ := exec_of_performs h
  have hg := h.1
  unfold Call.exec at hr
  split_ifs at hr
  cases c with
  | announce | tell => exact hc.elim
  | set id fields =>
    rcases sets_of_performs h with ⟨-, rfl⟩ | ⟨job, -, hsets⟩
    · exact leaves_same hv
    · exact hsets.leaves hv hstart
  | insert job =>
    obtain rfl := congrArg Prod.snd (Option.some.inj hr)
    exact leaves_insert hv (by rw [show job.status = .queued from hc]; rfl) hg
  | clear =>
    obtain ⟨-, rfl⟩ := Prod.mk.inj (Option.some.inj hr)
    exact leaves_clear hv hg
  | spawn t plan =>
    obtain ⟨-, rfl⟩ := Prod.mk.inj (Option.some.inj hr)
    exact leaves_spawn hv t plan
  | cancel | uncancel =>
    obtain ⟨-, rfl⟩ := Prod.mk.inj (Option.some.inj hr)
    exact leaves_cancelled hv _
  | stop =>
    obtain ⟨-, rfl⟩ := Prod.mk.inj (Option.some.inj hr)
    exact leaves_stopped hv _
  | await =>
    obtain ⟨plan, -, heq⟩ := Option.map_eq_some_iff.mp hr
    obtain rfl := congrArg Prod.snd heq
    exact leaves_same hv
  | jobs | get | isCancelled | stopped | getSource | planFiles | checkDiskSpace | repoPath
  | download | snapshotDownload | record | measure | pullImage =>
    obtain ⟨-, rfl⟩ := Prod.mk.inj (Option.some.inj hr)
    exact leaves_same hv

instance : Nontrivial Tid := ⟨.client 0, .client 1, by decide⟩

/-- A harmless call leaves its own thread what it leaves the others. -/
theorem keeps_of_harmless (hv : Inv v) {c : Call} {r : c.Ret} (hc : c.Harmless)
    (h : Threads.performs Call.exec Undisturbed i v c r w) : Keeps i v w := by
  have hsame : w.owed = v.owed ∧ w.telling = v.telling := by
    obtain ⟨-, a, hr⟩ := exec_of_performs h
    unfold Call.exec at hr
    split_ifs at hr
    cases c with
    | announce | tell => exact hc.elim
    | set id fields =>
      rcases sets_of_performs h with ⟨-, rfl⟩ | ⟨job, -, hsets⟩
      · exact ⟨rfl, rfl⟩
      · have hnot : ¬fields.status.any Status.terminal = true := by
          rw [show fields.status.any Status.terminal = false from hc]
          exact Bool.false_ne_true
        rw [hsets.eq, if_neg hnot]
        exact ⟨rfl, rfl⟩
    | insert =>
      obtain rfl := congrArg Prod.snd (Option.some.inj hr)
      exact ⟨rfl, rfl⟩
    | await =>
      obtain ⟨plan, -, heq⟩ := Option.map_eq_some_iff.mp hr
      obtain rfl := congrArg Prod.snd heq
      exact ⟨rfl, rfl⟩
    | spawn | jobs | get | clear | isCancelled | cancel | uncancel | stop | stopped | getSource
    | planFiles | checkDiskSpace | repoPath | download | snapshotDownload | record | measure
    | pullImage =>
      obtain ⟨-, rfl⟩ := Prod.mk.inj (Option.some.inj hr)
      exact ⟨rfl, rfl⟩
  obtain ⟨j, hj⟩ := exists_ne i
  exact ⟨fun id ↦ by rw [hsame.1], fun id ↦ by rw [hsame.2],
    ((leaves_of_quiet hv hc.quiet h).2 j hj).last⟩

end

/-! ## Downloads -/

section
variable {α : Type} {i : Tid} {w : Registry}

/-- What holds of a thread of downloads between two of its announcements. -/
abbrev Free (i : Tid) (w : Registry) : Prop := Inv w ∧ Idle i w

/-- Programs that leave their thread nothing to announce. -/
abbrev SafeFree (i : Tid) (p : Op α) (w : Registry) : Prop :=
  p.Safe (shared i) (fun _ ↦ Free i) (fun _ ↦ Free i) w

theorem safe_of_harmless {p : Op α} (h : p.Uses Call.Harmless) (hw : Free i w) :
    SafeFree i p w := by
  refine h.safe (P := Free i) ?_ ?_ hw
  · rintro u v ⟨hu, hidle⟩ hrely
    obtain ⟨hv, hkeep⟩ := hrely hu
    exact ⟨hv, hidle.keeps hkeep⟩
  · rintro u c r v hc ⟨hu, hidle⟩ hr
    have hleaves := leaves_of_quiet hu hc.quiet hr
    exact ⟨fun _ ↦ hleaves, hleaves.1, hidle.keeps (keeps_of_harmless hu hc hr)⟩

/-- Announcing an end, and telling it if it is new. -/
theorem notifyFinished_safe {job : Job} (hw : Inv w) (h : Owes i job.id job.status w) :
    SafeFree i (notifyFinished job) w := by
  refine Threads.safe_sharing_op (P := Owes i job.id job.status) (fun _ _ hkeep h ↦ h.keeps hkeep)
    ⟨hw, h⟩ ?_
  intro v fresh v' hv howes hr
  obtain ⟨hstart, a, hr⟩ := exec_of_performs hr
  unfold Call.exec at hr
  split_ifs at hr
  have hann : v.announce i job.id = (fresh, v') := Option.some.inj hr
  by_cases hmem : job.id ∈ v.notified
  · have hknown := announce_known hv howes hmem
    rw [hann] at hknown
    obtain ⟨rfl, hleaves, hidle⟩ := hknown
    exact ⟨hleaves, hleaves.1, hidle⟩
  · have hnew := announce_new hv hstart howes hmem
    rw [hann] at hnew
    obtain ⟨rfl, hleaves, htells⟩ := hnew
    refine ⟨hleaves, Threads.safe_sharing_op (P := Tells i job.id job.status)
      (fun _ _ hkeep h ↦ h.keeps hkeep) ⟨hleaves.1, htells⟩ ?_⟩
    intro u _ u' hu htells hr
    obtain ⟨-, a, hr⟩ := exec_of_performs hr
    unfold Call.exec at hr
    split_ifs at hr
    obtain ⟨-, rfl⟩ := Prod.mk.inj (Option.some.inj hr)
    obtain ⟨hleaves, hidle⟩ := leaves_tell hu htells
    exact ⟨hleaves, hleaves.1, hidle⟩

theorem publishJob_safe {job : Job} (hw : Inv w) (h : Owes i job.id job.status w) :
    SafeFree i (publishJob .download job) w := by
  rw [publishJob, if_pos h.terminal]
  exact notifyFinished_safe hw h

/-- Nothing is published of a job that has not ended. -/
theorem publishJob_uses {job : Job} (h : job.status.terminal = false) :
    (publishJob .download job).Uses Call.Harmless := by
  rw [publishJob, if_neg (by rw [h]; exact Bool.false_ne_true)]
  trivial

/-- After an end was written, the thread owes just that. -/
theorem owes_of_sets {v : Registry} {id : JobId} {fields : Fields} {job : Job} {status : Status}
    (hv : Inv v) (hidle : Idle i v) (hstatus : fields.status = some status)
    (hterm : status.terminal = true) (h : Sets i id fields job v w) :
    Owes i (fields.update job).id (fields.update job).status w := by
  have hid : (fields.update job).id = id := (hv.listed id job h.listed).1
  have hnew : (fields.update job).status = status := by
    rw [update_status, hstatus]
    rfl
  refine ⟨fun id' ↦ ?_, fun id' hmem ↦ ?_, ?_, hnew ▸ hterm⟩
  · rw [h.mem_owed, or_iff_right (hidle.1 id'), hid, hstatus]
    exact ⟨fun ht ↦ (Prod.mk.inj ht.2).2, fun heq ↦ ⟨hterm, by rw [heq]⟩⟩
  · rw [h.eq] at hmem
    exact hidle.2 id' hmem
  · rw [h.last, if_pos hid]

/-- The rule for writing an end: what comes after it is either done, or starts with the end owed. -/
theorem safe_of_end {id : JobId} {fields : Fields} {status : Status}
    {next : Option Job → Op α} (hstatus : fields.status = some status)
    (hterm : status.terminal = true) (hw : Free i w)
    (hnone : ∀ v, Free i v → SafeFree i (next none) v)
    (hsome : ∀ v job, Inv v → Owes i job.id job.status v → SafeFree i (next (some job)) v) :
    SafeFree i (invoke (.set id fields) >>= next) w := by
  refine Threads.safe_sharing_op (P := Idle i) (fun _ _ hkeep h ↦ h.keeps hkeep) hw ?_
  intro v r v' hv hidle hr
  have hleaves := leaves_of_quiet (c := .set id fields) hv trivial hr
  refine ⟨hleaves, ?_⟩
  rcases sets_of_performs hr with ⟨rfl, rfl⟩ | ⟨job, rfl, hsets⟩
  · exact hnone v ⟨hv, hidle⟩
  · exact hsome v' _ hleaves.1 (owes_of_sets hv hidle hstatus hterm hsets)

theorem setAndPublish_end {id : JobId} {fields : Fields} {status : Status}
    (hstatus : fields.status = some status) (hterm : status.terminal = true) (hw : Free i w) :
    SafeFree i (setAndPublish .download id fields) w := by
  refine safe_of_end hstatus hterm hw (fun v hv ↦ hv) fun v job hv howes ↦ ?_
  rw [SafeFree, Prog.safe_bind]
  exact publishJob_safe hv howes

/-- What follows a program that leaves its thread nothing to announce. -/
theorem SafeFree.bind {β : Type} {p : Op β} {f : β → Op α} (hp : SafeFree i p w)
    (hf : ∀ b v, Free i v → SafeFree i (f b) v) : SafeFree i (p >>= f) w := by
  rw [SafeFree, Prog.safe_bind]
  exact hp.mono (fun b v hv ↦ hf b v hv) fun _ _ h ↦ h

theorem harmless_bind {β : Type} {p : Op β} {f : β → Op α} (hp : p.Uses Call.Harmless)
    (hw : Free i w) (hf : ∀ b v, Free i v → SafeFree i (f b) v) : SafeFree i (p >>= f) w :=
  (safe_of_harmless hp hw).bind hf

/-- A job that is set running is not published as ended. -/
theorem setAndPublish_running {id : JobId} (hw : Free i w) :
    SafeFree i (setAndPublish .download id { status := some .running }) w := by
  refine Threads.safe_sharing_op (P := Idle i) (fun _ _ hkeep h ↦ h.keeps hkeep) hw ?_
  intro v r v' hv hidle hr
  have hc : (Call.set id { status := some .running }).Harmless := rfl
  have hleaves := leaves_of_quiet hv hc.quiet hr
  have hfree : Free i v' := ⟨hleaves.1, hidle.keeps (keeps_of_harmless hv hc hr)⟩
  refine ⟨hleaves, ?_⟩
  rcases sets_of_performs hr with ⟨rfl, rfl⟩ | ⟨job, rfl, hsets⟩
  · exact hfree
  · exact hfree

theorem cancelDownload_safe (id : JobId) (hw : Free i w) : SafeFree i (cancelDownload id) w := by
  refine harmless_bind (p := invoke (.get id)) (by simp [Call.Harmless]) hw fun found v hv ↦ ?_
  rcases found with _ | job
  · exact hv
  · by_cases hterm : job.status.terminal = true
    · refine (congrArg (fun p ↦ SafeFree i p v) (if_pos hterm)).mpr ?_
      exact hv
    · refine (congrArg (fun p ↦ SafeFree i p v) (if_neg hterm)).mpr ?_
      refine harmless_bind (p := invoke (.cancel id)) (by simp [Call.Harmless]) hv fun _ u hu ↦ ?_
      by_cases hqueued : job.status = .queued
      · refine (congrArg (fun p ↦ SafeFree i p u) (if_pos hqueued)).mpr ?_
        exact setAndPublish_end rfl rfl hu
      · refine (congrArg (fun p ↦ SafeFree i p u) (if_neg hqueued)).mpr ?_
        exact safe_of_harmless (by simp [Call.Harmless]) hu

theorem launch_safe {job : Job} (plan : List PlanEntry) (hjob : job.status = .queued)
    (hw : Free i w) : SafeFree i (launch .download job plan) w := by
  refine Threads.safe_sharing_op (P := Idle i) (fun _ _ hkeep h ↦ h.keeps hkeep) hw ?_
  intro v snapshot v' hv hidle hr
  have hc : (Call.insert job).Harmless := hjob
  have hleaves := leaves_of_quiet hv hc.quiet hr
  have hsnapshot : snapshot.status = .queued := by
    obtain ⟨-, a, hr⟩ := exec_of_performs hr
    unfold Call.exec at hr
    split_ifs at hr
    have hfst : (v.insert job a.text).1 = snapshot := congrArg Prod.fst (Option.some.inj hr)
    rw [← hfst]
    exact hjob
  refine ⟨hleaves, safe_of_harmless ?_ ⟨hleaves.1, hidle.keeps (keeps_of_harmless hv hc hr)⟩⟩
  refine .bind (p := publishJob .download snapshot) ?_ fun _ ↦ ?_
  · exact publishJob_uses (by rw [hsnapshot]; rfl)
  · exact .bind (by simp [Call.Harmless]) fun _ ↦ trivial

theorem queueDownload_safe (model : String) (source : Source) (revision : Option String)
    (allowPatterns : List String) (hw : Free i w) :
    SafeFree i (queueDownload model source revision allowPatterns) w := by
  refine harmless_bind (p := invoke .jobs) (by simp [Call.Harmless]) hw fun jobs v hv ↦ ?_
  rcases activeDownloadFor model jobs with _ | existing
  · refine harmless_bind (p := invoke (.planFiles ..)) (by simp [Call.Harmless]) hv
      fun plan u hu ↦ ?_
    refine harmless_bind (p := invoke (.checkDiskSpace _)) (by simp [Call.Harmless]) hu
      fun outcome t ht ↦ ?_
    rcases outcome with exc | _
    · exact ht
    · exact launch_safe plan rfl ht
  · exact safe_of_harmless (.ite (fun _ ↦ trivial) fun _ ↦ trivial) hv

theorem startDownload_safe (model : String) (source revision : Option String)
    (allowPatterns : List String) (hw : Free i w) :
    SafeFree i (startDownload model source revision allowPatterns) w := by
  rw [startDownload]
  split_ifs
  · exact hw
  · refine harmless_bind (p := invoke (.getSource source)) (by simp [Call.Harmless]) hw
      fun outcome v hv ↦ ?_
    rcases outcome with exc | src
    · exact hv
    · by_cases hub : src.type ≠ "hf_hub"
      · refine (congrArg (fun p ↦ SafeFree i p v) (if_pos hub)).mpr ?_
        exact hv
      · refine (congrArg (fun p ↦ SafeFree i p v) (if_neg hub)).mpr ?_
        exact queueDownload_safe _ src revision allowPatterns hv

theorem downloadPlan_uses (id : JobId) (job : Job) (plan : List PlanEntry) (done : Nat)
    (snapshot : String) : (downloadPlan id job plan done snapshot).Uses Call.Harmless := by
  induction plan generalizing done snapshot with
  | nil =>
    refine .bind (by simp [Call.Harmless]) fun _ ↦ .ite (fun _ ↦ trivial) fun _ ↦ ?_
    exact .ite (fun _ ↦ .bind (by simp [Call.Harmless]) fun _ ↦ trivial) fun _ ↦ trivial
  | cons entry plan ih =>
    refine .bind (by simp [Call.Harmless]) fun _ ↦ .ite (fun _ ↦ trivial) fun _ ↦ ?_
    refine .bind (by simp [Call.Harmless]) fun _ ↦ .bind (by simp [Call.Harmless]) fun outcome ↦ ?_
    rcases outcome with exc | file
    · trivial
    · exact ih _ _

theorem fetchModel_uses (id : JobId) (job : Job) (plan : List PlanEntry) :
    (fetchModel id job plan).Uses Call.Harmless := by
  refine .ite (fun _ ↦ ?_) fun _ ↦ downloadPlan_uses id job plan 0 ""
  refine .bind (by simp [Call.Harmless]) fun outcome ↦ ?_
  rcases outcome with exc | file <;> trivial

theorem completeDownload_safe (id : JobId) (job : Job) (path : String) (done : Nat)
    (hw : Free i w) : SafeFree i (completeDownload id job path done) w := by
  refine safe_of_end rfl rfl hw (fun v hv ↦ hv) fun v finished hv howes ↦ ?_
  -- the download is recorded between its end and the announcement
  refine Threads.safe_sharing_op (P := Owes i finished.id finished.status)
    (fun _ _ hkeep h ↦ h.keeps hkeep) ⟨hv, howes⟩ ?_
  intro u _ u' hu howes hr
  have hleaves := leaves_of_quiet (c := .record finished path) hu trivial hr
  refine ⟨hleaves, publishJob_safe hleaves.1 (howes.keeps ?_)⟩
  exact keeps_of_harmless (c := .record finished path) hu trivial hr

theorem abandonDownload_safe (id : JobId) (exc : Failure) (hw : Free i w) :
    SafeFree i (abandonDownload id exc) w := by
  refine harmless_bind (p := invoke (.isCancelled id)) (by simp [Call.Harmless]) hw
    fun cancelled v hv ↦ ?_
  rcases cancelled with _ | _
  · exact (setAndPublish_end rfl rfl hv).bind fun _ _ hu ↦ hu
  · exact (setAndPublish_end rfl rfl hv).bind fun _ _ hu ↦ hu

theorem fetchAndSettle_safe (id : JobId) (job : Job) (plan : List PlanEntry) (hw : Free i w) :
    SafeFree i (fetchAndSettle id job plan) w := by
  refine harmless_bind (fetchModel_uses id job plan).attempt hw fun outcome v hv ↦ ?_
  rcases outcome with exc | ⟨path, done⟩
  · refine harmless_bind (p := invoke (.stop id)) (by simp [Call.Harmless]) hv fun _ u hu ↦ ?_
    refine (abandonDownload_safe id exc hu).bind fun _ t ht ↦ ?_
    exact safe_of_harmless (by simp [Call.Harmless]) ht
  · refine harmless_bind (p := invoke (.stop id)) (by simp [Call.Harmless]) hv fun _ u hu ↦ ?_
    refine (completeDownload_safe id job path done hu).bind fun _ t ht ↦ ?_
    exact safe_of_harmless (by simp [Call.Harmless]) ht

theorem runDownload_safe (id : JobId) (plan : List PlanEntry) (hw : Free i w) :
    SafeFree i (runDownload id plan) w := by
  refine harmless_bind (p := invoke (.get id)) (by simp [Call.Harmless]) hw fun found v hv ↦ ?_
  rcases found with _ | job
  · exact hv
  · refine harmless_bind (p := invoke (.isCancelled id)) (by simp [Call.Harmless]) hv
      fun cancelled u hu ↦ ?_
    rcases cancelled with _ | _
    · refine (setAndPublish_running hu).bind fun _ t ht ↦ ?_
      refine harmless_bind (p := invoke (.spawn (.progress id) plan)) (by simp [Call.Harmless]) ht
        fun _ t' ht' ↦ ?_
      exact fetchAndSettle_safe id job plan ht'
    · exact (setAndPublish_end rfl rfl hu).bind fun _ _ ht ↦ ht

theorem progressMonitor_uses (id : JobId) (polls : Nat) :
    (progressMonitor id polls).Uses Call.Harmless := by
  induction polls with
  | zero => trivial
  | succ polls ih =>
    refine .bind (by simp [Call.Harmless]) fun _ ↦ .ite (fun _ ↦ trivial) fun _ ↦ ?_
    refine .bind (by simp [Call.Harmless]) fun _ ↦ .bind (by simp [Call.Harmless]) fun found ↦ ?_
    rcases found with _ | job
    · trivial
    · refine .ite (fun hrunning ↦ ?_) fun _ ↦ trivial
      exact .bind (publishJob_uses (by rw [hrunning]; rfl)) fun _ ↦ ih

/-- Every thread of downloads leaves nothing to announce. -/
theorem download_safe (requests : Nat → Request) (polls : JobId → Nat) (t : Tid) (hw : Free t w) :
    SafeFree t (program .download requests polls t) w := by
  rcases t with n | id | id
  · show SafeFree _ ((requests n).program .download) w
    rcases requests n with ⟨subject, source, revision, allowPatterns⟩ | id | _
    · exact (startDownload_safe subject source revision allowPatterns hw).bind fun _ _ hv ↦ hv
    · exact (cancelDownload_safe id hw).bind fun _ _ hv ↦ hv
    · exact safe_of_harmless (p := clearFinishedDownloads) (by simp [clearFinishedDownloads,
        Call.Harmless]) hw
  · exact harmless_bind (p := invoke .await) (by simp [Call.Harmless]) hw fun plan _ hv ↦
      runDownload_safe id plan hv
  · exact harmless_bind (p := invoke .await) (by simp [Call.Harmless]) hw fun _ _ hv ↦
      safe_of_harmless (progressMonitor_uses id (polls id)) hv

end

/-! ## Pulls -/

section
variable {α : Type}

theorem setAndPublish_quiet (id : JobId) (fields : Fields) :
    (setAndPublish .pull id fields).Uses Call.Quiet := by
  refine .bind (by simp [Call.Quiet]) fun found ↦ ?_
  rcases found with _ | job
  · trivial
  · exact .bind trivial fun _ ↦ trivial

theorem startPull_quiet (ref : String) : (startPull ref).Uses Call.Quiet := by
  refine .ite (fun _ ↦ trivial) fun _ ↦ .bind (by simp [Call.Quiet]) fun jobs ↦ ?_
  rcases (listPulls jobs).find? _ with _ | job
  · refine .bind (Prog.uses_call.mpr rfl) fun _ ↦ ?_
    exact .bind trivial fun _ ↦ .bind (by simp [Call.Quiet]) fun _ ↦ trivial
  · trivial

theorem cancelPull_quiet (id : JobId) : (cancelPull id).Uses Call.Quiet := by
  refine .bind (by simp [Call.Quiet]) fun found ↦ ?_
  rcases found with _ | job
  · trivial
  · refine .ite (fun _ ↦ trivial) fun _ ↦ .bind (by simp [Call.Quiet]) fun _ ↦ ?_
    exact .ite (fun _ ↦ setAndPublish_quiet _ _) fun _ ↦ by simp [Call.Quiet]

theorem abandonPull_quiet (id : JobId) (exc : Failure) : (abandonPull id exc).Uses Call.Quiet := by
  refine .ite (fun _ ↦ .bind (setAndPublish_quiet _ _) fun _ ↦ trivial) fun _ ↦ ?_
  refine .bind (by simp [Call.Quiet]) fun _ ↦ .ite (fun _ ↦ ?_) fun _ ↦ ?_
  · exact .bind (setAndPublish_quiet _ _) fun _ ↦ trivial
  · exact .bind (setAndPublish_quiet _ _) fun _ ↦ trivial

theorem pullAndSettle_quiet (id : JobId) (job : Job) : (pullAndSettle id job).Uses Call.Quiet := by
  refine .bind (by simp [Call.Quiet]) fun outcome ↦ ?_
  rcases outcome with exc | result
  · exact .bind (abandonPull_quiet id exc) fun _ ↦ by simp [Call.Quiet]
  · exact .bind (setAndPublish_quiet _ _) fun _ ↦ by simp [Call.Quiet]

theorem runPull_quiet (id : JobId) : (runPull id).Uses Call.Quiet := by
  refine .bind (by simp [Call.Quiet]) fun found ↦ ?_
  rcases found with _ | job
  · trivial
  · refine .bind (by simp [Call.Quiet]) fun _ ↦ .ite (fun _ ↦ ?_) fun _ ↦ ?_
    · exact .bind (setAndPublish_quiet _ _) fun _ ↦ by simp [Call.Quiet]
    · refine .bind (setAndPublish_quiet _ _) fun _ ↦ .bind (by simp [Call.Quiet]) fun _ ↦ ?_
      exact pullAndSettle_quiet id job

theorem pullProgress_quiet (id : JobId) (polls : Nat) :
    (pullProgress id polls).Uses Call.Quiet := by
  induction polls with
  | zero => trivial
  | succ polls ih =>
    exact .bind (by simp [Call.Quiet]) fun _ ↦ .bind (setAndPublish_quiet _ _) fun _ ↦ ih

theorem pull_quiet (requests : Nat → Request) (polls : JobId → Nat) (t : Tid) :
    (program .pull requests polls t).Uses Call.Quiet := by
  rcases t with n | id | id
  · show ((requests n).program .pull).Uses Call.Quiet
    rcases requests n with ⟨ref, source, revision, allowPatterns⟩ | id | _
    · exact .bind (startPull_quiet ref) fun _ ↦ trivial
    · exact .bind (cancelPull_quiet id) fun _ ↦ trivial
    · exact Prog.uses_call.mpr trivial
  · exact .bind (by simp [Call.Quiet]) fun _ ↦ runPull_quiet id
  · exact .bind (by simp [Call.Quiet]) fun _ ↦ pullProgress_quiet id (polls id)

end

/-! ## Every run -/

theorem compatible_shared : Threads.Compatible shared :=
  Threads.compatible_sharing Keeps.refl fun _ _ _ _ ↦ Keeps.trans

theorem inv_empty : Inv {} where
  one _ _ _ _ h := nomatch h
  listed _ _ h := nomatch h
  fresh _ _ h := nomatch h
  owed _ _ h := nomatch h
  begun _ _ h := h.elim (nomatch ·) (nomatch ·)
  once := List.nodup_nil
  told _ _ h := nomatch h
  known _ h := h.elim (nomatch ·) (nomatch ·)
  announced _ h := nomatch h
  all _ h := nomatch h.choose_spec.1

theorem free_empty (t : Tid) : Free t {} := ⟨inv_empty, nofun, nofun⟩

section
variable {k : Kind} {requests : Nat → Request} {polls : JobId → Nat}
  {s t : Threads Tid Call.Ret Failure Unit Registry}

/-- The invariant of every run, and of downloads what each thread is left with. -/
theorem poised_of_reachable
    (h : (system k requests polls).Reachable (Threads.stepGuard Undisturbed) s) :
    Threads.Poised shared (fun i _ w ↦ Inv w ∧ (k = .download → Idle i w))
      (fun i _ w ↦ Inv w ∧ (k = .download → Idle i w)) s ∧ Inv s.world := by
  obtain ⟨s₀, ⟨hpool, hworld⟩, hsteps⟩ := h
  have hinv : Inv s₀.world := hworld ▸ inv_empty
  refine Threads.Poised.sharing_steps compatible_shared hsteps hinv fun i ↦ ?_
  rw [hpool, hworld]
  cases k with
  | download =>
    exact (download_safe requests polls i (free_empty i)).mono (fun _ _ h ↦ ⟨h.1, fun _ ↦ h.2⟩)
      fun _ _ h ↦ ⟨h.1, fun _ ↦ h.2⟩
  | pull =>
    have hsafe : (program .pull requests polls i).Safe (shared i) (fun _ ↦ Inv) (fun _ ↦ Inv) {} :=
      (pull_quiet requests polls i).safe (fun _ _ hu hrely ↦ (hrely hu).1)
        (fun _ _ _ _ hc hu hr ↦ ⟨fun _ ↦ leaves_of_quiet hu hc hr, (leaves_of_quiet hu hc hr).1⟩)
        inv_empty
    exact hsafe.mono (fun _ _ h ↦ ⟨h, nofun⟩) fun _ _ h ↦ ⟨h, nofun⟩

/-- A thread of downloads that has run to its end has nothing to announce. -/
theorem idle_of_settled
    (hs : Threads.Poised shared (fun i _ w ↦ Inv w ∧ (k = .download → Idle i w))
      (fun i _ w ↦ Inv w ∧ (k = .download → Idle i w)) s) (hk : k = .download) (i : Tid)
    (hend : ∀ c next, s.pool i ≠ .op c next) : Idle i s.world := by
  obtain ⟨v, hrely, hsafe⟩ := hs i
  rcases hp : s.pool i with _ | _ | ⟨c, next⟩
  · rw [hp] at hsafe
    exact (hsafe.2 hk).keeps (hrely hsafe.1).2
  · rw [hp] at hsafe
    exact (hsafe.2 hk).keeps (hrely hsafe.1).2
  · exact absurd hp (hend c next)

theorem sound_of_reachable
    (h : (system k requests polls).Reachable (Threads.stepGuard Undisturbed) s) : Sound k s := by
  obtain ⟨hpoised, hinv⟩ := poised_of_reachable h
  refine ⟨hinv.one, (List.nodup_append.mp hinv.once).1, hinv.told, ?_⟩
  intro hk hsettled id status hlast hterm
  have hidle : ∀ t, s.world.started t = true → Idle t s.world := fun t ht ↦
    idle_of_settled hpoised hk t (hsettled t ht)
  have hann : s.world.Announced id := by
    refine (hinv.all id ⟨status, hlast, hterm⟩).resolve_right fun ⟨t, ht⟩ ↦ ?_
    exact (hidle t (hinv.begun t id (.inl ht))).1 id ht
  rcases hann with hmem | hmem
  · obtain ⟨⟨id', status'⟩, htold, rfl⟩ := List.mem_map.mp hmem
    have hlast' := (hinv.told id' status' htold).1
    rw [hlast] at hlast'
    exact Option.some.inj hlast' ▸ htold
  · obtain ⟨⟨t, id'⟩, ht, rfl⟩ := List.mem_map.mp hmem
    exact absurd ht ((hidle t (hinv.begun t id' (.inr ht))).2 id')

/-! ### What ends a job is final -/

/-- A job that has ended stays as it is or is dropped, and no job comes back. -/
structure Settles (v w : Registry) : Prop where
  next : v.next ≤ w.next
  gone : ∀ id, id < v.next → v.jobs id = none → w.jobs id = none
  kept : ∀ id job, v.jobs id = some job → job.status.terminal = true → ∀ job',
    w.jobs id = some job' → job'.status = job.status ∧ job'.error = job.error ∧
      job'.bytesDone = job.bytesDone ∧ job'.bytesTotal = job.bytesTotal

theorem Settles.trans {u v w : Registry} (hu : Inv u) (huv : Settles u v) (hvw : Settles v w) :
    Settles u w where
  next := Nat.le_trans huv.next hvw.next
  gone id hid h := hvw.gone id (Nat.lt_of_lt_of_le hid huv.next) (huv.gone id hid h)
  kept id job hjob hterm job' hjob' := by
    have hid : id < v.next :=
      Nat.lt_of_lt_of_le (hu.fresh id _ (hu.listed id job hjob).2) huv.next
    rcases hv : v.jobs id with _ | j
    · rw [hvw.gone id hid hv] at hjob'
      cases hjob'
    · obtain ⟨hstatus, herror, hdone, htotal⟩ := huv.kept id job hjob hterm j hv
      obtain ⟨hstatus', herror', hdone', htotal'⟩ := hvw.kept id j hv (hstatus ▸ hterm) job' hjob'
      exact ⟨hstatus'.trans hstatus, herror'.trans herror, hdone'.trans hdone,
        htotal'.trans htotal⟩

theorem settles_of_jobs {v w : Registry} (hnext : w.next = v.next) (hjobs : w.jobs = v.jobs) :
    Settles v w where
  next := Nat.le_of_eq hnext.symm
  gone id _ h := by rw [hjobs]; exact h
  kept id job hjob _ job' hjob' := by
    rw [hjobs, hjob] at hjob'
    obtain rfl := Option.some.inj hjob'
    exact ⟨rfl, rfl, rfl, rfl⟩

theorem Fields.Agrees.update {fields : Fields} {job : Job} (h : fields.Agrees job) :
    (fields.update job).status = job.status ∧ (fields.update job).error = job.error ∧
      (fields.update job).bytesDone = job.bytesDone ∧
      (fields.update job).bytesTotal = job.bytesTotal := by
  obtain ⟨hstatus, herror, hdone, htotal⟩ := h
  refine ⟨?_, ?_, ?_, ?_⟩
  · show fields.status.getD job.status = job.status
    rcases hf : fields.status with _ | x
    · rfl
    · exact (hstatus x hf).symm
  · show (if fields.error.isSome then fields.error else job.error) = job.error
    rcases hf : fields.error with _ | x
    · rfl
    · exact (herror x hf).symm
  · show fields.bytesDone.getD job.bytesDone = job.bytesDone
    rcases hf : fields.bytesDone with _ | x
    · rfl
    · exact (hdone x hf).symm
  · show fields.bytesTotal.getD job.bytesTotal = job.bytesTotal
    rcases hf : fields.bytesTotal with _ | x
    · rfl
    · exact (htotal x hf).symm

theorem settles_of_performs {i : Tid} {v w : Registry} (hv : Inv v) {c : Call} {r : c.Ret}
    (h : Threads.performs Call.exec Undisturbed i v c r w) : Settles v w := by
  obtain ⟨-, a, hr⟩ := exec_of_performs h
  unfold Call.exec at hr
  split_ifs at hr
  cases c with
  | set id fields =>
    rcases sets_of_performs h with ⟨-, rfl⟩ | ⟨job, -, hsets⟩
    · exact settles_of_jobs rfl rfl
    · refine ⟨by rw [hsets.eq], fun id' _ hnone ↦ ?_, fun id' j hj hterm j' hj' ↦ ?_⟩
      · rw [hsets.jobs, if_neg fun heq ↦ ?_]
        · exact hnone
        · rw [heq, hsets.listed] at hnone
          cases hnone
      · rw [hsets.jobs] at hj'
        split_ifs at hj' with hid
        · subst hid
          rw [hsets.listed] at hj
          obtain rfl := Option.some.inj hj
          obtain rfl := Option.some.inj hj'
          exact (hsets.agrees hterm).update
        · rw [hj] at hj'
          obtain rfl := Option.some.inj hj'
          exact ⟨rfl, rfl, rfl, rfl⟩
  | insert job =>
    obtain rfl := congrArg Prod.snd (Option.some.inj hr)
    refine ⟨Nat.le_succ _, fun id hid hnone ↦ ?_, fun id j hj _ j' hj' ↦ ?_⟩
    · rw [insert_jobs, if_neg (Nat.ne_of_lt hid)]
      exact hnone
    · rw [insert_jobs, if_neg (Nat.ne_of_lt (hv.fresh id _ (hv.listed id j hj).2)), hj] at hj'
      obtain rfl := Option.some.inj hj'
      exact ⟨rfl, rfl, rfl, rfl⟩
  | clear =>
    obtain ⟨-, rfl⟩ := Prod.mk.inj (Option.some.inj hr)
    refine ⟨Nat.le_refl _, fun id _ hnone ↦ ?_, fun id j hj hterm j' hj' ↦ ?_⟩
    · show (v.jobs id).filter _ = none
      rw [hnone]
      rfl
    · obtain ⟨hj', hnot⟩ := clear_jobs.mp hj'
      rw [hj] at hj'
      obtain rfl := Option.some.inj hj'
      rw [hterm] at hnot
      cases hnot
  | announce id =>
    obtain rfl := congrArg Prod.snd (Option.some.inj hr)
    unfold Registry.announce
    split_ifs <;> exact settles_of_jobs rfl rfl
  | await =>
    obtain ⟨plan, -, heq⟩ := Option.map_eq_some_iff.mp hr
    obtain rfl := congrArg Prod.snd heq
    exact settles_of_jobs rfl rfl
  | spawn | jobs | get | isCancelled | cancel | uncancel | stop | stopped | tell | getSource
  | planFiles | checkDiskSpace | repoPath | download | snapshotDownload | record | measure
  | pullImage =>
    obtain ⟨-, rfl⟩ := Prod.mk.inj (Option.some.inj hr)
    exact settles_of_jobs rfl rfl

theorem settles_of_steps
    (hs : (system k requests polls).Reachable (Threads.stepGuard Undisturbed) s)
    (h : (system k requests polls).Steps (Threads.stepGuard Undisturbed) s t) :
    Settles s.world t.world := by
  have hinv := (poised_of_reachable hs).2
  refine (h.invariant (I := fun t ↦ (system k requests polls).Reachable
    (Threads.stepGuard Undisturbed) t ∧ Settles s.world t.world) ?_
    ⟨hs, settles_of_jobs rfl rfl⟩).2
  rintro u a u' ⟨hu, hsettles⟩ hG hn
  obtain ⟨c, next, r, -, hr, -⟩ := Threads.next_cases hG hn
  exact ⟨hu.next hG hn, hsettles.trans hinv (settles_of_performs (poised_of_reachable hu).2 hr)⟩

/-- **Jobs end once.** In every run that nothing disturbs, at every moment each model has at most one
job that is queued or running, a job that has ended keeps its status, error and byte counts for as
long as it is listed, and the finish listeners are told of each end once, with the status the job
ends in. -/
theorem jobs_end_once
    (hs : (system k requests polls).Reachable (Threads.stepGuard Undisturbed) s)
    (ht : (system k requests polls).Steps (Threads.stepGuard Undisturbed) s t) :
    Sound k s ∧ s.world.Frozen t.world :=
  ⟨sound_of_reachable hs, fun id job job' hjob hterm hjob' ↦
    (settles_of_steps hs ht).kept id job hjob hterm job' hjob'⟩

end

/-! ## Two runs -/

private def startAndCancel : Nat → Request
  | 0 => .start "m" none none []
  | 1 => .cancel 0
  | _ => .clear

private def startTwice : Nat → Request := fun _ ↦ .start "m" none none []

private def onePoll : JobId → Nat := fun _ ↦ 1

private def steps (ts : List Tid) : List (Tid × Answer) := ts.map fun t ↦ (t, {})

private def fresh (requests : Nat → Request) : Threads Tid Call.Ret Failure Unit Registry :=
  ⟨program .download requests onePoll, {}⟩

/-- A queued download is cancelled; its worker cancels it again, and the listeners are told once. -/
theorem jobs_end_once_when_cancelled : ∃ s, (system .download startAndCancel onePoll).runUnder
      (Threads.stepGuard Undisturbed) (fresh startAndCancel)
      (steps (List.replicate 6 (.client 0) ++ List.replicate 5 (.client 1) ++
        List.replicate 5 (.worker 0))) = some s ∧
    s.world.told = [(0, .cancelled)] ∧ Sound .download s ∧ s.world.Frozen s.world := by
  obtain ⟨s, hs, htold⟩ := (Option.any_eq_true _ _).mp (show ((system .download startAndCancel
      onePoll).runUnder (Threads.stepGuard Undisturbed) (fresh startAndCancel)
      (steps (List.replicate 6 (.client 0) ++ List.replicate 5 (.client 1) ++
        List.replicate 5 (.worker 0)))).any
        (fun s ↦ decide (s.world.told = [(0, .cancelled)])) = true by decide +kernel)
  exact ⟨s, hs, of_decide_eq_true htold,
    jobs_end_once ⟨_, ⟨rfl, rfl⟩, System.steps_of_runUnder hs⟩ .refl⟩

/-- **Two downloads of one model.** Both starts find no job of the model before either inserts its
own. -/
theorem two_active_downloads : ¬∀ (requests : Nat → Request) (polls : JobId → Nat) s t,
    (system .download requests polls).Reachable Guard.free s →
      (system .download requests polls).Steps Guard.free s t →
        Sound .download s ∧ s.world.Frozen t.world := by
  intro h
  obtain ⟨s, hs, hjobs⟩ := (Option.any_eq_true _ _).mp (show ((system .download startTwice
      onePoll).run (fresh startTwice) (steps (List.replicate 4 (.client 0) ++
        List.replicate 4 (.client 1) ++ [.client 0, .client 1]))).any
        (fun s ↦ decide ((s.world.jobs 0).map Job.status = some .queued ∧
          (s.world.jobs 0).map Job.subject = some "m" ∧
          (s.world.jobs 1).map Job.status = some .queued ∧
          (s.world.jobs 1).map Job.subject = some "m")) = true by decide +kernel)
  obtain ⟨hstatus, hsubject, hstatus', hsubject'⟩ := of_decide_eq_true hjobs
  obtain ⟨job, hjob, hstatus⟩ := Option.map_eq_some_iff.mp hstatus
  obtain ⟨job', hjob', hstatus'⟩ := Option.map_eq_some_iff.mp hstatus'
  rw [hjob] at hsubject
  rw [hjob'] at hsubject'
  have hsound := (h startTwice onePoll s s ⟨_, ⟨rfl, rfl⟩, System.steps_of_run hs⟩ .refl).1
  have heq := hsound.one 0 1 job job' hjob hjob' (by rw [hstatus]; rfl) (by rw [hstatus']; rfl)
    (Option.some.inj (hsubject.trans hsubject'.symm))
  exact absurd heq (by decide)

end SparkPulse.Jobs
