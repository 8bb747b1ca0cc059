import SparkPulse.Scheduled.Deploy

/-!
# Scheduled deploys end once

An entry is claimed by one conditional update, so at most one deployment is ever created for it,
however many hooks and reconciles see it. The other writes of an end status are unconditional:
`cancel` takes an entry that is being deployed, and `_finish` any entry at all. What ends an entry
is final as long as no such write lands on one that has ended otherwise, or on one that a live
thread has claimed and not settled yet.
-/

namespace SparkPulse.Scheduled

open Program Transition

variable {ι : Type}

/-! ## The property and the condition -/

/-- A history in which no status changes once it is an end status, no entry is deployed twice, and
none after a request to cancel it was answered with it. The latest event comes first. -/
def EndsOnce : List Event → Prop
  | [] => True
  | .wrote _ old _ :: log => old.active = true ∧ EndsOnce log
  | .issued id :: log => .issued id ∉ log ∧ .answered id ∉ log ∧ EndsOnce log
  | .answered _ :: log => EndsOnce log

namespace World

def status (w : World ι) (id : String) : Option Status := (w.rows.lookup id).map (·.status)

def Ended (w : World ι) (id : String) : Prop := ∃ s, w.status id = some s ∧ s.active = false

/-- No live thread has claimed the entry and not settled its deploy. -/
def Unclaimed (w : World ι) (id : String) : Prop := ∀ c ∈ w.claimed, c.1 = id → c.2 ∈ w.dead

end World

/-- A thread that has not claimed the entry writes its status only while the entry is active and no
live thread has claimed it, or has that very status already. -/
def undisputed : Threads.CallGuard Tid (Call ι) (World ι) := fun i w c ↦
  match c with
  | .store id read changed => (id, i) ∈ w.claimed ∨ changed.status = read.status ∨
      ∀ row ∈ w.rows.lookup id,
        row.status = changed.status ∨ row.status.active = true ∧ w.Unclaimed id
  | _ => True

instance (i : Tid) (w : World ι) (c : Call ι) : Decidable (undisputed i w c) := by
  unfold undisputed World.Unclaimed
  split <;> infer_instance

/-! ## What holds of the table -/

structure Sound (w : World ι) : Prop where
  once : EndsOnce w.log
  /-- An entry claimed by a live thread is being deployed. -/
  held : ∀ id t, (id, t) ∈ w.claimed → t ∉ w.dead → w.status id = some .deploying
  sole : ∀ id t t', (id, t) ∈ w.claimed → (id, t') ∈ w.claimed → t = t'
  /-- An entry that waits has never been claimed. -/
  fresh : ∀ id, w.status id = some .waiting → (∀ t, (id, t) ∉ w.claimed) ∧ .issued id ∉ w.log
  answered : ∀ id, .answered id ∈ w.log → w.Ended id

/-- What the other threads leave to a thread: its claims, with the deployments it has not created
yet, and what has ended. -/
structure Keeps (i : Tid) (v w : World ι) : Prop where
  claims : ∀ id, (id, i) ∈ v.claimed →
    (id, i) ∈ w.claimed ∧ (.issued id ∈ w.log → .issued id ∈ v.log)
  ended : ∀ id, v.Ended id → w.Ended id
  /-- No row is removed. -/
  there : ∀ id, (v.status id).isSome → (w.status id).isSome

theorem Keeps.refl (i : Tid) (w : World ι) : Keeps i w w :=
  ⟨fun _ h ↦ ⟨h, id⟩, fun _ ↦ id, fun _ ↦ id⟩

/-- A step that changes no status, and adds to the history no deployment of another's claim. -/
theorem Keeps.of_status {i : Tid} {v w : World ι} (hstatus : w.status = v.status)
    (hclaimed : w.claimed = v.claimed)
    (hlog : ∀ id, (id, i) ∈ v.claimed → .issued id ∈ w.log → .issued id ∈ v.log) : Keeps i v w := by
  refine ⟨fun id h ↦ ⟨hclaimed ▸ h, hlog id h⟩, fun id h ↦ ?_, fun id h ↦ hstatus ▸ h⟩
  rwa [World.Ended, hstatus]

theorem Keeps.trans {i : Tid} {u v w : World ι} (huv : Keeps i u v) (hvw : Keeps i v w) :
    Keeps i u w := by
  constructor
  · intro id h
    obtain ⟨hv, hback⟩ := huv.claims id h
    obtain ⟨hw, hback'⟩ := hvw.claims id hv
    exact ⟨hw, fun hmem ↦ hback (hback' hmem)⟩
  · exact fun id h ↦ hvw.ended id (huv.ended id h)
  · exact fun id h ↦ hvw.there id (huv.there id h)

/-- The setting of a thread among the others. -/
abbrev shared (i : Tid) : Setting (@Call.Ret ι) (World ι) :=
  Threads.sharing Call.exec undisputed Sound Keeps i

/-! ## Writes -/

theorem status_write (id : String) (row : ScheduledDeploy ι) (old : Status) (w : World ι) :
    (w.write id row old).status = Function.update w.status id (some row.status) := by
  funext other
  by_cases h : other = id
  · rw [h, World.status, World.write, AList.lookup_insert, Function.update_self]
    rfl
  · rw [World.status, World.write, AList.lookup_insert_ne h, Function.update_of_ne h]
    rfl

theorem ended_of_status_eq {v w : World ι} {id : String} (h : w.status id = v.status id) :
    w.Ended id ↔ v.Ended id := by rw [World.Ended, World.Ended, h]

theorem commit_status (read changed row : ScheduledDeploy ι) :
    (row.commit read changed).status =
      if changed.status = read.status then row.status else changed.status := rfl

/-- A write that ends an active entry, or changes no status. -/
structure Settles (i : Tid) (id : String) (v w : World ι) : Prop where
  dead : w.dead = v.dead
  claimed : ∀ c, c ∈ w.claimed → c ∈ v.claimed
  kept : ∀ c ∈ v.claimed, c.2 ≠ i → c ∈ w.claimed
  wrote : w.status = v.status ∧ w.log = v.log ∨
    ∃ old new, v.status id = some old ∧ old.active = true ∧ new.active = false ∧
      (∀ t, (id, t) ∈ w.claimed → t ∈ v.dead) ∧
      w.status = Function.update v.status id (some new) ∧ w.log = .wrote id old new :: v.log

theorem settles_store {i : Tid} {id : String} {read changed : ScheduledDeploy ι} {w : World ι}
    (hw : Sound w) (hi : i ∉ w.dead)
    (hend : changed.status.active = false ∨ changed.status = read.status)
    (hg : undisputed i w (.store id read changed)) : Settles i id w (w.store i id read changed) := by
  rw [World.store]
  split
  · exact ⟨rfl, fun _ h ↦ h, fun _ h _ ↦ h, .inl ⟨rfl, rfl⟩⟩
  next row hrow =>
    refine ⟨rfl, fun c hc ↦ (List.mem_filter.mp hc).1, fun c hc hne ↦ ?_, ?_⟩
    · refine List.mem_filter.mpr ⟨hc, decide_eq_true fun heq ↦ hne ?_⟩
      rw [heq]
    have hstatus : w.status id = some row.status := by rw [World.status, hrow, Option.map_some]
    by_cases hsame : (row.commit read changed).status = row.status
    · left
      constructor
      · refine (status_write id _ row.status w).trans ?_
        rw [hsame, ← hstatus, Function.update_eq_self]
      · exact if_pos hsame
    · right
      -- a status was written, so it was changed, and it ends the entry
      have hchanged : changed.status ≠ read.status := fun h ↦ hsame (by rw [commit_status, if_pos h])
      have hnew : (row.commit read changed).status = changed.status := by
        rw [commit_status, if_neg hchanged]
      rw [hnew] at hsame
      refine ⟨row.status, changed.status, hstatus, ?_, hend.resolve_right hchanged, ?_, ?_, ?_⟩
      · rcases hg with hmine | hread | hrest
        · have hdeploying := hw.held id i hmine hi
          rw [hstatus] at hdeploying
          rw [Option.some.inj hdeploying]
          rfl
        · exact absurd hread hchanged
        · rcases hrest row hrow with heq | hactive
          · exact absurd heq.symm hsame
          · exact hactive.1
      · intro t ht
        obtain ⟨hmem, hne⟩ := List.mem_filter.mp ht
        rcases hg with hmine | hread | hrest
        · obtain rfl := hw.sole id t i hmem hmine
          exact absurd rfl (of_decide_eq_true hne)
        · exact absurd hread hchanged
        · rcases hrest row hrow with heq | hactive
          · exact absurd heq.symm hsame
          · exact hactive.2 (id, t) hmem rfl
      · refine (status_write id _ row.status w).trans ?_
        rw [hnew]
      · refine (if_neg ?_).trans ?_
        · rw [hnew]
          exact hsame
        · rw [hnew]

theorem Settles.sound {i : Tid} {id : String} {v w : World ι} (hv : Sound v)
    (h : Settles i id v w) : Sound w := by
  rcases h.wrote with ⟨hstatus, hlog⟩ | ⟨old, new, hold, hactive, hnew, hclaims, hstatus, hlog⟩
  · constructor
    · rw [hlog]
      exact hv.once
    · intro id' t ht hlive
      rw [hstatus]
      exact hv.held id' t (h.claimed _ ht) (h.dead ▸ hlive)
    · exact fun id' t t' ht ht' ↦ hv.sole id' t t' (h.claimed _ ht) (h.claimed _ ht')
    · intro id' hid
      rw [hstatus] at hid
      obtain ⟨hnone, hnot⟩ := hv.fresh id' hid
      exact ⟨fun t ht ↦ hnone t (h.claimed _ ht), hlog ▸ hnot⟩
    · intro id' hmem
      rw [hlog] at hmem
      exact (ended_of_status_eq (congrFun hstatus id')).mpr (hv.answered id' hmem)
  · have hother : ∀ id', id' ≠ id → w.status id' = v.status id' := fun id' hne ↦ by
      rw [hstatus, Function.update_of_ne hne]
    have hself : w.status id = some new := by rw [hstatus, Function.update_self]
    constructor
    · rw [hlog]
      exact ⟨hactive, hv.once⟩
    · intro id' t ht hlive
      by_cases hid : id' = id
      · subst hid
        exact absurd (hclaims t ht) (h.dead ▸ hlive)
      · rw [hother id' hid]
        exact hv.held id' t (h.claimed _ ht) (h.dead ▸ hlive)
    · exact fun id' t t' ht ht' ↦ hv.sole id' t t' (h.claimed _ ht) (h.claimed _ ht')
    · intro id' hwait
      by_cases hid : id' = id
      · subst hid
        rw [hself] at hwait
        cases hwait
        cases hnew
      · rw [hother id' hid] at hwait
        obtain ⟨hnone, hnot⟩ := hv.fresh id' hwait
        refine ⟨fun t ht ↦ hnone t (h.claimed _ ht), ?_⟩
        rw [hlog]
        exact fun hmem ↦ hnot ((List.mem_cons.mp hmem).resolve_left nofun)
    · intro id' hmem
      rw [hlog] at hmem
      have hended := hv.answered id' ((List.mem_cons.mp hmem).resolve_left nofun)
      by_cases hid : id' = id
      · exact ⟨new, hid ▸ hself, hnew⟩
      · exact (ended_of_status_eq (hother id' hid)).mpr hended

theorem Settles.keeps_ended {i : Tid} {id id' : String} {v w : World ι} (h : Settles i id v w)
    (hended : v.Ended id') : w.Ended id' := by
  rcases h.wrote with ⟨hstatus, -⟩ | ⟨old, new, hold, hactive, hnew, -, hstatus, -⟩
  · exact (ended_of_status_eq (congrFun hstatus id')).mpr hended
  · by_cases hid : id' = id
    · exact ⟨new, by rw [hid, hstatus, Function.update_self], hnew⟩
    · exact (ended_of_status_eq (by rw [hstatus, Function.update_of_ne hid])).mpr hended

theorem Settles.keeps {i j : Tid} {id : String} {v w : World ι} (h : Settles i id v w) (hj : j ≠ i) :
    Keeps j v w := by
  refine ⟨fun id' hmem ↦ ⟨h.kept _ hmem hj, fun hissued ↦ ?_⟩, fun _ ↦ h.keeps_ended,
    fun id' hthere ↦ ?_⟩
  · rcases h.wrote with ⟨-, hlog⟩ | ⟨_, _, _, _, _, _, _, hlog⟩
    · rwa [hlog] at hissued
    · rw [hlog] at hissued
      exact (List.mem_cons.mp hissued).resolve_left nofun
  · rcases h.wrote with ⟨hstatus, -⟩ | ⟨_, _, _, _, _, _, hstatus, -⟩
    · rwa [hstatus]
    · rw [hstatus, Function.update_apply]
      split_ifs
      · rfl
      · exact hthere

/-! ## One call -/

/-- A call that any thread may make at any time: whatever it writes ends an entry, or leaves its
status as it was read. -/
def Call.Harmless : Call ι → Prop
  | .store _ read changed => changed.status.active = false ∨ changed.status = read.status
  | .createDeployment .. => False
  | .respond _ entry => entry = none
  | _ => True

/-- What a call leaves: a sound table, and the other threads what is theirs. -/
def Leaves (i : Tid) (v w : World ι) : Prop := Sound w ∧ ∀ j, j ≠ i → Keeps j v w

theorem leaves_same {i : Tid} {w : World ι} (hw : Sound w) : Leaves i w w :=
  ⟨hw, fun j _ ↦ .refl j w⟩

theorem leaves_kill {i : Tid} {w : World ι} (hw : Sound w) (t : Tid) :
    Leaves i w { w with dead := t :: w.dead } := by
  refine ⟨⟨hw.once, fun id t' ht hlive ↦ ?_, hw.sole, hw.fresh, hw.answered⟩,
    fun j _ ↦ .of_status rfl rfl fun _ _ h ↦ h⟩
  exact hw.held id t' ht fun hmem ↦ hlive (List.mem_cons_of_mem _ hmem)

theorem status_of_lookup {w : World ι} {id : String} {row : ScheduledDeploy ι}
    (h : w.rows.lookup id = some row) : w.status id = some row.status := by
  rw [World.status, h, Option.map_some]

/-- A claim that is granted finds the entry waiting, and makes it its claimer's to deploy. -/
structure Claims (i : Tid) (id : String) (v w : World ι) : Prop where
  waiting : v.status id = some .waiting
  dead : w.dead = v.dead
  claimed : w.claimed = (id, i) :: v.claimed
  status : w.status = Function.update v.status id (some .deploying)
  log : w.log = .wrote id .waiting .deploying :: v.log

theorem claims_of_granted {i : Tid} {id : String} {w : World ι} (h : (w.claim i id).1 = true) :
    Claims i id w (w.claim i id).2 := by
  rw [World.claim] at h ⊢
  split at h
  · cases h
  next row hrow =>
    split_ifs at h ⊢ with hwait
    refine ⟨?_, rfl, rfl, status_write id { row with status := .deploying } row.status w, ?_⟩
    · rw [World.status, hrow, Option.map_some, hwait]
    · rw [← hwait]
      exact if_neg (by rw [hwait]; exact Status.noConfusion)

theorem claim_of_refused {i : Tid} {id : String} {w : World ι} (h : (w.claim i id).1 = false) :
    (w.claim i id).2 = w := by
  rw [World.claim] at h ⊢
  split at h
  · rfl
  · split_ifs at h ⊢
    rfl

namespace Claims

variable {i : Tid} {id : String} {v w : World ι}

theorem other (h : Claims i id v w) {id' : String} (hne : id' ≠ id) :
    w.status id' = v.status id' := by rw [h.status, Function.update_of_ne hne]

theorem self (h : Claims i id v w) : w.status id = some .deploying := by
  rw [h.status, Function.update_self]

theorem issued (h : Claims i id v w) {id' : String} (hmem : .issued id' ∈ w.log) :
    .issued id' ∈ v.log := by
  rw [h.log] at hmem
  exact (List.mem_cons.mp hmem).resolve_left nofun

/-- An entry that has ended is not the one that was claimed. -/
theorem ended (h : Claims i id v w) {id' : String} (hend : v.Ended id') : w.Ended id' := by
  by_cases hid : id' = id
  · obtain ⟨s, hs, hs'⟩ := hend
    rw [hid, h.waiting] at hs
    cases hs
    cases hs'
  · exact (ended_of_status_eq (h.other hid)).mpr hend

theorem sound (hv : Sound v) (h : Claims i id v w) : Sound w := by
  obtain ⟨hnone, -⟩ := hv.fresh id h.waiting
  constructor
  · rw [h.log]
    exact ⟨rfl, hv.once⟩
  · intro id' t ht hlive
    rw [h.claimed] at ht
    rcases List.mem_cons.mp ht with heq | ht
    · cases heq
      exact h.self
    · have hne : id' ≠ id := fun heq ↦ hnone t (heq ▸ ht)
      rw [h.other hne]
      exact hv.held id' t ht (h.dead ▸ hlive)
  · intro id' t t' ht ht'
    rw [h.claimed] at ht ht'
    rcases List.mem_cons.mp ht with heq | ht <;> rcases List.mem_cons.mp ht' with heq' | ht'
    · exact (Prod.mk.inj heq).2.trans (Prod.mk.inj heq').2.symm
    · exact absurd ht' ((Prod.mk.inj heq).1 ▸ hnone t')
    · exact absurd ht ((Prod.mk.inj heq').1 ▸ hnone t)
    · exact hv.sole id' t t' ht ht'
  · intro id' hwaits
    have hne : id' ≠ id := by
      rintro rfl
      rw [h.self] at hwaits
      cases hwaits
    obtain ⟨hnone', hnot'⟩ := hv.fresh id' (h.other hne ▸ hwaits)
    refine ⟨fun t ht ↦ ?_, fun hmem ↦ hnot' (h.issued hmem)⟩
    rw [h.claimed] at ht
    rcases List.mem_cons.mp ht with heq | ht
    · exact hne (Prod.mk.inj heq).1
    · exact hnone' t ht
  · intro id' hmem
    rw [h.log] at hmem
    exact h.ended (hv.answered id' ((List.mem_cons.mp hmem).resolve_left nofun))

theorem leaves (hv : Sound v) (h : Claims i id v w) : Leaves i v w := by
  refine ⟨h.sound hv, fun j _ ↦ ⟨fun id' hmem ↦ ⟨?_, h.issued⟩, fun _ ↦ h.ended, fun id' hthere ↦ ?_⟩⟩
  · rw [h.claimed]
    exact List.mem_cons_of_mem _ hmem
  · rw [h.status, Function.update_apply]
    split_ifs
    · rfl
    · exact hthere

end Claims

theorem leaves_claim {i : Tid} {w : World ι} (hw : Sound w) (id : String) :
    Leaves i w (w.claim i id).2 := by
  cases h : (w.claim i id).1 with
  | true => exact (claims_of_granted h).leaves hw
  | false =>
    rw [claim_of_refused h]
    exact leaves_same hw

/-- The creation of a deployment by the thread that has claimed the entry. -/
theorem leaves_create {i : Tid} {w : World ι} {id : String} (hw : Sound w) (hi : i ∉ w.dead)
    (hclaim : (id, i) ∈ w.claimed) (hnot : .issued id ∉ w.log) :
    Leaves i w { w with log := .issued id :: w.log } := by
  have hstatus := hw.held id i hclaim hi
  have hanswered : .answered id ∉ w.log := fun hmem ↦ by
    obtain ⟨s, hs, hend⟩ := hw.answered id hmem
    rw [hstatus] at hs
    cases hs
    cases hend
  refine ⟨⟨⟨hnot, hanswered, hw.once⟩, hw.held, hw.sole, fun id' hwaits ↦ ?_, fun id' hmem ↦ ?_⟩,
    fun j hj ↦ .of_status rfl rfl fun id' hmem hissued ↦ ?_⟩
  · obtain ⟨hnone, hnot'⟩ := hw.fresh id' hwaits
    refine ⟨hnone, fun hissued ↦ ?_⟩
    rcases List.mem_cons.mp hissued with heq | hissued
    · cases heq
      exact hnone i hclaim
    · exact hnot' hissued
  · exact hw.answered id' ((List.mem_cons.mp hmem).resolve_left nofun)
  · rcases List.mem_cons.mp hissued with heq | hissued
    · cases heq
      exact absurd (hw.sole id j i hmem hclaim) hj
    · exact hissued

/-- The answer to a request to cancel an entry that has ended. -/
theorem leaves_answer {i : Tid} {w : World ι} {id : String} (hw : Sound w) (hend : w.Ended id) :
    Leaves i w { w with log := .answered id :: w.log } := by
  refine ⟨⟨hw.once, hw.held, hw.sole, fun id' hwaits ↦ ?_, fun id' hmem ↦ ?_⟩,
    fun j _ ↦ .of_status rfl rfl fun id' _ hissued ↦ ?_⟩
  · obtain ⟨hnone, hnot⟩ := hw.fresh id' hwaits
    exact ⟨hnone, fun hissued ↦ hnot ((List.mem_cons.mp hissued).resolve_left nofun)⟩
  · rcases List.mem_cons.mp hmem with heq | hmem
    · cases heq
      exact hend
    · exact hw.answered id' hmem
  · exact (List.mem_cons.mp hissued).resolve_left nofun

/-- A thread that has not been killed is the one that performs. -/
theorem not_dead_of_performs {i : Tid} {w w' : World ι} {c : Call ι} {r : c.Ret}
    (h : Threads.performs Call.exec undisputed i w c r w') : i ∉ w.dead := by
  obtain ⟨-, a, h⟩ := h
  unfold Call.exec at h
  split_ifs at h with hdead
  exact hdead

/-- **One call.** -/
theorem leaves_of_harmless {i : Tid} {w w' : World ι} {c : Call ι} {r : c.Ret} (hw : Sound w)
    (hc : c.Harmless) (h : Threads.performs Call.exec undisputed i w c r w') : Leaves i w w' := by
  have hdead := not_dead_of_performs h
  obtain ⟨hg, a, h⟩ := h
  unfold Call.exec at h
  rw [if_neg hdead] at h
  cases c with
  | store id read changed =>
    obtain ⟨-, rfl⟩ := Prod.mk.inj (Option.some.inj h)
    have hsettles := settles_store hw hdead hc hg
    exact ⟨hsettles.sound hw, fun j hj ↦ hsettles.keeps hj⟩
  | claim id =>
    obtain rfl := congrArg Prod.snd (Option.some.inj h)
    exact leaves_claim hw id
  | createDeployment => exact hc.elim
  | respond id entry =>
    obtain ⟨-, rfl⟩ := Prod.mk.inj (Option.some.inj h)
    rw [show entry = none from hc]
    exact leaves_same hw
  | kill t =>
    obtain ⟨-, rfl⟩ := Prod.mk.inj (Option.some.inj h)
    exact leaves_kill hw t
  | load | select | getModel | getDownload | cancelDownload | spawn | now =>
    obtain ⟨-, rfl⟩ := Prod.mk.inj (Option.some.inj h)
    exact leaves_same hw

/-! ## The programs -/

section
variable {α : Type} {i : Tid} {w : World ι}

/-- A program of harmless calls keeps the table sound. -/
theorem safe_of_harmless {p : Op ι α} (h : p.Uses Call.Harmless) (hw : Sound w) :
    p.Safe (shared i) (fun _ ↦ Sound) (fun _ ↦ Sound) w :=
  h.safe (fun _ _ hw hrely ↦ (hrely hw).1) (fun _ _ _ _ hc hw hr ↦
    ⟨fun _ ↦ leaves_of_harmless hw hc hr, (leaves_of_harmless hw hc hr).1⟩) hw

theorem listing_uses (activeOnly : Bool) : (listing activeOnly : Op ι _).Uses Call.Harmless :=
  .bind (by simp [Call.Harmless]) fun _ ↦ trivial

theorem forModel_uses (model : String) : (forModel model : Op ι _).Uses Call.Harmless :=
  .bind (listing_uses true) fun _ ↦ trivial

theorem finish_uses (id : String) {status : Status} (deploymentId error : Option String)
    (h : status.active = false) : (finish id status deploymentId error : Op ι _).Uses Call.Harmless := by
  refine .bind (by simp [Call.Harmless]) fun row ↦ ?_
  cases row with
  | none => trivial
  | some row => exact .bind (by simp [Call.Harmless]) fun _ ↦ Prog.uses_call.mpr (.inl h)

/-- The deploy of an entry: only the thread whose claim is granted creates a deployment. -/
theorem deploy_safe (entry : ScheduledDeploy ι) (hw : Sound w) :
    (deploy entry).Safe (shared i) (fun _ ↦ Sound) (fun _ ↦ Sound) w := by
  refine Threads.safe_sharing_op (P := fun _ ↦ True) (fun _ _ _ h ↦ h) ⟨hw, trivial⟩ ?_
  intro v granted v' hv _ hr
  have hleaves := leaves_of_harmless (c := .claim entry.id) hv trivial hr
  refine ⟨hleaves, ?_⟩
  cases granted with
  | false => exact hleaves.1
  | true =>
    have hclaims : Claims i entry.id v v' := by
      obtain ⟨-, a, h⟩ := hr
      rw [Call.exec] at h
      split_ifs at h
      have hclaim := Option.some.inj h
      have hsnd : (v.claim i entry.id).2 = v' := by rw [hclaim]
      exact hsnd ▸ claims_of_granted (by rw [hclaim])
    obtain ⟨-, hnot⟩ := hv.fresh entry.id hclaims.waiting
    refine Threads.safe_sharing_op
      (P := fun w ↦ (entry.id, i) ∈ w.claimed ∧ .issued entry.id ∉ w.log) ?_
      ⟨hleaves.1, ?_, fun hmem ↦ hnot (hclaims.issued hmem)⟩ ?_
    · rintro u v hkeep ⟨hmem, hnot⟩
      obtain ⟨hmem', hback⟩ := hkeep.claims entry.id hmem
      exact ⟨hmem', fun h ↦ hnot (hback h)⟩
    · rw [hclaims.claimed]
      exact List.mem_cons_self
    · rintro u outcome u' hu ⟨hmem, hnot⟩ hr
      have hlive := not_dead_of_performs hr
      have hcreate : u' = { u with log := .issued entry.id :: u.log } := by
        obtain ⟨-, a, h⟩ := hr
        rw [Call.exec] at h
        split_ifs at h
        exact (congrArg Prod.snd (Option.some.inj h)).symm
      have hleaves := leaves_create hu hlive hmem hnot
      rw [← hcreate] at hleaves
      refine ⟨hleaves, ?_⟩
      cases outcome with
      | error exc => exact safe_of_harmless (finish_uses _ _ _ rfl) hleaves.1
      | ok deploymentId => exact safe_of_harmless (finish_uses _ _ _ rfl) hleaves.1

/-- Programs run one after the other. -/
theorem each_safe {β : Type} {f : β → Op ι Unit} {bs : List β}
    (hf : ∀ b ∈ bs, ∀ v, Sound v → (f b).Safe (shared i) (fun _ ↦ Sound) (fun _ ↦ Sound) v)
    (hw : Sound w) : (each f bs).Safe (shared i) (fun _ ↦ Sound) (fun _ ↦ Sound) w := by
  induction bs generalizing w with
  | nil => exact hw
  | cons b bs ih =>
    rw [each, Prog.safe_bind]
    refine (hf b List.mem_cons_self w hw).mono (fun _ v hv ↦ ?_) fun _ _ h ↦ h
    exact ih (fun b' hb' ↦ hf b' (List.mem_cons_of_mem _ hb')) hv

theorem settleFor_safe (job : DownloadJob) (entry : ScheduledDeploy ι) (hw : Sound w) :
    (settleFor job entry).Safe (shared i) (fun _ ↦ Sound) (fun _ ↦ Sound) w := by
  rw [settleFor]
  split_ifs
  · exact deploy_safe entry hw
  · exact safe_of_harmless (finish_uses _ _ _ rfl) hw
  · exact safe_of_harmless (finish_uses _ _ _ rfl) hw
  · exact hw
  · exact hw

theorem onDownloadFinished_safe (job : DownloadJob) (hw : Sound w) :
    (onDownloadFinished job : Op ι Unit).Safe (shared i) (fun _ ↦ Sound) (fun _ ↦ Sound) w := by
  rw [onDownloadFinished]
  split_ifs
  · exact hw
  · rw [Prog.safe_bind]
    refine (safe_of_harmless (forModel_uses job.model) hw).mono (fun entries v hv ↦ ?_) fun _ _ h ↦ h
    exact each_safe (fun entry _ _ hv ↦ settleFor_safe job entry hv) hv

theorem jobOf_uses (entry : ScheduledDeploy ι) : (jobOf entry).Uses Call.Harmless := by
  refine .ite (fun _ ↦ trivial) fun _ ↦ .bind (by simp [Call.Harmless]) fun outcome ↦ ?_
  cases outcome <;> trivial

theorem reconcileEntry_uses (entry : ScheduledDeploy ι) :
    (reconcileEntry entry).Uses Call.Harmless := by
  refine .ite (fun _ ↦ .bind (finish_uses _ _ _ rfl) fun _ ↦ trivial) fun _ ↦ ?_
  refine .bind (by simp [Call.Harmless]) fun present ↦ ?_
  match present with
  | .error _ => trivial
  | .ok true => exact .bind (by simp [Call.Harmless]) fun _ ↦ trivial
  | .ok false =>
    refine .bind (jobOf_uses entry) fun job ↦ .ite (fun _ ↦ ?_) fun _ ↦ trivial
    exact .bind (finish_uses _ _ _ rfl) fun _ ↦ trivial

theorem reconcile_uses : (reconcile : Op ι Nat).Uses Call.Harmless := by
  refine .bind (listing_uses true) fun entries ↦ ?_
  induction entries with
  | nil => trivial
  | cons entry entries ih =>
    exact .bind (reconcileEntry_uses entry) fun _ ↦ .bind ih fun _ ↦ trivial

/-- Once an entry has ended, a program of harmless calls leaves it so. -/
theorem safe_of_harmless_ended {p : Op ι α} {id : String} (h : p.Uses Call.Harmless)
    (hw : Sound w) (hend : w.Ended id) :
    p.Safe (shared i) (fun _ w ↦ Sound w ∧ w.Ended id) (fun _ w ↦ Sound w ∧ w.Ended id) w := by
  refine h.safe (P := fun w ↦ Sound w ∧ w.Ended id) ?_ ?_ ⟨hw, hend⟩
  · rintro u v ⟨hu, hend⟩ hrely
    obtain ⟨hv, hkeep⟩ := hrely hu
    exact ⟨hv, hkeep.ended id hend⟩
  · rintro u c r v hc ⟨hu, hend⟩ hr
    have hleaves := leaves_of_harmless hu hc hr
    exact ⟨fun _ ↦ hleaves, hleaves.1, (hleaves.2 (i + 1) (Nat.succ_ne_self i)).ended id hend⟩

theorem cancelBehind_uses (stored : ScheduledDeploy ι) :
    (cancelBehind stored).Uses Call.Harmless := by
  refine .bind (forModel_uses _) fun _ ↦ .ite (fun _ ↦ ?_) fun _ ↦ trivial
  exact .bind (by simp [Call.Harmless]) fun _ ↦ trivial

/-- The commit of a cancellation ends the entry, if its row is there. -/
theorem ended_of_store {v w : World ι} {id : String} {read changed : ScheduledDeploy ι}
    (hthere : (v.status id).isSome) (hread : read.status.active = true)
    (hend : changed.status.active = false)
    (h : Threads.performs Call.exec undisputed i v (.store id read changed) () w) : w.Ended id := by
  have hw : w = v.store i id read changed := by
    have hdead := not_dead_of_performs h
    obtain ⟨-, a, h⟩ := h
    rw [Call.exec, if_neg hdead] at h
    exact (Prod.mk.inj (Option.some.inj h)).2.symm
  obtain ⟨row, hrow⟩ : ∃ row, v.rows.lookup id = some row := by
    rw [World.status, Option.isSome_map] at hthere
    exact Option.isSome_iff_exists.mp hthere
  have hne : changed.status ≠ read.status := fun heq ↦ by
    rw [heq, hread] at hend
    cases hend
  refine ⟨changed.status, ?_, hend⟩
  rw [hw, World.store, hrow]
  refine (congrFun (status_write id (row.commit read changed) row.status v) id).trans ?_
  rw [Function.update_self, commit_status, if_neg hne]

/-- A cancellation that returns an entry has found it ended, or ended it. -/
theorem cancel_safe (id : String) (cancelDownload : Bool) (hw : Sound w) :
    (cancel id cancelDownload : Op ι _).Safe (shared i)
      (fun entry w ↦ Sound w ∧ (entry.isSome → w.Ended id)) (fun _ ↦ Sound) w := by
  refine Threads.safe_sharing_op (P := fun _ ↦ True) (fun _ _ _ h ↦ h) ⟨hw, trivial⟩ ?_
  intro v found v' hv _ hr
  refine ⟨leaves_of_harmless (c := .load id) hv trivial hr, ?_⟩
  obtain ⟨hfound, rfl⟩ : v.rows.lookup id = found ∧ v = v' := by
    obtain ⟨-, a, h⟩ := hr
    rw [Call.exec] at h
    split_ifs at h
    exact Prod.mk.inj (Option.some.inj h)
  cases found with
  | none => exact ⟨hv, nofun⟩
  | some row =>
    have hstatus := status_of_lookup hfound
    have hthere : (v.status id).isSome := by rw [hstatus]; rfl
    by_cases hactive : row.status.active = true
    swap
    · refine (congrArg (fun p ↦ Prog.Safe (shared i) p _ _ v) (if_neg hactive)).mpr ?_
      exact ⟨hv, fun _ ↦ ⟨row.status, hstatus, Bool.not_eq_true _ ▸ hactive⟩⟩
    refine (congrArg (fun p ↦ Prog.Safe (shared i) p _ _ v) (if_pos hactive)).mpr ?_
    have hstay : ∀ u u' : World ι, Keeps i u u' → (u.status id).isSome → (u'.status id).isSome :=
      fun u u' hkeep ↦ hkeep.there id
    refine Threads.safe_sharing_op (P := fun w ↦ (w.status id).isSome) hstay ⟨hv, hthere⟩ ?_
    intro u finishedAt u' hu hthere hr
    have hleaves := leaves_of_harmless (c := .now) hu trivial hr
    have hthere' := (hleaves.2 (i + 1) (Nat.succ_ne_self i)).there id hthere
    refine ⟨hleaves, Threads.safe_sharing_op (P := fun w ↦ (w.status id).isSome) hstay
      ⟨hleaves.1, hthere'⟩ ?_⟩
    intro t _ t' ht hthere hr
    have hleaves := leaves_of_harmless
      (c := .store id row { row with status := .cancelled, finishedAt }) ht (.inl rfl) hr
    refine ⟨hleaves, ?_⟩
    have hended := ended_of_store hthere hactive rfl hr
    refine (safe_of_harmless_ended ?_ hleaves.1 hended).mono (fun _ _ h ↦ ⟨h.1, fun _ ↦ h.2⟩)
      fun _ _ h ↦ h.1
    exact .ite (fun _ ↦ .bind (cancelBehind_uses _) fun _ ↦ trivial) fun _ ↦ trivial

theorem cancelScheduled_safe (id : String) (cancelDownload : Bool) (hw : Sound w) :
    (Job.cancelScheduled id cancelDownload : Job ι).program.Safe (shared i) (fun _ ↦ Sound)
      (fun _ ↦ Sound) w := by
  rw [Job.program, Prog.safe_bind]
  refine (cancel_safe id cancelDownload hw).mono (fun entry v hv ↦ ?_) fun _ _ h ↦ h
  refine Threads.safe_sharing_op (P := fun w ↦ entry.isSome → w.Ended id)
    (fun _ _ hkeep h hsome ↦ hkeep.ended id (h hsome)) hv ?_
  intro u _ u' hu hended hr
  obtain rfl : (if entry.isSome then { u with log := .answered id :: u.log } else u) = u' := by
    have hdead := not_dead_of_performs hr
    obtain ⟨-, a, h⟩ := hr
    rw [Call.exec, if_neg hdead] at h
    exact (Prod.mk.inj (Option.some.inj h)).2
  have hleaves : Leaves i u (if entry.isSome then { u with log := .answered id :: u.log } else u) := by
    split_ifs with hsome
    · exact leaves_answer hu (hended hsome)
    · exact leaves_same hu
  exact ⟨hleaves, hleaves.1⟩

/-- Every thread keeps the table sound. -/
theorem program_safe (job : Job ι) (hw : Sound w) :
    job.program.Safe (shared i) (fun _ ↦ Sound) (fun _ ↦ Sound) w := by
  cases job with
  | cancelScheduled id cancelDownload => exact cancelScheduled_safe id cancelDownload hw
  | onDownloadFinished job => exact onDownloadFinished_safe job hw
  | reconcile => exact safe_of_harmless (.bind reconcile_uses fun _ ↦ trivial) hw
  | deploy entry => exact deploy_safe entry hw
  | crash threads =>
    exact each_safe (fun t _ _ hv ↦ safe_of_harmless (by simp [Call.Harmless]) hv) hw

end

/-! ## Every run -/

theorem compatible_shared : Threads.Compatible (@shared ι) :=
  Threads.compatible_sharing Keeps.refl fun _ _ _ _ ↦ Keeps.trans

/-- **A scheduled deploy ends once.** In every run in which no end status is written, by a thread
that has not claimed the entry, over another end status or over the claim of a live thread, no end
status changes, at most one deployment is created for an entry, and none after a request to cancel
it was answered with it. -/
theorem ends_once {jobs : Tid → Job ι} {s : Threads Tid (@Call.Ret ι) Empty Unit (World ι)}
    (h : (system jobs).Reachable (Threads.stepGuard undisputed) s) : EndsOnce s.world.log := by
  obtain ⟨s₀, ⟨hpool, hclaimed, hdead, hlog⟩, hsteps⟩ := h
  have hsound : Sound s₀.world := by
    constructor
    · rw [hlog]
      trivial
    · intro id t ht
      rw [hclaimed] at ht
      cases ht
    · intro id t t' ht
      rw [hclaimed] at ht
      cases ht
    · intro id _
      rw [hclaimed, hlog]
      exact ⟨nofun, nofun⟩
    · intro id hmem
      rw [hlog] at hmem
      cases hmem
  have hsafe : ∀ i, (s₀.pool i).Safe (shared i) (fun _ ↦ Sound) (fun _ ↦ Sound) s₀.world := by
    intro i
    rw [hpool]
    exact program_safe (jobs i) hsound
  exact (Threads.Poised.sharing_steps compatible_shared hsteps hsound hsafe).2.once

/-! ## Two runs -/

private def parked : World Unit where
  rows := AList.singleton "e" { id := "e", model := "m" }

private def called : Tid → Job Unit
  | 0 => .onDownloadFinished { id := "j", model := "m", status := "completed" }
  | 1 => .cancelScheduled "e" false
  | _ => .crash []

private def sched (s : List Tid) : List (Tid × Answer) := s.map fun t ↦ (t, {})

private theorem parked_init : (system called).init ⟨fun i ↦ (called i).program, parked⟩ :=
  ⟨rfl, rfl, rfl, rfl⟩

/-- The model arrives, the deploy runs, and a cancellation that comes later finds it done. -/
theorem ends_once_when_cancelled_late : ∃ s, (system called).runUnder
      (Threads.stepGuard undisputed) ⟨fun i ↦ (called i).program, parked⟩
      (sched [0, 0, 0, 0, 0, 0, 1, 1]) = some s ∧
    s.world.log.head? = some (.answered "e") ∧ EndsOnce s.world.log := by
  obtain ⟨s, hs, hlog⟩ := (Option.any_eq_true _ _).mp (show ((system called).runUnder
      (Threads.stepGuard undisputed) ⟨fun i ↦ (called i).program, parked⟩
      (sched [0, 0, 0, 0, 0, 0, 1, 1])).any
        (fun s ↦ decide (s.world.log.head? = some (.answered "e"))) = true by decide +kernel)
  exact ⟨s, hs, of_decide_eq_true hlog,
    ends_once ⟨_, parked_init, System.steps_of_runUnder hs⟩⟩

/-- **A cancelled deploy is created.** The hook has claimed the entry when the request to cancel it
is answered; it then creates the deployment, and the entry ends as done. -/
theorem created_after_cancel : ¬∀ (jobs : Tid → Job Unit) s,
    (system jobs).Reachable Guard.free s → EndsOnce s.world.log := by
  intro h
  obtain ⟨s, hs, hlog⟩ := (Option.any_eq_true _ _).mp (show ((system called).run
      ⟨fun i ↦ (called i).program, parked⟩ (sched [0, 0, 1, 1, 1, 1, 0, 0, 0, 0])).any
        (fun s ↦ decide (s.world.log = [.wrote "e" .cancelled .done, .issued "e", .answered "e",
          .wrote "e" .deploying .cancelled, .wrote "e" .waiting .deploying])) = true
    by decide +kernel)
  have hends := h called s ⟨_, parked_init, System.steps_of_run hs⟩
  rw [of_decide_eq_true hlog] at hends
  exact absurd hends.1 (by decide)

end SparkPulse.Scheduled
