import Mathlib
import SparkPulse.Runtime.Ports

/-!
# Who holds a port

A port is chosen when a run is planned and held once its record is written. In between another plan
may choose it; a record that was dropped may be written again; and an update may give a run back a
machine that it had let go of. A write is in time when none of these happened before it. Here is
what that says of one call: the calls that leave ports exclusive are in time, and those in time
leave them exclusive.
-/

namespace SparkPulse.Runtime

open Program Prog Transition

/-! ## Exclusive ports -/

/-- The API port of neither run is a port of the other. -/
def Apart (q r : Record) : Prop :=
  (∀ port ∈ apiPort q, port ∉ heldPorts r) ∧ ∀ port ∈ apiPort r, port ∉ heldPorts q

instance (q r : Record) : Decidable (Apart q r) := by
  unfold Apart
  infer_instance

section
variable (env : Env)

/-- The runs occupy a common machine. -/
def Meets (q r : Record) : Prop := ∃ machine ∈ occupied env q, machine ∈ occupied env r

instance (q r : Record) : Decidable (Meets env q r) := by
  unfold Meets
  infer_instance

/-- Runs that occupy a common machine are apart. -/
def Exclusive (s : Store) : Prop :=
  ∀ q ∈ s.rows, ∀ r ∈ s.rows, q.id ≠ r.id → Meets env q r → Apart q r

instance (s : Store) : Decidable (Exclusive env s) := by
  unfold Exclusive
  infer_instance

/-- Records that claim the same ports on the same machines. -/
structure Alike (q r : Record) : Prop where
  id : q.id = r.id
  occupied : occupied env q = occupied env r
  api : apiPort q = apiPort r
  engine : enginePorts q = enginePorts r

end

section
variable {env : Env} {q q' r r' : Record} {s s' : Store}

theorem Apart.symm (h : Apart q r) : Apart r q := ⟨h.2, h.1⟩

theorem Meets.symm (h : Meets env q r) : Meets env r q := by
  obtain ⟨machine, hq, hr⟩ := h
  exact ⟨machine, hr, hq⟩

theorem Alike.symm (h : Alike env q r) : Alike env r q :=
  ⟨h.id.symm, h.occupied.symm, h.api.symm, h.engine.symm⟩

theorem Alike.refl (r : Record) : Alike env r r := ⟨rfl, rfl, rfl, rfl⟩

theorem Alike.held (h : Alike env q r) : heldPorts q = heldPorts r := by
  rw [heldPorts, heldPorts, h.api, h.engine]

theorem Alike.meets (hq : Alike env q q') (hr : Alike env r r') (h : Meets env q r) :
    Meets env q' r' := by
  rwa [Meets, hq.occupied, hr.occupied] at h

theorem Alike.apart (hq : Alike env q q') (hr : Alike env r r') (h : Apart q r) :
    Apart q' r' := by
  rwa [Apart, hq.api, hr.api, hq.held, hr.held] at h

/-- A repaired command line claims nothing. -/
theorem alike_redacted (redact : String → Option String) (r : Record) :
    Alike env r (Store.redacted redact r) := by
  unfold Store.redacted
  split
  · exact ⟨rfl, rfl, rfl, rfl⟩
  · exact .refl r

theorem alike_apply_redacted (redact : String → Option String) (p : Patch) (r : Record) :
    Alike env (p.apply r) (p.apply (Store.redacted redact r)) := by
  unfold Store.redacted
  split
  · exact ⟨rfl, rfl, rfl, rfl⟩
  · exact .refl _

theorem alike_command (command : Option String) (r : Record) :
    Alike env r (Patch.apply { launchCommand := command } r) := ⟨rfl, rfl, rfl, rfl⟩

/-- Records may be dropped, and changed in what they do not claim. -/
theorem Exclusive.of_alike (h : Exclusive env s)
    (hrows : ∀ r' ∈ s'.rows, ∃ r ∈ s.rows, Alike env r r') : Exclusive env s' := by
  intro q' hq' r' hr' hid hmeets
  obtain ⟨q, hq, hqq⟩ := hrows q' hq'
  obtain ⟨r, hr, hrr⟩ := hrows r' hr'
  refine hqq.apart hrr (h q hq r hr ?_ (hqq.symm.meets hrr.symm hmeets))
  rwa [hqq.id, hrr.id]

/-- One record may be written that is apart from the others it meets. -/
theorem Exclusive.write (h : Exclusive env s)
    (hnew : ∀ q ∈ s.rows, q.id ≠ r.id → Meets env q r → Apart q r)
    (hrows : ∀ r' ∈ s'.rows, Alike env r r' ∨ ∃ q ∈ s.rows, q.id ≠ r.id ∧ Alike env q r') :
    Exclusive env s' := by
  intro q' hq' r' hr' hid hmeets
  rcases hrows q' hq' with hq | ⟨q, hq, hqid, hqq⟩ <;>
    rcases hrows r' hr' with hr | ⟨r₀, hr, hrid, hrr⟩
  · exact absurd (hq.id.symm.trans hr.id) hid
  · refine (hrr.apart hq (hnew r₀ hr hrid ?_)).symm
    exact hrr.symm.meets hq.symm hmeets.symm
  · refine hqq.apart hr (hnew q hq hqid ?_)
    exact hqq.symm.meets hr.symm hmeets
  · refine hqq.apart hrr (h q hq r₀ hr ?_ (hqq.symm.meets hrr.symm hmeets))
    rwa [hqq.id, hrr.id]

/-- After a record was written the others that it meets are apart from it. -/
theorem Exclusive.apart_of_write (h : Exclusive env s') (hr : ∃ r' ∈ s'.rows, Alike env r r')
    (hq : ∃ q' ∈ s'.rows, Alike env q q') (hid : q.id ≠ r.id) (hmeets : Meets env q r) :
    Apart q r := by
  obtain ⟨q', hq', hqq⟩ := hq
  obtain ⟨r', hr', hrr⟩ := hr
  refine hqq.symm.apart hrr.symm (h q' hq' r' hr' ?_ (hqq.meets hrr hmeets))
  rwa [← hqq.id, ← hrr.id]

end

/-! ## In time -/

/-- A world, and the records that each thread read first: for a thread that plans, those that its
port was chosen from. -/
structure Watched where
  world : World
  seen : Tid → Option (List Record) := fun _ ↦ none

/-- The effect of a call, with the first reading of each thread kept. -/
def Watched.exec (env : Env) : Threads.Exec Tid Call.Ret Watched Answer := fun i w c a ↦
  (c.exec env i w.world a).map fun r ↦ (r.1, {
    world := r.2
    seen := if c = .rows ∧ w.seen i = none then
        Function.update w.seen i (some w.world.store.rows)
      else w.seen })

section
variable (env : Env)

/-- The first run was there, with its ports and beside the second, when the records were read. -/
def OnRecord (seen : List Record) (q r : Record) : Prop :=
  ∃ q' ∈ seen, q'.id = q.id ∧ heldPorts q' = heldPorts q ∧ Meets env q' r

instance (seen : List Record) (q r : Record) : Decidable (OnRecord env seen q r) := by
  unfold OnRecord
  infer_instance

/-- A plan's record is written in time: a run that it meets and that came since the plan read the
records is apart from it, and one that was there does not serve on a port of its engine. -/
def InTime (seen rows : List Record) (r : Record) : Prop :=
  ∀ q ∈ rows, q.id ≠ r.id → Meets env q r →
    if OnRecord env seen q r then ∀ port ∈ apiPort q, port ∉ enginePorts r else Apart q r

/-- An update gives a run nothing back, or nothing that another run has come to hold. -/
def LetsGo (rows : List Record) (id : String) (p : Patch) : Prop :=
  ∀ r ∈ rows, r.id = id → ∀ q ∈ rows, q.id ≠ id → Meets env q (p.apply r) →
    (Meets env q r ∧ apiPort (p.apply r) = apiPort r ∧ enginePorts (p.apply r) = enginePorts r) ∨
      Apart q (p.apply r)

/-- Every write is in time. -/
def timely : Threads.CallGuard Tid Call Watched := fun i w c ↦
  match c with
  | .persist r => r.id ≠ "" → InTime env ((w.seen i).getD []) w.world.store.rows r
  | .updateRecord id p => LetsGo env w.world.store.rows id p
  | _ => True

instance (i : Tid) (w : Watched) (c : Call) : Decidable (timely env i w c) := by
  unfold timely InTime LetsGo
  split <;> infer_instance

end

/-! ## One call -/

section
variable {env : Env} {s : Store} {r : Record}

theorem mem_rows_iff : r ∈ s.rows ↔ s.get r.id = some r :=
  ⟨Store.get_of_mem, fun h ↦ (Store.get_eq_some_iff.mp h).1⟩

theorem mem_rows_updateRecord (redact : String → Option String) {id : String} {p : Patch} :
    (∀ r' ∈ (s.updateRecord redact id p).2.rows, ∃ r ∈ s.rows,
      Alike env (if r.id = id then p.apply r else r) r') ∧
    ∀ r ∈ s.rows, ∃ r' ∈ (s.updateRecord redact id p).2.rows,
      Alike env (if r.id = id then p.apply r else r) r' := by
  have hget (k : String) : (s.updateRecord redact id p).2.get k = (s.get k).map fun r ↦
      if k = id then p.apply (Store.redacted redact r) else Store.redacted redact r := by
    rw [Store.get_updateRecord, Store.get_update, Store.get_repair, Option.map_map]
    rfl
  have halike (r : Record) : Alike env (if r.id = id then p.apply r else r)
      (if r.id = id then p.apply (Store.redacted redact r) else Store.redacted redact r) := by
    split_ifs
    · exact alike_apply_redacted redact p r
    · exact alike_redacted redact r
  constructor
  · intro r' hr'
    rw [mem_rows_iff, hget] at hr'
    obtain ⟨r, hr, heq⟩ := Option.map_eq_some_iff.mp hr'
    obtain ⟨hmem, hid⟩ := Store.get_eq_some_iff.mp hr
    refine ⟨r, hmem, ?_⟩
    rw [← heq, ← hid]
    exact halike r
  · intro r hr
    refine ⟨_, ?_, halike r⟩
    have hid : (if r.id = id then p.apply (Store.redacted redact r)
        else Store.redacted redact r).id = r.id := by
      split_ifs <;> simp
    rw [mem_rows_iff, hid, hget, Store.get_of_mem hr]
    rfl

theorem mem_rows_persist (redact : String → Option String) {record : Record}
    (hnamed : record.id ≠ "") :
    (∀ r' ∈ (s.persist redact record).rows, r' = record ∨
      ∃ r ∈ s.rows, r.id ≠ record.id ∧ Alike env r r') ∧
    record ∈ (s.persist redact record).rows ∧
    ∀ r ∈ s.rows, r.id ≠ record.id → ∃ r' ∈ (s.persist redact record).rows, Alike env r r' := by
  have hself : (s.persist redact record).get record.id = some record := by
    rw [Store.get_persist, if_pos ⟨rfl, hnamed⟩]
  have hother {k : String} (hk : k ≠ record.id) : (s.persist redact record).get k =
      (s.get k).map (Store.redacted redact) := by
    rw [Store.get_persist, if_neg fun h ↦ hk h.1, Store.get_repair]
  refine ⟨fun r' hr' ↦ ?_, mem_rows_iff.mpr hself, fun r hr hid ↦ ?_⟩
  · rw [mem_rows_iff] at hr'
    by_cases hid : r'.id = record.id
    · rw [hid, hself] at hr'
      exact .inl (Option.some.inj hr').symm
    · rw [hother hid] at hr'
      obtain ⟨r, hr, rfl⟩ := Option.map_eq_some_iff.mp hr'
      obtain ⟨hmem, hrid⟩ := Store.get_eq_some_iff.mp hr
      exact .inr ⟨r, hmem, by rwa [hrid], alike_redacted redact r⟩
  · refine ⟨Store.redacted redact r, ?_, alike_redacted redact r⟩
    rw [mem_rows_iff, Store.redacted_id, hother hid, Store.get_of_mem hr]
    rfl

theorem mem_rows_dropRecord (redact : String → Option String) {id : String} :
    ∀ r' ∈ (s.dropRecord redact id).2.rows, ∃ r ∈ s.rows, Alike env r r' := by
  intro r' hr'
  rw [mem_rows_iff, Store.get_dropRecord] at hr'
  split_ifs at hr'
  rw [Store.get_repair] at hr'
  obtain ⟨r, hr, rfl⟩ := Option.map_eq_some_iff.mp hr'
  exact ⟨r, (Store.get_eq_some_iff.mp hr).1, alike_redacted redact r⟩

theorem mem_rows_update {id : String} {command : Option String} :
    ∀ r' ∈ (s.update id { launchCommand := command }).rows, ∃ r ∈ s.rows, Alike env r r' := by
  intro r' hr'
  obtain ⟨r, hr, rfl⟩ := List.mem_map.mp hr'
  refine ⟨r, hr, ?_⟩
  split_ifs
  · exact alike_command command r
  · exact .refl r

/-- An update that lets go keeps ports exclusive. -/
theorem Exclusive.updateRecord (h : Exclusive env s) (redact : String → Option String) {id : String}
    {p : Patch} (hgoes : LetsGo env s.rows id p) :
    Exclusive env (s.updateRecord redact id p).2 := by
  have hrows := (@mem_rows_updateRecord env s redact id p).1
  by_cases hr : ∃ r ∈ s.rows, r.id = id
  · obtain ⟨r, hr, rfl⟩ := hr
    refine h.write (r := p.apply r) (fun q hq hid hmeets ↦ ?_) fun r' hr' ↦ ?_
    · rcases hgoes r hr rfl q hq hid hmeets with ⟨hmet, hapi, hengine⟩ | hapart
      · have hapart := h q hq r hr hid hmet
        rwa [Apart, ← hapi, heldPorts, heldPorts, ← hapi, ← hengine] at hapart
      · exact hapart
    · obtain ⟨q, hq, hqr⟩ := hrows r' hr'
      split_ifs at hqr with hid
      · have hsame := Store.get_of_mem hq
        rw [hid, Store.get_of_mem hr] at hsame
        obtain rfl := Option.some.inj hsame
        exact .inl hqr
      · exact .inr ⟨q, hq, hid, hqr⟩
  · push Not at hr
    refine h.of_alike fun r' hr' ↦ ?_
    obtain ⟨q, hq, hqr⟩ := hrows r' hr'
    rw [if_neg (hr q hq)] at hqr
    exact ⟨q, hq, hqr⟩

/-- A record written in time keeps ports exclusive, if its port was chosen apart from what was on
record. -/
theorem Exclusive.persist (h : Exclusive env s) (redact : String → Option String)
    {record : Record} {seen : List Record} (hnamed : record.id ≠ "")
    (hchosen : ∀ q ∈ seen, Meets env q record → ∀ port ∈ apiPort record, port ∉ heldPorts q)
    (hintime : InTime env seen s.rows record) : Exclusive env (s.persist redact record) := by
  refine h.write (r := record) (fun q hq hid hmeets ↦ ?_) fun r' hr' ↦ ?_
  · have hlate := hintime q hq hid hmeets
    split_ifs at hlate with honRecord
    · obtain ⟨q', hq', -, hheld, hmet⟩ := honRecord
      have hport := hchosen q' hq' hmet
      rw [hheld] at hport
      refine ⟨fun port hapi hmem ↦ ?_, hport⟩
      rcases mem_heldPorts.mp hmem with hmem | hmem
      · exact hport port hmem (mem_heldPorts.mpr (.inl hapi))
      · exact hlate port hapi hmem
    · exact hlate
  · rcases (mem_rows_persist redact hnamed).1 r' hr' with rfl | hr'
    · exact .inl (.refl _)
    · exact .inr hr'

variable {i : Tid} {w : Watched} {w' : World} {c : Call} {a : Answer} {reply : c.Ret}

/-- Calls that write no record anew, and update at most fields. -/
def Harmless : Call → Prop
  | .persist _ | .save .. | .deleteMany _ => False
  | .updateRow _ p => ∃ command, p = { launchCommand := some command }
  | _ => True

theorem exclusive_of_harmless (hc : Harmless c) (hg : timely env i w c)
    (h : c.exec env i w.world a = some (reply, w')) (hw : Exclusive env w.world.store) :
    Exclusive env w'.store := by
  cases c with
  | updateRow id p =>
    obtain ⟨command, rfl⟩ := hc
    obtain ⟨-, rfl⟩ := Prod.mk.inj (Option.some.inj h)
    exact hw.of_alike mem_rows_update
  | updateRecord id p =>
    obtain ⟨-, rfl⟩ := Prod.mk.inj (Option.some.inj h)
    exact hw.updateRecord env.redact hg
  | dropRecord id =>
    obtain ⟨-, rfl⟩ := Prod.mk.inj (Option.some.inj h)
    exact hw.of_alike (mem_rows_dropRecord env.redact)
  | persist record => exact hc.elim
  | save loaded records => exact hc.elim
  | deleteMany ids => exact hc.elim
  | _ =>
    rw [(Call.records_of_exec h rfl).1]
    exact hw

/-- A call that leaves ports exclusive was in time. -/
theorem timely_of_exclusive (h : c.exec env i w.world a = some (reply, w'))
    (hw : Exclusive env w'.store) : timely env i w c := by
  cases c with
  | persist record =>
    obtain ⟨-, rfl⟩ := Prod.mk.inj (Option.some.inj h)
    intro hnamed
    obtain ⟨-, hself, hothers⟩ :=
      @mem_rows_persist env w.world.store env.redact record hnamed
    intro q hq hid hmeets
    have hapart : Apart q record :=
      hw.apart_of_write ⟨record, hself, .refl record⟩ (hothers q hq hid) hid hmeets
    split_ifs
    · exact fun port hport hmem ↦ hapart.1 port hport (mem_heldPorts.mpr (.inr hmem))
    · exact hapart
  | updateRecord id p =>
    obtain ⟨-, rfl⟩ := Prod.mk.inj (Option.some.inj h)
    have hrows := (@mem_rows_updateRecord env w.world.store env.redact id p).2
    intro r hr hrid q hq hqid hmeets
    refine .inr (hw.apart_of_write (r := p.apply r) ?_ ?_ ?_ hmeets)
    · have hthere := hrows r hr
      rwa [if_pos hrid] at hthere
    · have hthere := hrows q hq
      rwa [if_neg hqid] at hthere
    · rw [Patch.apply_id, hrid]
      exact hqid
  | _ => trivial

end

end SparkPulse.Runtime
