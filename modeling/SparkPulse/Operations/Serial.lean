import SparkPulse.Operations.Basic

/-!
# Serial order of the changes to the records

Every call that writes records commits its own change to them. A history of the store is *serial*
when the store is what some order of the committed changes makes of the initial one: nothing that
was added is missing unless something removed it, nothing that was removed is back, and no field
has a value that no operation gave it last.

The transactions are changes of their own by construction, and serial in the order they commit.
Whole-set saves are not transactions over the load they go back to, and a list or an orphan sweep
asks the nodes in between. What a list that was disturbed saves is not serial in any order.
-/

namespace SparkPulse

open Program Transition SparkPulse.Runtime

/-- The store is the initial one with the committed changes made to it, in some order. -/
def Serial (s t : World) : Prop :=
  ∃ order, order.Perm t.commits ∧ t.store.view = replay Patch.apply s.store.view order

/-- A whole-set save finds undisturbed what it does not mean to change: for every id, nobody has
stored a record that the caller neither loaded nor writes, or dropped a record that it loaded and
writes, or changed a field of it that the caller leaves as loaded. -/
def undisturbedSaves : Threads.CallGuard Tid Call World := fun _ w c ↦
  match c with
  | .save loaded records => ∀ id ∈ (loaded ++ records ++ w.store.rows).map Record.id,
      Undisturbed Patch.diff Patch.apply (Store.listView loaded id) (Store.listView records id)
        (w.store.get id)
  | _ => True

instance (loaded saved stored : Option Record) :
    Decidable (Undisturbed Patch.diff Patch.apply loaded saved stored) := by
  unfold Undisturbed
  split <;> infer_instance

instance (i : Tid) (w : World) (c : Call) : Decidable (undisturbedSaves i w c) := by
  unfold undisturbedSaves
  split <;> infer_instance

/-! ## One call -/

/-- An id in no list is under neither view. -/
theorem Store.listView_eq_none {records : List Record} {id : String}
    (h : id ∉ records.map Record.id) : Store.listView records id = none := by
  rw [Store.listView, ← Option.not_isSome_iff_eq_none, Option.isSome_iff_exists]
  rintro ⟨r, hr⟩
  have hid := Store.id_of_lookup_byId hr
  rw [Store.lookup_byId] at hr
  split_ifs at hr
  exact h (List.mem_map.mpr ⟨r, by simpa using List.mem_of_find?_eq_some hr, hid⟩)

theorem Store.get_eq_none {s : Store} {id : String} (h : id ∉ s.rows.map Record.id) :
    s.get id = none := by
  rw [← Option.not_isSome_iff_eq_none, Option.isSome_iff_exists]
  rintro ⟨r, hr⟩
  obtain ⟨hmem, hid⟩ := Store.get_eq_some_iff.mp hr
  exact h (List.mem_map.mpr ⟨r, hmem, hid⟩)

/-- The condition on the ids that occur is the condition on all ids. -/
theorem undisturbed_of_guard {i : Tid} {w : World} {loaded records : List Record}
    (h : undisturbedSaves i w (.save loaded records)) (id : String) :
    Undisturbed Patch.diff Patch.apply (Store.listView loaded id) (Store.listView records id)
      (w.store.get id) := by
  by_cases hid : id ∈ (loaded ++ records ++ w.store.rows).map Record.id
  · exact h id hid
  · simp only [List.map_append, List.mem_append, not_or] at hid
    rw [Store.listView_eq_none hid.1.1, Store.listView_eq_none hid.1.2, Store.get_eq_none hid.2]
    rfl

/-- What a call may have done to the store: nothing, or the changes it committed. -/
def Committed (w w' : World) : Prop :=
  ∃ own, w'.commits = own ++ w.commits ∧ w'.store.view = replay Patch.apply w.store.view own

theorem Committed.of_eq {w w' : World} (hs : w'.store = w.store) (hc : w'.commits = w.commits) :
    Committed w w' := ⟨[], by rw [hc]; rfl, by rw [hs]; rfl⟩

theorem Committed.commit (w : World) {own : Delta String Record Patch} {s : Store}
    (h : s.view = own.apply Patch.apply w.store.view) : Committed w (w.commit own s) :=
  ⟨[own], rfl, h⟩

theorem Committed.log {w w' : World} (h : Committed w w') (e : Event) : Committed w (w'.log e) := h

theorem Committed.trans {u v w : World} (huv : Committed u v) (hvw : Committed v w) :
    Committed u w := by
  obtain ⟨own, hc, hs⟩ := huv
  obtain ⟨own', hc', hs'⟩ := hvw
  refine ⟨own' ++ own, ?_, ?_⟩
  · rw [hc', hc, List.append_assoc]
  · rw [hs', hs, replay_append]

theorem committed_repair (env : Env) (w : World) : Committed w (w.repair env) :=
  .commit w (w.store.view_repair env.redact)

/-- **One call.** Every call commits its own changes, and does nothing else to the records; a
whole-set save, as long as it finds undisturbed what it does not mean to change. -/
theorem committed_of_exec {env : Env} {i : Tid} {w w' : World} {c : Call} {a : Answer} {r : c.Ret}
    (h : c.exec env i w a = some (r, w')) (hg : undisturbedSaves i w c) : Committed w w' := by
  cases c with
  | updateRow id p =>
    obtain ⟨-, rfl⟩ := Prod.mk.inj (Option.some.inj h)
    exact (Committed.commit w (w.store.view_update id p)).log _
  | updateRecord id p =>
    obtain ⟨-, rfl⟩ := Prod.mk.inj (Option.some.inj h)
    exact (committed_repair env w).trans
      (.commit _ (w.store.view_updateRecord env.redact id p))
  | persist record =>
    obtain ⟨-, rfl⟩ := Prod.mk.inj (Option.some.inj h)
    exact (committed_repair env w).trans
      ((Committed.commit _ (w.store.view_persist env.redact record)).log _)
  | save loaded records =>
    obtain ⟨-, rfl⟩ := Prod.mk.inj (Option.some.inj h)
    exact .commit w ((w.store.view_save_iff loaded records).mpr (undisturbed_of_guard hg))
  | dropRecord id =>
    obtain ⟨-, rfl⟩ := Prod.mk.inj (Option.some.inj h)
    exact (committed_repair env w).trans (.commit _ (w.store.view_dropRecord env.redact id))
  | deleteMany ids =>
    obtain ⟨-, rfl⟩ := Prod.mk.inj (Option.some.inj h)
    exact .commit w (w.store.view_deleteMany ids)
  | _ => exact .of_eq (Call.records_of_exec h rfl).1 (Call.records_of_exec h rfl).2

/-! ## Runs -/

variable {env : Env} {I : World → Prop} {s t : Threads Tid Call.Ret Exn Unit World}

/-- The run lemma: a run commits its changes one after another. -/
theorem committed_of_steps (h : (control env I).Steps (Threads.stepGuard undisturbedSaves) s t) :
    Committed s.world t.world := by
  induction h with
  | refl => exact .of_eq rfl rfl
  | tail _ hG hn ih =>
    obtain ⟨e, k, r, -, ⟨hg, a, ha⟩, -⟩ := Threads.next_cases hG hn
    exact ih.trans (committed_of_exec ha hg)

/-- **No update is lost.** In every run of any number of sessions in which each whole-set save
finds undisturbed what it does not mean to change, the store is what the committed changes make of
the initial one. -/
theorem serial_of_undisturbed_saves
    (h : (control env fun w ↦ w.commits = []).Steps (Threads.stepGuard undisturbedSaves) s t)
    (hs : (control env fun w ↦ w.commits = []).init s) : Serial s.world t.world := by
  obtain ⟨own, hc, hview⟩ := committed_of_steps h
  rw [hs.2, List.append_nil] at hc
  exact ⟨own, by rw [hc], hview⟩

/-! ## Two runs of a list and a persist

A list finds a container of an unknown deployment, and another deployment's record is persisted. -/

private def plainEnv : Env where
  isLocal a := a = ""
  isLocal_empty := rfl
  redact _ := none
  serveProgram command := command
  controlLabel := ""
  readyTimeout := 900

private def soloPlan : DeployPlan where
  deploymentId := "x"
  rankPlans := [{
    rank := 0
    node := ""
    container := {
      image := "i"
      name := "spark-pulse-x-r0-g1"
      labels := { deployment := some "x", generation := some 1, rank := some 0 } }
    isHead := true }]
  named := by decide
  manned := by decide
  ranked := by decide
  made := by decide

private def listAndPersist : Threads Tid Call.Ret Exn Unit World where
  pool i := Operation.session plainEnv
    (if i = 0 then [.list] else if i = 1 then [.persistPlannedRecord soloPlan .pulling] else [])
  world := { containers := [⟨"", "spark-pulse-z", "i", { deployment := some "z" }⟩] }

private theorem listAndPersist_init :
    (control plainEnv fun w ↦ w.commits = []).init listAndPersist := ⟨fun _ ↦ ⟨_, rfl⟩, rfl⟩

/-- A record persisted before the list loads stays, and the container is adopted beside it. -/
theorem serial_after_list : ∃ t, (control plainEnv fun w ↦ w.commits = []).runUnder
      (Threads.stepGuard undisturbedSaves) listAndPersist
      [(1, {}), (0, {}), (0, {}), (0, {}), (0, { text := "t" }), (0, {})] = some t ∧
    t.world.store.rows.map Record.id = ["x", "z"] ∧ Serial listAndPersist.world t.world := by
  obtain ⟨t, ht, hrows⟩ := (Option.any_eq_true _ _).mp
    (show ((control plainEnv fun w ↦ w.commits = []).runUnder (Threads.stepGuard undisturbedSaves)
        listAndPersist [(1, {}), (0, {}), (0, {}), (0, {}), (0, { text := "t" }), (0, {})]).any
        (fun t ↦ t.world.store.rows.map Record.id = ["x", "z"]) = true by decide +kernel)
  exact ⟨t, ht, of_decide_eq_true hrows,
    serial_of_undisturbed_saves (System.steps_of_runUnder ht) listAndPersist_init⟩

/-- **Updates are lost.** A record persisted between the load and the save of a list is removed by
the save, which never saw it. -/
theorem list_removes_a_record_it_never_saw : ¬∀ (env : Env)
    (s t : Threads Tid Call.Ret Exn Unit World),
    (control env fun w ↦ w.commits = []).init s →
    (control env fun w ↦ w.commits = []).Steps Guard.free s t → Serial s.world t.world := by
  intro h
  obtain ⟨t, ht, hlost⟩ := (Option.any_eq_true _ _).mp
    (show ((control plainEnv fun w ↦ w.commits = []).run listAndPersist
        [(0, {}), (0, {}), (0, {}), (0, { text := "t" }), (1, {}), (0, {})]).any (fun t ↦
          t.world.store.get "x" = none ∧ (∃ d ∈ t.world.commits, (d "x").puts = true) ∧
            ∀ d ∈ t.world.commits, (d "x").drops = false) = true by decide +kernel)
  obtain ⟨hx, ⟨d, hd, hput⟩, hdrop⟩ := of_decide_eq_true hlost
  obtain ⟨order, hperm, hview⟩ := h plainEnv _ t listAndPersist_init (System.steps_of_run ht)
  -- whatever the order, the persist puts the record and nothing drops it
  have hkept : replay Patch.apply listAndPersist.world.store.view order "x" ≠ none :=
    replay_ne_none ⟨d, hperm.mem_iff.mpr hd, hput⟩ fun d hd ↦ hdrop d (hperm.mem_iff.mp hd)
  rw [← hview] at hkept
  exact hkept hx

end SparkPulse
