import Mathlib.Data.Option.Basic
import SparkPulse.Runtime.Alone

/-!
# The frame of a scope

What routine calls leave as it was. A record under them is repaired, or patched within the scope,
and neither appears nor goes; the machines at most lose containers; and what is raised is raised in
the phases of the scope. A program that makes routine calls only has the same frame as each of them,
so nothing it does between has to be looked at where this is enough.
-/

namespace SparkPulse.Runtime

open Program Prog Transition

/-! ## Records -/

/-- What the calls of a scope make of a record. -/
inductive Evolves (s : Scope) (r : Record) : Record → Prop
  | refl : Evolves s r r
  | repair {r' : Record} (command : String) : Evolves s r r' →
    Evolves s r { r' with launchCommand := command }
  | patch {r' : Record} (p : Patch) : r'.id = s.id → s.patches p → Evolves s r r' →
    Evolves s r (p.apply r')

namespace Evolves

variable {s : Scope} {r r' r'' : Record}

theorem trans (h : Evolves s r r') (h' : Evolves s r' r'') : Evolves s r r'' := by
  induction h' with
  | refl => exact h
  | repair command _ ih => exact ih.repair command
  | patch p hid hp _ ih => exact ih.patch p hid hp

/-- What repairs and the patches of the scope keep of a record, the scope keeps. -/
theorem invariant {I : Record → Prop} (hrepair : ∀ r command, I r →
    I { r with launchCommand := command }) (hpatch : ∀ r p, s.patches p → I r → I (p.apply r))
    (h : Evolves s r r') (hr : I r) : I r' := by
  induction h with
  | refl => exact hr
  | repair command _ ih => exact hrepair _ command ih
  | patch p _ hp _ ih => exact hpatch _ p hp ih

theorem redacted (redact : String → Option String) (r : Record) :
    Evolves s r (Store.redacted redact r) := by
  unfold Store.redacted
  split
  · exact .repair _ .refl
  · exact .refl

end Evolves

/-! ## The frame -/

/-- What is left as it was. -/
structure Frame (s : Scope) (w w' : World) : Prop where
  shrinks : w.Shrinks w'
  store : ∀ id, Option.Rel (Evolves s) (w.store.get id) (w'.store.get id)
  pulls : ¬s.phases .pull → w'.pulls = w.pulls
  raised : ∀ phase op x, .raised phase op x ∈ w'.trace → .raised phase op x ∈ w.trace ∨ s.phases phase

section
variable {s : Scope} {env : Env} {i : Tid} {u v w w' : World} {a : Answer}

theorem rel_refl (o : Option Record) : Option.Rel (Evolves s) o o := by
  cases o with
  | none => exact .none
  | some r => exact .some .refl

theorem rel_trans {o o' o'' : Option Record} (h : Option.Rel (Evolves s) o o')
    (h' : Option.Rel (Evolves s) o' o'') : Option.Rel (Evolves s) o o'' := by
  cases h with
  | none => exact h'
  | some h =>
    cases h' with
    | some h' => exact .some (h.trans h')

/-- A change of each record by itself. -/
theorem rel_map {o : Option Record} {f : Record → Record} (h : ∀ r ∈ o, Evolves s r (f r)) :
    Option.Rel (Evolves s) o (o.map f) := by
  cases o with
  | none => exact .none
  | some r => exact .some (h r rfl)

namespace Frame

theorem refl (w : World) : Frame s w w where
  shrinks := .refl w
  store _ := rel_refl _
  pulls _ := rfl
  raised _ _ _ := .inl

theorem trans (h : Frame s u v) (h' : Frame s v w) : Frame s u w where
  shrinks := h.shrinks.trans h'.shrinks
  store id := rel_trans (h.store id) (h'.store id)
  pulls hs := (h'.pulls hs).trans (h.pulls hs)
  raised phase op x he := by
    rcases h'.raised phase op x he with he | hs
    · exact h.raised phase op x he
    · exact .inr hs

end Frame

/-! ## What is raised, and where -/

theorem NodeOp.raised_attempted {machine : String} {op : NodeOp} {phase : Phase} {op' : NodeOp}
    {x : Exn} (he : .raised phase op' x ∈ (op.attempted machine a w).trace) :
    .raised phase op' x ∈ w.trace := by
  unfold NodeOp.attempted at he
  split at he <;> (try split_ifs at he) <;> simpa using he

theorem NodeOp.raised_answered {machine : String} {op : NodeOp} {r : op.Reply} {phase : Phase}
    {op' : NodeOp} {x : Exn} (h : op.answered machine a w = some (r, w'))
    (he : .raised phase op' x ∈ w'.trace) : .raised phase op' x ∈ w.trace := by
  cases op <;> simp only [NodeOp.answered] at h
  case containerStatus name =>
    split at h
    · cases h
      simpa using he
    · cases h
      exact he
    · split_ifs at h
      cases h
      exact he
  case listManaged deployment =>
    cases h
    simpa using he
  case runContainer image name labels =>
    split_ifs at h
    cases h
    exact NodeOp.raised_attempted he
  all_goals
    cases h
    first | exact he | exact NodeOp.raised_attempted he

/-- What is raised, an operation on a node has raised. -/
theorem Call.raised_of_exec {c : Call} {r : c.Ret} (h : c.exec env i w a = some (r, w'))
    (hc : ∀ e, c ≠ .note e) {phase : Phase} {op : NodeOp} {x : Exn}
    (he : .raised phase op x ∈ w'.trace) :
    .raised phase op x ∈ w.trace ∨ ∃ address, c = .node phase address op := by
  cases c
  case node phase' address op' =>
    simp only [exec] at h
    split at h
    · cases h
      rcases List.mem_cons.mp he with heq | he
      · cases heq
        exact .inr ⟨address, rfl⟩
      · exact .inl (NodeOp.raised_attempted he)
    · obtain ⟨⟨r', w''⟩, hr, heq⟩ := Option.map_eq_some_iff.mp h
      cases heq
      exact .inl (NodeOp.raised_answered hr he)
  case note e => exact absurd rfl (hc e)
  case acquire id =>
    obtain ⟨w'', hw, heq⟩ := Option.map_eq_some_iff.mp h
    cases heq
    unfold World.acquire at hw
    split at hw
    · cases hw
      exact .inl he
    · split_ifs at hw
      cases hw
      exact .inl he
  case release id =>
    obtain ⟨w'', hw, heq⟩ := Option.map_eq_some_iff.mp h
    cases heq
    unfold World.release at hw
    split at hw
    · cases hw
    · split_ifs at hw
      all_goals
        cases hw
        exact .inl he
  case cancelPull id =>
    simp only [exec] at h
    split at h <;> cases h <;> exact .inl he
  case now =>
    simp only [exec] at h
    split_ifs at h
    cases h
    exact .inl he
  all_goals
    cases h
    first
      | exact .inl he
      | exact .inl ((List.mem_cons.mp he).resolve_left fun h ↦ by cases h)

/-! ## Routine calls have the frame -/

/-- What a call of the scope does to each record. -/
theorem store_of_routine {c : Call} {r : c.Ret} (h : c.exec env i w a = some (r, w'))
    (hc : Routine s c) (id : String) :
    Option.Rel (Evolves s) (w.store.get id) (w'.store.get id) := by
  by_cases hw : c.writes = false
  · rw [(Call.records_of_exec h hw).1]
    exact rel_refl _
  cases c
  case updateRow id' p =>
    obtain ⟨command, rfl⟩ := hc
    cases h
    rw [World.log_store, World.commit_store, Store.get_update]
    refine rel_map fun r hr ↦ ?_
    split_ifs
    · exact .repair command .refl
    · exact .refl
  case updateRecord id' p =>
    obtain ⟨rfl, hp⟩ := hc
    cases h
    rw [World.commit_store, Store.get_updateRecord, Store.get_update, Store.get_repair]
    rw [Option.map_map]
    refine rel_map fun r hr ↦ ?_
    have hrepaired := Evolves.redacted (s := s) env.redact r
    simp only [Function.comp_apply]
    split_ifs with hid
    · refine .patch p ?_ hp hrepaired
      rw [Store.redacted_id, Store.id_of_get hr, hid]
    · exact hrepaired
  all_goals first | exact absurd rfl hw | cases hc

/-- **One call.** A call of the scope has the frame of the scope. -/
theorem frame_of_exec {c : Call} {r : c.Ret} (h : c.exec env i w a = some (r, w'))
    (hc : Routine s c) : Frame s w w' where
  shrinks := Call.shrinks_of_exec h hc.starts
  store := store_of_routine h hc
  pulls hs := by
    cases c
    case node => exact (Call.quiet_node h).pulls
    case registerPull id => exact absurd hc.2 hs
    case unregisterPull id => exact absurd hc.2 hs
    case now =>
      simp only [Call.exec] at h
      split_ifs at h
      cases h
      rfl
    all_goals first | (cases h; rfl) | cases hc
  raised phase op x he := by
    have hnote : ∀ e, c ≠ .note e := by
      rintro e rfl
      exact hc
    rcases Call.raised_of_exec h hnote he with he | ⟨address, rfl⟩
    · exact .inl he
    · exact .inr hc.phase

/-- The frame rule: a program of routine calls alone has their frame. -/
theorem safe_frame {α : Type} {p : Op α} {guar : World → World → Prop}
    (h : p.Uses (Routine s)) (hguar : ∀ w w', Frame s w w' → guar w w') (w : World) :
    p.Safe (alone env guar) (fun _ w' ↦ Frame s w w') (fun _ w' ↦ Frame s w w') w := by
  refine h.safe (fun v w hv hvw ↦ hvw ▸ hv) (fun u c r v hc hu ↦ ?_) (.refl w)
  rintro ⟨a, ha⟩
  have hframe := frame_of_exec ha hc
  exact ⟨hguar u v hframe, hu.trans hframe⟩

/-! ## Reading a record -/

theorem repairLoaded_yields (rs : List Record) :
    (repairLoaded env rs).Yields (· = rs.map (Store.redacted env.redact)) := by
  induction rs with
  | nil => rfl
  | cons r rs ih =>
    rw [repairLoaded]
    split
    next hr =>
      refine ih.bind fun rs' hrs' ↦ ?_
      simp only [Yields, List.map_cons, Store.redacted, hr, hrs', pure]
    next command hr =>
      have hcons : ∀ rs', rs' = rs.map (Store.redacted env.redact) →
          { r with launchCommand := command } :: rs' =
            (r :: rs).map (Store.redacted env.redact) := by
        rintro rs' rfl
        simp only [List.map_cons, Store.redacted, hr]
      split_ifs
      · exact fun _ ↦ ih.bind hcons
      · exact ih.bind hcons

theorem repairLoaded_raises {P : Exn → Prop} (rs : List Record) :
    (repairLoaded env rs).Raises P := by
  induction rs with
  | nil => trivial
  | cons r rs ih =>
    rw [repairLoaded]
    split
    · exact ih.bind fun _ ↦ raises_pure
    · refine .ite (fun _ ↦ ?_) fun _ ↦ ih.bind fun _ ↦ raises_pure
      exact raises_call.bind fun _ ↦ ih.bind fun _ ↦ raises_pure

/-- A look-up answers the record as it was stored when it began, repaired. -/
theorem safe_getDeployment {guar : World → World → Prop} {id : String}
    (hguar : ∀ w w', Frame s w w' → guar w w') (w : World) :
    (getDeployment env id).Safe (alone env guar)
      (fun o w' ↦ o = (w.store.get id).map (Store.redacted env.redact) ∧ Frame s w w')
      (fun _ _ ↦ False) w := by
  rw [getDeployment, loadRecords, safe_bind, safe_bind, safe_invoke]
  rintro rows w' a ha
  have hframe : Frame s w w' := frame_of_exec ha trivial
  refine ⟨hguar w w' hframe, ?_⟩
  obtain ⟨rfl, -⟩ := Prod.mk.inj (Option.some.inj ha)
  have hraises : (repairLoaded env w.store.rows).Raises fun _ ↦ False := repairLoaded_raises _
  have hkept : (repairLoaded env w.store.rows).Safe (alone env guar)
      (fun _ w'' ↦ Frame s w' w'') (fun _ w'' ↦ Frame s w' w'') w' :=
    safe_frame (repairLoaded_uses _) hguar w'
  refine ((repairLoaded_yields _).safe (hraises.safe hkept)).mono (fun rs w'' h ↦ ?_)
    fun _ _ h ↦ h.1
  obtain ⟨rfl, hrest⟩ := h
  refine ⟨?_, hframe.trans hrest⟩
  rw [List.find?_map, Store.get]
  congr 2
  funext r
  simp

end

end SparkPulse.Runtime
