import SparkPulse.HubCache.Replication

/-!
# Replication and the copy a node has

All runs that copy a model to a node share its staging directory, and publishing is four shell steps.
A run may find, between its verification and its publish, that another has written into the staging
directory or moved it away, and its publish may be cut off when the old entry is aside and the new
one not in place. In a run where none of this happens, the published entry is never lost, and what is
published has been verified by the run that published it with nothing written into it since.
-/

namespace SparkPulse.Replication

open Program Transition HubCache

variable {β : Type}

/-! ## The property and the condition -/

/-- The run's verification for the commit succeeded on the directory, and nothing was written into it
since. The latest event comes first. -/
def Certified : List Event → RunId → String → DirId → Prop
  | [], _, _, _ => False
  | .wrote d' :: log, r, commit, d => d' ≠ d ∧ Certified log r commit d
  | .verified r' commit' d' :: log, r, commit, d =>
    r' = r ∧ commit' = commit ∧ d' = d ∨ Certified log r commit d

/-- What is published is what was there at first and nobody wrote into, or was verified by the run
that published it; and once all runs have ended, a path that held a complete entry holds one. -/
structure Kept (fnmatch : String → String → Bool) (H : Hashes β) (runs : RunId → Option Run)
    (s : Threads Tid Call.Ret Failure Unit (Node β)) : Prop where
  published : ∀ d r, s.world.published = some (d, some r) →
    ∀ run, runs r = some run → Certified s.world.log r run.commit d
  untouched : ∀ d, s.world.published = some (d, none) → .wrote d ∉ s.world.log
  survives : s.world.held = true → (∀ r c next, s.pool (.run r) ≠ .op c next) →
    ∃ repo ∈ s.world.publishedRepo, Complete fnmatch H repo

/-- The staging directory is the one the run has verified and is to publish. -/
def Node.ready (w : Node β) (r : RunId) : Bool := w.staging.any fun d ↦ (r, d) ∈ w.holding

/-- Nobody writes into a directory that a run is to publish, or that is published. A run that moves
the published entry aside, or the staging directory to where nothing is, moves the one it verified.
And no publish is cut off with the old entry aside and nothing in its place. -/
def Exclusive : Threads.CallGuard Tid Call (Node β) := fun i w c ↦
  match c, i with
  | .write d, _ => (∀ h ∈ w.holding, h.2 ≠ d) ∧ ∀ p ∈ w.published, p.1 ≠ d
  | .moveAside, .run r => w.held = true → w.published.isSome = true → w.ready r = true
  | .moveInto, .run r => w.published = none → w.staging.isSome = true → w.ready r = true
  | .cut r, _ => w.held = true → w.gap ≠ some r
  | _, _ => True

instance (i : Tid) (w : Node β) (c : Call) : Decidable (Exclusive i w c) := by
  cases c <;> cases i <;> unfold Exclusive <;> infer_instance

/-! ## The invariant -/

section
variable (fnmatch : String → String → Bool) (H : Hashes β) (runs : RunId → Option Run)

/-- What a run is to verify. -/
def commitOf (r : RunId) : String := (runs r).elim "" Run.commit

structure Inv (w : Node β) : Prop where
  certified : ∀ r d, (r, d) ∈ w.holding → Certified w.log r (commitOf runs r) d
  published : ∀ d r, w.published = some (d, some r) → Certified w.log r (commitOf runs r) d
  untouched : ∀ d, w.published = some (d, none) → .wrote d ∉ w.log
  complete : ∀ r commit d, Certified w.log r commit d → d < w.next ∧ Complete fnmatch H (w.entries d)
  staged : ∀ d, w.staging = some d → d < w.next
  placed : ∀ d r, w.published = some (d, r) → d < w.next
  aside : ∀ r, w.gap = some r → w.published = none
  /-- The published path holds a complete entry, or a run that nobody cuts off is about to move one
  there. -/
  held : w.held = true →
    (∃ d r, w.published = some (d, r) ∧ Complete fnmatch H (w.entries d)) ∨
    ∃ r d, w.gap = some r ∧ w.staging = some d ∧ (r, d) ∈ w.holding ∧ r ∉ w.cut

end

/-- A thread that has nothing aside is left so. -/
def Keeps (i : Tid) (v w : Node β) : Prop :=
  ∀ r, i = .run r → v.gap ≠ some r → w.gap ≠ some r

section
variable {fnmatch : String → String → Bool} {H : Hashes β} {runs : RunId → Option Run}
  {r : RunId} {v w : Node β}

/-- The setting of thread `i`. -/
abbrev shared (fnmatch : String → String → Bool) (H : Hashes β) (runs : RunId → Option Run) :
    Tid → Setting Call.Ret (Node β) :=
  Threads.sharing (Call.exec fnmatch H) Exclusive (Inv fnmatch H runs) Keeps

/-- A step keeps the invariant, and puts nothing aside for another run. -/
structure Leaves (fnmatch : String → String → Bool) (H : Hashes β) (runs : RunId → Option Run)
    (r : RunId) (v w : Node β) : Prop where
  inv : Inv fnmatch H runs w
  gap : ∀ j, j ≠ r → v.gap ≠ some j → w.gap ≠ some j

theorem Leaves.keeps (h : Leaves fnmatch H runs r v w) (j : Tid) (hj : j ≠ .run r) :
    Keeps j v w := by
  rintro q rfl
  exact h.gap q fun heq ↦ hj (by rw [heq])

/-! ## The steps -/

theorem leaves_same (hv : Inv fnmatch H runs v) : Leaves fnmatch H runs r v v :=
  ⟨hv, fun _ _ h ↦ h⟩

theorem mem_others {os : List (RunId × DirId)} {o : RunId × DirId} :
    o ∈ os.filter (fun h ↦ h.1 ≠ r) ↔ o ∈ os ∧ o.1 ≠ r := by
  rw [List.mem_filter, decide_eq_true_iff]

theorem stop_gap (j : RunId) : (v.stop r).gap = some j ↔ v.gap = some j ∧ j ≠ r := by
  show (if v.gap = some r then none else v.gap) = some j ↔ _
  split_ifs with h
  · rw [h]
    exact ⟨nofun, fun ⟨heq, hne⟩ ↦ absurd (Option.some.inj heq).symm hne⟩
  · exact ⟨fun heq ↦ ⟨heq, fun hj ↦ h (hj ▸ heq)⟩, fun heq ↦ heq.1⟩

/-- A run that has nothing aside may stop. -/
theorem leaves_stop (hv : Inv fnmatch H runs v) (hgap : v.held = true → v.gap ≠ some r) :
    Leaves fnmatch H runs r v (v.stop r) := by
  refine ⟨⟨?_, hv.published, hv.untouched, hv.complete, hv.staged, hv.placed, ?_, ?_⟩, ?_⟩
  · exact fun q d h ↦ hv.certified q d (mem_others.mp h).1
  · exact fun q h ↦ hv.aside q ((stop_gap q).mp h).1
  · intro hheld
    refine (hv.held hheld).imp_right fun ⟨q, d, hq, hd, hhold, hcut⟩ ↦ ?_
    have hne : q ≠ r := fun heq ↦ hgap hheld (heq ▸ hq)
    exact ⟨q, d, (stop_gap q).mpr ⟨hq, hne⟩, hd, mem_others.mpr ⟨hhold, hne⟩, hcut⟩
  · exact fun j _ h heq ↦ h ((stop_gap j).mp heq).1

/-- What a verified directory holds stays complete when its marker is written. -/
theorem complete_marker {repo : Repo β} (marker : Option Marker) (h : Complete fnmatch H repo) :
    Complete fnmatch H { repo with marker } := h

theorem leaves_openStaging (hv : Inv fnmatch H runs v) (repo : Repo β) :
    Leaves fnmatch H runs r v (v.openStaging repo).2 := by
  unfold Node.openStaging
  rcases hstaging : v.staging with _ | d
  swap
  · exact leaves_same hv
  have hentries : ∀ d, d < v.next → Function.update v.entries v.next repo d = v.entries d :=
    fun d hd ↦ Function.update_of_ne (Nat.ne_of_lt hd) _ _
  refine ⟨⟨hv.certified, hv.published, hv.untouched, ?_, ?_, ?_, hv.aside, ?_⟩, fun _ _ h ↦ h⟩
  · intro q commit d h
    obtain ⟨hd, hcomplete⟩ := hv.complete q commit d h
    refine ⟨Nat.lt_succ_of_lt hd, ?_⟩
    show Complete fnmatch H (Function.update v.entries v.next repo d)
    rwa [hentries d hd]
  · intro d hd
    obtain rfl := Option.some.inj hd
    exact Nat.lt_succ_self _
  · exact fun d q h ↦ Nat.lt_succ_of_lt (hv.placed d q h)
  · intro hheld
    rcases hv.held hheld with ⟨d, q, hpub, hcomplete⟩ | ⟨q, d, -, hd, -⟩
    · refine .inl ⟨d, q, hpub, ?_⟩
      show Complete fnmatch H (Function.update v.entries v.next repo d)
      rwa [hentries d (hv.placed d q hpub)]
    · rw [hstaging] at hd
      cases hd

theorem leaves_write (hv : Inv fnmatch H runs v) {d : DirId} (repo : Repo β)
    (hhold : ∀ h ∈ v.holding, h.2 ≠ d) (hpub : ∀ p ∈ v.published, p.1 ≠ d) :
    Leaves fnmatch H runs r v (v.write d repo) := by
  have hpub' : ∀ d' q, v.published = some (d', q) → d' ≠ d := fun d' q h ↦ hpub (d', q) h
  have hentries : ∀ d', d' ≠ d → Function.update v.entries d repo d' = v.entries d' :=
    fun d' hd' ↦ Function.update_of_ne hd' _ _
  refine ⟨⟨?_, ?_, ?_, ?_, hv.staged, hv.placed, hv.aside, ?_⟩, fun _ _ h ↦ h⟩
  · exact fun q d' h ↦ ⟨(hhold (q, d') h).symm, hv.certified q d' h⟩
  · exact fun d' q h ↦ ⟨(hpub' d' _ h).symm, hv.published d' q h⟩
  · intro d' h hmem
    rcases List.mem_cons.mp hmem with heq | hmem
    · exact hpub' d' _ h (Event.wrote.inj heq)
    · exact hv.untouched d' h hmem
  · rintro q commit d' ⟨hne, h⟩
    obtain ⟨hd', hcomplete⟩ := hv.complete q commit d' h
    refine ⟨hd', ?_⟩
    show Complete fnmatch H (Function.update v.entries d repo d')
    rwa [hentries d' (Ne.symm hne)]
  · intro hheld
    refine (hv.held hheld).imp_left fun ⟨d', q, h, hcomplete⟩ ↦ ⟨d', q, h, ?_⟩
    show Complete fnmatch H (Function.update v.entries d repo d')
    rwa [hentries d' (hpub' d' q h)]

/-- A verification that succeeded on the staging directory. -/
theorem leaves_pass (hv : Inv fnmatch H runs v) {d : DirId} {commit : String}
    {deep requireManifest : Bool} {report : Report} (marker : Marker) (hd : v.staging = some d)
    (hreport : verifySnapshot fnmatch H (some (v.entries d)) (some commit) deep requireManifest =
      .ok report) (hstate : report.state = .verified) :
    Leaves fnmatch H runs r v (v.pass r commit marker d) := by
  have hthis : Complete fnmatch H (v.entries d) :=
    ⟨(v.entries d).marker, commit, deep, requireManifest, report, hreport, hstate⟩
  have hentries : ∀ d', Complete fnmatch H (v.entries d') →
      Complete fnmatch H ((v.pass r commit marker d).entries d') := by
    intro d' h
    show Complete fnmatch H (Function.update v.entries d _ d')
    rw [Function.update_apply]
    split_ifs with heq
    · exact complete_marker _ hthis
    · exact h
  refine ⟨⟨fun q d' h ↦ .inr (hv.certified q d' h), fun d' q h ↦ .inr (hv.published d' q h), ?_, ?_,
    hv.staged, hv.placed, hv.aside, ?_⟩, fun _ _ h ↦ h⟩
  · intro d' h hmem
    rcases List.mem_cons.mp hmem with heq | hmem
    · cases heq
    · exact hv.untouched d' h hmem
  · rintro q commit' d' (⟨-, -, rfl⟩ | h)
    · exact ⟨hv.staged d hd, hentries d hthis⟩
    · exact ⟨(hv.complete q commit' d' h).1, hentries d' (hv.complete q commit' d' h).2⟩
  · exact fun hheld ↦ (hv.held hheld).imp_left fun ⟨d', q, h, hcomplete⟩ ↦
      ⟨d', q, h, hentries d' hcomplete⟩

/-- The run that is told of it is to publish the directory. -/
theorem inv_hold (hv : Inv fnmatch H runs v) {d : DirId}
    (h : Certified v.log r (commitOf runs r) d) : Inv fnmatch H runs (v.hold r d) where
  certified q d' hmem := by
    rcases List.mem_cons.mp hmem with heq | hmem
    · obtain ⟨rfl, rfl⟩ := Prod.mk.inj heq
      exact h
    · exact hv.certified q d' hmem
  published := hv.published
  untouched := hv.untouched
  complete := hv.complete
  staged := hv.staged
  placed := hv.placed
  aside := hv.aside
  held hheld := (hv.held hheld).imp_right fun ⟨q, d', hq, hd', hmem, hcut⟩ ↦
    ⟨q, d', hq, hd', List.mem_cons_of_mem _ hmem, hcut⟩

theorem leaves_runVerifier (hv : Inv fnmatch H runs v) {commit : String}
    (hcommit : commit = commitOf runs r) (requireManifest deep : Bool) (marker : String → Marker)
    (a : Answer β) :
    Leaves fnmatch H runs r v
      (runVerifier fnmatch H r commit requireManifest deep marker a v).2 := by
  unfold runVerifier
  rcases a.raises with _ | failure
  swap
  · exact leaves_same hv
  rcases hreport : verifySnapshot fnmatch H v.stagingRepo (some commit) deep requireManifest
    with _ | report
  · exact leaves_same hv
  rcases hd : v.staging with _ | d
  · exact leaves_same hv
  have hrepo : v.stagingRepo = some (v.entries d) := by
    unfold Node.stagingRepo
    rw [hd]
    rfl
  rw [hrepo] at hreport
  dsimp only
  split_ifs with hstate hlost
  · exact leaves_pass hv _ hd hreport hstate
  · have hpass := leaves_pass (r := r) hv (marker a.text) hd hreport hstate
    exact ⟨inv_hold hpass.inv (.inl ⟨rfl, hcommit, rfl⟩), hpass.gap⟩
  · exact leaves_same hv
  · exact leaves_same hv

/-- The published entry is moved aside by a run that has one to put in its place. -/
theorem leaves_moveAside (hv : Inv fnmatch H runs v) (hcut : r ∉ v.cut)
    (hready : v.held = true → v.published.isSome = true → v.ready r = true)
    (h : v.moveAside r = some w) : Leaves fnmatch H runs r v w := by
  unfold Node.moveAside at h
  rcases hpub : v.published with _ | ⟨d, by'⟩
  · rw [hpub] at h
    cases h
  rw [hpub] at h hready
  have hheld : v.held = true → ∃ d, v.staging = some d ∧ (r, d) ∈ v.holding := by
    intro hheld
    obtain ⟨d, hd, hmem⟩ := (Option.any_eq_true _ _).mp (hready hheld rfl)
    exact ⟨d, hd, of_decide_eq_true hmem⟩
  have hleaves : ∀ inner replaced, Leaves fnmatch H runs r v
      { v with published := none, inner, replaced, gap := some r } := by
    intro inner replaced
    refine ⟨⟨hv.certified, nofun, nofun, hv.complete, hv.staged, nofun, fun _ _ ↦ rfl, fun h ↦ ?_⟩,
      fun j hj _ heq ↦ hj (Option.some.inj heq).symm⟩
    obtain ⟨d, hd, hmem⟩ := hheld h
    exact .inr ⟨r, d, rfl, hd, hmem, hcut⟩
  rcases hreplaced : v.replaced with _ | e
  · rw [hreplaced] at h
    obtain rfl := Option.some.inj h
    exact hleaves v.inner (some d)
  · rw [hreplaced] at h
    dsimp only at h
    split_ifs at h
    obtain rfl := Option.some.inj h
    have := hleaves (Function.update v.inner e (some d)) v.replaced
    rwa [hreplaced] at this

/-- The staging directory is moved to the published path, or into what is there. -/
theorem leaves_moveInto (hv : Inv fnmatch H runs v)
    (hready : v.published = none → v.staging.isSome = true → v.ready r = true)
    (h : v.moveInto r = some w) : Leaves fnmatch H runs r v w ∧ w.gap ≠ some r := by
  unfold Node.moveInto at h
  rcases hstaging : v.staging with _ | d
  · rw [hstaging] at h
    cases h
  rw [hstaging] at h hready
  rcases hpub : v.published with _ | ⟨e, by'⟩
  · rw [hpub] at h
    obtain rfl := Option.some.inj h
    obtain ⟨d', hd', hmem⟩ := (Option.any_eq_true _ _).mp (hready hpub rfl)
    rw [hstaging] at hd'
    obtain rfl := Option.some.inj hd'
    have hcert := hv.certified r d (of_decide_eq_true hmem)
    refine ⟨⟨⟨?_, ?_, ?_, hv.complete, nofun, ?_, nofun, fun _ ↦ .inl ⟨d, some r, rfl, ?_⟩⟩, ?_⟩, nofun⟩
    · exact fun q d' h ↦ hv.certified q d' (mem_others.mp h).1
    · intro d' q h
      obtain ⟨rfl, hq⟩ := Prod.mk.inj (Option.some.inj h)
      exact Option.some.inj hq ▸ hcert
    · intro d' h
      cases (Prod.mk.inj (Option.some.inj h)).2
    · intro d' q h
      exact (Prod.mk.inj (Option.some.inj h)).1 ▸ hv.staged d hstaging
    · exact (hv.complete _ _ _ hcert).2
    · exact fun _ _ _ ↦ nofun
  · rw [hpub] at h
    dsimp only at h
    split_ifs at h with hinner
    obtain rfl := Option.some.inj h
    have hgap : ∀ q, v.gap ≠ some q := fun q hq ↦ by
      rw [hv.aside q hq] at hpub
      cases hpub
    refine ⟨⟨⟨?_, hv.published, hv.untouched, hv.complete, nofun, hv.placed, ?_, fun hheld ↦ ?_⟩, ?_⟩, ?_⟩
    · exact fun q d' h ↦ hv.certified q d' (mem_others.mp h).1
    · exact fun q hq ↦ absurd ((stop_gap (v := v) (r := r) q).mp hq).1 (hgap q)
    · rcases hv.held hheld with hheld | ⟨q, -, hq, -⟩
      · exact .inl hheld
      · exact absurd hq (hgap q)
    · exact fun q _ _ hq ↦ hgap q ((stop_gap (v := v) (r := r) q).mp hq).1
    · exact fun hq ↦ hgap r ((stop_gap (v := v) (r := r) r).mp hq).1

/-! ## The calls -/

/-- A call of a run that verifies for a commit, apart from the two moves. -/
def Call.Plain (commit : String) : Call → Prop
  | .verifyStaging commit' _ _ _ => commit' = commit
  | .moveAside | .moveInto | .cut _ => False
  | _ => True

theorem shell_step {α : Type} {a : Answer β} {step : Option (α × Node β)} {x : Except Failure α}
    (h : shell r a v step = (x, w)) :
    ((r ∈ v.cut ∨ step = none) ∧ w = v.stop r ∧ ∃ failure, x = .error failure) ∨
      r ∉ v.cut ∧ ∃ y, step = some (y, w) ∧ x = .ok y := by
  unfold shell at h
  split_ifs at h with hcut
  · obtain ⟨rfl, rfl⟩ := Prod.mk.inj h
    exact .inl ⟨.inl hcut, rfl, a.failure, rfl⟩
  · rcases step with _ | ⟨y, w'⟩
    · obtain ⟨rfl, rfl⟩ := Prod.mk.inj h
      exact .inl ⟨.inr rfl, rfl, a.failure, rfl⟩
    · obtain ⟨rfl, rfl⟩ := Prod.mk.inj h
      exact .inr ⟨hcut, y, rfl, rfl⟩

/-- A run that was cut off has nothing aside, when a copy is at stake. -/
theorem gap_of_cut (hv : Inv fnmatch H runs v) (hcut : r ∈ v.cut) (hheld : v.held = true) :
    v.gap ≠ some r := by
  intro hgap
  rcases hv.held hheld with ⟨d, q, hpub, -⟩ | ⟨q, d, hq, -, -, hnot⟩
  · rw [hv.aside r hgap] at hpub
    cases hpub
  · rw [hgap] at hq
    exact hnot (Option.some.inj hq ▸ hcut)

theorem leaves_of_plain (hv : Inv fnmatch H runs v) {c : Call} {x : c.Ret}
    (hc : c.Plain (commitOf runs r))
    (h : Threads.performs (Call.exec fnmatch H) Exclusive (.run r) v c x w) :
    Leaves fnmatch H runs r v w ∧ (v.gap ≠ some r → w.gap ≠ some r) := by
  obtain ⟨hg, a, h⟩ := h
  cases c with
  | moveAside | moveInto | cut => exact hc.elim
  | mkdir | copyHelper | verifyPublished =>
    obtain ⟨-, rfl⟩ := Prod.mk.inj (Option.some.inj h)
    exact ⟨leaves_same hv, id⟩
  | openStaging =>
    rcases hraises : a.raises with _ | failure <;> simp only [Call.exec, Call.execRun, hraises] at h <;>
      obtain ⟨-, rfl⟩ := Prod.mk.inj (Option.some.inj h)
    · refine ⟨leaves_openStaging hv a.repo, ?_⟩
      unfold Node.openStaging
      split <;> exact id
    · exact ⟨leaves_same hv, id⟩
  | write d =>
    rcases hraises : a.raises with _ | failure <;> simp only [Call.exec, Call.execRun, hraises] at h <;>
      obtain ⟨-, rfl⟩ := Prod.mk.inj (Option.some.inj h)
    · exact ⟨leaves_write hv a.repo hg.1 hg.2, id⟩
    · exact ⟨leaves_same hv, id⟩
  | verifyStaging commit requireManifest deep marker =>
    obtain rfl := congrArg Prod.snd (Option.some.inj h)
    refine ⟨leaves_runVerifier hv hc requireManifest deep marker a, ?_⟩
    unfold runVerifier
    repeat' split
    all_goals exact id
  | removeReplaced =>
    rcases shell_step (Option.some.inj h) with ⟨hstop, rfl, -⟩ | ⟨-, y, hy, -⟩
    · have hcut := hstop.resolve_right fun h ↦ by cases h
      exact ⟨leaves_stop hv (gap_of_cut hv hcut), fun hgap heq ↦ hgap ((stop_gap r).mp heq).1⟩
    · obtain rfl := congrArg Prod.snd (Option.some.inj hy)
      exact ⟨⟨⟨hv.certified, hv.published, hv.untouched, hv.complete, hv.staged, hv.placed,
        hv.aside, hv.held⟩, fun _ _ h ↦ h⟩, id⟩
  | publishedExists =>
    rcases shell_step (Option.some.inj h) with ⟨hstop, rfl, -⟩ | ⟨-, y, hy, -⟩
    · have hcut := hstop.resolve_right fun h ↦ by cases h
      exact ⟨leaves_stop hv (gap_of_cut hv hcut), fun hgap heq ↦ hgap ((stop_gap r).mp heq).1⟩
    · obtain rfl := congrArg Prod.snd (Option.some.inj hy)
      exact ⟨leaves_same hv, id⟩

/-- The move aside: when it fails, the run has nothing aside. -/
theorem leaves_of_moveAside (hv : Inv fnmatch H runs v) (hgap : v.gap ≠ some r)
    {x : Except Failure Unit}
    (h : Threads.performs (Call.exec fnmatch H) Exclusive (.run r) v .moveAside x w) :
    Leaves fnmatch H runs r v w ∧ (∀ failure, x = .error failure → w.gap ≠ some r) := by
  obtain ⟨hg, a, h⟩ := h
  rcases shell_step (Option.some.inj h) with ⟨-, rfl, -⟩ | ⟨hcut, y, hy, rfl⟩
  · exact ⟨leaves_stop hv fun _ ↦ hgap, fun _ _ heq ↦ hgap ((stop_gap r).mp heq).1⟩
  · obtain ⟨w', hw', heq⟩ := Option.map_eq_some_iff.mp hy
    obtain rfl := congrArg Prod.snd heq
    exact ⟨leaves_moveAside hv hcut hg hw', nofun⟩

/-- The move into place: when it fails, the run has nothing aside either. -/
theorem leaves_of_moveInto (hv : Inv fnmatch H runs v) {x : Except Failure Unit}
    (h : Threads.performs (Call.exec fnmatch H) Exclusive (.run r) v .moveInto x w) :
    Leaves fnmatch H runs r v w ∧ w.gap ≠ some r := by
  obtain ⟨hg, a, h⟩ := h
  rcases shell_step (Option.some.inj h) with ⟨hstop, rfl, -⟩ | ⟨-, y, hy, -⟩
  · refine ⟨leaves_stop hv fun hheld hgap ↦ ?_, fun heq ↦ ((stop_gap r).mp heq).2 rfl⟩
    rcases hstop with hcut | hnone
    · exact gap_of_cut hv hcut hheld hgap
    · -- with the old entry aside, nothing is in the way of the new one
      rcases hv.held hheld with ⟨d, q, hpub, -⟩ | ⟨q, d, -, hd, -⟩
      · rw [hv.aside r hgap] at hpub
        cases hpub
      · rw [Option.map_eq_none_iff, Node.moveInto, hd, hv.aside r hgap] at hnone
        cases hnone
  · obtain ⟨w', hw', heq⟩ := Option.map_eq_some_iff.mp hy
    obtain rfl := congrArg Prod.snd heq
    exact leaves_moveInto hv hg hw'

end

/-! ## The programs -/

section
variable {α : Type} {fnmatch : String → String → Bool} {H : Hashes β} {runs : RunId → Option Run}
  {r : RunId} {w : Node β}

/-- What holds of a run with nothing aside. -/
abbrev Free (fnmatch : String → String → Bool) (H : Hashes β) (runs : RunId → Option Run) (r : RunId)
    (w : Node β) : Prop := Inv fnmatch H runs w ∧ w.gap ≠ some r

/-- Programs of a run that leave nothing aside. -/
abbrev SafeFree (fnmatch : String → String → Bool) (H : Hashes β) (runs : RunId → Option Run)
    (r : RunId) (p : Op α) (w : Node β) : Prop :=
  p.Safe (shared fnmatch H runs (.run r)) (fun _ ↦ Free fnmatch H runs r)
    (fun _ ↦ Free fnmatch H runs r) w

theorem safe_of_plain {p : Op α} (h : p.Uses (Call.Plain (commitOf runs r)))
    (hw : Free fnmatch H runs r w) : SafeFree fnmatch H runs r p w := by
  refine h.safe (P := Free fnmatch H runs r) ?_ ?_ hw
  · rintro u v ⟨hu, hgap⟩ hrely
    obtain ⟨hv, hkeep⟩ := hrely hu
    exact ⟨hv, hkeep r rfl hgap⟩
  · rintro u c x v hc ⟨hu, hgap⟩ hr
    obtain ⟨hleaves, hkeep⟩ := leaves_of_plain hu hc hr
    exact ⟨fun _ ↦ ⟨hleaves.inv, fun j hj ↦ hleaves.keeps j hj⟩, hleaves.inv, hkeep hgap⟩

theorem SafeFree.bind {γ : Type} {p : Op γ} {f : γ → Op α} (hp : SafeFree fnmatch H runs r p w)
    (hf : ∀ x v, Free fnmatch H runs r v → SafeFree fnmatch H runs r (f x) v) :
    SafeFree fnmatch H runs r (p >>= f) w := by
  rw [SafeFree, Prog.safe_bind]
  exact hp.mono (fun x v hv ↦ hf x v hv) fun _ _ h ↦ h

theorem SafeFree.attempt {p : Op α} (hp : SafeFree fnmatch H runs r p w) :
    SafeFree fnmatch H runs r p.attempt w := Prog.safe_attempt.mpr hp

/-- A call that may fail, of a class. -/
theorem attemptCall_uses {γ : Type} {A : Call → Prop} {p : Op (Except Failure γ)} (h : p.Uses A) :
    (attemptCall p).Uses A := h.bind fun outcome ↦ by rcases outcome with _ | _ <;> trivial

theorem plain_call {commit : String} {c : Call} (h : c.Plain commit) :
    (invoke c).Uses (Call.Plain commit) := Prog.uses_call.mpr h

/-- The move into place, with or without an entry aside, and what comes after it. -/
theorem moveInto_safe (hw : Inv fnmatch H runs w) :
    SafeFree fnmatch H runs r (attemptCall (invoke .moveInto) >>= fun _ ↦
      attemptCall (invoke .removeReplaced)) w := by
  refine Threads.safe_sharing_op (P := fun _ ↦ True) (fun _ _ _ h ↦ h) ⟨hw, trivial⟩ ?_
  intro v outcome v' hv _ hr
  obtain ⟨hleaves, hgap⟩ := leaves_of_moveInto hv hr
  refine ⟨⟨hleaves.inv, fun j hj ↦ hleaves.keeps j hj⟩, ?_⟩
  rcases outcome with failure | _
  · exact ⟨hleaves.inv, hgap⟩
  · exact safe_of_plain (attemptCall_uses (plain_call trivial)) ⟨hleaves.inv, hgap⟩

theorem publishCommand_safe (hw : Free fnmatch H runs r w) :
    SafeFree fnmatch H runs r publishCommand w := by
  refine (safe_of_plain (p := attemptCall (invoke .removeReplaced))
    (attemptCall_uses (plain_call trivial)) hw).bind fun _ v hv ↦ ?_
  refine (safe_of_plain (p := attemptCall (invoke .publishedExists))
    (attemptCall_uses (plain_call trivial)) hv).bind fun there u hu ↦ ?_
  rcases there with _ | _
  · exact moveInto_safe hu.1
  · refine Threads.safe_sharing_op (P := fun w ↦ w.gap ≠ some r) (fun _ _ hkeep h ↦ hkeep r rfl h)
      hu ?_
    intro v outcome v' hv hgap hr
    obtain ⟨hleaves, hfail⟩ := leaves_of_moveAside hv hgap hr
    refine ⟨⟨hleaves.inv, fun j hj ↦ hleaves.keeps j hj⟩, ?_⟩
    rcases outcome with failure | _
    · exact ⟨hleaves.inv, hfail failure rfl⟩
    · exact moveInto_safe hleaves.inv

theorem publish_safe (result : NodeResult) (report : Report) (hw : Free fnmatch H runs r w) :
    SafeFree fnmatch H runs r (publish result report) w := by
  refine (publishCommand_safe hw).attempt.bind fun outcome v hv ↦ ?_
  rcases outcome with _ | _ <;> exact hv

theorem transfer_uses (commit : String) (d : DirId) (writes : Nat) :
    (transfer d writes).Uses (Call.Plain commit) := by
  induction writes with
  | zero => trivial
  | succ writes ih =>
    exact .bind (attemptCall_uses (p := invoke (.write d)) (plain_call trivial)) fun _ ↦ ih

theorem copyDir_uses (commit : String) (writes : Nat) :
    (copyDir writes).Uses (Call.Plain commit) :=
  .bind (attemptCall_uses (p := invoke .openStaging) (plain_call trivial)) fun d ↦
    transfer_uses commit d writes

theorem transferAndPublish_safe (node : String) {run : Run} (result : NodeResult)
    (hrun : runs r = some run) (hw : Free fnmatch H runs r w) :
    SafeFree fnmatch H runs r (transferAndPublish node run result) w := by
  refine (safe_of_plain (copyDir_uses _ run.writes) hw).attempt.bind fun outcome v hv ↦ ?_
  rcases outcome with failure | _
  · exact hv
  have hcommit : run.commit = commitOf runs r := by
    rw [commitOf, hrun]
    rfl
  refine (safe_of_plain (p := invoke (.verifyStaging run.commit run.requireManifest run.deep
    run.marker)) (plain_call hcommit) hv).bind fun outcome u hu ↦ ?_
  rcases outcome with failure | _ | report
  · exact hu
  · exact hu
  · by_cases hstate : report.state ≠ .verified
    · refine (congrArg (fun p ↦ SafeFree fnmatch H runs r p u) (if_pos hstate)).mpr ?_
      exact hu
    · refine (congrArg (fun p ↦ SafeFree fnmatch H runs r p u) (if_neg hstate)).mpr ?_
      exact publish_safe _ report hu

theorem replicateOrSkip_safe (node : String) {run : Run} (result : NodeResult)
    (hrun : runs r = some run) (hw : Free fnmatch H runs r w) :
    SafeFree fnmatch H runs r (replicateOrSkip node run result) w := by
  rw [replicateOrSkip]
  split_ifs
  · exact transferAndPublish_safe node result hrun hw
  · refine (safe_of_plain (p := invoke (.verifyPublished run.commit run.requireManifest))
      (plain_call trivial) hw).bind fun outcome v hv ↦ ?_
    rcases outcome with failure | _ | already
    · exact hv
    · exact transferAndPublish_safe node result hrun hv
    · by_cases hstate : already.state = .verified
      · refine (congrArg (fun p ↦ SafeFree fnmatch H runs r p v) (if_pos hstate)).mpr ?_
        exact hv
      · refine (congrArg (fun p ↦ SafeFree fnmatch H runs r p v) (if_neg hstate)).mpr ?_
        exact transferAndPublish_safe node result hrun hv

theorem replicateToNode_safe (modelId node : String) {run : Run} (hrun : runs r = some run)
    (hw : Free fnmatch H runs r w) :
    SafeFree fnmatch H runs r (replicateToNode modelId node run) w := by
  rw [replicateToNode]
  split_ifs
  · exact hw
  · refine (safe_of_plain (p := invoke .mkdir) (plain_call trivial) hw).bind fun outcome v hv ↦ ?_
    rcases outcome with failure | _
    · exact hv
    refine (safe_of_plain (p := invoke .copyHelper) (plain_call trivial) hv).bind
      fun outcome u hu ↦ ?_
    rcases outcome with failure | _
    · exact hu
    · exact replicateOrSkip_safe node _ hrun hu

/-- Cutting a command off leaves what is aside to be put in place. -/
theorem inv_cut (hw : Inv fnmatch H runs w) (hg : w.held = true → w.gap ≠ some r) :
    Inv fnmatch H runs { w with cut := r :: w.cut } where
  certified := hw.certified
  published := hw.published
  untouched := hw.untouched
  complete := hw.complete
  staged := hw.staged
  placed := hw.placed
  aside := hw.aside
  held hheld := (hw.held hheld).imp_right fun ⟨q, d, hq, hd, hmem, hcut⟩ ↦ by
    refine ⟨q, d, hq, hd, hmem, fun h ↦ ?_⟩
    rcases List.mem_cons.mp h with rfl | h
    · exact hg hheld hq
    · exact hcut h

theorem program_safe (modelId node : String) (cuts : Nat → RunId) (i : Tid)
    (hw : Inv fnmatch H runs w) (hgap : w.gap = none) :
    (program modelId node runs cuts i).Safe (shared fnmatch H runs i)
      (fun _ w ↦ Inv fnmatch H runs w ∧ ∀ r, i = .run r → w.gap ≠ some r)
      (fun _ w ↦ Inv fnmatch H runs w ∧ ∀ r, i = .run r → w.gap ≠ some r) w := by
  rcases i with r | n
  · have hfree : Free fnmatch H runs r w := ⟨hw, by rw [hgap]; exact nofun⟩
    have hpost : ∀ {v : Node β}, Free fnmatch H runs r v →
        Inv fnmatch H runs v ∧ ∀ q, Tid.run r = .run q → v.gap ≠ some q := fun h ↦
      ⟨h.1, fun q hq ↦ Tid.run.inj hq ▸ h.2⟩
    rcases hrun : runs r with _ | run
    · rw [program, hrun]
      exact hpost hfree
    · rw [program, hrun]
      have hsafe := (replicateToNode_safe modelId node hrun hfree).bind
        (f := fun _ ↦ pure PUnit.unit) fun _ _ h ↦ h
      exact hsafe.mono (fun _ _ ↦ hpost) fun _ _ ↦ hpost
  · refine Threads.safe_sharing_op (P := fun _ ↦ True) (fun _ _ _ h ↦ h) ⟨hw, trivial⟩ ?_
    rintro v x v' hv - ⟨hg, a, hr⟩
    obtain ⟨-, rfl⟩ := Prod.mk.inj (Option.some.inj hr)
    have hinv := inv_cut hv hg
    exact ⟨⟨hinv, fun _ _ _ _ h ↦ h⟩, hinv, nofun⟩

end

/-! ## Every run -/

section
variable {fnmatch : String → String → Bool} {H : Hashes β} {runs : RunId → Option Run}

theorem compatible_shared : Threads.Compatible (shared fnmatch H runs) :=
  Threads.compatible_sharing (fun _ _ _ _ h ↦ h) fun _ _ _ _ huv hvw r hr h ↦
    hvw r hr (huv r hr h)

theorem inv_initial {w : Node β} (h : Initial fnmatch H w) : Inv fnmatch H runs w where
  certified r d hmem := by
    rw [h.holding] at hmem
    cases hmem
  published d r hpub := by cases (h.fresh.2 _ hpub).2
  untouched d _ hmem := by
    rw [h.log] at hmem
    cases hmem
  complete r commit d hcert := by
    rw [h.log] at hcert
    exact hcert.elim
  staged := h.fresh.1
  placed d r hpub := (h.fresh.2 _ hpub).1
  aside r hgap := by
    rw [h.gap] at hgap
    cases hgap
  held hheld := by
    obtain ⟨repo, hrepo, hcomplete⟩ := h.held hheld
    obtain ⟨⟨d, r⟩, hpub, rfl⟩ := Option.map_eq_some_iff.mp hrepo
    exact .inl ⟨d, r, hpub, hcomplete⟩

/-- **Replication keeps the copy a node has.** In every run in which each run has the staging
directory to itself from its verification to its publish, and no publish is cut off between its two
moves, what is published has been verified by the run that published it with nothing written into it
since, and a node that held a complete entry holds one when all runs have ended. -/
theorem replica_kept {modelId node : String} {cuts : Nat → RunId}
    {s : Threads Tid Call.Ret Failure Unit (Node β)}
    (h : (system fnmatch H modelId node runs cuts).Reachable (Threads.stepGuard Exclusive) s) :
    Kept fnmatch H runs s := by
  obtain ⟨s₀, ⟨hpool, hinit⟩, hsteps⟩ := h
  have hinv : Inv fnmatch H runs s₀.world := inv_initial hinit
  obtain ⟨hpoised, hinv⟩ := Threads.Poised.sharing_steps compatible_shared hsteps hinv fun i ↦ by
    rw [hpool]
    exact program_safe modelId node cuts i hinv hinit.gap
  refine ⟨fun d r hpub run hrun ↦ ?_, hinv.untouched, fun hheld hend ↦ ?_⟩
  · have hcert := hinv.published d r hpub
    rwa [commitOf, hrun] at hcert
  · rcases hinv.held hheld with ⟨d, r, hpub, hcomplete⟩ | ⟨r, d, hgap, -⟩
    · refine ⟨s.world.entries d, ?_, hcomplete⟩
      unfold Node.publishedRepo
      rw [hpub]
      rfl
    · -- the run that has the entry aside would have ended with it aside
      obtain ⟨v, hrely, hsafe⟩ := hpoised (.run r)
      rcases hp : s.pool (.run r) with _ | _ | ⟨c, next⟩
      · rw [hp] at hsafe
        exact absurd hgap ((hrely hsafe.1).2 r rfl (hsafe.2 r rfl))
      · rw [hp] at hsafe
        exact absurd hgap ((hrely hsafe.1).2 r rfl (hsafe.2 r rfl))
      · exact absurd hp (hend r c next)

end

/-! ## Two runs -/

private def noHashes : Hashes Unit where
  size _ := 0
  sha256 _ := "e3b0"
  gitSha1 _ := "e69d"
  sha256_lower _ := by decide +kernel
  sha256_ne_empty _ := by decide +kernel

private theorem bareRepo_wf : IsName "config.json" ∧
    "config.json" ∉ HubCache.Tree.names (.nil : HubCache.Tree Unit) ∧
      HubCache.Tree.Wf (.nil : HubCache.Tree Unit) :=
  ⟨by decide +kernel, List.not_mem_nil, trivial⟩

private theorem bareRepo_named : ∀ name ∈ ["c0ffee"], IsName name := by
  intro name hname
  obtain rfl : name = "c0ffee" := List.mem_singleton.mp hname
  decide +kernel

/-- An entry with one file, and no manifest. -/
private def bareRepo : Repo Unit where
  refs := AList.singleton "c0ffee" "c0ffee"
  snapshots := AList.singleton "c0ffee"
    { tree := .file "config.json" true () .nil
      wf := bareRepo_wf
      elsewhere := fun _ ↦ none }
  named := bareRepo_named
  blobs := []
  trees _ := .absent
  marker := none

private def bareRun : Run where
  source := { state := .verified, reason := "", revision := some "c0ffee", evidence := .layout }
  force := true
  writes := 1

private def oneRun : RunId → Option Run
  | 0 => some bareRun
  | _ => none

private def holder : Node Unit where
  published := some (0, none)
  entries _ := bareRepo
  next := 1
  held := true

private theorem holder_initial : Initial (fun _ _ ↦ false) noHashes holder where
  held _ := by
    obtain ⟨report, hreport, hstate⟩ : ∃ report, verifySnapshot (fun _ _ ↦ false) noHashes
        (some bareRepo) (some "c0ffee") false false = .ok report ∧ report.state = .verified :=
      ⟨_, rfl, by decide +kernel⟩
    exact ⟨bareRepo, rfl, none, "c0ffee", false, false, report, hreport, hstate⟩
  fresh := ⟨nofun, fun p hp ↦ by
    obtain rfl := Option.some.inj hp
    exact ⟨Nat.zero_lt_one, rfl⟩⟩
  cut := rfl
  holding := rfl
  gap := rfl
  log := rfl

private def begun : Threads Tid Call.Ret Failure Unit (Node Unit) :=
  ⟨program "m" "n" oneRun fun _ ↦ 0, holder⟩

private def took (ts : List Tid) : List (Tid × Answer Unit) := ts.map fun t ↦ (t, { repo := bareRepo })

/-- A run that nothing disturbs publishes the directory it verified. -/
theorem replica_kept_when_alone : ∃ s, (system (fun _ _ ↦ false) noHashes "m" "n" oneRun
      fun _ ↦ 0).runUnder (Threads.stepGuard Exclusive) begun
      (took (List.replicate 10 (.run 0))) = some s ∧
    s.world.published = some (1, some 0) ∧ Kept (fun _ _ ↦ false) noHashes oneRun s := by
  obtain ⟨s, hs, hpub⟩ := (Option.any_eq_true _ _).mp (show ((system (fun _ _ ↦ false) noHashes "m"
      "n" oneRun fun _ ↦ 0).runUnder (Threads.stepGuard Exclusive) begun
      (took (List.replicate 10 (.run 0)))).any
        (fun s ↦ decide (s.world.published = some (1, some 0))) = true by decide +kernel)
  exact ⟨s, hs, of_decide_eq_true hpub,
    replica_kept ⟨_, ⟨rfl, holder_initial⟩, System.steps_of_runUnder hs⟩⟩

private def through : Op Unit → Bool
  | .ret _ | .raise _ => true
  | .op .. => false

/-- **A publish that is cut off costs the node its copy.** The old entry has been moved aside when
the command is cut off, and no later step puts anything in its place. -/
theorem copy_lost_when_cut : ¬∀ (runs : RunId → Option Run) (cuts : Nat → RunId) s,
    (system (fun _ _ ↦ false) noHashes "m" "n" runs cuts).Reachable Guard.free s →
      Kept (fun _ _ ↦ false) noHashes runs s := by
  intro h
  obtain ⟨s, hs, hlost⟩ := (Option.any_eq_true _ _).mp (show ((system (fun _ _ ↦ false) noHashes "m"
      "n" oneRun fun _ ↦ 0).run begun
      (took (List.replicate 8 (.run 0) ++ [.environment 0, .run 0]))).any
        (fun s ↦ s.world.held && s.world.published.isNone && through (s.pool (.run 0))) = true
    by decide +kernel)
  simp only [Bool.and_eq_true] at hlost
  obtain ⟨⟨hheld, hnone⟩, hthrough⟩ := hlost
  have hend : ∀ r c next, s.pool (.run r) ≠ .op c next := by
    intro r c next hop
    rcases r with _ | r
    · rw [hop] at hthrough
      cases hthrough
    · have hpool := Threads.pool_of_run (i := .run (r + 1)) (by simp [took]) hs
      rw [hop] at hpool
      cases hpool
  obtain ⟨repo, hrepo, -⟩ := (h oneRun (fun _ ↦ 0) s
    ⟨_, ⟨rfl, holder_initial⟩, System.steps_of_run hs⟩).survives hheld hend
  obtain ⟨p, hp, -⟩ := Option.map_eq_some_iff.mp hrepo
  rw [hp] at hnone
  cases hnone

end SparkPulse.Replication
