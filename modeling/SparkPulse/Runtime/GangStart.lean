import SparkPulse.Runtime.Alone

/-!
# The order of a gang start

A gang is started in two phases, every container created before any is launched, workers before the
head, and no container is created on the plan's nodes before each of an earlier generation there is
confirmed missing. The order is a condition on every event of the trace and the ones before it, so
it is kept by every call that starts nothing, and what has to be shown is what is in the trace when
a container is created and when one is launched.
-/

namespace SparkPulse.Runtime

open Program Prog Transition

/-! ## Order -/

/-- Every event of a trace is allowed after the ones before it. -/
def InOrder (allowed : Event → List Event → Prop) (trace : List Event) : Prop :=
  ∀ later e earlier, trace = later ++ e :: earlier → allowed e earlier

section
variable {allowed : Event → List Event → Prop} {trace : List Event}

theorem InOrder.nil : InOrder allowed [] := by
  intro later e earlier h
  simp at h

theorem InOrder.cons {e : Event} (he : allowed e trace) (h : InOrder allowed trace) :
    InOrder allowed (e :: trace) := by
  intro later e' earlier heq
  cases later with
  | nil =>
    obtain ⟨rfl, rfl⟩ := List.cons.inj heq
    exact he
  | cons e'' later => exact h later e' earlier (List.cons.inj heq).2

theorem InOrder.append {new : List Event} (hnew : ∀ e ∈ new, ∀ earlier, allowed e earlier)
    (h : InOrder allowed trace) : InOrder allowed (new ++ trace) := by
  induction new with
  | nil => exact h
  | cons e new ih =>
    exact (ih fun e' he' ↦ hnew e' (by simp [he'])).cons (hnew e (by simp) _)

end

/-! ## The order of a start -/

variable (env : Env) (plan : DeployPlan) (w₀ : World)

/-- A container that an earlier attempt of the deployment left on one of the plan's nodes. -/
def Leftover (c : Container) : Prop :=
  c ∈ w₀.containers ∧ (∃ r ∈ plan.rankPlans, c.machine = env.machine r.node) ∧
    c.labels.deployment = some plan.deploymentId ∧ c.labels.generation ≠ some plan.generation

/-- The node has answered that the container is not there: about itself, or by leaving it out of a
listing of the deployment's containers. -/
def ConfirmedMissing (trace : List Event) (c : Container) : Prop :=
  .gone c.machine c.name ∈ trace ∨
    ∃ names, .listed c.machine (some plan.deploymentId) names ∈ trace ∧ c.name ∉ names

/-- The container of a rank has come into being. -/
def Created (trace : List Event) (r : RankPlan) : Prop :=
  .created (env.machine r.node) r.container.name r.container.labels ∈ trace

/-- The launch script of a rank was exec'd. -/
def Launched (trace : List Event) (r : RankPlan) : Prop :=
  .launched (env.machine r.node) r.container.name ∈ trace

/-- What may happen when: a container is created once every leftover is confirmed missing, one is
launched once every rank is created, and the head's once every worker is launched. -/
def Permitted : Event → List Event → Prop
  | .created .., earlier => ∀ c, Leftover env plan w₀ c → ConfirmedMissing plan earlier c
  | .launched machine name, earlier =>
    (∀ r ∈ plan.rankPlans, Created env earlier r) ∧
      ∀ r ∈ plan.rankPlans, r.isHead → machine = env.machine r.node → name = r.container.name →
        ∀ r' ∈ plan.rankPlans, !r'.isHead → Launched env earlier r'
  | _, _ => True

variable {env plan w₀}

theorem permitted_of_starts {e : Event} (he : e.starts = false) (earlier : List Event) :
    Permitted env plan w₀ e earlier := by
  cases e <;> trivial

/-- The guarantee of a start: its calls keep the order. -/
def KeepsOrder (env : Env) (plan : DeployPlan) (w₀ w w' : World) : Prop :=
  InOrder (Permitted env plan w₀) w.trace → InOrder (Permitted env plan w₀) w'.trace

theorem keepsOrder_of_shrinks {w w' : World} (h : w.Shrinks w') : KeepsOrder env plan w₀ w w' := by
  intro hw
  obtain ⟨new, hnew, hstarts⟩ := h.trace
  rw [hnew]
  exact hw.append fun e he ↦ permitted_of_starts (hstarts e he)

/-- The setting of a start alone. -/
abbrev gang (env : Env) (plan : DeployPlan) (w₀ : World) : Setting Call.Ret World :=
  alone env (KeepsOrder env plan w₀)

/-- What is in the trace, and what is not on a machine, stays so while nothing is started. -/
theorem safe_gang_of_uses {α : Type} {p : Op α} {P : World → Prop} {w : World}
    (h : p.Uses fun c ↦ c.starts = false) (hP : ∀ w w', w.Shrinks w' → P w → P w') (hw : P w) :
    p.Safe (gang env plan w₀) (fun _ ↦ P) (fun _ ↦ P) w :=
  safe_of_uses h (fun _ _ ↦ keepsOrder_of_shrinks) hP hw

/-- A program that starts nothing keeps the order, whatever the world. -/
theorem safe_gang_true {α : Type} {p : Op α} {w : World} (h : p.Uses fun c ↦ c.starts = false) :
    p.Safe (gang env plan w₀) (fun _ _ ↦ True) (fun _ _ ↦ True) w :=
  safe_gang_of_uses h (fun _ _ _ _ ↦ trivial) trivial

theorem mem_trace_of_shrinks {w w' : World} {e : Event} (h : w.Shrinks w') (he : e ∈ w.trace) :
    e ∈ w'.trace := by
  obtain ⟨new, hnew, -⟩ := h.trace
  rw [hnew]
  exact List.mem_append_right new he

theorem confirmedMissing_of_shrinks {w w' : World} {c : Container} (h : w.Shrinks w')
    (hc : ConfirmedMissing plan w.trace c) : ConfirmedMissing plan w'.trace c := by
  rcases hc with hc | ⟨names, hlisted, hname⟩
  · exact .inl (mem_trace_of_shrinks h hc)
  · exact .inr ⟨names, mem_trace_of_shrinks h hlisted, hname⟩

/-! ## Reaping -/

/-- A wait for a container to go that ends well has the node's answer. -/
theorem confirmGone_evidence {phase : Phase} {address name : String} (polls : Nat) (w : World) :
    (confirmGone phase address name polls).Safe (gang env plan w₀)
      (fun gone w' ↦ gone = true → .gone (env.machine address) name ∈ w'.trace)
      (fun _ _ ↦ True) w := by
  induction polls generalizing w with
  | zero => exact fun h ↦ absurd h (by decide)
  | succ polls ih =>
    rw [confirmGone, safe_bind]
    refine safe_node (fun r w' a ha ↦ ?_) (fun p w' a ha ↦ ?_) fun _ _ ↦ trivial
    · exact keepsOrder_of_shrinks (Call.shrinks_of_exec ha rfl)
    · split_ifs with hgone
      · have hp : p = .missing := by simpa [isConfirmedGone] using hgone
        subst hp
        intro _
        simp only [NodeOp.answered] at ha
        split at ha
        · cases ha
          exact List.mem_cons_self
        · cases ha
        · split_ifs at ha
          cases ha
      · rw [safe_bind, deadlinePassed, safe_invoke]
        intro late w'' a' ha'
        refine ⟨keepsOrder_of_shrinks (Call.shrinks_of_exec ha' rfl), ?_⟩
        split_ifs
        · exact fun h ↦ absurd h (by decide)
        · exact ih w''

/-- A leftover that is reaped is confirmed gone. -/
theorem reap_evidence {address name : String} (w : World) :
    (reap address name).Safe (gang env plan w₀)
      (fun _ w' ↦ .gone (env.machine address) name ∈ w'.trace) (fun _ _ ↦ True) w := by
  rw [reap, safe_bind]
  refine safe_node (fun r w' a ha ↦ ?_) (fun _ w' a ha ↦ ?_) fun _ _ ↦ trivial
  · exact keepsOrder_of_shrinks (Call.shrinks_of_exec ha rfl)
  · rw [safe_bind]
    refine (confirmGone_evidence confirmGonePolls w').mono (fun gone w'' hgone ↦ ?_)
      fun _ _ _ ↦ trivial
    cases gone with
    | true => exact hgone rfl
    | false => exact trivial

theorem reapAll_evidence {address : String} (names : List String) (w : World) :
    (reapAll address names).Safe (gang env plan w₀)
      (fun _ w' ↦ ∀ name ∈ names, .gone (env.machine address) name ∈ w'.trace)
      (fun _ _ ↦ True) w := by
  induction names generalizing w with
  | nil => exact fun name hname ↦ absurd hname List.not_mem_nil
  | cons name names ih =>
    rw [reapAll, safe_bind]
    refine (reap_evidence w).mono (fun _ w' hgone ↦ ?_) fun _ _ _ ↦ trivial
    have hkept := @safe_gang_of_uses env plan w₀ _ _ _ _
      (starts_of_routine (@reapAll_uses (.all "") address trivial names))
      (fun _ _ ↦ mem_trace_of_shrinks) hgone
    refine ((ih w').and hkept).mono (fun _ w'' h ↦ ?_) fun _ _ _ ↦ trivial
    intro name' hname'
    rcases List.mem_cons.mp hname' with rfl | hname'
    · exact h.2
    · exact h.1 name' hname'

/-- A container a reap is about: still where it was, or nothing of its name is there. -/
def Unclaimed (w₀ w : World) : Prop :=
  ∀ c ∈ w₀.containers, c ∈ w.containers ∨
    ∀ c' ∈ w.containers, ¬(c'.machine = c.machine ∧ c'.name = c.name)

theorem unclaimed_of_shrinks {w w' : World} (h : w.Shrinks w') (hw : Unclaimed w₀ w) :
    Unclaimed w₀ w' := by
  obtain ⟨keep, hkeep⟩ := h.containers
  intro c hc
  rw [hkeep]
  rcases hw c hc with hmem | hnone
  · by_cases hk : keep c.machine c.name
    · exact .inl (List.mem_filter.mpr ⟨hmem, hk⟩)
    · refine .inr fun c' hc' hsame ↦ hk ?_
      rw [← hsame.1, ← hsame.2]
      exact (List.mem_filter.mp hc').2
  · exact .inr fun c' hc' ↦ hnone c' (List.mem_filter.mp hc').1

/-- What a listing shows: each leftover of the node, or that it is not there. -/
theorem listed_leftover {machine : String} {a : Answer} {w w' : World}
    {containers : List (Container × String)} (hw : Unclaimed w₀ w)
    (h : (NodeOp.listManaged (some plan.deploymentId)).answered machine a w = some (containers, w'))
    {c : Container} (hc : Leftover env plan w₀ c) (hm : c.machine = machine) :
    c.name ∈ otherGenerations plan.generation containers ∨ ConfirmedMissing plan w'.trace c := by
  obtain ⟨hmem, -, hdep, hgen⟩ := hc
  cases h
  set listed := NodeOp.listed machine (some plan.deploymentId) a w with hlisted
  by_cases hname : c.name ∈ listed.map Container.name
  · left
    obtain ⟨c', hc', hsame⟩ := List.mem_map.mp hname
    rw [hlisted, NodeOp.listed, List.mem_filter] at hc'
    have hc'' : c'.machine = machine ∧ c'.name ∉ a.vanished := by
      have := of_decide_eq_true hc'.2
      exact ⟨this.1, this.2.1⟩
    -- the machine has something of this name, so the leftover is still there, and listed itself
    have hthere : c ∈ w.containers := (hw c hmem).resolve_right fun h ↦
      h c' hc'.1 ⟨hc''.1.trans hm.symm, hsame⟩
    have hshown : c ∈ listed := by
      rw [hlisted, NodeOp.listed, List.mem_filter]
      refine ⟨hthere, decide_eq_true ⟨hm, hsame ▸ hc''.2, ?_⟩⟩
      simp [NodeOp.selects, hdep]
    rw [otherGenerations, List.mem_map]
    refine ⟨(c, a.status c.name), List.mem_filter.mpr ⟨List.mem_map.mpr ⟨c, hshown, rfl⟩, ?_⟩, rfl⟩
    simpa using hgen
  · right
    exact .inr ⟨_, hm ▸ List.mem_cons_self, hname⟩

/-- The leftovers on a rank's node are among these names, or confirmed missing. -/
def Accounted (env : Env) (plan : DeployPlan) (w₀ : World) (r : RankPlan) (names : List String)
    (w : World) : Prop :=
  ∀ c, Leftover env plan w₀ c → c.machine = env.machine r.node →
    c.name ∈ names ∨ ConfirmedMissing plan w.trace c

theorem Accounted.of_shrinks {r : RankPlan} {names : List String} {w w' : World}
    (h : w.Shrinks w') (hw : Accounted env plan w₀ r names w) :
    Accounted env plan w₀ r names w' := fun c hc hm ↦
  (hw c hc hm).imp_right (confirmedMissing_of_shrinks h)

theorem staleNames_evidence {r : RankPlan} {w : World} (hw : Unclaimed w₀ w) :
    (staleNames plan r).Safe (gang env plan w₀)
      (fun names w' ↦ Accounted env plan w₀ r names w') (fun _ _ ↦ True) w := by
  rw [staleNames, safe_bind, safe_attempt]
  refine safe_node (fun _ w' a ha ↦ ?_) (fun containers w' a ha ↦ ?_) fun _ _ ↦ trivial
  · exact keepsOrder_of_shrinks (Call.shrinks_of_exec ha rfl)
  have hnames : Accounted env plan w₀ r (otherGenerations plan.generation containers) w' :=
    fun c hc hm ↦ listed_leftover hw ha hc hm
  dsimp only
  split_ifs
  · exact hnames
  · rw [safe_bind]
    have huses : (node .reap r.node (.containerStatus r.container.name)).attempt.Uses
        fun c ↦ c.starts = false := Uses.attempt (uses_node rfl)
    refine (safe_gang_of_uses huses (fun _ _ ↦ Accounted.of_shrinks) hnames).mono
      (fun answer w'' h ↦ ?_) fun _ _ _ ↦ trivial
    rcases answer with x | p
    · exact h
    · rw [safe_pure]
      split_ifs
      · exact h
      · exact fun c hc hm ↦ (h c hc hm).imp_left fun hmem ↦ List.mem_append_left _ hmem

/-- The leftovers on the nodes of these ranks are confirmed missing. -/
def Cleared (env : Env) (plan : DeployPlan) (w₀ : World) (ranks : List RankPlan) (w : World) :
    Prop :=
  ∀ r ∈ ranks, Accounted env plan w₀ r [] w

theorem Cleared.of_shrinks {ranks : List RankPlan} {w w' : World} (h : w.Shrinks w')
    (hw : Cleared env plan w₀ ranks w) : Cleared env plan w₀ ranks w' :=
  fun r hr ↦ (hw r hr).of_shrinks h

/-- Names that are all confirmed gone account for nothing more. -/
theorem Accounted.of_gone {r : RankPlan} {names : List String} {w : World}
    (h : Accounted env plan w₀ r names w)
    (hgone : ∀ name ∈ names, .gone (env.machine r.node) name ∈ w.trace) :
    Accounted env plan w₀ r [] w := by
  intro c hc hm
  rcases h c hc hm with hname | hmissing
  · exact .inr (.inl (hm ▸ hgone c.name hname))
  · exact .inr hmissing

/-- After a round of reaping for each rank every leftover on the nodes is confirmed missing. -/
theorem reapRanks_evidence (ranks : List RankPlan) {w : World} (hw : Unclaimed w₀ w) :
    (reapRanks plan ranks).Safe (gang env plan w₀) (fun _ w' ↦ Cleared env plan w₀ ranks w')
      (fun _ _ ↦ True) w := by
  induction ranks generalizing w with
  | nil => exact fun r hr ↦ absurd hr List.not_mem_nil
  | cons r ranks ih =>
    rw [reapRanks, safe_bind]
    refine (safe_gang_of_uses (uses_node rfl) (fun _ _ ↦ unclaimed_of_shrinks) hw).mono
      (fun _ w₁ hw₁ ↦ ?_) fun _ _ _ ↦ trivial
    have hstale := (@staleNames_evidence env plan w₀ r w₁ hw₁).and
      (safe_gang_of_uses (starts_of_routine (@staleNames_uses (.all "") plan r trivial))
        (fun _ _ ↦ unclaimed_of_shrinks) hw₁)
    rw [safe_bind]
    refine hstale.mono (fun names w₂ ⟨hnames, hw₂⟩ ↦ ?_) fun _ _ _ ↦ trivial
    have hkept := @safe_gang_of_uses env plan w₀ _ _
      (fun w ↦ Accounted env plan w₀ r names w ∧ Unclaimed w₀ w) _
      (starts_of_routine (@reapAll_uses (.all "") r.node trivial names))
      (fun _ _ hs h ↦ ⟨h.1.of_shrinks hs, unclaimed_of_shrinks hs h.2⟩) ⟨hnames, hw₂⟩
    rw [safe_bind]
    refine ((reapAll_evidence names w₂).and hkept).mono (fun _ w₃ h ↦ ?_) fun _ _ _ ↦ trivial
    obtain ⟨hgone, hnames, hw₃⟩ := h
    have hcleared := hnames.of_gone hgone
    have hrest := @safe_gang_of_uses env plan w₀ _ _ _ _
      (starts_of_routine (@reapRanks_uses (.all "") plan trivial ranks))
      (fun _ _ ↦ Accounted.of_shrinks) hcleared
    refine ((ih hw₃).and hrest).mono (fun _ w₄ h ↦ ?_) fun _ _ _ ↦ trivial
    intro r' hr'
    rcases List.mem_cons.mp hr' with rfl | hr'
    · exact h.2
    · exact h.1 r' hr'

/-- A plan with every leftover confirmed missing may create. -/
theorem permitted_created {w : World} {machine name : String} {labels : Labels}
    (hw : Cleared env plan w₀ plan.rankPlans w) :
    Permitted env plan w₀ (.created machine name labels) w.trace := by
  intro c hc
  obtain ⟨r, hr, hm⟩ := hc.2.1
  exact (hw r hr c hc hm).resolve_left List.not_mem_nil

/-! ## Creating -/

/-- What is said of the trace alone, and once true stays true. -/
def Lasting (P : World → Prop) : Prop := ∀ w w', w.trace <:+ w'.trace → P w → P w'

theorem Lasting.of_shrinks {P : World → Prop} (hP : Lasting P) {w w' : World} (h : w.Shrinks w')
    (hw : P w) : P w' := by
  obtain ⟨new, hnew, -⟩ := h.trace
  exact hP w w' ⟨new, hnew.symm⟩ hw

theorem lasting_mem (e : Event) : Lasting fun w ↦ e ∈ w.trace :=
  fun _ _ h he ↦ h.subset he

theorem Lasting.and {P P' : World → Prop} (hP : Lasting P) (hP' : Lasting P') :
    Lasting fun w ↦ P w ∧ P' w := fun w w' h hw ↦ ⟨hP w w' h hw.1, hP' w w' h hw.2⟩

theorem Lasting.forall {ι : Type} {P : ι → World → Prop} (hP : ∀ i, Lasting (P i)) :
    Lasting fun w ↦ ∀ i, P i w := fun w w' h hw i ↦ hP i w w' h (hw i)

theorem lasting_cleared (ranks : List RankPlan) : Lasting (Cleared env plan w₀ ranks) := by
  intro w w' h hw r hr c hc hm
  rcases (hw r hr c hc hm).resolve_left List.not_mem_nil with hgone | ⟨names, hlisted, hname⟩
  · exact .inr (.inl (h.subset hgone))
  · exact .inr (.inr ⟨names, h.subset hlisted, hname⟩)

/-- Creating a rank where nothing of an earlier attempt is left keeps the order. -/
theorem keepsOrder_runContainer {address image name : String} {labels : Labels} {a : Answer}
    {w w' : World} {phase : Phase} {r : Except Exn Unit}
    (hw : Cleared env plan w₀ plan.rankPlans w)
    (h : (Call.node phase address (.runContainer image name labels)).exec env 0 w a =
      some (r, w')) : KeepsOrder env plan w₀ w w' := by
  have hattempt : KeepsOrder env plan w₀ w
      ((NodeOp.runContainer image name labels).attempted (env.machine address) a w) := by
    intro horder
    simp only [NodeOp.attempted]
    split_ifs
    · exact horder.cons (permitted_created hw)
    · exact horder
  intro horder
  simp only [Call.exec] at h
  split at h
  · cases h
    exact (hattempt horder).cons trivial
  · simp only [NodeOp.answered] at h
    split_ifs at h <;> cases h
    exact hattempt horder

/-- A rank that is created was allowed to be, and is. -/
theorem createRank_order {P : World → Prop} (hP : Lasting P) {r : RankPlan} {w : World}
    (hw : Cleared env plan w₀ plan.rankPlans w ∧ P w) (p : DeployPlan) :
    (createRank p r).Safe (gang env plan w₀)
      (fun _ w' ↦ (Cleared env plan w₀ plan.rankPlans w' ∧ P w') ∧ Created env w'.trace r)
      (fun _ _ ↦ True) w := by
  have hlasting := (@lasting_cleared env plan w₀ plan.rankPlans).and hP
  rw [createRank, safe_bind]
  refine (safe_gang_of_uses (starts_of_routine (@unmadeMounts_uses (.all "") r trivial))
    (fun _ _ ↦ hlasting.of_shrinks) hw).mono (fun unmade w₁ hw₁ ↦ ?_) fun _ _ _ ↦ trivial
  rw [safe_bind, safe_attempt]
  refine safe_node (fun _ w₂ a ha ↦ keepsOrder_runContainer hw₁.1 ha) (fun _ w₂ a ha ↦ ?_)
    fun _ _ ↦ trivial
  have hcreated : (Cleared env plan w₀ plan.rankPlans w₂ ∧ P w₂) ∧ Created env w₂.trace r := by
    refine ⟨hlasting w₁ w₂ (NodeOp.answered_suffix ha) hw₁, ?_⟩
    simp only [NodeOp.answered, NodeOp.attempted] at ha
    split_ifs at ha
    cases ha
    exact List.mem_cons_self
  have huses : (modRank p r).Uses fun c ↦ c.starts = false :=
    starts_of_routine (@modRank_uses (.all "") p r trivial)
  rw [safe_bind]
  exact (safe_gang_of_uses huses
    (fun _ _ ↦ (hlasting.and (lasting_mem _)).of_shrinks) hcreated).mono
      (fun _ _ h ↦ h) fun _ _ _ ↦ trivial

theorem createOn_order {P : World → Prop} (hP : Lasting P) {r : RankPlan} {w : World}
    (hw : Cleared env plan w₀ plan.rankPlans w ∧ P w) (p : DeployPlan) :
    (createOn p r).Safe (gang env plan w₀)
      (fun _ w' ↦ (Cleared env plan w₀ plan.rankPlans w' ∧ P w') ∧ Created env w'.trace r)
      (fun _ _ ↦ True) w := by
  have hlasting := (@lasting_cleared env plan w₀ plan.rankPlans).and hP
  rw [createOn, safe_bind]
  exact (safe_gang_of_uses (uses_node rfl) (fun _ _ ↦ hlasting.of_shrinks) hw).mono
    (fun _ w' hw' ↦ createRank_order hP hw' p) fun _ _ _ ↦ trivial

/-- All of these ranks are created. -/
def AllCreated (env : Env) (ranks : List RankPlan) (w : World) : Prop :=
  ∀ r ∈ ranks, Created env w.trace r

theorem lasting_allCreated (ranks : List RankPlan) : Lasting (AllCreated env ranks) :=
  fun _ _ h hw r hr ↦ h.subset (hw r hr)

/-- The create phase goes on only once every rank is created. -/
theorem createRanks_order {p : DeployPlan} {record : Record} (ranks touched : List RankPlan)
    (warnings : List String) {w : World} (hw : Cleared env plan w₀ plan.rankPlans w)
    (htouched : AllCreated env touched w) :
    (createRanks p record touched warnings ranks).Safe (gang env plan w₀)
      (fun progress w' ↦ ∀ a, progress = .go a → AllCreated env (touched ++ ranks) w')
      (fun _ _ ↦ True) w := by
  induction ranks generalizing touched warnings w with
  | nil =>
    intro _ _
    rwa [List.append_nil]
  | cons r ranks ih =>
    rw [createRanks, safe_bind, safe_attempt]
    refine (createOn_order (lasting_allCreated touched) ⟨hw, htouched⟩ p).mono
      (fun more w₁ hw₁ ↦ ?_) fun x w₁ _ ↦ ?_
    · obtain ⟨⟨hcleared, htouched₁⟩, hr⟩ := hw₁
      have hall : AllCreated env (touched ++ [r]) w₁ := by
        intro r' hr'
        rcases List.mem_append.mp hr' with hr' | hr'
        · exact htouched₁ r' hr'
        · rwa [List.mem_singleton.mp hr']
      have := ih (touched ++ [r]) (warnings ++ more) hcleared hall
      rwa [List.append_assoc, List.singleton_append] at this
    · cases x with
      | native text =>
        rw [safe_bind]
        refine (safe_gang_true (starts_of_routine (s := .all p.deploymentId)
          (abort_uses rfl (.all _) trivial))).mono (fun r' w₂ _ ↦ ?_) fun _ _ _ ↦ trivial
        intro a ha
        cases ha
      | _ => exact trivial

/-! ## Launching -/

theorem permitted_launched {r : RankPlan} {w : World} (hall : AllCreated env plan.rankPlans w)
    (hworkers : r.isHead → ∀ r' ∈ plan.rankPlans, !r'.isHead → Launched env w.trace r')
    (hr : r ∈ plan.rankPlans) :
    Permitted env plan w₀ (.launched (env.machine r.node) r.container.name) w.trace := by
  refine ⟨hall, fun r₁ hr₁ hhead _ hname ↦ hworkers ?_⟩
  -- a rank of this name is this one
  have h := plan.made r hr
  have h₁ := plan.made r₁ hr₁
  rw [h.name, h₁.name] at hname
  rw [h.isHead, rankContainerName_inj hname, ← h₁.isHead]
  exact hhead

/-- What must be so when a rank is launched. -/
def MayLaunch (env : Env) (plan : DeployPlan) (r : RankPlan) (w : World) : Prop :=
  AllCreated env plan.rankPlans w ∧
    (r.isHead → ∀ r' ∈ plan.rankPlans, !r'.isHead → Launched env w.trace r')

theorem lasting_mayLaunch (r : RankPlan) : Lasting (MayLaunch env plan r) := by
  intro w w' h hw
  refine ⟨lasting_allCreated _ w w' h hw.1, fun hhead r' hr' hworker ↦ ?_⟩
  exact h.subset (hw.2 hhead r' hr' hworker)

/-- Launching a rank that may be launched keeps the order. -/
theorem keepsOrder_launch {r : RankPlan} {a : Answer} {w w' : World} {phase : Phase}
    {reply : Except Exn ExecResult} (hr : r ∈ plan.rankPlans) (hw : MayLaunch env plan r w)
    (h : (Call.node phase r.node (.exec r.container.name .launch)).exec env 0 w a =
      some (reply, w')) : KeepsOrder env plan w₀ w w' := by
  intro horder
  have hlaunched := horder.cons (@permitted_launched env plan w₀ r w hw.1 hw.2 hr)
  simp only [Call.exec] at h
  split at h
  · cases h
    exact hlaunched.cons trivial
  · cases h
    exact hlaunched

theorem launchRank_order {P : World → Prop} (hP : Lasting P) {r : RankPlan} {w : World}
    (hr : r ∈ plan.rankPlans) (hw : MayLaunch env plan r w ∧ P w) :
    (launchRank r).Safe (gang env plan w₀)
      (fun _ w' ↦ P w' ∧ Launched env w'.trace r) (fun _ _ ↦ True) w := by
  have hlasting := (@lasting_mayLaunch env plan r).and hP
  have hdeploy : (deployScript r).Safe (gang env plan w₀)
      (fun _ w' ↦ P w' ∧ Launched env w'.trace r) (fun _ _ ↦ True) w := by
    rw [deployScript, safe_bind]
    refine (safe_gang_of_uses (uses_node rfl) (fun _ _ ↦ hlasting.of_shrinks) hw).mono
      (fun copied w₁ hw₁ ↦ ?_) fun _ _ _ ↦ trivial
    split_ifs
    · rw [safe_bind]
      refine (safe_gang_of_uses (uses_node rfl) (fun _ _ ↦ hlasting.of_shrinks) hw₁).mono
        (fun _ w₂ hw₂ ↦ ?_) fun _ _ _ ↦ trivial
      rw [safe_bind]
      refine safe_node (fun _ w₃ a ha ↦ keepsOrder_launch hr hw₂.1 ha) (fun _ w₃ a ha ↦ ?_)
        fun _ _ ↦ trivial
      cases ha
      exact ⟨hP _ _ (List.suffix_cons _ _) hw₂.2, List.mem_cons_self⟩
    · trivial
  rw [launchRank, safe_bind, safe_attempt]
  refine hdeploy.mono (fun _ w' h ↦ h) fun x w' _ ↦ ?_
  cases x <;> trivial

theorem launchOn_order {P : World → Prop} (hP : Lasting P) {p : DeployPlan} {r : RankPlan}
    {w : World} (hr : r ∈ plan.rankPlans) (hw : MayLaunch env plan r w ∧ P w) :
    (launchOn p r).Safe (gang env plan w₀)
      (fun _ w' ↦ P w' ∧ Launched env w'.trace r) (fun _ _ ↦ True) w := by
  have hlasting := (@lasting_mayLaunch env plan r).and hP
  have hwait : (waitIfHead p r).Uses fun c ↦ c.starts = false :=
    starts_of_routine (@waitIfHead_uses (.all "") p r trivial trivial)
  rw [launchOn, safe_bind]
  refine (safe_gang_of_uses hwait (fun _ _ ↦ hlasting.of_shrinks) hw).mono
    (fun _ w₁ hw₁ ↦ ?_) fun _ _ _ ↦ trivial
  rw [safe_bind]
  exact (safe_gang_of_uses (uses_node rfl) (fun _ _ ↦ hlasting.of_shrinks) hw₁).mono
    (fun _ w₂ hw₂ ↦ launchRank_order hP hr hw₂) fun _ _ _ ↦ trivial

/-- In the start order the head comes last. -/
theorem workers_before_head {launched ranks : List RankPlan} {r : RankPlan}
    (horder : plan.startOrder = launched ++ r :: ranks) (hhead : r.isHead) {r' : RankPlan}
    (hr' : r' ∈ plan.rankPlans) (hworker : !r'.isHead) : r' ∈ launched := by
  have hr : r ∈ plan.rankPlans := by
    rw [← List.mem_reverse]
    change r ∈ plan.startOrder
    simp [horder]
  have hzero : r.rank = 0 := by
    rw [(plan.made r hr).isHead] at hhead
    simpa using hhead
  have hdecreasing : (plan.startOrder.map RankPlan.rank).Pairwise (· > ·) := by
    rw [DeployPlan.startOrder, List.map_reverse, plan.ranked, List.pairwise_reverse]
    exact List.pairwise_lt_range
  have hmem : r' ∈ plan.startOrder := List.mem_reverse.mpr hr'
  rw [horder] at hmem hdecreasing
  rcases List.mem_append.mp hmem with hdone | hrest
  · exact hdone
  · rcases List.mem_cons.mp hrest with rfl | hrest
    · simp [hhead] at hworker
    · rw [List.map_append, List.map_cons, List.pairwise_append] at hdecreasing
      have hlt := (List.pairwise_cons.mp hdecreasing.2.1).1 _ (List.mem_map_of_mem hrest)
      omega

/-- The launch phase launches what may be launched, rank by rank of the start order. -/
theorem launchRanks_order {p : DeployPlan} {record : Record} {touched : List RankPlan}
    (ranks launched : List RankPlan) (horder : plan.startOrder = launched ++ ranks) {w : World}
    (hall : AllCreated env plan.rankPlans w) (hlaunched : ∀ r ∈ launched, Launched env w.trace r) :
    (launchRanks p record touched ranks).Safe (gang env plan w₀)
      (fun _ _ ↦ True) (fun _ _ ↦ True) w := by
  induction ranks generalizing launched w with
  | nil => trivial
  | cons r ranks ih =>
    have hr : r ∈ plan.rankPlans := by
      rw [← List.mem_reverse]
      change r ∈ plan.startOrder
      simp [horder]
    have hmay : MayLaunch env plan r w := ⟨hall, fun hhead r' hr' hworker ↦
      hlaunched r' (workers_before_head horder hhead hr' hworker)⟩
    have hlasting : Lasting fun w ↦ AllCreated env plan.rankPlans w ∧
        ∀ r ∈ launched, Launched env w.trace r :=
      (lasting_allCreated _).and fun _ _ h hw r hr ↦ h.subset (hw r hr)
    rw [launchRanks, safe_bind, safe_attempt]
    refine (launchOn_order hlasting hr ⟨hmay, hall, hlaunched⟩).mono (fun _ w₁ hw₁ ↦ ?_)
      fun x w₁ _ ↦ ?_
    · obtain ⟨⟨hall₁, hlaunched₁⟩, hr₁⟩ := hw₁
      refine ih (launched ++ [r]) (by simpa using horder) hall₁ fun r' hr' ↦ ?_
      rcases List.mem_append.mp hr' with hr' | hr'
      · exact hlaunched₁ r' hr'
      · rwa [List.mem_singleton.mp hr']
    · cases x with
      | native text =>
        rw [safe_bind]
        exact (safe_gang_true (starts_of_routine (s := .all p.deploymentId)
          (abort_uses rfl (.all _) trivial))).mono (fun _ _ _ ↦ trivial) fun _ _ _ ↦ trivial
      | _ => trivial

/-! ## The whole start -/

theorem launchPhase_order {record : Record} {w : World}
    (hw : Cleared env plan w₀ plan.rankPlans w) :
    (launchPhase env plan record).Safe (gang env plan w₀) (fun _ _ ↦ True) (fun _ _ ↦ True) w := by
  have hcancelled : ∀ touched w, (do
      let r ← cancelled plan record touched
      return .done r : Op (Progress (Option Record))).Safe (gang env plan w₀) (fun _ _ ↦ True)
        (fun _ _ ↦ True) w := by
    intro touched w
    have huses : (cancelled plan record touched).Uses (Routine (.all plan.deploymentId)) :=
      cancelled_uses rfl (.all _) trivial
    exact safe_gang_true ((starts_of_routine huses).bind fun _ ↦ uses_pure)
  have hasked : (teardownRequested env plan.deploymentId).Uses fun c ↦ c.starts = false :=
    starts_of_routine (@teardownRequested_uses (.all "") env plan.deploymentId)
  rw [launchPhase, safe_bind]
  refine (safe_gang_of_uses hasked
    (fun _ _ ↦ (lasting_cleared plan.rankPlans).of_shrinks) hw).mono (fun _ w₁ hw₁ ↦ ?_)
    fun _ _ _ ↦ trivial
  split_ifs
  · exact hcancelled [] w₁
  rw [safe_bind]
  refine (createRanks_order plan.rankPlans [] plan.warnings hw₁
    fun r hr ↦ absurd hr List.not_mem_nil).mono (fun progress w₂ hw₂ ↦ ?_) fun _ _ _ ↦ trivial
  cases progress with
  | done r => trivial
  | go a =>
    have hall := hw₂ a rfl
    rw [List.nil_append] at hall
    rw [safe_bind]
    refine (safe_gang_of_uses hasked
      (fun _ _ ↦ (lasting_allCreated plan.rankPlans).of_shrinks) hall).mono (fun _ w₃ hw₃ ↦ ?_)
      fun _ _ _ ↦ trivial
    split_ifs
    · exact hcancelled a.1 w₃
    rw [safe_bind]
    refine (launchRanks_order plan.startOrder [] rfl hw₃
      fun r hr ↦ absurd hr List.not_mem_nil).mono (fun progress w₄ _ ↦ ?_) fun _ _ _ ↦ trivial
    cases progress with
    | done r => trivial
    | go _ =>
      refine safe_gang_true (starts_of_routine (s := .all plan.deploymentId) ?_)
      exact now_uses.bind fun _ ↦ (@updateRecord_uses (.all _) _ trivial).bind fun _ ↦
        publish_uses.bind fun _ ↦ uses_pure

/-- A plan that is another one with its ranks pointed at images of other names. -/
inductive Retargeted (plan : DeployPlan) : DeployPlan → Prop
  | refl : Retargeted plan plan
  | runFrom {p : DeployPlan} (node image : String) : Retargeted plan p →
    Retargeted plan (p.runFrom node image)

theorem permitted_runFrom (node image : String) :
    Permitted env (plan.runFrom node image) w₀ = Permitted env plan w₀ := by
  funext e earlier
  cases e <;>
    simp [Permitted, Leftover, ConfirmedMissing, Created, Launched, DeployPlan.runFrom]

theorem cleared_runFrom (node image : String) (w : World) :
    Cleared env (plan.runFrom node image) w₀ (plan.runFrom node image).rankPlans w ↔
      Cleared env plan w₀ plan.rankPlans w := by
  simp [Cleared, Accounted, Leftover, ConfirmedMissing, DeployPlan.runFrom]

/-- Pointing ranks at other images changes nothing of the order. -/
theorem Retargeted.same {p : DeployPlan} (h : Retargeted plan p) :
    p.deploymentId = plan.deploymentId ∧ Permitted env p w₀ = Permitted env plan w₀ ∧
      ∀ w, Cleared env p w₀ p.rankPlans w ↔ Cleared env plan w₀ plan.rankPlans w := by
  induction h with
  | refl => exact ⟨rfl, rfl, fun _ ↦ .rfl⟩
  | runFrom node image _ ih =>
    refine ⟨ih.1, (permitted_runFrom node image).trans ih.2.1, fun w ↦ ?_⟩
    exact (cleared_runFrom node image w).trans (ih.2.2 w)

theorem pullEverywhere_yields {p : DeployPlan} (addresses : List String) (h : Retargeted plan p) :
    (pullEverywhere env p addresses).Yields fun r ↦ Retargeted plan r.1 := by
  induction addresses generalizing p with
  | nil => exact h
  | cons address addresses ih =>
    refine Yields.bind (P := fun _ ↦ True) (yields_true _) fun outcome _ ↦ ?_
    cases outcome with
    | error x => exact h
    | ok image => exact ih (.runFrom address image h)

theorem withLock_uses {α : Type} {id : String} {p : Op α} (h : p.Uses fun c ↦ c.starts = false) :
    (withLock id p).Uses fun c ↦ c.starts = false := by
  have hacquire : (invoke (.acquire id)).Uses fun c ↦ c.starts = false := invoke_uses _ rfl
  have hrelease : (invoke (.release id)).Uses fun c ↦ c.starts = false := invoke_uses _ rfl
  exact hacquire.bind fun _ ↦ h.ensure hrelease

theorem readyPhase_uses {p : DeployPlan} {record : Record} :
    (readyPhase env p record).Uses fun c ↦ c.starts = false := by
  have hroutine {α : Type} {q : Op α} (h : q.Uses (Routine (.all p.deploymentId))) :
      q.Uses fun c ↦ c.starts = false := starts_of_routine h
  refine (hroutine (waitReady_uses trivial trivial)).attempt.bind fun outcome ↦ ?_
  rcases outcome with x | _
  · cases x with
    | native text =>
      refine withLock_uses (hroutine (isTornDown_uses.bind fun _ ↦ .ite (fun _ ↦ ?_) fun _ ↦ ?_))
      · exact getDeployment_uses.bind fun _ ↦ uses_pure
      · exact (failLaunchedGang_uses trivial rfl (.all _)).bind fun _ ↦ uses_pure
    | _ => exact uses_raise
  · refine withLock_uses (hroutine (isTornDown_uses.bind fun _ ↦ .ite (fun _ ↦ ?_) fun _ ↦ ?_))
    · exact getDeployment_uses.bind fun _ ↦ uses_pure
    · refine publish_uses.bind fun _ ↦ now_uses.bind fun _ ↦ ?_
      exact (@updateRecord_uses (.all p.deploymentId) _ trivial).bind fun _ ↦ uses_pure

theorem startPulled_order {p : DeployPlan} {record : Record} {wait : Bool} {w : World}
    (hp : Retargeted plan p) (hw : Cleared env plan w₀ plan.rankPlans w) :
    (startPulled env p record wait).Safe (gang env plan w₀) (fun _ _ ↦ True) (fun _ _ ↦ True)
      w := by
  obtain ⟨-, hpermitted, hcleared⟩ := @Retargeted.same env plan w₀ p hp
  have hgang : gang env plan w₀ = gang env p w₀ := by
    unfold gang KeepsOrder
    rw [hpermitted]
  rw [hgang, startPulled, safe_bind, withLock, safe_bind]
  refine (safe_gang_of_uses (invoke_uses (.acquire p.deploymentId) rfl)
    (fun _ _ ↦ (lasting_cleared p.rankPlans).of_shrinks) ((hcleared w).mpr hw)).mono
    (fun _ w₁ hw₁ ↦ ?_) fun _ _ _ ↦ trivial
  have hrelease : ∀ w, (invoke (.release p.deploymentId)).Safe (gang env p w₀) (fun _ _ ↦ True)
      (fun _ _ ↦ True) w := fun w ↦ safe_gang_true (invoke_uses (.release _) rfl)
  rw [safe_ensure]
  refine (launchPhase_order hw₁).mono (fun progress w₂ _ ↦ ?_) fun x w₂ _ ↦ hrelease w₂
  refine (hrelease w₂).mono (fun _ w₃ _ ↦ ?_) fun _ _ _ ↦ trivial
  cases progress with
  | done r => trivial
  | go launched =>
    dsimp only
    split_ifs
    · exact safe_gang_true readyPhase_uses
    · trivial

/-- The reap phase goes on only with every leftover confirmed missing. -/
theorem reapPhase_order {record : Record} {w : World} (hw : Unclaimed w₀ w) :
    (reapPhase plan record).Safe (gang env plan w₀)
      (fun progress w' ↦ progress = .go () → Cleared env plan w₀ plan.rankPlans w')
      (fun _ _ ↦ True) w := by
  have hfail : ∀ message w, (do
      let r ← fail plan record message {}
      return .done r : Op (Progress Unit)).Safe (gang env plan w₀)
        (fun progress w' ↦ progress = .go () → Cleared env plan w₀ plan.rankPlans w')
        (fun _ _ ↦ True) w := by
    intro message w
    have huses : (fail plan record message {}).Uses (Routine (.all plan.deploymentId)) :=
      fail_uses rfl (.all _)
    rw [safe_bind]
    refine (safe_gang_true (starts_of_routine huses)).mono (fun r w' _ ↦ ?_) fun _ _ _ ↦ trivial
    exact fun h ↦ nomatch h
  rw [reapPhase, safe_bind, safe_attempt]
  refine (reapRanks_evidence plan.rankPlans hw).mono (fun _ w₁ hw₁ _ ↦ hw₁) fun x w₁ _ ↦ ?_
  cases x <;> exact hfail _ w₁

/-- The pull phase points ranks at other images and keeps what is confirmed. -/
theorem pullPhase_order {record : Record} {w : World}
    (hw : Cleared env plan w₀ plan.rankPlans w) :
    (pullPhase env plan record).Safe (gang env plan w₀)
      (fun progress w' ↦ ∀ p, progress = .go p →
        Retargeted plan p ∧ Cleared env plan w₀ plan.rankPlans w')
      (fun _ _ ↦ True) w := by
  rw [pullPhase, safe_bind]
  have huses : (pullEverywhere env plan plan.pullTargets).Uses (Routine (.all plan.deploymentId)) :=
    pullEverywhere_uses rfl (.all _) plan.pullTargets
  have hpull := @safe_gang_of_uses env plan w₀ _ _ _ _ (starts_of_routine huses)
    (fun _ _ ↦ (lasting_cleared plan.rankPlans).of_shrinks) hw
  refine ((pullEverywhere_yields plan.pullTargets .refl).safe hpull).mono (fun r w₁ hr ↦ ?_)
    fun _ _ _ ↦ trivial
  obtain ⟨hp, hw₁⟩ := hr
  have huses : (pullEnded record r.1 r.2).Uses (Routine (.all r.1.deploymentId)) :=
    pullEnded_uses rfl (.all _) r.2
  have hended := @safe_gang_of_uses env plan w₀ _ _ _ _ (starts_of_routine huses)
    (fun _ _ ↦ (lasting_cleared plan.rankPlans).of_shrinks) hw₁
  refine (Yields.safe (P := fun progress ↦ ∀ p, progress = .go p → Retargeted plan p) ?_
    hended).mono (fun progress w₂ h p heq ↦ ⟨h.1 p heq, h.2⟩) fun _ _ _ ↦ trivial
  rcases r with ⟨p, x | _⟩
  · cases x <;> exact (yields_true _).bind fun _ _ _ h ↦ nomatch h
  · intro p' heq
    cases heq
    exact hp

theorem start_order {wait : Bool} {status : Status} {w : World} (hw : Unclaimed w₀ w) :
    (start env plan wait status).Safe (gang env plan w₀) (fun _ _ ↦ True) (fun _ _ ↦ True) w := by
  rw [start, persistPlannedRecord, safe_bind, safe_bind]
  refine (safe_gang_of_uses (invoke_uses (.persist _) rfl) (fun _ _ ↦ unclaimed_of_shrinks) hw).mono
    (fun _ w₁ hw₁ ↦ ?_) fun _ _ _ ↦ trivial
  rw [safe_pure, safe_bind]
  refine (safe_gang_of_uses (invoke_uses (.publish _ _ _) rfl) (fun _ _ ↦ unclaimed_of_shrinks)
    hw₁).mono (fun _ w₂ hw₂ ↦ ?_) fun _ _ _ ↦ trivial
  rw [safe_bind]
  refine (reapPhase_order hw₂).mono (fun progress w₃ hw₃ ↦ ?_) fun _ _ _ ↦ trivial
  cases progress with
  | done r => trivial
  | go _ =>
    rw [safe_bind]
    refine (pullPhase_order (hw₃ rfl)).mono (fun progress w₄ hw₄ ↦ ?_) fun _ _ _ ↦ trivial
    cases progress with
    | done r => trivial
    | go p =>
      obtain ⟨hp, hcleared⟩ := hw₄ p rfl
      exact startPulled_order hp hcleared

/-- **A gang start is two-phase, and its generation is alone.** In every run of `start`, whatever
the nodes answer and wherever it is cut short: no rank is launched before every rank of the plan is
created, the head is not launched before every worker is, and no rank is created before every
container that an earlier attempt of the deployment left on the plan's nodes is confirmed
missing. -/
theorem gang_start_in_order {wait : Bool} {status : Status}
    {t : Threads Unit Call.Ret Exn Record World} (hw : w₀.trace = [])
    (ht : (running env (start env plan wait status) w₀).Reachable Guard.free t) :
    InOrder (Permitted env plan w₀) t.world.trace := by
  have hinit : InOrder (Permitted env plan w₀) w₀.trace := hw ▸ InOrder.nil
  exact (running_rule (start_order fun c hc ↦ .inl hc) (fun _ _ h ↦ h) hinit ht).1

/-! ## A start over a leftover

A gang of two replaces the worker that its previous generation left behind. -/

private theorem pairEnv_local : decide ("" = "") = true := rfl

private def pairEnv : Env where
  isLocal a := a = ""
  isLocal_empty := pairEnv_local
  redact _ := none
  serveProgram command := command
  controlLabel := ""
  readyTimeout := 900

private def pairRank (rank : Nat) (node name : String) (isHead : Bool) : RankPlan where
  rank := rank
  node := node
  container := {
    image := "i"
    name := name
    labels := { deployment := some "x", generation := some 2, rank := some rank } }
  isHead := isHead

private theorem pairPlan_named : "x" ≠ "" := by decide

private def pairPlan : DeployPlan where
  deploymentId := "x"
  generation := 2
  rankPlans := [pairRank 0 "" "spark-pulse-x-r0-g2" true,
    pairRank 1 "b" "spark-pulse-x-r1-g2" false]
  named := pairPlan_named
  manned := by decide
  ranked := by decide
  made := by decide

private def leftWorker : World where
  store := ⟨[], List.nodup_nil, Store.named_nil⟩
  containers := [⟨"b", "spark-pulse-x-r1-g1", "i",
    { deployment := some "x", generation := some 1, rank := some 1 }⟩]

/-- The leftover is reaped, both ranks are created, then both are launched. -/
theorem pair_start_in_order : ∃ t : Threads Unit Call.Ret Exn Record World,
    (running pairEnv (start pairEnv pairPlan false .starting) leftWorker).Reachable Guard.free t ∧
      (∀ r ∈ pairPlan.rankPlans, Launched pairEnv t.world.trace r) ∧
        InOrder (Permitted pairEnv pairPlan leftWorker) t.world.trace := by
  obtain ⟨t, ht, hlaunched⟩ := (Option.any_eq_true _ _).mp
    (show ((running pairEnv (start pairEnv pairPlan false .starting) leftWorker).run
        ⟨fun _ ↦ start pairEnv pairPlan false .starting, leftWorker⟩
        (List.replicate 37 ((), { text := "t" }))).any
        (fun t ↦ pairPlan.rankPlans.all fun r ↦
          .launched (pairEnv.machine r.node) r.container.name ∈ t.world.trace) = true by
      decide +kernel)
  have hreachable : (running pairEnv (start pairEnv pairPlan false .starting) leftWorker).Reachable
      Guard.free t := ⟨_, rfl, System.steps_of_run ht⟩
  refine ⟨t, hreachable, fun r hr ↦ ?_, gang_start_in_order rfl hreachable⟩
  have hr := List.all_eq_true.mp hlaunched r hr
  rwa [decide_eq_true_eq] at hr

end SparkPulse.Runtime
