import SparkPulse.Preview.Redact

/-!
# What a plan shows

A plan that a client reads is `DeployPlan.to_dict`. Its environments are redacted name by name, and
its scripts, which were rendered with every value in them, by their text. A dictionary is the record
of its entries here, and two plans are compared that were rendered from the same fields and from
environments that differ at credentials alone.
-/

namespace SparkPulse.Preview

open Recipes (Text)

/-! ## Rendering -/

/-- The lines every launch script begins with. -/
def scriptHeader : Text := "#!/usr/bin/env bash\nset -euo pipefail\n\n".toList

/-- The lines that set a script's variables. -/
def envExports (env : Env) : Text := env.flatMap fun (name, value) ↦ exportLine name value ++ ['\n']

/-- `_script`: the lines, each with its end. -/
def renderScript (env : Env) (command : Text) : Text :=
  scriptHeader ++ (envExports env ++ ((if env = [] then [] else ['\n']) ++ (command ++ ['\n'])))

/-! ## Plans

`Value` stands for the numbers and the nested documents that a plan only carries. -/

section Plans

variable (Value : Type)

/-- A rendered per-rank launch: the bash text plus the environment it needs. -/
structure LaunchScript where
  nodeRank : Nat
  command : Text
  env : Env
  host : Text
  script : Text

/-- Everything needed to start a rank's container. -/
structure ContainerSpec where
  image : Text
  name : Text
  command : Text
  env : Env
  labels : Env
  mounts : Env
  privileged : Bool
  ipcHost : Bool
  networkHost : Bool
  shmSizeGb : Value
  devices : List Text
  capAdd : List Text
  ulimits : Env
  memoryLimitGb : Option Value
  pidsLimit : Int
  nofileLimit : Int
  portMappings : List Text
  entrypointClear : Bool
  user : Option Text

/-- One rank of the gang: which node, which container, which script. -/
structure RankPlan where
  rank : Nat
  node : Text
  host : Text
  container : ContainerSpec Value
  command : Text
  script : Text
  isHead : Bool
  rpcEndpoints : List Value
  modelSource : Text
  modelPath : Text

/-- The fields of a plan that neither hold an environment nor a script. -/
structure PlanFields where
  deploymentId : Text
  recipeId : Text
  recipeName : Text
  name : Text
  engine : Text
  variant : Text
  imageRef : Text
  model : Text
  solo : Bool
  nodes : List Text
  nodeCount : Nat
  port : Int
  rendezvousPort : Option Int
  rpcPort : Option Int
  readinessPath : Text
  readinessUrl : Text
  metricsPath : Option Text
  mods : List Text
  params : List (Text × Value)
  extraArgs : List Text
  cacheMounts : List Text
  generation : Nat
  imagePresent : Bool
  imageSizeBytes : Option Int
  modelPresent : Bool
  modelSource : Text
  modelPath : Text
  servedModel : Text
  gpuMemoryUtilization : Option Value
  memoryBudget : List Value
  serves : Text
  workdir : Text
  warnings : List Text
  runtime : Text
  createdAt : Text

/-- The resolved, serialisable result of planning a deployment. -/
structure DeployPlan extends PlanFields Value where
  launchCommand : Text
  ranks : List LaunchScript
  container : ContainerSpec Value
  rankPlans : List (RankPlan Value)

end Plans

variable {Value : Type}

section ToDict

variable (alnum : Char → Bool)

/-- `_redact_rank`. -/
def LaunchScript.redactRank (l : LaunchScript) : LaunchScript :=
  { l with env := redactEnv l.env, script := redactScript alnum l.script }

def ContainerSpec.toDict (c : ContainerSpec Value) : ContainerSpec Value :=
  { c with env := redactEnv c.env }

def RankPlan.toDict (r : RankPlan Value) : RankPlan Value :=
  { r with container := r.container.toDict, script := redactScript alnum r.script }

def DeployPlan.toDict (p : DeployPlan Value) : DeployPlan Value :=
  { p with
    container := p.container.toDict
    rankPlans := p.rankPlans.map (RankPlan.toDict alnum)
    ranks := p.ranks.map (LaunchScript.redactRank alnum) }

end ToDict

/-! ### What a plan is put together from -/

/-- What is planned for one rank, before its script is rendered. -/
structure PlannedRank (Value : Type) where
  rank : Nat
  node : Text
  host : Text
  command : Text
  /-- The environment of the launch, which its script exports. -/
  env : Env
  container : ContainerSpec Value
  rpcEndpoints : List Value
  modelSource : Text
  modelPath : Text

def PlannedRank.launch (r : PlannedRank Value) : LaunchScript :=
  { nodeRank := r.rank, command := r.command, env := r.env, host := r.host,
    script := renderScript r.env r.command }

def PlannedRank.rankPlan (r : PlannedRank Value) : RankPlan Value :=
  { rank := r.rank, node := r.node, host := r.host, container := r.container
    command := r.command, script := r.launch.script, isHead := r.rank == 0
    rpcEndpoints := if r.rank = 0 then r.rpcEndpoints else []
    modelSource := if r.rank = 0 then r.modelSource else []
    modelPath := if r.rank = 0 then r.modelPath else [] }

/-- Everything a plan is made of: the head, which is rank zero, and the other ranks. -/
structure Planned (Value : Type) where
  fields : PlanFields Value
  head : PlannedRank Value
  workers : List (PlannedRank Value)

def Planned.ranks (p : Planned Value) : List (PlannedRank Value) := p.head :: p.workers

/-- The end of `plan`. -/
def Planned.plan (p : Planned Value) : DeployPlan Value :=
  { p.fields with
    launchCommand := p.head.launch.command
    ranks := p.ranks.map PlannedRank.launch
    container := p.head.container
    rankPlans := p.ranks.map PlannedRank.rankPlan }

/-! ## Plans that differ at credentials alone -/

/-- Two settings of a variable that are the same, or are of a credential. -/
def SettingLike (e e' : Text × Text) : Prop := e.1 = e'.1 ∧ (isSecretEnv e.1 = true ∨ e.2 = e'.2)

/-- Two environments that differ in the values of credentials alone. -/
def EnvLike : Env → Env → Prop := List.Forall₂ SettingLike

/-- Two ranks that differ in the values of credentials alone, in the script and in the container. -/
def PlannedRank.Like (r r' : PlannedRank Value) : Prop :=
  ∃ env containerEnv, EnvLike r.env env ∧ EnvLike r.container.env containerEnv ∧
    r' = { r with env, container := { r.container with env := containerEnv } }

/-- Two plans that differ in the values of credentials alone. -/
structure Planned.Like (p p' : Planned Value) : Prop where
  fields : p.fields = p'.fields
  ranks : List.Forall₂ PlannedRank.Like p.ranks p'.ranks

/-- A launch script that sets a credential. -/
def Planned.ExportsSecret (p : Planned Value) : Prop :=
  ∃ r ∈ p.ranks, ∃ e ∈ r.env, isSecretEnv e.1 = true

/-- An environment whose credentials are values of one line. -/
def OneLine (env : Env) : Prop := ∀ e ∈ env, isSecretEnv e.1 = true → '\n' ∉ e.2

/-- The value is the same, or is of one line and under a name that the pattern finds. -/
def SettingCovered (alnum : Char → Bool) (e e' : Text × Text) : Prop :=
  e.2 = e'.2 ∨ (hides alnum e.1 = true ∧ '\n' ∉ e.2)

def Planned.Covered (alnum : Char → Bool) (p p' : Planned Value) : Prop :=
  List.Forall₂ (fun r r' ↦ List.Forall₂ (SettingCovered alnum) r.env r'.env) p.ranks p'.ranks

/-! ## Scripts -/

section Scripts

variable {alnum : Char → Bool} {env env' : Env} {e e' : Text × Text} {command : Text}

theorem exportLine_getLast? (name value : Text) :
    ∀ c ∈ (exportLine name value).getLast?, c = '"' := by
  intro c hc
  rw [exportLine, ← List.cons_append, ← List.append_assoc, List.getLast?_concat] at hc
  exact (Option.mem_some.mp hc).symm

/-- What is shown of the lines that set a script's variables. -/
def shownExports (alnum : Char → Bool) (env : Env) : Text :=
  env.flatMap fun (name, value) ↦ redactScript alnum (exportLine name value) ++ ['\n']

theorem envExports_cons (e : Text × Text) (env : Env) :
    envExports (e :: env) = exportLine e.1 e.2 ++ '\n' :: envExports env := by
  rw [envExports, List.flatMap_cons, List.append_assoc]
  rfl

theorem shownExports_cons (e : Text × Text) (env : Env) : shownExports alnum (e :: env) =
    redactScript alnum (exportLine e.1 e.2) ++ '\n' :: shownExports alnum env := by
  rw [shownExports, List.flatMap_cons, List.append_assoc]
  rfl

/-- The variables of a script are redacted one by one. -/
theorem redactFrom_envExports (env : Env) (t : Text) :
    redactFrom alnum true 0 (envExports env ++ t) =
      shownExports alnum env ++ redactFrom alnum true 0 t := by
  induction env with
  | nil => rfl
  | cons e env ih =>
    rw [envExports_cons, shownExports_cons, List.append_assoc, List.cons_append,
      redactFrom_line (exportLine_getLast? e.1 e.2) true 0 (Nat.zero_le _), ih, List.append_assoc,
      List.cons_append, redactScript]

theorem redactFrom_scriptHeader (t : Text) :
    redactFrom alnum true 0 (scriptHeader ++ t) = scriptHeader ++ redactFrom alnum true 0 t := rfl

/-- Scripts that set as many variables and run one command are shown alike exactly when the settings
are. -/
theorem redactScript_renderScript (hempty : env = [] ↔ env' = []) :
    redactScript alnum (renderScript env command) = redactScript alnum (renderScript env' command) ↔
      shownExports alnum env = shownExports alnum env' := by
  have hif : (if env = [] then ([] : Text) else ['\n']) = if env' = [] then [] else ['\n'] := by
    simp only [hempty]
  rw [redactScript, redactScript, renderScript, renderScript, redactFrom_scriptHeader,
    redactFrom_scriptHeader, redactFrom_envExports, redactFrom_envExports, hif]
  constructor
  · exact fun h ↦ List.append_cancel_right (List.append_cancel_left h)
  · intro h
    rw [h]

/-- The lines of a text up to one and of the text after it. -/
theorem append_newline_inj {a b s t : Text} (hcount : a.count '\n' = b.count '\n') :
    a ++ '\n' :: s = b ++ '\n' :: t ↔ a = b ∧ s = t := by
  refine ⟨fun h ↦ ?_, fun ⟨hab, hst⟩ ↦ by rw [hab, hst]⟩
  induction a generalizing b with
  | nil =>
    cases b with
    | nil => simpa using h
    | cons d b =>
      rw [List.nil_append, List.cons_append] at h
      injection h with hd _
      subst hd
      simp at hcount
  | cons c a ih =>
    cases b with
    | nil =>
      rw [List.nil_append, List.cons_append] at h
      injection h with hc _
      subst hc
      simp at hcount
    | cons d b =>
      rw [List.cons_append, List.cons_append] at h
      injection h with hc htail
      subst hc
      have hcount' : a.count '\n' = b.count '\n' := by
        simpa [List.count_cons] using hcount
      obtain ⟨hab, hst⟩ := ih hcount' htail
      exact ⟨by rw [hab], hst⟩

/-- The lines shown of a setting are as many as its name and value have. -/
theorem count_exportLine (name value : Text) :
    (redactScript alnum (exportLine name value)).count '\n' =
      name.count '\n' + value.count '\n' := by
  rw [redactScript, count_redactFrom, List.drop_zero, exportLine, exportHead]
  simp [keyword]

theorem SettingLike.count_le (h : SettingLike e e') (hone : isSecretEnv e'.1 = true → '\n' ∉ e'.2) :
    e'.2.count '\n' ≤ e.2.count '\n' := by
  rcases h.2 with hsecret | hvalue
  · rw [h.1] at hsecret
    rw [List.count_eq_zero.mpr (hone hsecret)]
    exact Nat.zero_le _
  · rw [hvalue]

/-- Environments of which one has credentials of one line are shown on as many lines only if the
other one has, too. -/
theorem EnvLike.oneLine (h : EnvLike env env') (hone : OneLine env') :
    (shownExports alnum env').count '\n' ≤ (shownExports alnum env).count '\n' ∧
      ((shownExports alnum env).count '\n' = (shownExports alnum env').count '\n' →
        OneLine env) := by
  induction h with
  | nil => exact ⟨le_rfl, fun _ ↦ by simp [OneLine]⟩
  | @cons e e' env env' he _ ih =>
    rw [OneLine, List.forall_mem_cons] at hone
    obtain ⟨hle, honly⟩ := ih hone.2
    have hvalue := he.count_le hone.1
    have hname : e.1.count '\n' = e'.1.count '\n' := by rw [he.1]
    simp only [shownExports_cons, List.count_append, List.count_cons, count_exportLine]
    refine ⟨by omega, fun heq ↦ ?_⟩
    rw [OneLine, List.forall_mem_cons]
    refine ⟨fun hsecret ↦ ?_, honly (by omega)⟩
    rw [he.1] at hsecret
    have hzero : e'.2.count '\n' = 0 := List.count_eq_zero.mpr (hone.1 hsecret)
    exact List.count_eq_zero.mp (by omega)

/-- What is shown of two settings whose values, of credentials, are of one line. -/
theorem SettingLike.shown_eq_iff (h : SettingLike e e') (hone : isSecretEnv e.1 = true → '\n' ∉ e.2)
    (hone' : isSecretEnv e'.1 = true → '\n' ∉ e'.2) :
    redactScript alnum (exportLine e.1 e.2) = redactScript alnum (exportLine e'.1 e'.2) ↔
      SettingCovered alnum e e' := by
  obtain ⟨hname, hsecret | hvalue⟩ := h
  · rw [← hname] at hone' ⊢
    rw [redactScript_exportLine (hone hsecret) (hone' hsecret), SettingCovered]
    simp [hone hsecret]
  · rw [← hname, ← hvalue]
    exact iff_of_true rfl (.inl hvalue)

/-- What is shown of two environments whose credentials are values of one line. -/
theorem EnvLike.shown_eq_iff_of_oneLine (h : EnvLike env env') (hone : OneLine env)
    (hone' : OneLine env') : shownExports alnum env = shownExports alnum env' ↔
      List.Forall₂ (SettingCovered alnum) env env' := by
  induction h with
  | nil => exact iff_of_true rfl .nil
  | @cons e e' env env' he _ ih =>
    rw [OneLine, List.forall_mem_cons] at hone hone'
    have hcount : (redactScript alnum (exportLine e.1 e.2)).count '\n' =
        (redactScript alnum (exportLine e'.1 e'.2)).count '\n' := by
      rw [count_exportLine, count_exportLine, he.1]
      rcases he.2 with hsecret | hvalue
      · have hzero := List.count_eq_zero.mpr (hone.1 hsecret)
        rw [he.1] at hsecret
        rw [hzero, List.count_eq_zero.mpr (hone'.1 hsecret)]
      · rw [hvalue]
    rw [shownExports_cons, shownExports_cons, append_newline_inj hcount, ih hone.2 hone'.2,
      List.forall₂_cons, he.shown_eq_iff hone.1 hone'.1]

/-- A setting that is covered by one of one line is of one line. -/
theorem oneLine_of_covered (h : EnvLike env env') (hone : OneLine env')
    (hcovered : List.Forall₂ (SettingCovered alnum) env env') : OneLine env := by
  induction h with
  | nil => simp [OneLine]
  | @cons e e' env env' he _ ih =>
    rw [OneLine, List.forall_mem_cons] at hone ⊢
    rw [List.forall₂_cons] at hcovered
    refine ⟨fun hsecret ↦ ?_, ih hone.2 hcovered.2⟩
    rcases hcovered.1 with hvalue | ⟨-, hline⟩
    · rw [he.1] at hsecret
      rw [hvalue]
      exact hone.1 hsecret
    · exact hline

/-- **What is shown of two environments**, when the credentials of one are values of one line. -/
theorem EnvLike.shown_eq_iff (h : EnvLike env env') (hone : OneLine env') :
    shownExports alnum env = shownExports alnum env' ↔
      List.Forall₂ (SettingCovered alnum) env env' := by
  constructor
  · intro hshown
    have hone₀ : OneLine env := (h.oneLine hone).2 (by rw [hshown])
    exact (h.shown_eq_iff_of_oneLine hone₀ hone).mp hshown
  · exact fun hcovered ↦
      (h.shown_eq_iff_of_oneLine (oneLine_of_covered h hone hcovered) hone).mpr hcovered

end Scripts

/-! ## Dictionaries -/

section Dictionaries

variable {alnum : Char → Bool} {r r' : PlannedRank Value} {rs rs' : List (PlannedRank Value)}
  {p p' : Planned Value}

theorem EnvLike.redactEnv_eq {env env' : Env} (h : EnvLike env env') :
    redactEnv env = redactEnv env' := by
  induction h with
  | nil => rfl
  | @cons e e' env env' he _ ih =>
    obtain ⟨name, value⟩ := e
    obtain ⟨name', value'⟩ := e'
    obtain ⟨rfl, hsecret | rfl⟩ := he
    · simpa [redactEnv, hsecret] using ih
    · simpa [redactEnv] using ih

theorem EnvLike.nil_iff {env env' : Env} (h : EnvLike env env') : env = [] ↔ env' = [] := by
  cases h <;> simp

/-- What is shown of two launches that differ at credentials. -/
theorem PlannedRank.Like.script_eq_iff (h : r.Like r') :
    redactScript alnum r.launch.script = redactScript alnum r'.launch.script ↔
      shownExports alnum r.env = shownExports alnum r'.env := by
  obtain ⟨env, containerEnv, henv, -, rfl⟩ := h
  exact redactScript_renderScript henv.nil_iff

theorem PlannedRank.Like.redactRank_eq (h : r.Like r')
    (hscript : redactScript alnum r.launch.script = redactScript alnum r'.launch.script) :
    r.launch.redactRank alnum = r'.launch.redactRank alnum := by
  obtain ⟨env, containerEnv, henv, -, rfl⟩ := h
  rw [LaunchScript.redactRank, hscript, LaunchScript.redactRank]
  exact congrArg (fun e ↦ LaunchScript.mk r.rank r.command e r.host _) henv.redactEnv_eq

theorem PlannedRank.Like.container_eq (h : r.Like r') :
    r.container.toDict = r'.container.toDict := by
  obtain ⟨env, containerEnv, -, hcontainer, rfl⟩ := h
  rw [ContainerSpec.toDict, hcontainer.redactEnv_eq]
  rfl

theorem PlannedRank.Like.rankPlan_eq (h : r.Like r')
    (hscript : redactScript alnum r.launch.script = redactScript alnum r'.launch.script) :
    r.rankPlan.toDict alnum = r'.rankPlan.toDict alnum := by
  have hcontainer := h.container_eq
  obtain ⟨env, containerEnv, -, -, rfl⟩ := h
  rw [RankPlan.toDict, RankPlan.toDict]
  simp only [rankPlan, hcontainer, hscript]

/-- Lists of ranks that differ at credentials are shown alike exactly when each script is. -/
theorem map_redactRank_eq_iff (h : List.Forall₂ PlannedRank.Like rs rs') :
    (rs.map PlannedRank.launch).map (LaunchScript.redactRank alnum) =
        (rs'.map PlannedRank.launch).map (LaunchScript.redactRank alnum) ↔
      List.Forall₂ (fun r r' ↦ shownExports alnum r.env = shownExports alnum r'.env) rs rs' := by
  induction h with
  | nil => simp
  | cons hr _ ih =>
    rw [List.map_cons, List.map_cons, List.map_cons, List.map_cons, List.cons_eq_cons, ih,
      List.forall₂_cons, ← hr.script_eq_iff]
    exact and_congr_left fun _ ↦ ⟨congrArg LaunchScript.script, hr.redactRank_eq⟩

theorem map_rankPlan_eq (h : List.Forall₂ PlannedRank.Like rs rs')
    (hshown : List.Forall₂ (fun r r' ↦ shownExports alnum r.env = shownExports alnum r'.env)
      rs rs') :
    (rs.map PlannedRank.rankPlan).map (RankPlan.toDict alnum) =
      (rs'.map PlannedRank.rankPlan).map (RankPlan.toDict alnum) := by
  induction h with
  | nil => rfl
  | cons hr _ ih =>
    rw [List.forall₂_cons] at hshown
    rw [List.map_cons, List.map_cons, List.map_cons, List.map_cons, ih hshown.2,
      hr.rankPlan_eq (hr.script_eq_iff.mpr hshown.1)]

/-- Plans that differ at credentials are shown alike exactly when what their scripts set is. -/
theorem Planned.Like.toDict_eq_iff (h : p.Like p') :
    p.plan.toDict alnum = p'.plan.toDict alnum ↔
      List.Forall₂ (fun r r' ↦ shownExports alnum r.env = shownExports alnum r'.env)
        p.ranks p'.ranks := by
  rw [← map_redactRank_eq_iff h.ranks]
  constructor
  · exact fun heq ↦ congrArg DeployPlan.ranks heq
  · intro heq
    have hplans := map_rankPlan_eq h.ranks ((map_redactRank_eq_iff h.ranks).mp heq)
    obtain ⟨hhead, -⟩ := List.forall₂_cons.mp h.ranks
    have hcommand : p.head.command = p'.head.command := by
      obtain ⟨_, _, -, -, hsame⟩ := hhead
      rw [hsame]
    simp only [DeployPlan.toDict, Planned.plan, PlannedRank.launch, h.fields, hhead.container_eq,
      hcommand] at heq hplans ⊢
    rw [heq, hplans]

/-- **What is shown of two plans** that differ at credentials, when those of one are of one line. -/
theorem Planned.Like.toDict_eq_iff_covered (h : p.Like p') (hone : ∀ r ∈ p'.ranks, OneLine r.env) :
    p.plan.toDict alnum = p'.plan.toDict alnum ↔ p.Covered alnum p' := by
  rw [h.toDict_eq_iff, Planned.Covered]
  have hranks := h.ranks
  generalize p.ranks = rs at hranks
  generalize p'.ranks = rs' at hone hranks
  induction hranks with
  | nil => exact iff_of_true .nil .nil
  | cons hr _ ih =>
    rw [List.forall_mem_cons] at hone
    obtain ⟨env, containerEnv, henv, -, rfl⟩ := hr
    rw [List.forall₂_cons, List.forall₂_cons]
    exact and_congr (henv.shown_eq_iff hone.1) (ih hone.2)

/-! ## Plans with other credentials -/

/-- An environment whose credentials have another value. -/
def fillEnv (value : Text) (env : Env) : Env :=
  env.map fun e ↦ (e.1, if isSecretEnv e.1 then value else e.2)

def PlannedRank.fill (value : Text) (r : PlannedRank Value) : PlannedRank Value :=
  { r with env := fillEnv value r.env }

def Planned.fill (value : Text) (p : Planned Value) : Planned Value :=
  { p with head := p.head.fill value, workers := p.workers.map (PlannedRank.fill value) }

theorem envLike_refl (env : Env) : EnvLike env env :=
  List.forall₂_same.mpr fun _ _ ↦ ⟨rfl, .inr rfl⟩

theorem envLike_fillEnv (value : Text) (env : Env) : EnvLike env (fillEnv value env) := by
  rw [EnvLike, fillEnv, List.forall₂_map_right_iff, List.forall₂_same]
  intro e _
  refine ⟨rfl, ?_⟩
  by_cases hsecret : isSecretEnv e.1 = true
  · exact .inl hsecret
  · exact .inr (if_neg hsecret).symm

theorem ranks_fill (value : Text) (p : Planned Value) :
    (p.fill value).ranks = p.ranks.map (PlannedRank.fill value) := rfl

theorem like_fill (value : Text) (p : Planned Value) : p.Like (p.fill value) where
  fields := rfl
  ranks := by
    rw [ranks_fill, List.forall₂_map_right_iff, List.forall₂_same]
    exact fun r _ ↦ ⟨fillEnv value r.env, r.container.env, envLike_fillEnv value r.env,
      envLike_refl _, rfl⟩

/-- Of a script that sets a credential, more lines are shown when its value has another line. -/
theorem count_shownExports_fillEnv (env : Env) :
    (shownExports alnum (fillEnv [] env)).count '\n' +
        env.countP (fun e ↦ isSecretEnv e.1) =
      (shownExports alnum (fillEnv ['\n'] env)).count '\n' := by
  induction env with
  | nil => rfl
  | cons e env ih =>
    rw [fillEnv, List.map_cons, shownExports_cons, fillEnv, List.map_cons, shownExports_cons]
    rw [fillEnv, fillEnv] at ih
    simp only [List.count_append, List.count_cons, count_exportLine, List.countP_cons]
    by_cases hsecret : isSecretEnv e.1 = true <;> simp [hsecret] <;> omega

/-- Environments without a credential do not differ. -/
theorem EnvLike.eq_of_forall {env env' : Env} (h : EnvLike env env')
    (hnone : ∀ e ∈ env, isSecretEnv e.1 = false) : env = env' := by
  induction h with
  | nil => rfl
  | cons he _ ih =>
    rw [List.forall_mem_cons] at hnone
    obtain ⟨hname, hsecret | hvalue⟩ := he
    · rw [hnone.1] at hsecret
      cases hsecret
    · rw [Prod.ext hname hvalue, ih hnone.2]

/-- **Which plans show nothing of their credentials**, whatever their values are: those whose
scripts do not set one. -/
theorem Planned.toDict_eq_of_like_iff (p : Planned Value) :
    (∀ p', p.Like p' → p.plan.toDict alnum = p'.plan.toDict alnum) ↔ ¬p.ExportsSecret := by
  constructor
  · rintro hall ⟨r, hr, e, he, hsecret⟩
    have hshown : ∀ value, shownExports alnum r.env = shownExports alnum (fillEnv value r.env) := by
      intro value
      have := (like_fill value p).toDict_eq_iff.mp (hall _ (like_fill value p))
      rw [ranks_fill, List.forall₂_map_right_iff, List.forall₂_same] at this
      exact this r hr
    have hcount := @count_shownExports_fillEnv alnum r.env
    rw [← hshown, ← hshown] at hcount
    have hpos : 0 < r.env.countP (fun e ↦ isSecretEnv e.1) :=
      List.countP_pos_iff.mpr ⟨e, he, hsecret⟩
    omega
  · intro hnone p' hlike
    have hnone' : ∀ r ∈ p.ranks, ∀ e ∈ r.env, isSecretEnv e.1 = false := fun r hr e he ↦
      Bool.eq_false_iff.mpr fun hsecret ↦ hnone ⟨r, hr, e, he, hsecret⟩
    refine hlike.toDict_eq_iff.mpr ?_
    have hranks := hlike.ranks
    generalize p.ranks = rs at hranks hnone'
    generalize p'.ranks = rs' at hranks
    induction hranks with
    | nil => exact .nil
    | cons hr _ ih =>
      rw [List.forall_mem_cons] at hnone'
      refine .cons ?_ (ih hnone'.2)
      obtain ⟨env, containerEnv, henv, -, rfl⟩ := hr
      rw [henv.eq_of_forall hnone'.1]

/-! ## What a client learns -/

/-- **What a plan shows of its credentials.** Plans that differ at credentials alone are all shown
alike exactly when no script sets one. Beside a plan whose credentials are of one line, another is
shown alike exactly when each credential that a script sets is the same, or is of one line and has a
name that the pattern finds. -/
theorem Planned.shown_iff (alnum : Char → Bool) (p : Planned Value) :
    ((∀ p', p.Like p' → p.plan.toDict alnum = p'.plan.toDict alnum) ↔ ¬p.ExportsSecret) ∧
      ∀ p', p.Like p' → (∀ r ∈ p'.ranks, OneLine r.env) →
        (p.plan.toDict alnum = p'.plan.toDict alnum ↔ p.Covered alnum p') :=
  ⟨p.toDict_eq_of_like_iff, fun _ hlike hone ↦ hlike.toDict_eq_iff_covered hone⟩

end Dictionaries

/-! ### A key of two lines -/

private def emptyFields : PlanFields Unit where
  deploymentId := []
  recipeId := []
  recipeName := []
  name := []
  engine := []
  variant := []
  imageRef := []
  model := []
  solo := true
  nodes := []
  nodeCount := 1
  port := 8000
  rendezvousPort := none
  rpcPort := none
  readinessPath := []
  readinessUrl := []
  metricsPath := none
  mods := []
  params := []
  extraArgs := []
  cacheMounts := []
  generation := 1
  imagePresent := true
  imageSizeBytes := none
  modelPresent := true
  modelSource := []
  modelPath := []
  servedModel := []
  gpuMemoryUtilization := none
  memoryBudget := []
  serves := []
  workdir := []
  warnings := []
  runtime := []
  createdAt := []

/-- A run on one node whose recipe sets a credential. -/
private def withKey (key : String) : Planned Unit :=
  let env : Env := [("API_KEY".toList, key.toList)]
  { fields := emptyFields
    head :=
      { rank := 0, node := [], host := [], command := "serve".toList, env
        container :=
          { image := [], name := [], command := [], env, labels := [], mounts := []
            privileged := true, ipcHost := true, networkHost := true, shmSizeGb := ()
            devices := [], capAdd := [], ulimits := [], memoryLimitGb := none
            pidsLimit := 4096, nofileLimit := 1048576, portMappings := []
            entrypointClear := true, user := none }
        rpcEndpoints := [], modelSource := [], modelPath := [] }
    workers := [] }

private theorem withKey_like (key key' : String) : (withKey key).Like (withKey key') := by
  have henv : EnvLike [("API_KEY".toList, key.toList)] [("API_KEY".toList, key'.toList)] :=
    .cons ⟨rfl, .inl (show isSecretEnv "API_KEY".toList = true by decide +kernel)⟩ .nil
  exact ⟨rfl, .cons ⟨_, _, henv, henv, rfl⟩ .nil⟩

/-- Two keys that differ on their second line are told apart by the plans that are shown. -/
theorem second_line_shown : (withKey "begin\nA").Like (withKey "begin\nB") ∧
    (withKey "begin\nA").plan.toDict (fun _ ↦ false) ≠
      (withKey "begin\nB").plan.toDict (fun _ ↦ false) := by
  refine ⟨withKey_like _ _, fun h ↦ ?_⟩
  have hscripts := congrArg (fun p ↦ p.ranks.map LaunchScript.script) h
  revert hscripts
  decide +kernel

/-- Keys of one line are not. -/
theorem one_line_hidden : (withKey "A").plan.toDict (fun _ ↦ false) =
    (withKey "B").plan.toDict (fun _ ↦ false) := by
  refine ((Planned.shown_iff (fun _ ↦ false) (withKey "A")).2 _ (withKey_like _ _) ?_).mpr ?_
  · exact List.forall_mem_singleton.mpr (List.forall_mem_singleton.mpr fun _ ↦ by decide)
  · exact .cons (.cons (.inr ⟨by decide +kernel, by decide⟩) .nil) .nil

end SparkPulse.Preview
