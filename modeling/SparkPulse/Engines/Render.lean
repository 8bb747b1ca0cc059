import SparkPulse.Engines.Format

/-!
# A rank's launch, as the vLLM engine renders it

`VllmEngine.render`: a recipe's payload, a topology and a rank become a command, an environment and
a script. A v1 recipe's command is a template, filled in; a recipe without one has its parameters
mapped to flags. Every size gets the rendezvous flags, and no size keeps a Ray backend.
-/

namespace SparkPulse.Engines

open Recipes (Text trim)
open SparkPulse.Runtime (isSpace)

/-! ## Texts of commands -/

def backendFlag : Text := "--distributed-executor-backend".toList

/-- The length of what `_DEB_RE` finds at the start of a text. -/
def findBackend (s : Text) : Option ℕ :=
  let blanks := s.takeWhile isSpace
  let flag := s.dropWhile isSpace
  if backendFlag <+: flag then
    let after := flag.drop backendFlag.length
    let gap := if after.head? = some '=' then ['='] else after.takeWhile isSpace
    let word := (after.drop gap.length).takeWhile fun c ↦ !isSpace c
    if gap = [] ∨ word = [] then none
    else some (blanks.length + backendFlag.length + gap.length + word.length)
  else none

/-- `_DEB_RE.sub("", s)` from a place in a text; so many of the letters there are of a match. -/
def dropBackends : ℕ → Text → Text
  | _, [] => []
  | skip + 1, _ :: s => dropBackends skip s
  | 0, c :: s =>
    match findBackend (c :: s) with
    | some size => dropBackends (size - 1) s
    | none => c :: dropBackends 0 s

/-- `strip_distributed_executor_backend` -/
def stripDistributedExecutorBackend (command : Text) : Text :=
  trim isSpace (dropBackends 0 command)

/-- Letters that a shell takes as they are. -/
def isShellSafe (c : Char) : Bool := c.isAlphanum || c ∈ "_@%+=:,./-".toList

/-- `shlex.quote` -/
def shellQuote (s : Text) : Text :=
  if s = [] then "''".toList
  else if s.all isShellSafe then s
  else '\'' :: (s.flatMap fun c ↦ if c = '\'' then "'\"'\"'".toList else [c]) ++ ['\'']

/-- Whether `_RUNNER_RE` matches after a letter, or at the start of a text. -/
def hasRunner : Bool → Text → Bool
  | _, [] => false
  | start, c :: s =>
    let flag := "--runner".toList
    let after := (c :: s).drop flag.length
    (start && flag <+: c :: s && (after = [] || after.head?.any fun c ↦ c = '=' || isSpace c)) ||
      hasRunner (isSpace c) s

/-- Join words with a blank. -/
def joinWords (words : List Text) : Text := List.intercalate [' '] words

/-! ## Topologies -/

/-- One node of a launch. -/
structure NodeInfo where
  host : Text
  ip : Text := []
  ethIf : Text := []
  ibIf : Text := []
  /-- It is cabled as the switchless mesh. -/
  mesh : Bool := false

def NodeInfo.address (n : NodeInfo) : Text := if n.ip = [] then n.host else n.ip

/-- The nodes of a launch, of which the first is the head. -/
structure Topology where
  head : NodeInfo
  workers : List NodeInfo := []

def Topology.nodes (t : Topology) : List NodeInfo := t.head :: t.workers

def Topology.size (t : Topology) : ℕ := t.nodes.length

/-! ## Environments -/

/-- An environment, in the order of its insertions. -/
abbrev Env := List (Text × Text)

/-- Set a variable in its place, or at the end. -/
def Env.set (env : Env) (name value : Text) : Env :=
  if name ∈ env.map Prod.fst then
    env.map fun e ↦ if e.1 = name then (name, value) else e
  else env ++ [(name, value)]

/-- `dict.update` -/
def Env.update (env more : Env) : Env := more.foldl (fun env e ↦ env.set e.1 e.2) env

/-! ## Engines and recipes -/

/-- What an engine's own file says of it, as far as rendering goes. -/
structure EngineRuntime where
  serve : Text := []
  env : Env := []
  /-- The flag of a parameter. -/
  paramFlags : List (Text × Text) := []
  rendezvous : Option ℕ := none

/-- The block of one engine in a recipe. -/
structure EngineBlock (V : Type) where
  image : Option Text := none
  mods : List Text := []
  env : List (Text × V) := []
  args : Text := []
  command : Option Text := none

/-- A recipe as the API serves it. -/
structure Payload (V : Type) where
  name : Text
  model : Text
  container : Text
  command : Text
  mods : List Text := []
  defaults : Dict V
  params : Dict V
  env : List (Text × V) := []
  soloOnly : Bool := false
  clusterOnly : Bool := false
  minNodes : Option ℕ := none
  engine : Option Text := none
  engines : List Text := []
  engineSpecs : List (Text × EngineBlock V) := []
  serves : Text

def vllm : Text := "vllm".toList

def chat : Text := "chat".toList

def embedding : Text := "embedding".toList

variable {Double Other : Type} {V : Type}

/-- `supports`, of the vLLM engine. -/
def Payload.supported (recipe : Payload V) : Bool :=
  let command := trim isSpace recipe.command
  let named := recipe.engine.filter (· ≠ [])
  let pin := named.or (if command = [] then none else some vllm)
  let declared := if recipe.engines ≠ [] then recipe.engines else recipe.engineSpecs.map Prod.fst
  let kind := if recipe.serves = [] then chat else recipe.serves
  let written := command = [] || pin = some vllm
  let offered := if declared ≠ [] then vllm ∈ declared else pin.all (· = vllm)
  written && offered && (kind = chat || kind = embedding)

/-- `_engine_block`, of the vLLM engine. -/
def Payload.engineBlock (recipe : Payload V) : Option (EngineBlock V) :=
  recipe.engineSpecs.lookup vllm

/-- `block_mods` -/
def Payload.blockMods (recipe : Payload V) : List Text :=
  match recipe.engineBlock with
  | some block => block.mods
  | none => recipe.mods

section Render

variable (py : Python Double Other)

/-- `_block_env` -/
def Payload.blockEnv (recipe : Payload (Value Double Other)) : Env :=
  let source := match recipe.engineBlock with
    | some block => block.env
    | none => recipe.env
  source.map fun e ↦ (e.1, py.str e.2)

/-- `_block_args` -/
def Payload.blockArgs (recipe : Payload V) : Text :=
  match recipe.engineBlock with
  | some block => block.args
  | none => []

/-- `{k: v for k, v in params.items() if v is not None}` -/
def given (params : Dict (Value Double Other)) : Dict (Value Double Other) := fun key ↦
  match params key with
  | some .null => none
  | value => value

/-- `_resolved_params`: the overrides win, and then the recipe's own. -/
def Payload.resolvedParams (recipe : Payload (Value Double Other))
    (params : Dict (Value Double Other)) : Dict (Value Double Other) := fun key ↦
  (given params key).or ((recipe.params key).or (recipe.defaults key))

/-- `_resolved_model` -/
def Payload.resolvedModel (recipe : Payload V) (model : Text) : Option Text :=
  let resolved := if model ≠ [] then model else recipe.model
  if resolved = [] ∨ resolved = "unknown".toList then none else some resolved

/-- Order in which parameters become flags. -/
def paramOrder : List Text :=
  ["model", "host", "port", "tensor_parallel", "pipeline_parallel", "gpu_memory_utilization",
    "max_model_len", "max_num_batched_tokens", "max_num_seqs"].map String.toList

/-- `_flag_args` -/
def flagArgs (engine : EngineRuntime) (params : Dict (Value Double Other)) : List Text :=
  let flags := engine.paramFlags.map Prod.fst
  let keys := paramOrder.filter (· ∈ flags) ++ flags.filter (· ∉ paramOrder)
  keys.flatMap fun key ↦
    match params key, engine.paramFlags.lookup key with
    | none, _ | some .null, _ | some (.str []), _ | _, none => []
    | some value, some flag => [flag, py.str value]

/-- `_render_v2` -/
def renderV2 (engine : EngineRuntime) (recipe : Payload (Value Double Other)) (model : Text)
    (params : Dict (Value Double Other)) : Option Text := do
  let resolved ← recipe.resolvedModel model
  let serve := if engine.serve = [] then "vllm serve".toList else engine.serve
  let parts := [serve, resolved] ++ flagArgs py engine params
  if recipe.blockArgs = [] then
    return joinWords parts
  let args ← formatCommand py (foldContinuations recipe.blockArgs) params
  return joinWords (parts ++ [args])

/-- `_runner_args` -/
def runnerArgs (serves rendered : Text) : Text :=
  if serves = embedding ∧ !hasRunner true rendered then "--runner pooling".toList else []

/-- The decimal text of a natural number. -/
def natText (n : ℕ) : Text := Nat.toDigits 10 n

/-- `_rendezvous_args` -/
def rendezvousArgs (engine : EngineRuntime) (topology : Topology) (rank : ℕ) : Text :=
  let port := match engine.rendezvous with
    | none | some 0 => 29501
    | some port => port
  joinWords (["--nnodes".toList, natText topology.size, "--node-rank".toList, natText rank,
    "--master-addr".toList, topology.head.address, "--master-port".toList, natText port] ++
    if 0 < rank then ["--headless".toList] else [])

/-- `_fabric_env` -/
def fabricEnv (ethIf ibIf : Text) : Env :=
  (if ethIf = [] then []
    else ["MN_IF_NAME", "UCX_NET_DEVICES", "NCCL_SOCKET_IFNAME", "OMPI_MCA_btl_tcp_if_include",
      "GLOO_SOCKET_IFNAME", "TP_SOCKET_IFNAME"].map fun name ↦ (name.toList, ethIf)) ++
  if ibIf = [] then [] else [("NCCL_IB_HCA".toList, ibIf)]

/-- `MESH_NCCL_ENV` -/
def meshNcclEnv : Env :=
  [("NCCL_NET_PLUGIN", "none"), ("NCCL_IB_SUBNET_AWARE_ROUTING", "1"),
    ("NCCL_IB_MERGE_NICS", "0")].map fun e ↦ (e.1.toList, e.2.toList)

/-- `pinning_env` -/
def pinningEnv (ethIf ibIf : Text) (nodeCount : ℕ) (mesh : Bool) : Env :=
  if nodeCount ≤ 1 then [("GLOO_SOCKET_IFNAME".toList, "lo".toList)]
  else if mesh then Env.update (fabricEnv ethIf ibIf) meshNcclEnv
  else fabricEnv ethIf ibIf

/-- `base_env` -/
def baseEnv (engine : EngineRuntime) (node : NodeInfo) (nodeCount : ℕ) : Env :=
  let env : Env := if node.ip = [] then [] else [("VLLM_HOST_IP".toList, node.ip)]
  let env := env.set "NCCL_IB_DISABLE".toList "0".toList
  let env := env.update (pinningEnv node.ethIf node.ibIf nodeCount node.mesh)
  env.update engine.env

/-- A rendered launch of one rank. -/
structure LaunchScript where
  nodeRank : ℕ
  host : Text
  command : Text
  env : Env
  script : Text
  deriving DecidableEq

/-- `_script` -/
def launchText (env : Env) (command : Text) : Text :=
  let exports := env.map fun e ↦ "export ".toList ++ e.1 ++ "=\"".toList ++ e.2 ++ ['"']
  let gap : List Text := if env = [] then [] else [[]]
  List.intercalate ['\n'] (["#!/usr/bin/env bash".toList, "set -euo pipefail".toList, []] ++
    exports ++ gap ++ [command]) ++ ['\n']

/-- The command of a recipe, before anything is appended to it. -/
def recipeCommand (engine : EngineRuntime) (recipe : Payload (Value Double Other)) (model : Text)
    (params : Dict (Value Double Other)) : Option Text :=
  if trim isSpace recipe.command ≠ [] then
    formatCommand py (foldContinuations recipe.command) params
  else renderV2 py engine recipe model params

/-- The whole command of a rank. -/
def rankCommand (engine : EngineRuntime) (serves command : Text) (extraArgs : List Text)
    (topology : Topology) (rank : ℕ) : Text :=
  let command := stripDistributedExecutorBackend command
  let tail := joinWords (extraArgs.map shellQuote)
  let runner := runnerArgs serves (command ++ ' ' :: tail)
  let command := if runner = [] then command else command ++ ' ' :: runner
  let command := command ++ ' ' :: rendezvousArgs engine topology rank
  let command := if tail = [] then command else command ++ ' ' :: tail
  trim isSpace command

/-- `render`; nothing where it raises. -/
def render (engine : EngineRuntime) (recipe : Payload (Value Double Other)) (model : Text)
    (params : Dict (Value Double Other)) (extraArgs : List Text) (topology : Topology) (rank : ℤ) :
    Option LaunchScript := do
  if !recipe.supported then
    none
  else
    let node ← if rank < 0 then none else topology.nodes[rank.toNat]?
    let command ← recipeCommand py engine recipe model (recipe.resolvedParams params)
    let command := rankCommand engine recipe.serves command extraArgs topology rank.toNat
    let env := (baseEnv engine node topology.size).update (recipe.blockEnv py)
    return { nodeRank := rank.toNat, host := node.host, command, env
             script := launchText env command }

end Render

/-! ## What a launch depends on -/

section Congruence

variable {py : Python Double Other} {params params' : Dict (Value Double Other)}
  {recipe recipe' : Payload (Value Double Other)} {engine : EngineRuntime}

/-- A name that a template of one line can look up. -/
def IsParam (py : Python Double Other) : Text → Prop := IsKey py fun c ↦ isLineBreak c = false

theorem given_congr {key : Text} (h : params key = params' key) :
    given params key = given params' key := by
  rw [given, given, h]

theorem formatCommand_congr (hparams : ∀ key, IsParam py key → params key = params' key)
    (command : Text) : formatCommand py (foldContinuations command) params =
      formatCommand py (foldContinuations command) params' :=
  fill_congr hparams isLineBreak_of_mem_foldContinuations 2

/-- A parameter that is null has no flag, like one that is not there. -/
theorem flagArgs_congr (hgiven : ∀ key, given params key = given params' key) :
    flagArgs py engine params = flagArgs py engine params' := by
  have hflag : ∀ (params : Dict (Value Double Other)) key,
      (match params key, engine.paramFlags.lookup key with
        | none, _ | some .null, _ | some (.str []), _ | _, none => []
        | some value, some flag => [flag, py.str value]) =
      match given params key, engine.paramFlags.lookup key with
        | none, _ | some .null, _ | some (.str []), _ | _, none => []
        | some value, some flag => [flag, py.str value] := by
    intro params key
    rw [given]
    rcases params key with _ | (_ | _ | _ | _ | _ | _ | _) <;> rfl
  unfold flagArgs
  dsimp only
  congr 1
  funext key
  rw [hflag params key, hflag params' key, hgiven key]

theorem recipeCommand_congr (hcommand : recipe.command = recipe'.command)
    (hmodel : recipe.model = recipe'.model) (hargs : recipe.blockArgs = recipe'.blockArgs)
    (hgiven : ∀ key, given params key = given params' key)
    (hparams : ∀ key, IsParam py key → params key = params' key) (model : Text) :
    recipeCommand py engine recipe model params = recipeCommand py engine recipe' model params' := by
  have hresolved : recipe.resolvedModel model = recipe'.resolvedModel model := by
    rw [Payload.resolvedModel, Payload.resolvedModel, hmodel]
  rw [recipeCommand, recipeCommand, hcommand, formatCommand_congr hparams, renderV2, renderV2,
    hresolved, hargs, flagArgs_congr hgiven, formatCommand_congr hparams]

theorem render_congr (hsupported : recipe.supported = recipe'.supported)
    (hserves : recipe.serves = recipe'.serves) (henv : recipe.blockEnv py = recipe'.blockEnv py)
    {model : Text} {given : Dict (Value Double Other)}
    (hcommand : recipeCommand py engine recipe model (recipe.resolvedParams given) =
      recipeCommand py engine recipe' model (recipe'.resolvedParams given))
    (extraArgs : List Text) (topology : Topology) (rank : ℤ) :
    render py engine recipe model given extraArgs topology rank =
      render py engine recipe' model given extraArgs topology rank := by
  rw [render, render, hsupported, hserves, henv, hcommand]

end Congruence

end SparkPulse.Engines
