import Mathlib.Data.Char
import Mathlib.Data.List.Induction
import Mathlib.Data.List.Lex
import Mathlib.Data.List.Sort
import SparkPulse.Engines.Render
import SparkPulse.Network.Address

/-!
# Converting a recipe to the second format

`to_v2` of `tools/recipe_schema.py` moves the command of a v1 recipe into a block for its engine and
its defaults into parameters that are checked. Both formats are then served in one shape, and the
engine renders that. The block, the environment and the constraints arrive as they were. So do the
defaults, when each is a value of the type that its parameter is declared with, and none is null.

How pydantic reads values of other types is a parameter.
-/

namespace SparkPulse.Recipes

open Engines

/-! ## Parameters -/

/-- How pydantic reads a value as one of a declared type, in its lax mode; nothing where it refuses
to. -/
structure Pydantic (Double Other : Type) where
  readInt : Value Double Other → Option ℤ
  readFloat : Value Double Other → Option Double
  readStr : Value Double Other → Option Text
  /-- Above zero and at most one. -/
  isFraction : Double → Bool
  readInt_int : ∀ n, readInt (.int n) = some n
  readInt_bool : ∀ b, readInt (.bool b) = some b.toInt
  readInt_other : ∀ o, readInt (.other o) = none
  readFloat_float : ∀ x, readFloat (.float x) = some x
  readFloat_other : ∀ o, readFloat (.other o) = none
  readStr_str : ∀ t, readStr (.str t) = some t
  readStr_bool : ∀ b, readStr (.bool b) = none
  readStr_int : ∀ n, readStr (.int n) = none
  readStr_float : ∀ x, readStr (.float x) = none
  readStr_other : ∀ o, readStr (.other o) = none

/-- The declared types of the known parameters, each of which may also be null. -/
inductive ParamKind
  /-- At least one, and no more than a bound. -/
  | int (bound : Option ℤ)
  | fraction
  | str
  deriving DecidableEq, Repr

/-- The fields of `RecipeParams`. -/
def knownParams : List (Text × ParamKind) :=
  [("port", .int (some 65535)), ("host", .str), ("tensor_parallel", .int none),
    ("pipeline_parallel", .int none), ("gpu_memory_utilization", .fraction),
    ("max_model_len", .int none), ("max_num_batched_tokens", .int none),
    ("max_num_seqs", .int none)].map fun e ↦ (e.1.toList, e.2)

variable {Double Other : Type} (pydantic : Pydantic Double Other)

/-- A value of a known parameter, checked. -/
def ParamKind.read : ParamKind → Value Double Other → Option (Value Double Other)
  | _, .null => some .null
  | .int bound, v =>
    ((pydantic.readInt v).filter fun n ↦ 1 ≤ n ∧ bound.all (n ≤ ·)).map .int
  | .fraction, v => ((pydantic.readFloat v).filter pydantic.isFraction).map .float
  | .str, v => (pydantic.readStr v).map .str

/-- Values that are of the type already. -/
def ParamKind.Typed : ParamKind → Value Double Other → Prop
  | .int _, v => ∃ n, v = .int n
  | .fraction, v => ∃ x, v = .float x
  | .str, v => ∃ t, v = .str t

/-- The parameters of a v2 recipe: the known ones, null where they are not set, and the others. -/
structure RecipeParams (Double Other : Type) where
  known : List (Text × Value Double Other)
  extra : Dict (Value Double Other)

/-- `RecipeParams.model_validate` -/
def RecipeParams.validate (defaults : Dict (Value Double Other)) :
    Option (RecipeParams Double Other) := do
  let known ← knownParams.mapM fun e ↦
    (e.2.read pydantic ((defaults e.1).getD .null)).map fun v ↦ (e.1, v)
  let extra : Dict (Value Double Other) := fun key ↦
    if (knownParams.lookup key).isSome then none else defaults key
  return { known, extra }

/-- `as_dict`: the parameters that are set. -/
def RecipeParams.asDict (p : RecipeParams Double Other) : Dict (Value Double Other) :=
  given fun key ↦ (p.known.lookup key).or (p.extra key)

/-! ## Recipes -/

/-- A v1 recipe, as the loader reads it. -/
structure RecipeV1 (Double Other : Type) where
  name : Text
  container : Text := "vllm-node".toList
  command : Text := []
  model : Option Text := none
  description : Text := []
  mods : List Text := []
  buildArgs : List Text := []
  defaults : Dict (Value Double Other) := fun _ ↦ none
  env : List (Text × Value Double Other) := []
  soloOnly : Bool := false
  clusterOnly : Bool := false

/-- The block of one engine in a v2 recipe. -/
structure EngineSpec (Double Other : Type) where
  image : Option Text := none
  mods : List Text := []
  env : List (Text × Value Double Other) := []
  args : Option (Text ⊕ List Text) := none
  command : Option Text := none

def EngineSpec.argsString (spec : EngineSpec Double Other) : Text :=
  match spec.args with
  | none => []
  | some (.inl args) => args
  | some (.inr args) => joinWords args

structure RecipeV2 (Double Other : Type) where
  name : Text
  model : Text
  description : Text := []
  engine : Option Text := none
  serves : Text := chat
  soloOnly : Bool := false
  clusterOnly : Bool := false
  minNodes : Option ℕ := none
  params : RecipeParams Double Other
  engines : List (Text × EngineSpec Double Other) := []
  command : Option Text := none

/-- `text or None` -/
def nonempty? (t : Text) : Option Text := if t = [] then none else some t

/-- `to_v2`; nothing where the defaults are refused. -/
def toV2 (recipe : RecipeV1 Double Other) : Option (RecipeV2 Double Other) := do
  let params ← RecipeParams.validate pydantic recipe.defaults
  let spec : EngineSpec Double Other := {
    image := nonempty? recipe.container, mods := recipe.mods, env := recipe.env
    command := nonempty? recipe.command }
  return {
    name := recipe.name, model := recipe.model.getD [], description := recipe.description
    engine := some vllm, soloOnly := recipe.soloOnly, clusterOnly := recipe.clusterOnly
    params, engines := [(vllm, spec)] }

/-- `engine_names`: the preferred engine first. -/
def RecipeV2.engineNames (recipe : RecipeV2 Double Other) : List Text :=
  let names := (recipe.engines.map Prod.fst).insertionSort (· ≤ ·)
  match recipe.engine.filter (· ≠ []) with
  | none => names
  | some engine => engine :: names.filter (· ≠ engine)

/-- `engine_spec`, of the recipe's own engine. -/
def RecipeV2.engineSpec (recipe : RecipeV2 Double Other) : Option (EngineSpec Double Other) :=
  (recipe.engine.or recipe.engineNames.head?).bind fun name ↦ recipe.engines.lookup name

def defaultContainer : Text := "vllm-node".toList

def unknownModel : Text := "unknown".toList

/-- `a or b` -/
def orText (a b : Text) : Text := if a = [] then b else a

/-- `to_payload`, of a v1 recipe. -/
def RecipeV1.payload (recipe : RecipeV1 Double Other) (fallbackName : Text) :
    Payload (Value Double Other) where
  name := orText recipe.name fallbackName
  model := orText (recipe.model.getD []) unknownModel
  container := orText recipe.container defaultContainer
  command := recipe.command
  mods := recipe.mods
  defaults := recipe.defaults
  params := recipe.defaults
  env := recipe.env
  soloOnly := recipe.soloOnly
  clusterOnly := recipe.clusterOnly
  engines := [vllm]
  serves := chat

/-- `to_payload`, of a v2 recipe. -/
def RecipeV2.payload (recipe : RecipeV2 Double Other) (fallbackName : Text) :
    Payload (Value Double Other) :=
  let spec := recipe.engineSpec
  let params := recipe.params.asDict
  { name := orText recipe.name fallbackName
    model := orText recipe.model unknownModel
    container := orText ((spec.bind EngineSpec.image).getD []) defaultContainer
    command := orText (recipe.command.getD []) ((spec.bind EngineSpec.command).getD [])
    mods := (spec.map EngineSpec.mods).getD []
    defaults := params, params
    env := (spec.map EngineSpec.env).getD []
    soloOnly := recipe.soloOnly, clusterOnly := recipe.clusterOnly, minNodes := recipe.minNodes
    engine := recipe.engine, engines := recipe.engineNames
    engineSpecs := recipe.engines.map fun e ↦ (e.1, {
      image := e.2.image, mods := e.2.mods, env := e.2.env, args := e.2.argsString
      command := e.2.command })
    serves := recipe.serves }

/-! ## What a conversion keeps -/

/-- Two payloads of one deployment: the same container, mods and constraints, and the same launch on
every rank, or none. -/
structure SameDeployment (py : Python Double Other) (engine : EngineRuntime)
    (p p' : Payload (Value Double Other)) : Prop where
  container : p.container = p'.container
  mods : p.blockMods = p'.blockMods
  soloOnly : p.soloOnly = p'.soloOnly
  clusterOnly : p.clusterOnly = p'.clusterOnly
  minNodes : p.minNodes = p'.minNodes
  launch : ∀ model params extraArgs topology rank,
    render py engine p model params extraArgs topology rank =
      render py engine p' model params extraArgs topology rank

/-- Defaults that a conversion leaves as they are, as far as a template can tell. -/
structure AsDeclared (py : Python Double Other) (defaults : Dict (Value Double Other)) : Prop where
  notNull : ∀ key, IsParam py key → defaults key ≠ some .null
  typed : ∀ e ∈ knownParams, ∀ v, defaults e.1 = some v → e.2.Typed v

section Parameters

variable {pydantic} {py : Python Double Other} {defaults : Dict (Value Double Other)}

theorem lookup_of_mapM {V K : Type} {g : Text → K → Option V} {l : List (Text × K)}
    {l' : List (Text × V)} (h : l.mapM (fun e ↦ (g e.1 e.2).map fun v ↦ (e.1, v)) = some l')
    (key : Text) : l'.lookup key = (l.lookup key).bind (g key) := by
  induction l generalizing l' with
  | nil =>
    obtain rfl := Option.some.inj h
    rfl
  | cons e l ih =>
    rw [List.mapM_cons] at h
    obtain ⟨b, hb, h⟩ := Option.bind_eq_some_iff.mp h
    obtain ⟨rest, hrest, h⟩ := Option.bind_eq_some_iff.mp h
    obtain rfl := Option.some.inj h
    obtain ⟨v, hv, rfl⟩ := Option.map_eq_some_iff.mp hb
    obtain ⟨name, kind⟩ := e
    rw [List.lookup_cons, List.lookup_cons, ih hrest]
    by_cases hname : key = name
    · subst hname
      simp [hv]
    · rw [beq_eq_false_iff_ne.mpr hname]

theorem exists_of_mapM {α β : Type} {f : α → Option β} {l : List α} {l' : List β}
    (h : l.mapM f = some l') : ∀ a ∈ l, ∃ b, f a = some b := by
  induction l generalizing l' with
  | nil => simp
  | cons a l ih =>
    rw [List.mapM_cons] at h
    obtain ⟨b, hb, h⟩ := Option.bind_eq_some_iff.mp h
    obtain ⟨rest, hrest, -⟩ := Option.bind_eq_some_iff.mp h
    exact List.forall_mem_cons.mpr ⟨⟨b, hb⟩, ih hrest⟩

variable (pydantic) in
/-- What a default is read as. -/
def readDefault (defaults : Dict (Value Double Other)) : Dict (Value Double Other) := fun key ↦
  match knownParams.lookup key with
  | some kind => kind.read pydantic ((defaults key).getD .null)
  | none => defaults key

theorem asDict_eq {p : RecipeParams Double Other}
    (h : RecipeParams.validate pydantic defaults = some p) (key : Text) :
    p.asDict key = given (readDefault pydantic defaults) key := by
  obtain ⟨known, hknown, hp⟩ := Option.bind_eq_some_iff.mp h
  obtain rfl := Option.some.inj hp
  refine given_congr ?_
  have hlookup := lookup_of_mapM
    (g := fun name kind ↦ ParamKind.read pydantic kind ((defaults name).getD .null)) hknown key
  dsimp only
  rw [hlookup, readDefault]
  rcases knownParams.lookup key with _ | kind
  · simp
  · simp

theorem lookup_knownParams : ∀ e ∈ knownParams, knownParams.lookup e.1 = some e.2 := by
  decide +kernel

/-- A default that is accepted is read as something. -/
theorem exists_read {p : RecipeParams Double Other}
    (h : RecipeParams.validate pydantic defaults = some p) {key : Text} {kind : ParamKind}
    {v : Value Double Other} (hkey : (key, kind) ∈ knownParams) (hv : defaults key = some v) :
    ∃ w, kind.read pydantic v = some w := by
  obtain ⟨known, hknown, -⟩ := Option.bind_eq_some_iff.mp h
  obtain ⟨b, hb⟩ := exists_of_mapM hknown _ hkey
  obtain ⟨w, hw, -⟩ := Option.map_eq_some_iff.mp hb
  rw [hv] at hw
  exact ⟨w, hw⟩

theorem ParamKind.Typed.read {kind : ParamKind} {v w : Value Double Other} (h : kind.Typed v)
    (hw : kind.read pydantic v = some w) : w = v := by
  cases kind with
  | int bound =>
    obtain ⟨n, rfl⟩ := h
    simp [ParamKind.read, pydantic.readInt_int, Option.filter] at hw
    exact hw.2.symm
  | fraction =>
    obtain ⟨x, rfl⟩ := h
    simp [ParamKind.read, pydantic.readFloat_float, Option.filter] at hw
    exact hw.2.symm
  | str =>
    obtain ⟨t, rfl⟩ := h
    simp [ParamKind.read, pydantic.readStr_str] at hw
    exact hw.symm

theorem isParam_of_known : ∀ e ∈ knownParams, IsParam py e.1 := by
  have hletters : ∀ e ∈ knownParams, e.1.all isKeyLetter = true ∧
      e.1.any isLineBreak = false ∧ e.1.head?.any Char.isAlpha = true := by
    decide +kernel
  intro e he
  obtain ⟨hkey, hline, hhead⟩ := hletters e he
  refine ⟨List.all_eq_true.mp hkey, fun c hc ↦ ?_, ?_⟩
  · simpa using List.any_eq_false.mp hline c hc
  rcases hname : e.1 with _ | ⟨c, t⟩
  · rw [hname] at hhead
    cases hhead
  · rw [hname, List.head?_cons, Option.any_some] at hhead
    rw [List.all_cons, py.isDecimal_of_isAlpha c hhead, Bool.false_and]

/-- Defaults that are kept are served as they were, but for a null that nothing looks up. -/
theorem AsDeclared.asDict {p : RecipeParams Double Other} (h : AsDeclared py defaults)
    (hp : RecipeParams.validate pydantic defaults = some p) (key : Text) :
    p.asDict key = given defaults key := by
  rw [asDict_eq hp]
  rcases hkey : knownParams.lookup key with _ | kind
  · refine given_congr ?_
    rw [readDefault, hkey]
  · have hmem : (key, kind) ∈ knownParams := by
      obtain ⟨_, _, hsplit, -⟩ := List.lookup_eq_some_iff.mp hkey
      rw [hsplit]
      exact List.mem_append_right _ List.mem_cons_self
    rcases hv : defaults key with _ | v
    · simp [given, readDefault, hkey, hv, ParamKind.read]
    · obtain ⟨w, hw⟩ := exists_read hp hmem hv
      obtain rfl := (h.typed _ hmem v hv).read hw
      refine given_congr ?_
      rw [readDefault, hkey, hv]
      exact hw

theorem ParamKind.read_ne_null {kind : ParamKind} {v w : Value Double Other}
    (hw : kind.read pydantic v = some w) (hv : v ≠ .null) : w ≠ .null := by
  rintro rfl
  cases v with
  | null => exact hv rfl
  | _ => cases kind <;> simp [ParamKind.read] at hw

theorem ParamKind.read_int {bound : Option ℤ} {v w : Value Double Other}
    (hw : (int bound).read pydantic v = some w) (hv : v ≠ .null) :
    ∃ n, pydantic.readInt v = some n ∧ 1 ≤ n ∧ w = .int n := by
  have h : ((pydantic.readInt v).filter fun n ↦ 1 ≤ n ∧ bound.all (n ≤ ·)).map Value.int =
      some w := by
    cases v with
    | null => exact absurd rfl hv
    | _ => exact hw
  obtain ⟨n, hn, rfl⟩ := Option.map_eq_some_iff.mp h
  obtain ⟨hread, hrange⟩ := Option.filter_eq_some_iff.mp hn
  exact ⟨n, hread, (of_decide_eq_true hrange).1, rfl⟩

theorem ParamKind.read_fraction {v w : Value Double Other}
    (hw : fraction.read pydantic v = some w) (hv : v ≠ .null) :
    ∃ x, pydantic.readFloat v = some x ∧ w = .float x := by
  have h : ((pydantic.readFloat v).filter pydantic.isFraction).map Value.float = some w := by
    cases v with
    | null => exact absurd rfl hv
    | _ => exact hw
  obtain ⟨x, hx, rfl⟩ := Option.map_eq_some_iff.mp h
  exact ⟨x, (Option.filter_eq_some_iff.mp hx).1, rfl⟩

theorem ParamKind.read_str {v w : Value Double Other} (hw : str.read pydantic v = some w)
    (hv : v ≠ .null) : ∃ t, pydantic.readStr v = some t ∧ w = .str t := by
  have h : (pydantic.readStr v).map Value.str = some w := by
    cases v with
    | null => exact absurd rfl hv
    | _ => exact hw
  obtain ⟨t, ht, rfl⟩ := Option.map_eq_some_iff.mp h
  exact ⟨t, ht, rfl⟩

theorem eq_none_of_isSome_eq {o o' : Option Text} (h : o.isSome = o'.isSome) (ho : o = none) :
    o' = none := by
  rw [ho] at h
  exact Option.not_isSome_iff_eq_none.mp (by simp [← h])

/-- A value that formats as what it was read as is of the type already. -/
theorem ParamKind.Typed.of_told (py : Python Double Other) {kind : ParamKind}
    {v w : Value Double Other} (hw : kind.read pydantic v = some w) (hv : v ≠ .null)
    (htold : ∀ letter ∈ ['d', 'f', 's'],
      (py.formatField v [] none [letter]).isSome = (py.formatField w [] none [letter]).isSome)
    (hbool : v = .bool true → w ≠ .int 1) : kind.Typed v := by
  have hd := htold 'd' (by decide)
  have hf := htold 'f' (by decide)
  have hs := htold 's' (by decide)
  cases kind with
  | int bound =>
    obtain ⟨n, hread, hn, rfl⟩ := read_int hw hv
    have hint := py.format_int_d n
    cases v with
    | null => exact absurd rfl hv
    | bool b =>
      rw [pydantic.readInt_bool] at hread
      obtain rfl := Option.some.inj hread
      -- zero is no number of anything, so it was true
      cases b with
      | false => exact absurd hn (by decide)
      | true => exact absurd rfl (hbool rfl)
    | int m => exact ⟨m, rfl⟩
    | float x => exact absurd (eq_none_of_isSome_eq hd (py.format_float_d x)) hint
    | str t => exact absurd (eq_none_of_isSome_eq hd (py.format_str_d t)) hint
    | bytes b => exact absurd (eq_none_of_isSome_eq hd (py.format_bytes_d b)) hint
    | other o =>
      rw [pydantic.readInt_other] at hread
      cases hread
  | fraction =>
    obtain ⟨x, hread, rfl⟩ := read_fraction hw hv
    have hdigits := py.format_float_d x
    have hfloat := py.format_float_f x
    cases v with
    | null => exact absurd rfl hv
    | bool b => exact absurd (eq_none_of_isSome_eq hd.symm hdigits) (py.format_bool_d b)
    | int n => exact absurd (eq_none_of_isSome_eq hd.symm hdigits) (py.format_int_d n)
    | float x => exact ⟨x, rfl⟩
    | str t => exact absurd (eq_none_of_isSome_eq hf (py.format_str_f t)) hfloat
    | bytes b => exact absurd (eq_none_of_isSome_eq hf (py.format_bytes_f b)) hfloat
    | other o =>
      rw [pydantic.readFloat_other] at hread
      cases hread
  | str =>
    obtain ⟨t, hread, rfl⟩ := read_str hw hv
    cases v with
    | null => exact absurd rfl hv
    | str t => exact ⟨t, rfl⟩
    | bytes b =>
      exact absurd (eq_none_of_isSome_eq hs (py.format_bytes_s b)) (py.format_str_s t)
    | bool b =>
      rw [pydantic.readStr_bool] at hread
      cases hread
    | int n =>
      rw [pydantic.readStr_int] at hread
      cases hread
    | float x =>
      rw [pydantic.readStr_float] at hread
      cases hread
    | other o =>
      rw [pydantic.readStr_other] at hread
      cases hread

end Parameters

section Conversion

variable {pydantic : Pydantic Double Other} {py : Python Double Other} {engine : EngineRuntime}
  {recipe : RecipeV1 Double Other} {converted : RecipeV2 Double Other} (fallbackName : Text)

/-- A converted recipe is served as the recipe was, with its block and its parameters beside it. -/
theorem payload_toV2 (h : toV2 pydantic recipe = some converted) (fallbackName : Text) :
    ∃ params block,
    RecipeParams.validate pydantic recipe.defaults = some params ∧
      block.mods = recipe.mods ∧ block.env = recipe.env ∧ block.args = [] ∧
      converted.payload fallbackName = { recipe.payload fallbackName with
        defaults := params.asDict, params := params.asDict, engine := some vllm
        engineSpecs := [(vllm, block)] } := by
  obtain ⟨params, hparams, h⟩ := Option.bind_eq_some_iff.mp h
  obtain rfl := Option.some.inj h
  have hnonempty (t : Text) : (nonempty? t).getD [] = t := by
    unfold nonempty?
    split_ifs with ht
    · exact ht.symm
    · rfl
  refine ⟨params, { image := nonempty? recipe.container, mods := recipe.mods, env := recipe.env
                    command := nonempty? recipe.command }, hparams, rfl, rfl, rfl, ?_⟩
  simp [RecipeV2.payload, RecipeV1.payload, RecipeV2.engineSpec, RecipeV2.engineNames, vllm,
    Option.filter, hnonempty, orText, EngineSpec.argsString]

theorem supported_payload : (recipe.payload fallbackName).supported = true := by
  have hchat : chat ≠ [] := by decide
  by_cases hcommand : trim Runtime.isSpace recipe.command = [] <;>
    simp [Payload.supported, RecipeV1.payload, hcommand, hchat]

/-- It is the same but for the defaults. -/
theorem payload_toV2_supported {params : Dict (Value Double Other)}
    {block : EngineBlock (Value Double Other)} :
    ({ recipe.payload fallbackName with
        defaults := params, params := params, engine := some vllm
        engineSpecs := [(vllm, block)] } : Payload (Value Double Other)).supported = true := by
  have hchat : chat ≠ [] := by decide
  have hvllm : vllm ≠ [] := by decide
  simp [Payload.supported, RecipeV1.payload, hchat, Option.filter, hvllm]

theorem SameDeployment.of_kept (h : toV2 pydantic recipe = some converted)
    (hkept : AsDeclared py recipe.defaults) :
    SameDeployment py engine (recipe.payload fallbackName) (converted.payload fallbackName) := by
  obtain ⟨params, block, hparams, hmods, henv, hargs, hpayload⟩ :=
    payload_toV2 h fallbackName
  have hasDict := hkept.asDict hparams
  have hcommand (model : Text) (params' : Dict (Value Double Other)) :
      recipeCommand py engine (recipe.payload fallbackName) model
          ((recipe.payload fallbackName).resolvedParams params') =
        recipeCommand py engine (converted.payload fallbackName) model
          ((converted.payload fallbackName).resolvedParams params') := by
    refine recipeCommand_congr ?_ ?_ ?_ (fun key ↦ ?_) (fun key hkey ↦ ?_) model
    · rw [hpayload]
    · rw [hpayload]
    · rw [hpayload]
      exact hargs.symm
    · rw [hpayload]
      simp only [given, Payload.resolvedParams, RecipeV1.payload, hasDict key]
      rcases params' key with _ | (_ | _ | _ | _ | _ | _ | _) <;>
        rcases recipe.defaults key with _ | (_ | _ | _ | _ | _ | _ | _) <;> rfl
    · have hnull := hkept.notNull key hkey
      rw [hpayload]
      simp only [given, Payload.resolvedParams, RecipeV1.payload, hasDict key]
  rw [hpayload] at hcommand ⊢
  exact {
    container := rfl
    mods := hmods.symm
    soloOnly := rfl
    clusterOnly := rfl
    minNodes := rfl
    launch := fun model params' ↦ render_congr
      ((supported_payload fallbackName).trans (payload_toV2_supported fallbackName).symm) rfl
      (congrArg (List.map _) henv.symm) (hcommand model params') }

/-! ### What a recipe with one field tells -/

/-- A recipe whose command has one field. -/
def probe (defaults : Dict (Value Double Other)) (key spec : Text) : RecipeV1 Double Other where
  name := "probe".toList
  command := single key spec
  defaults

def soloTopology : Topology where
  head := { host := "localhost".toList }

/-- What is launched of a command without anything given. -/
def soloLaunch (engine : EngineRuntime) (command : Text) : LaunchScript :=
  let command := rankCommand engine chat command [] soloTopology 0
  let env := (baseEnv engine soloTopology.head 1).update []
  { nodeRank := 0, host := soloTopology.head.host, command, env, script := launchText env command }

theorem trim_single_ne_nil (key spec : Text) : trim Runtime.isSpace (single key spec) ≠ [] := by
  rw [ne_eq, trim_eq_nil_iff]
  intro h
  exact absurd (h 'x' List.mem_cons_self) (by decide)

theorem render_of_single {p : Payload (Value Double Other)} {key spec : Text}
    (hsupported : p.supported = true) (hcommand : p.command = single key spec)
    (hserves : p.serves = chat) (henv : p.blockEnv py = []) (hkey : IsParam py key)
    (hspec : ∀ c ∈ spec, isLineBreak c = false ∧ c ≠ '{' ∧ c ≠ '}') :
    render py engine p [] (fun _ ↦ none) [] soloTopology 0 =
      (((p.params key).or (p.defaults key)).bind fun v ↦
        py.formatField v [] none spec).map fun t ↦ soloLaunch engine ('x' :: (t ++ ['x'])) := by
  have hfold := foldContinuations_single hkey.allowed fun c hc ↦ (hspec c hc).1
  have hformat : formatCommand py (single key spec) (p.resolvedParams fun _ ↦ none) = _ :=
    formatCommand_single hkey fun c hc ↦ (hspec c hc).2
  have hnode : soloTopology.nodes[(0 : ℤ).toNat]? = some soloTopology.head := rfl
  rw [render, recipeCommand, hcommand, if_pos (trim_single_ne_nil key spec), hfold, hformat,
    hsupported, hserves, henv, hnode, Payload.resolvedParams]
  rcases (p.params key).or (p.defaults key) with _ | v
  · rfl
  · rcases h : py.formatField v [] none spec with _ | t
    · simp [given, h]
    · have hgiven : (given (fun _ ↦ none) key).or (some v) = some v := rfl
      simp only [hgiven, Option.bind_some, h]
      rfl

theorem prefix_trim {p : Char → Bool} {a t : Text} {first last : Char} (hfirst : p first = false)
    (hlast : p last = false) : first :: (a ++ [last]) <+: trim p (first :: (a ++ [last]) ++ t) := by
  have hdrop : ((first :: (a ++ [last]) ++ t).dropWhile p) = first :: (a ++ [last]) ++ t := by
    rw [List.cons_append, List.dropWhile_cons_of_neg (by simp [hfirst])]
  rw [trim, hdrop]
  induction t using List.reverseRecOn with
  | nil =>
    have hkept : (first :: a ++ [last]).rdropWhile p = first :: a ++ [last] :=
      List.rdropWhile_concat_neg _ _ _ (by simp [hlast])
    exact ⟨[], by rw [List.append_nil]; exact hkept.symm⟩
  | append_singleton t c ih =>
    rw [← List.append_assoc, List.rdropWhile_concat]
    split_ifs with hc
    · exact ih (by rw [List.cons_append, List.dropWhile_cons_of_neg (by simp [hfirst])])
    · exact (List.prefix_append _ _).trans (List.prefix_append _ _)

/-- The command of a launch starts with what the recipe's own came to. -/
theorem prefix_soloLaunch (engine : EngineRuntime) {t : Text}
    (ht : stripDistributedExecutorBackend ('x' :: (t ++ ['x'])) = 'x' :: (t ++ ['x'])) :
    'x' :: (t ++ ['x']) <+: (soloLaunch engine ('x' :: (t ++ ['x']))).command := by
  have hrunner (rendered : Text) : runnerArgs chat rendered = [] :=
    if_neg fun h ↦ absurd h.1 (by decide)
  have hcommand : (soloLaunch engine ('x' :: (t ++ ['x']))).command =
      trim Runtime.isSpace
        ('x' :: (t ++ ['x']) ++ ' ' :: rendezvousArgs engine soloTopology 0) := by
    simp only [soloLaunch, rankCommand, ht, hrunner]
    rfl
  rw [hcommand]
  exact prefix_trim (by decide) (by decide)

/-- A Boolean and the integer that it is read as are launched differently. -/
theorem soloLaunch_ne : soloLaunch engine ('x' :: ("True".toList ++ ['x'])) ≠
    soloLaunch engine ('x' :: ("1".toList ++ ['x'])) := by
  intro h
  have htrue := prefix_soloLaunch engine (t := "True".toList) (by decide +kernel)
  have hone := prefix_soloLaunch engine (t := "1".toList) (by decide +kernel)
  rw [h] at htrue
  have := List.prefix_of_prefix_length_le hone htrue (by decide)
  revert this
  decide

section Necessity

variable {defaults : Dict (Value Double Other)} {params : RecipeParams Double Other}

theorem launch_eq_of_same (hparams : RecipeParams.validate pydantic defaults = some params)
    (hsame : ∀ recipe : RecipeV1 Double Other, recipe.defaults = defaults →
      ∀ converted, toV2 pydantic recipe = some converted →
        SameDeployment py engine (recipe.payload fallbackName) (converted.payload fallbackName))
    {key : Text} (hkey : IsParam py key) (spec : Text)
    (hspec : ∀ c ∈ spec, isLineBreak c = false ∧ c ≠ '{' ∧ c ≠ '}') :
    ((defaults key).bind fun v ↦ py.formatField v [] none spec).map
        (fun t ↦ soloLaunch engine ('x' :: (t ++ ['x']))) =
      ((params.asDict key).bind fun v ↦ py.formatField v [] none spec).map
        fun t ↦ soloLaunch engine ('x' :: (t ++ ['x'])) := by
  obtain ⟨converted, hconverted⟩ : ∃ converted,
      toV2 pydantic (probe defaults key spec) = some converted := by
    simp [toV2, probe, hparams]
  obtain ⟨params', block, hparams', -, henv, -, hpayload⟩ := payload_toV2 hconverted fallbackName
  obtain rfl : params = params' := Option.some.inj (hparams.symm.trans hparams')
  have hlaunch := (hsame _ rfl converted hconverted).launch [] (fun _ ↦ none) [] soloTopology 0
  have henv' : (converted.payload fallbackName).blockEnv py = [] := by
    rw [hpayload]
    exact congrArg (List.map _) henv
  have hsupported : (converted.payload fallbackName).supported = true := by
    rw [hpayload]
    exact payload_toV2_supported fallbackName
  have hcommand : (converted.payload fallbackName).command = single key spec := by
    rw [hpayload]
    rfl
  have hserves : (converted.payload fallbackName).serves = chat := by
    rw [hpayload]
    rfl
  rw [render_of_single (supported_payload fallbackName) rfl rfl rfl hkey hspec,
    render_of_single hsupported hcommand hserves henv' hkey hspec, hpayload] at hlaunch
  simpa [RecipeV1.payload, probe] using hlaunch

theorem AsDeclared.of_same (hparams : RecipeParams.validate pydantic defaults = some params)
    (hsame : ∀ recipe : RecipeV1 Double Other, recipe.defaults = defaults →
      ∀ converted, toV2 pydantic recipe = some converted →
        SameDeployment py engine (recipe.payload fallbackName) (converted.payload fallbackName)) :
    AsDeclared py defaults := by
  have hnull : ∀ key, IsParam py key → defaults key ≠ some .null := by
    intro key hkey hnull
    have hlaunch := launch_eq_of_same fallbackName hparams hsame hkey [] (by simp)
    have hread : params.asDict key = none := by
      rw [asDict_eq hparams, given, readDefault, hnull]
      rcases knownParams.lookup key with _ | kind
      · rfl
      · simp [ParamKind.read]
    rw [hnull, hread, Option.bind_some, py.format_null] at hlaunch
    cases hlaunch
  refine ⟨hnull, fun e he v hv ↦ ?_⟩
  obtain ⟨key, kind⟩ := e
  have hkey : IsParam py key := isParam_of_known _ he
  obtain ⟨w, hw⟩ := exists_read hparams he hv
  have hread : params.asDict key = given (fun _ ↦ some w) key := by
    rw [asDict_eq hparams]
    refine given_congr ?_
    rw [readDefault, lookup_knownParams _ he, hv]
    exact hw
  have hlaunch := launch_eq_of_same fallbackName hparams hsame hkey
  simp only [hv, hread, Option.bind_some] at hlaunch
  have hvnull : v ≠ .null := fun hvnull ↦ hnull key hkey (hvnull ▸ hv)
  have hwnull : w ≠ .null := ParamKind.read_ne_null hw hvnull
  have hgiven : given (fun _ ↦ some w) key = some w := by
    cases w with
    | null => exact absurd rfl hwnull
    | _ => rfl
  rw [hgiven] at hlaunch
  refine ParamKind.Typed.of_told py hw hvnull (fun letter hletter ↦ ?_) fun hbool hone ↦ ?_
  · have hspec : ∀ c ∈ [letter], isLineBreak c = false ∧ c ≠ '{' ∧ c ≠ '}' := by
      intro c hc
      obtain rfl := List.mem_singleton.mp hc
      simp only [List.mem_cons, List.not_mem_nil, or_false] at hletter
      rcases hletter with rfl | rfl | rfl <;> decide
    have heq := congrArg Option.isSome (hlaunch [letter] hspec)
    simpa using heq
  · have heq := hlaunch [] (by simp)
    rw [hbool, hone, Option.bind_some, py.format_bool, py.format_one] at heq
    exact soloLaunch_ne (Option.some.inj heq)

end Necessity

/-- **What a conversion deploys.** Every recipe with some defaults deploys what it did once it is
converted, whatever its template and the deploy parameters, just if the defaults are refused, or
none that a template can name is null and each known parameter is of its declared type. -/
theorem converts_iff (pydantic : Pydantic Double Other) (py : Python Double Other)
    (engine : EngineRuntime) (fallbackName : Text) (defaults : Dict (Value Double Other)) :
    (∀ recipe : RecipeV1 Double Other, recipe.defaults = defaults →
      ∀ converted, toV2 pydantic recipe = some converted →
        SameDeployment py engine (recipe.payload fallbackName) (converted.payload fallbackName)) ↔
      RecipeParams.validate pydantic defaults = none ∨ AsDeclared py defaults := by
  constructor
  · intro hsame
    rcases hparams : RecipeParams.validate pydantic defaults with _ | params
    · exact .inl rfl
    · exact .inr (AsDeclared.of_same fallbackName hparams hsame)
  · rintro hdefaults recipe rfl converted hconverted
    have haccepted : RecipeParams.validate pydantic recipe.defaults ≠ none := by
      obtain ⟨params, hparams, -⟩ := Option.bind_eq_some_iff.mp hconverted
      rw [hparams]
      exact Option.some_ne_none params
    exact SameDeployment.of_kept fallbackName hconverted (hdefaults.resolve_left haccepted)

end Conversion

/-! ## A default that is null -/

theorem isDigit_of_isAlpha (c : Char) (h : c.isAlpha) : c.isDigit = false := by
  delta Char.isAlpha Char.isUpper Char.isLower at h
  delta Char.isDigit
  simp [UInt32.le_iff_toNat_le] at h ⊢
  omega

/-- Python, on documents of nulls, Booleans, integers and texts. -/
private def wholePython : Python Empty Empty where
  str
    | .null => "None".toList
    | .bool b => if b then "True".toList else "False".toList
    | .int n => (toString n).toList
    | .str t => t
    | .bytes b => (toString b).toList
  formatField v path conversion spec :=
    match v, path, conversion, spec with
    | .null, [], none, [] => some "None".toList
    | .bool b, [], none, [] => some (if b then "True".toList else "False".toList)
    | .bool b, [], none, ['d'] => some (if b then ['1'] else ['0'])
    | .int n, [], none, [] | .int n, [], none, ['d'] => some (toString n).toList
    | .str t, [], none, [] | .str t, [], none, ['s'] => some t
    | _, _, _, _ => none
  isDecimal := Char.isDigit
  isDecimal_of_isAlpha := isDigit_of_isAlpha
  format_null := rfl
  format_bool _ := rfl
  format_one := rfl
  format_int_d _ := Option.some_ne_none _
  format_bool_d _ := Option.some_ne_none _
  format_float_d x := x.elim
  format_str_d _ := rfl
  format_bytes_d _ := rfl
  format_float_f x := x.elim
  format_str_f _ := rfl
  format_bytes_f _ := rfl
  format_str_s _ := Option.some_ne_none _
  format_bytes_s _ := rfl

/-- How pydantic reads their values. -/
private def wholePydantic : Pydantic Empty Empty where
  readInt
    | .int n => some n
    | .bool b => some b.toInt
    | .str t => (Network.decimal? t).map (↑)
    | _ => none
  readFloat _ := none
  readStr
    | .str t => some t
    | _ => none
  isFraction x := x.elim
  readInt_int _ := rfl
  readInt_bool _ := rfl
  readInt_other o := o.elim
  readFloat_float x := x.elim
  readFloat_other o := o.elim
  readStr_str _ := rfl
  readStr_bool _ := rfl
  readStr_int _ := rfl
  readStr_float x := x.elim
  readStr_other o := o.elim

/-- A recipe with a default that is null and that its template names. -/
private def unset : RecipeV1 Empty Empty where
  name := "unset".toList
  model := some "m".toList
  command := "vllm serve m --seed {seed}".toList
  defaults := fun key ↦ if key = "seed".toList then some .null else none

/-- The recipe is launched with `None`, and once it is converted not at all. -/
theorem unset_converted : ∃ converted, toV2 wholePydantic unset = some converted ∧
    (render wholePython {} (unset.payload []) [] (fun _ ↦ none) [] soloTopology 0).map
        (fun launch ↦ "vllm serve m --seed None".toList.isPrefixOf launch.command) = some true ∧
      (render wholePython {} (converted.payload []) [] (fun _ ↦ none) [] soloTopology 0).isNone ∧
      ¬SameDeployment wholePython {} (unset.payload []) (converted.payload []) := by
  obtain ⟨converted, hconverted⟩ : ∃ converted, toV2 wholePydantic unset = some converted :=
    ⟨_, rfl⟩
  have hrendered : (render wholePython {} (unset.payload []) [] (fun _ ↦ none) []
      soloTopology 0).map (fun launch ↦
        "vllm serve m --seed None".toList.isPrefixOf launch.command) = some true := by
    decide +kernel
  have hnot : (render wholePython {} (converted.payload []) [] (fun _ ↦ none) []
      soloTopology 0).isNone := by
    obtain rfl := Option.some.inj hconverted
    decide +kernel
  refine ⟨converted, hconverted, hrendered, hnot, fun hsame ↦ ?_⟩
  rw [hsame.launch, Option.isNone_iff_eq_none.mp hnot] at hrendered
  cases hrendered

end SparkPulse.Recipes
