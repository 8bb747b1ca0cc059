import Mathlib.Algebra.Order.Field.Rat

/-!
# The readings of an engine

`engine_metrics.py`, from the series of a scrape on: what an engine calls the quantities that are
read, the reading of a scrape, and the rates between two readings. A value is a rational number
here, so that nothing is rounded.
-/

namespace SparkPulse.Metrics

/-! ## Series -/

/-- One `name{labels} value` line. -/
structure Series (L V : Type) where
  name : String
  labels : L
  value : V
  deriving DecidableEq, Repr

variable {L : Type}

/-- What is published under a name. -/
def family (families : List (Series L ℚ)) (name : String) : List (Series L ℚ) :=
  families.filter fun s ↦ s.name = name

/-- `_first_present` -/
def firstPresent (families : List (Series L ℚ)) : List String → Option (List (Series L ℚ))
  | [] => none
  | name :: names =>
    match family families name with
    | [] => firstPresent families names
    | s :: series => some (s :: series)

/-- The values of several series, added. -/
def total : List (Series L ℚ) → ℚ
  | [] => 0
  | s :: series => s.value + total series

/-- The highest of several values. -/
def highest : List (Series L ℚ) → Option ℚ
  | [] => none
  | s :: series => some (series.foldl (fun m s ↦ max m s.value) s.value)

/-- `_sum` -/
def sum (families : List (Series L ℚ)) (names : List String) : Option ℚ :=
  (firstPresent families names).map total

/-- `_max` -/
def max (families : List (Series L ℚ)) (names : List String) : Option ℚ :=
  (firstPresent families names).bind highest

/-! ## Names -/

/-- One engine's names for what is read, the newest first. -/
structure MetricNames where
  running : List String
  waiting : List String
  kvFraction : List String
  promptTokens : List String
  generationTokens : List String
  preemptions : List String
  deriving DecidableEq, Repr

/-- `VLLM_METRICS` -/
def vllmMetrics : MetricNames where
  running := ["vllm:num_requests_running"]
  waiting := ["vllm:num_requests_waiting"]
  kvFraction := ["vllm:kv_cache_usage_perc", "vllm:gpu_cache_usage_perc"]
  promptTokens := ["vllm:prompt_tokens_total"]
  generationTokens := ["vllm:generation_tokens_total"]
  preemptions := ["vllm:num_preemptions_total"]

/-- `SGLANG_METRICS` -/
def sglangMetrics : MetricNames where
  running := ["sglang:num_running_reqs"]
  waiting := ["sglang:num_queue_reqs"]
  kvFraction := ["sglang:token_usage"]
  promptTokens := ["sglang:prompt_tokens_total"]
  generationTokens := ["sglang:generation_tokens_total"]
  preemptions := ["sglang:num_retracted_reqs"]

/-- `LLAMA_CPP_METRICS` -/
def llamaCppMetrics : MetricNames where
  running := ["llamacpp:requests_processing"]
  waiting := ["llamacpp:requests_deferred"]
  kvFraction := []
  promptTokens := ["llamacpp:prompt_tokens_total"]
  generationTokens := ["llamacpp:tokens_predicted_total"]
  preemptions := []

/-- `METRIC_NAMES` -/
def metricNames (engine : String) : Option MetricNames :=
  if engine = "vllm" then some vllmMetrics
  else if engine = "sglang" then some sglangMetrics
  else if engine = "llama-cpp" then some llamaCppMetrics
  else none

/-- `ALL_METRICS` -/
def allMetrics : List MetricNames := [vllmMetrics, sglangMetrics, llamaCppMetrics]

/-- `names_for` -/
def namesFor (engine : Option String) : List MetricNames :=
  match metricNames (engine.getD "").toLower with
  | none => allMetrics
  | some known => known :: allMetrics.filter fun m ↦ m ≠ known

/-! ## Readings -/

/-- What an engine said at one moment, and the rates since the last one. -/
structure Reading where
  t : ℚ
  running : Option ℚ := none
  waiting : Option ℚ := none
  kvFraction : Option ℚ := none
  promptTokensTotal : Option ℚ := none
  generationTokensTotal : Option ℚ := none
  preemptionsTotal : Option ℚ := none
  promptTokensPerSecond : Option ℚ := none
  generationTokensPerSecond : Option ℚ := none
  preemptionsPerSecond : Option ℚ := none
  counterReset : Bool := false
  deriving DecidableEq, Repr

/-- `_is_empty` -/
def isEmpty (reading : Reading) : Bool :=
  reading.running.isNone && reading.waiting.isNone && reading.kvFraction.isNone &&
    reading.promptTokensTotal.isNone && reading.generationTokensTotal.isNone &&
    reading.preemptionsTotal.isNone

/-- A reading by the names of one engine. -/
def readWith (families : List (Series L ℚ)) (t : ℚ) (names : MetricNames) : Reading where
  t := t
  running := sum families names.running
  waiting := sum families names.waiting
  kvFraction := max families names.kvFraction
  promptTokensTotal := sum families names.promptTokens
  generationTokensTotal := sum families names.generationTokens
  preemptionsTotal := sum families names.preemptions

/-- The loop of `read_families`. -/
def readFirst (families : List (Series L ℚ)) (t : ℚ) : List MetricNames → Reading
  | [] => { t := t }
  | names :: rest =>
    if isEmpty (readWith families t names) then readFirst families t rest
    else readWith families t names

/-- `read_families` -/
def readFamilies (families : List (Series L ℚ)) (engine : Option String) (t : ℚ) : Reading :=
  readFirst families t (namesFor engine)

/-- `_rate` -/
def rate (previous : Option ℚ) (previousT : ℚ) (current : Option ℚ) (currentT : ℚ) :
    Option ℚ × Bool :=
  match previous, current with
  | some before, some after =>
    if after < before then (none, true)
    else if currentT - previousT ≤ 0 then (none, false)
    else (some ((after - before) / (currentT - previousT)), false)
  | _, _ => (none, false)

/-- `with_rates` -/
def withRates (reading : Reading) : Option Reading → Reading
  | none => reading
  | some previous =>
    let prompt :=
      rate previous.promptTokensTotal previous.t reading.promptTokensTotal reading.t
    let generation :=
      rate previous.generationTokensTotal previous.t reading.generationTokensTotal reading.t
    let preemptions :=
      rate previous.preemptionsTotal previous.t reading.preemptionsTotal reading.t
    { reading with
      promptTokensPerSecond := prompt.1
      generationTokensPerSecond := generation.1
      preemptionsPerSecond := preemptions.1
      counterReset := prompt.2 || generation.2 || preemptions.2 }

/-! ## The ring -/

/-- `RING_SIZE` -/
@[irreducible] def ringSize : ℕ := 720

theorem ringSize_pos : 0 < ringSize := by
  unfold ringSize
  decide

/-- `MetricsRing`: the newest readings of a deployment. -/
structure MetricsRing where
  readings : List Reading
  length_le : readings.length ≤ ringSize

namespace MetricsRing

/-- A ring without readings. -/
def empty : MetricsRing := ⟨[], Nat.zero_le _⟩

/-- `last` -/
def last (ring : MetricsRing) : Option Reading := ring.readings.getLast?

/-- What `append` makes of a reading. -/
def stamp (ring : MetricsRing) (reading : Reading) : Reading := withRates reading ring.last

/-- What is left of a full ring before a reading is appended. -/
private theorem length_kept_le (ring : MetricsRing) (reading : Reading) :
    ((ring.readings ++ [reading]).drop (ring.readings.length + 1 - ringSize)).length ≤
      ringSize := by
  rw [List.length_drop, List.length_append, List.length_singleton]
  omega

/-- `append` -/
def append (ring : MetricsRing) (reading : Reading) : MetricsRing where
  readings :=
    (ring.readings ++ [ring.stamp reading]).drop (ring.readings.length + 1 - ringSize)
  length_le := length_kept_le ring (ring.stamp reading)

@[simp] theorem last_empty : empty.last = none := rfl

@[simp] theorem last_append (ring : MetricsRing) (reading : Reading) :
    (ring.append reading).last = some (ring.stamp reading) := by
  have hpos := ringSize_pos
  have hdrop : (ring.append reading).readings =
      ring.readings.drop (ring.readings.length + 1 - ringSize) ++ [ring.stamp reading] :=
    List.drop_append_of_le_length (by omega)
  rw [last, hdrop, List.getLast?_concat]

end MetricsRing

/-! ## Counters -/

/-- The quantities that have a rate. -/
inductive Counter
  | promptTokens
  | generationTokens
  | preemptions
  deriving DecidableEq, Repr

def Counter.names : Counter → MetricNames → List String
  | promptTokens => MetricNames.promptTokens
  | generationTokens => MetricNames.generationTokens
  | preemptions => MetricNames.preemptions

/-- The total of a counter, in a reading. -/
def Reading.total (reading : Reading) : Counter → Option ℚ
  | .promptTokens => reading.promptTokensTotal
  | .generationTokens => reading.generationTokensTotal
  | .preemptions => reading.preemptionsTotal

/-- The rate of a counter, in a reading. -/
def Reading.perSecond (reading : Reading) : Counter → Option ℚ
  | .promptTokens => reading.promptTokensPerSecond
  | .generationTokens => reading.generationTokensPerSecond
  | .preemptions => reading.preemptionsPerSecond

/-- The names by which a scrape is read. -/
def namesRead (families : List (Series L ℚ)) (engine : Option String) : Option MetricNames :=
  (namesFor engine).find? fun names ↦ !isEmpty (readWith families 0 names)

/-- The series that make up a counter. -/
def counted (families : List (Series L ℚ)) (engine : Option String) (c : Counter) :
    List (Series L ℚ) :=
  ((namesRead families engine).bind fun names ↦ firstPresent families (c.names names)).getD []

section
variable {families : List (Series L ℚ)} {names : List String} {engine : Option String} {t : ℚ}

theorem exists_of_firstPresent {series : List (Series L ℚ)}
    (h : firstPresent families names = some series) :
    series ≠ [] ∧ ∃ name ∈ names, series = family families name := by
  induction names with
  | nil => cases h
  | cons name names ih =>
    rw [firstPresent] at h
    split at h
    · obtain ⟨hne, n, hn, rfl⟩ := ih h
      exact ⟨hne, n, List.mem_cons_of_mem _ hn, rfl⟩
    next s rest hfamily =>
      obtain rfl := Option.some.inj h
      exact ⟨List.cons_ne_nil _ _, name, List.mem_cons_self, hfamily.symm⟩

theorem readFirst_eq (maps : List MetricNames) :
    readFirst families t maps =
      match maps.find? fun names ↦ !isEmpty (readWith families 0 names) with
      | none => { t := t }
      | some names => readWith families t names := by
  induction maps with
  | nil => rfl
  | cons names rest ih =>
    rw [readFirst, ih, List.find?_cons]
    -- whether a reading is empty does not depend on its time
    change (if isEmpty (readWith families 0 names) then _ else _) = _
    rcases isEmpty (readWith families 0 names) with _ | _
    · rfl
    · rfl

theorem readFamilies_t : (readFamilies families engine t).t = t := by
  rw [readFamilies, readFirst_eq]
  split <;> rfl

/-- **What a reading says of a counter** is the total of its series, where there are any. -/
theorem total_readFamilies (c : Counter) : (readFamilies families engine t).total c =
    if counted families engine c = [] then none else some (total (counted families engine c)) := by
  have hsum : ∀ names : MetricNames, (readWith families t names).total c =
      (firstPresent families (c.names names)).map total := by
    intro names
    rcases c with _ | _ | _ <;> rfl
  rw [readFamilies, readFirst_eq, counted, namesRead]
  split
  next hnone =>
    rw [hnone, Option.bind_none, Option.getD_none, if_pos rfl]
    rcases c with _ | _ | _ <;> rfl
  next names hnames =>
    rw [hnames, Option.bind_some, hsum]
    rcases hfirst : firstPresent families (c.names names) with _ | series
    · rfl
    · rw [Option.getD_some, if_neg (exists_of_firstPresent hfirst).1, Option.map_some]

end

/-! ## Rates -/

section
variable {reading previous : Reading}

theorem perSecond_withRates (c : Counter) :
    (withRates reading (some previous)).perSecond c =
      (rate (previous.total c) previous.t (reading.total c) reading.t).1 := by
  rcases c with _ | _ | _ <;> rfl

theorem counterReset_withRates : (withRates reading (some previous)).counterReset = true ↔
    ∃ c, (rate (previous.total c) previous.t (reading.total c) reading.t).2 = true := by
  constructor
  · intro h
    rcases Bool.or_eq_true_iff.mp h with h | h
    · rcases Bool.or_eq_true_iff.mp h with h | h
      · exact ⟨.promptTokens, h⟩
      · exact ⟨.generationTokens, h⟩
    · exact ⟨.preemptions, h⟩
  · rintro ⟨c, h⟩
    rcases c with _ | _ | _
    · exact Bool.or_eq_true_iff.mpr (.inl (Bool.or_eq_true_iff.mpr (.inl h)))
    · exact Bool.or_eq_true_iff.mpr (.inl (Bool.or_eq_true_iff.mpr (.inr h)))
    · exact Bool.or_eq_true_iff.mpr (.inr h)

@[simp] theorem t_withRates {before : Option Reading} :
    (withRates reading before).t = reading.t := by
  rcases before with _ | _ <;> rfl

@[simp] theorem total_withRates {before : Option Reading} (c : Counter) :
    (withRates reading before).total c = reading.total c := by
  rcases before with _ | _ <;> rcases c with _ | _ | _ <;> rfl

end

end SparkPulse.Metrics
