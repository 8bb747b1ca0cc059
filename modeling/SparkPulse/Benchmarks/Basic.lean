import Mathlib.Data.Char
import Mathlib.Data.List.AList
import Mathlib.Data.List.Lex
import Mathlib.Logic.Function.Basic
import SparkPulse.Transition.System

/-!
# Benchmarks, their table and the cache in front of it

`tools/benchmarking.py`: the calls that create, run, list, look up and delete benchmarks, each as the
steps that other threads can come between. A row is written under a mutex that a run holds from its
first read to the end; the cache has a lock of its own, which is held over a load of the whole table
but not over the writing of a row.

Of `llama-benchy` and of the database only the answers matter. The rows of the old JSON file are in
the table from the start, and the calls that only look at the cache are all like `get_benchmark`.
-/

namespace SparkPulse.Benchmarks

/-! ## Records -/

inductive Status
  | running
  | completed
  | error
  deriving DecidableEq, Repr

/-- A record of a benchmark; what it is run with and what comes of it are left open. -/
structure Benchmark (P R : Type) where
  benchmarkId : String
  deploymentId : String
  recipeId : String := ""
  recipeName : String := ""
  baselineId : Option String := none
  status : Status := .running
  startedAt : ℤ
  completedAt : Option ℤ := none
  params : P
  results : Option (Except String R) := none

/-- Records by their ids: the table, and the cache. -/
abbrev Records (P R : Type) := AList fun _ : String ↦ Benchmark P R

variable {P R : Type}

/-- `_load`: every stored record, in the order of the ids. -/
def Records.load (table : Records P R) : List (Benchmark P R) :=
  (table.entries.map Sigma.snd).mergeSort fun a b ↦ decide (a.benchmarkId ≤ b.benchmarkId)

/-- A dictionary of records. -/
def fill (rows : List (Benchmark P R)) : Records P R :=
  rows.foldl (fun m b ↦ m.insert b.benchmarkId b) ∅

/-- `_RETENTION_DAYS`, in seconds. -/
def retention : ℤ := 90 * 86400

def Benchmark.expired (now : ℤ) (b : Benchmark P R) : Bool := b.startedAt ≤ now - retention

/-- `_purge_expired` -/
def purgeExpired (now : ℤ) (rows : List (Benchmark P R)) : List (Benchmark P R) :=
  rows.filter fun b ↦ !b.expired now

/-- The order of a listing. -/
def newestFirst (rows : List (Benchmark P R)) : List (Benchmark P R) :=
  rows.mergeSort fun a b ↦ decide (b.startedAt ≤ a.startedAt)

/-! ## Calls -/

inductive Call (P : Type)
  | create (deploymentId : String) (baselineId : Option String) (params : P)
      (recipeId recipeName : String)
  | execute (id : String)
  | list
  | get (id : String)
  | delete (id : String)

/-- The benchmark that a call names. -/
def Call.id? : Call P → Option String
  | create .. | list => none
  | execute id | get id | delete id => some id

/-- Where a call is, and what it has in hand. -/
inductive Stage (P R : Type)
  /-- It has just begun. -/
  | called (call : Call P)
  /-- `create_benchmark` has stored the row, and not told the cache. -/
  | created (record : Benchmark P R)
  /-- `execute_benchmark` has read the row, and holds the mutex. -/
  | running (record : Benchmark P R)
  /-- It has stored what came of the run, and not told the cache. -/
  | ran (record : Benchmark P R)
  /-- `list_benchmarks` has read the table, and holds the lock of the cache. -/
  | loaded (rows : List (Benchmark P R))
  /-- It deletes these rows before it returns. -/
  | purging (ids : List String) (listed : List (Benchmark P R))
  /-- `get_benchmark` has read the table, and holds the lock of the cache. -/
  | reloading (rows : List (Benchmark P R)) (id : String)
  /-- `delete_benchmark` has deleted the row if there was one, and not told the cache. -/
  | evicting (id : String) (removed : Bool)

/-- What a listing or a lookup returned, and the benchmarks whose deletion had returned before it
was called. -/
structure Answer (P R : Type) where
  gone : List String
  records : List (Benchmark P R)

structure State (P R : Type) where
  table : Records P R := ∅
  cache : Records P R := ∅
  dirty : Bool := true
  /-- The call that holds the mutex of the table. -/
  mutex : Option ℕ := none
  /-- The call that holds the lock of the cache over a load. -/
  cacheLock : Option ℕ := none
  calls : ℕ → Option (Stage P R) := fun _ ↦ none
  now : ℤ := 0
  /-- The ids that were ever given out or named. -/
  named : List String := []
  /-- The benchmarks whose deletion has returned. -/
  deleted : List String := []
  /-- These, when a call began. -/
  before : ℕ → List String := fun _ ↦ []
  answers : List (Answer P R) := []

inductive Act (P R : Type)
  | begin (k : ℕ) (call : Call P)
  /-- A row is created under a new id. -/
  | store (k : ℕ) (id : String)
  /-- A run ends, unless it is interrupted. -/
  | finish (k : ℕ) (outcome : Option (Except String R))
  /-- Every other step of a call. -/
  | advance (k : ℕ)
  /-- The mutex was not to be had in time. -/
  | giveUp (k : ℕ)
  | wait (time : ℕ)

/-! ## Steps -/

namespace State

variable (s : State P R)

/-- A call is somewhere else now, or has returned. -/
def set (k : ℕ) (stage : Option (Stage P R)) : State P R :=
  { s with calls := Function.update s.calls k stage }

/-- A listing or a lookup returns. -/
def answer (k : ℕ) (records : List (Benchmark P R)) : State P R :=
  { s.set k none with answers := ⟨s.before k, records⟩ :: s.answers }

/-- `_cache_put` -/
def cachePut (record : Benchmark P R) : State P R :=
  if s.dirty then s else { s with cache := s.cache.insert record.benchmarkId record }

/-- The cache is filled from rows of the table, and its lock let go of. -/
def refill (rows : List (Benchmark P R)) : State P R :=
  { s with cache := fill rows, dirty := false, cacheLock := none }

end State

/-- What a run makes of a record. -/
def Benchmark.finish (b : Benchmark P R) (now : ℤ) (outcome : Except String R) : Benchmark P R :=
  { b with
    status := match outcome with
      | .ok _ => .completed
      | .error _ => .error
    completedAt := some now
    results := some outcome }

/-- The next step of a call. -/
def advance (s : State P R) (k : ℕ) : Stage P R → Option (State P R)
  | .called (.create ..) => none
  | .called (.execute id) =>
    if s.mutex.isSome then none
    else match s.table.lookup id with
      | none => some (s.set k none)
      | some record => some { s.set k (some (.running { record with status := .running })) with
          mutex := some k }
  | .called .list =>
    if s.cacheLock.isSome then none
    else some { s.set k (some (.loaded s.table.load)) with cacheLock := some k }
  | .called (.get id) =>
    if s.cacheLock.isSome then none
    else if s.dirty then
      some { s.set k (some (.reloading s.table.load id)) with cacheLock := some k }
    else some (s.answer k (s.cache.lookup id).toList)
  | .called (.delete id) =>
    if s.mutex.isSome then none
    else some { s.set k (some (.evicting id (s.table.lookup id).isSome)) with
      table := s.table.erase id }
  | .created record =>
    if s.cacheLock.isSome then none else some ((s.cachePut record).set k none)
  | .running _ => none
  | .ran record =>
    if s.cacheLock.isSome then none
    else some { (s.cachePut record).set k none with mutex := none }
  | .loaded rows =>
    let kept := purgeExpired s.now rows
    let listed := newestFirst kept
    if kept.length = rows.length then some ((s.refill kept).answer k listed)
    else some ((s.refill kept).set k
      (some (.purging ((rows.filter fun b ↦ b.expired s.now).map Benchmark.benchmarkId) listed)))
  | .purging [] listed => some (s.answer k listed)
  | .purging (id :: ids) listed =>
    -- asked for without waiting
    if s.mutex.isSome then some (s.answer k listed)
    else some { s.set k (some (.purging ids listed)) with table := s.table.erase id }
  | .reloading rows id =>
    let t := s.refill rows
    some (t.answer k (t.cache.lookup id).toList)
  | .evicting id removed =>
    if s.cacheLock.isSome then none
    else some { s.set k none with
      cache := s.cache.erase id
      deleted := if removed then id :: s.deleted else s.deleted }

def next (s : State P R) : Act P R → Option (State P R)
  | .begin k call =>
    if (s.calls k).isSome then none
    else some { s.set k (some (.called call)) with
      named := call.id?.toList ++ s.named
      before := Function.update s.before k s.deleted }
  | .store k id =>
    match s.calls k with
    | some (.called (.create deploymentId baselineId params recipeId recipeName)) =>
      if s.mutex.isSome ∨ id ∈ s.named then none
      else
        let record := { benchmarkId := id, deploymentId, recipeId, recipeName, baselineId, params,
                        startedAt := s.now }
        some { s.set k (some (.created record)) with
          table := s.table.insert id record
          named := id :: s.named }
    | _ => none
  | .finish k outcome =>
    match s.calls k with
    | some (.running record) =>
      match outcome with
      | none => some { s.set k none with mutex := none }
      | some outcome =>
        let record := record.finish s.now outcome
        some { s.set k (some (.ran record)) with
          table := s.table.insert record.benchmarkId record }
    | _ => none
  | .advance k => (s.calls k).bind (advance s k)
  | .giveUp k =>
    match s.calls k with
    | some (.called (.create ..)) | some (.called (.execute _)) | some (.called (.delete _)) =>
      if s.mutex.isSome then some (s.set k none) else none
    | _ => none
  | .wait time => some { s with now := s.now + time }

/-- Rows are stored under their own ids. -/
def Records.Keyed (m : Records P R) : Prop := ∀ id b, m.lookup id = some b → b.benchmarkId = id

/-- A process starts with any table, and an empty cache. -/
def system : Transition.System (State P R) (Act P R) where
  init s := ∃ table : Records P R, ∃ now, table.Keyed ∧
    s = { table, now, named := table.keys }
  next := next

/-! ## What the calls promise -/

namespace State

variable (s : State P R)

/-- What `get_benchmark` returns when nothing comes between. -/
def found (id : String) : Option (Benchmark P R) :=
  if s.dirty then (fill s.table.load).lookup id else s.cache.lookup id

/-- It is the stored row, or nothing when there is none or it is past retention. -/
def AgreesAt (id : String) : Prop :=
  s.found id = s.table.lookup id ∨
    s.found id = none ∧ ∃ b, s.table.lookup id = some b ∧ b.expired s.now = true

/-- No listing and no lookup has returned a benchmark whose deletion had returned before it was
called, and whenever no call is in progress the cache agrees with the table. -/
structure Consistent : Prop where
  answers : ∀ a ∈ s.answers, ∀ b ∈ a.records, b.benchmarkId ∉ a.gone
  agrees : (∀ k, s.calls k = none) → ∀ id, s.AgreesAt id

/-- A call is still to tell the cache of what became of a row. -/
def Untold (id : String) : Prop :=
  ∃ k, (∃ b, s.calls k = some (.ran b) ∧ b.benchmarkId = id) ∨
    ∃ removed, s.calls k = some (.evicting id removed)

/-- A new record is put into the cache while it is still the row, or while another call will tell the
cache of what became of it; and an expired row is not deleted while the cache has it. -/
def timely : Transition.Guard (State P R) (Act P R)
  | s, .advance k =>
    match s.calls k with
    | some (.created b) => s.dirty = true ∨ s.table.lookup b.benchmarkId = some b ∨
        b.benchmarkId ∉ s.deleted ∧ s.Untold b.benchmarkId
    | some (.purging (id :: _) _) =>
      s.mutex.isSome = true ∨ s.table.lookup id = none ∨ s.cache.lookup id = none
    | _ => True
  | _, _ => True

end State

end SparkPulse.Benchmarks
