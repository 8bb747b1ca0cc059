import Mathlib.Data.List.Nodup
import Mathlib.Data.Rat.Defs
import SparkPulse.Data.Moment
import SparkPulse.Data.Paging

/-!
# The history of a resource

`event_log.py`: the table of events, and `history`, which returns the newest events of a resource
that are older than a cursor. The order is that of the sequence numbers, and the cursor is a time.
-/

namespace SparkPulse.EventLog

/-! ## Events -/

/-- The times an event can have: `datetime`, as far as the log uses it. -/
structure Clock where
  Stamp : Type
  isoformat : Stamp → String
  fromisoformat : String → Option Stamp
  /-- Whether there is no `tzinfo`. -/
  isNaive : Stamp → Bool
  /-- `replace(tzinfo=timezone.utc)` -/
  inUtc : Stamp → Stamp
  timestamp : Stamp → ℚ
  fromisoformat_isoformat : ∀ t, fromisoformat (isoformat t) = some t
  isoformat_ne_empty : ∀ t, isoformat t ≠ ""

variable (c : Clock)

/-- `_epoch` -/
def epoch (value : c.Stamp) : ℚ := c.timestamp (if c.isNaive value then c.inUtc value else value)

/-- `_SPACED_OFFSET.sub(r"+\1", moment)`; where the offset is not at the very end, or not in digits
that `fromisoformat` reads, neither text is an instant. -/
def plusOffset (moment : String) : String :=
  match moment.toList.reverse with
  | d :: d' :: ':' :: h :: h' :: ' ' :: rest =>
    if [d, d', h, h'].all Char.isDigit then
      .ofList (rest.reverse ++ ['+', h', h, ':', d', d])
    else moment
  | _ => moment

/-- `_parse` -/
def parse (moment : String) : Option ℚ :=
  ((c.fromisoformat moment).or (c.fromisoformat (plusOffset moment))).map (epoch c)

theorem parse_isoformat (t : c.Stamp) : parse c (c.isoformat t) = some (epoch c t) := by
  rw [parse, c.fromisoformat_isoformat, Option.some_or, Option.map_some]

/-- The days from the start of 1970 to a date. -/
def days (m : Moment) : ℤ :=
  let years := m.year - 1
  365 * years + years / 4 - years / 100 + years / 400 +
    (List.range (m.month - 1)).foldl (fun n k ↦ n + daysIn m.year (k + 1)) 0 + m.day - 719163

/-- The times in UTC. -/
def utcClock : Clock where
  Stamp := Moment
  isoformat := Moment.isoformat
  fromisoformat := Moment.fromisoformat
  isNaive _ := false
  inUtc := id
  timestamp m := ((days m * 24 + m.hour) * 60 + m.minute) * 60 + m.second + m.microsecond / 1000000
  fromisoformat_isoformat := Moment.fromisoformat_isoformat
  isoformat_ne_empty := Moment.isoformat_ne_empty

/-- `DeploymentEvent` -/
structure Event where
  eventId : String
  eventType : String := ""
  timestamp : c.Stamp
  resource : String := ""
  resourceType : String := ""
  severity : String := "info"
  node : String := ""
  message : String := ""

/-- `DeploymentEventRow` -/
structure Row where
  seq : ℕ
  eventId : String
  resource : String
  resourceType : String
  eventType : String
  severity : String
  node : String
  message : String
  timestamp : String
  recordedAt : ℚ
  deriving DecidableEq

/-- The row that `record` makes of an event. -/
def rowOf (seq : ℕ) (event : Event c) : Row where
  seq := seq
  eventId := event.eventId
  resource := event.resource
  resourceType := event.resourceType
  eventType := event.eventType
  severity := event.severity
  node := .ofList (event.node.toList.take 255)
  message := event.message
  timestamp := c.isoformat event.timestamp
  recordedAt := epoch c event.timestamp

/-- What the stream carries. -/
structure Frame where
  eventId : String
  timestamp : String
  type : String
  message : String
  resource : String
  resourceType : String
  node : String
  severity : String
  deriving DecidableEq

/-- `frame_of` -/
def frameOf (row : Row) : Frame where
  eventId := row.eventId
  timestamp := row.timestamp
  type := row.eventType
  message := row.message
  resource := row.resource
  resourceType := row.resourceType
  node := row.node
  severity := row.severity

/-! ## The table -/

/-- `deployment_events`, by sequence number. -/
structure Table where
  rows : List Row
  seqs_lt : rows.Pairwise fun r r' ↦ r.seq < r'.seq
  ids_nodup : (rows.map Row.eventId).Nodup
  rows_timed : ∀ r ∈ rows, ∃ t, r.timestamp = c.isoformat t ∧ r.recordedAt = epoch c t

variable {c}

namespace Table

def empty : Table c := ⟨[], List.Pairwise.nil, List.nodup_nil, by simp⟩

/-- The number SQLite gives a row: one more than the largest. -/
def nextSeq (table : Table c) : ℕ := table.rows.getLast?.elim 1 fun last ↦ last.seq + 1

theorem lt_nextSeq (table : Table c) {row : Row} (h : row ∈ table.rows) :
    row.seq < table.nextSeq := by
  obtain ⟨init, last, heq⟩ := table.rows.eq_nil_or_concat.resolve_left (List.ne_nil_of_mem h)
  have hlt := table.seqs_lt
  rw [nextSeq, heq, List.concat_eq_append, List.getLast?_concat, Option.elim_some]
  rw [heq, List.concat_eq_append] at h hlt
  rcases List.mem_append.mp h with h | h
  · exact Nat.lt_succ_of_lt ((List.pairwise_append.mp hlt).2.2 row h last List.mem_cons_self)
  · exact Nat.lt_succ_of_le (List.mem_singleton.mp h ▸ le_rfl)

/-- The row of an event is added, whose id is not in the table. -/
def insert (table : Table c) (event : Event c)
    (hid : event.eventId ∉ table.rows.map Row.eventId) : Table c where
  rows := table.rows ++ [rowOf c table.nextSeq event]
  seqs_lt := List.pairwise_append.mpr ⟨table.seqs_lt, List.pairwise_singleton _ _,
    fun r hr r' hr' ↦ List.mem_singleton.mp hr' ▸ table.lt_nextSeq hr⟩
  ids_nodup := by
    rw [List.map_append, List.nodup_append]
    refine ⟨table.ids_nodup, List.nodup_singleton _, fun i hi i' hi' heq ↦ hid ?_⟩
    rwa [← show i = event.eventId from heq.trans (List.mem_singleton.mp hi')]
  rows_timed r hr := by
    rcases List.mem_append.mp hr with hr | hr
    · exact table.rows_timed r hr
    · exact List.mem_singleton.mp hr ▸ ⟨event.timestamp, rfl, rfl⟩

/-- The rows that are left by a deletion. -/
def delete (table : Table c) (doomed : Row → Bool) : Table c where
  rows := table.rows.filter fun r ↦ !doomed r
  seqs_lt := table.seqs_lt.filter _
  ids_nodup := table.ids_nodup.sublist (List.filter_sublist.map _)
  rows_timed r hr := table.rows_timed r (List.mem_of_mem_filter hr)

/-- The rows of a resource, the oldest first. -/
def held (table : Table c) (resource : String) : List Row :=
  table.rows.filter fun r ↦ r.resource = resource

theorem mem_held {table : Table c} {resource : String} {row : Row} :
    row ∈ table.held resource ↔ row ∈ table.rows ∧ row.resource = resource := by
  simp [held]

/-- The rows of a resource, the newest first. -/
def newest (table : Table c) (resource : String) : List Row := (table.held resource).reverse

end Table

/-! ## Reading -/

def defaultLimit : ℕ := 200

def maxLimit : ℕ := 1000

/-- How many events a read returns at most. -/
def capped (limit : ℤ) : ℕ :=
  (max 1 (min (if limit = 0 then (defaultLimit : ℤ) else limit) maxLimit)).toNat

theorem capped_pos (limit : ℤ) : 0 < capped limit := by
  rw [capped]
  omega

/-- What `history` returns. -/
structure Page where
  resource : String
  events : List Frame
  total : ℕ
  limit : ℕ
  deriving DecidableEq

/-- The time of a cursor, if it is one. -/
def cutoff (c : Clock) (before : Option String) : Option ℚ :=
  match before with
  | none => none
  | some text => if text = "" then none else parse c text

/-- `history` -/
def history (table : Table c) (resource : String) (limit : ℤ) (before : Option String) : Page :=
  let rows := Paging.page Row.recordedAt (capped limit) (table.newest resource) (cutoff c before)
  { resource, events := rows.map frameOf, total := (table.held resource).length,
    limit := capped limit }

/-- The walk through the history: each page before the last event of the one before, until a page
is empty. -/
def walk (table : Table c) (resource : String) (limit : ℤ) : ℕ → Option String → Option (List Frame)
  | 0, _ => none
  | fuel + 1, before =>
    let events := (history table resource limit before).events
    match events.getLast? with
    | none => some []
    | some last => (walk table resource limit fuel (some last.timestamp)).map (events ++ ·)

/-- Every page ends before an older event. -/
def PagesApart (table : Table c) (resource : String) (limit : ℤ) : Prop :=
  Paging.Apart Row.recordedAt (capped limit) (table.newest resource)

section
variable {table : Table c} {resource : String} {limit : ℤ} {before : Option String}

theorem cutoff_timestamp {row : Row} (h : row ∈ table.rows) :
    cutoff c (some row.timestamp) = some row.recordedAt := by
  obtain ⟨t, htext, htime⟩ := table.rows_timed row h
  rw [cutoff, htext, if_neg (c.isoformat_ne_empty t), parse_isoformat, htime]

theorem mem_rows_of_mem_newest {row : Row} (h : row ∈ table.newest resource) :
    row ∈ table.rows := (Table.mem_held.mp (List.mem_reverse.mp h)).1

theorem newest_ids_nodup : ((table.newest resource).map Row.eventId).Nodup := by
  rw [Table.newest, List.map_reverse, List.nodup_reverse]
  exact table.ids_nodup.sublist (List.filter_sublist.map _)

/-- The walk is a walk through the rows. -/
theorem walk_eq_pages (fuel : ℕ) : walk table resource limit fuel before =
    (Paging.pages Row.recordedAt (capped limit) (table.newest resource) fuel
      (cutoff c before)).map (List.map frameOf) := by
  induction fuel generalizing before with
  | zero => rfl
  | succ fuel ih =>
    rw [walk, Paging.pages]
    simp only [history, List.getLast?_map]
    rcases hlast : (Paging.page Row.recordedAt (capped limit) (table.newest resource)
      (cutoff c before)).getLast? with _ | last
    · rfl
    · have hmem := (Paging.mem_below.mp (Paging.mem_page (List.mem_of_getLast? hlast))).1
      simp only [Option.map_some, Option.map_map, frameOf, ih,
        cutoff_timestamp (mem_rows_of_mem_newest hmem)]
      congr 1
      funext rows
      exact (List.map_append ..).symm

/-- The walk ends. -/
theorem walk_isSome {fuel : ℕ} (h : (table.held resource).length < fuel) :
    (walk table resource limit fuel none).isSome = true := by
  rw [walk_eq_pages, Option.isSome_map]
  refine Paging.pages_isSome ?_
  rwa [cutoff, Paging.below_none, Table.newest, List.length_reverse]

/-- Rows of a table are known by their frames. -/
theorem map_frameOf_injective {rows : List Row} (hrows : ∀ r ∈ rows, r ∈ table.newest resource)
    (h : rows.map frameOf = (table.newest resource).map frameOf) :
    rows = table.newest resource := by
  have hinj : ∀ r ∈ table.newest resource, ∀ r' ∈ table.newest resource,
      frameOf r = frameOf r' → r = r' := fun r hr r' hr' heq ↦
    List.inj_on_of_nodup_map newest_ids_nodup hr hr' (congrArg Frame.eventId heq)
  refine List.ext_getElem (by simpa using congrArg List.length h) fun k hk hk' ↦ ?_
  refine hinj _ (hrows _ (List.getElem_mem hk)) _ (List.getElem_mem hk') ?_
  have hget := congrArg (fun l ↦ l[k]?) h
  simpa [hk, hk'] using hget

/-- **Walking through the history.** It returns every event that is held once, the newest first,
exactly when every page ends before an older event. -/
theorem walk_iff {fuel : ℕ} (h : (table.held resource).length < fuel) :
    walk table resource limit fuel none = some ((table.newest resource).map frameOf) ↔
      PagesApart table resource limit := by
  have hlength : (table.newest resource).length < fuel := by
    rwa [Table.newest, List.length_reverse]
  rw [PagesApart, ← Paging.pages_eq_self_iff (capped_pos limit)
    (List.Nodup.of_map _ newest_ids_nodup) hlength, walk_eq_pages]
  constructor
  · intro hwalk
    obtain ⟨rows, hrows, hframes⟩ := Option.map_eq_some_iff.mp hwalk
    rw [map_frameOf_injective (Paging.mem_of_mem_pages hrows) hframes] at hrows
    exact hrows
  · intro hpages
    rw [cutoff, hpages, Option.map_some]

end

end SparkPulse.EventLog
