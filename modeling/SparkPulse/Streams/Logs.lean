import Mathlib.Logic.Function.Iterate
import SparkPulse.Data.Lines
import SparkPulse.Transition.System

/-!
# The stream of a log

`log_generator` and `_native_log_generator` of `sse.py`, step by step, while the log grows. The one
reads a file on from an offset, which is the size that the file had before or after it was read; the
other one asks again and again for the last lines of a container's log, and counts.
-/

namespace SparkPulse.Streams

abbrev Bytes := List Utf8.Byte

abbrev Text := List Char

/-! ## Reading lines -/

/-- The ends of lines of a file that is opened as text: `"\n"`, `"\r"` and `"\r\n"`. -/
def fileEnd (b : Utf8.Byte) : Bool := b = 10 || b = 13

def fileBreak (c : Char) : Bool := c = '\n' || c = '\r'

/-- The boundaries of `str.splitlines`. -/
def lineBreak (c : Char) : Bool :=
  c.toNat ∈ [0x0A, 0x0B, 0x0C, 0x0D, 0x1C, 0x1D, 0x1E, 0x85, 0x2028, 0x2029]

theorem toNat_lt_of_fileEnd (b : Utf8.Byte) (h : fileEnd b = true) : b.toNat < 0x80 := by
  rcases Bool.or_eq_true_iff.mp h with h | h
  · obtain rfl := of_decide_eq_true h
    decide
  · obtain rfl := of_decide_eq_true h
    decide

theorem fileBreak_of_fileEnd (b : Utf8.Byte) (h : fileEnd b = true) :
    fileBreak (Char.ofNat b.toNat) = true := by
  rcases Bool.or_eq_true_iff.mp h with h | h
  · obtain rfl := of_decide_eq_true h
    decide
  · obtain rfl := of_decide_eq_true h
    decide

/-- The ends of lines of a container's log. -/
def logEnd (b : Utf8.Byte) : Bool := b = 10

theorem toNat_lt_of_logEnd (b : Utf8.Byte) (h : logEnd b = true) : b.toNat < 0x80 := by
  obtain rfl := of_decide_eq_true h
  decide

theorem lineBreak_of_logEnd (b : Utf8.Byte) (h : logEnd b = true) :
    lineBreak (Char.ofNat b.toNat) = true := by
  obtain rfl := of_decide_eq_true h
  decide

/-- Where a log comes from. -/
inductive Origin
  | file
  | container
  deriving DecidableEq, Repr

def Origin.breaks : Origin → Lines.Breaks
  | file => ⟨fileEnd, fileBreak, toNat_lt_of_fileEnd, fileBreak_of_fileEnd⟩
  | container => ⟨logEnd, lineBreak, toNat_lt_of_logEnd, lineBreak_of_logEnd⟩

/-! ## The log of a container -/

/-- The number of lines of a log, the unfinished one at its end among them. -/
def countLines (log : Bytes) : ℕ :=
  log.countP logEnd + if Lines.rest logEnd log = [] then 0 else 1

/-- A log without its first line. -/
def dropLine (log : Bytes) : Bytes := (log.dropWhile fun b ↦ !logEnd b).drop 1

/-- `docker logs --tail n` -/
def tail (n : ℕ) (log : Bytes) : Bytes := dropLine^[countLines log - n] log

/-- The rank of a deployment, as far as `get_logs` reads it. -/
structure Rank where
  node : Text
  container : Text

/-- What `get_logs` finds beside the log. -/
structure Found where
  status : Text
  image : Text
  rank : Option Rank
  /-- `final_logs` -/
  kept : Text

/-- What asking the node for the container comes to. -/
inductive Reply
  /-- `services` raises. -/
  | unreachable (error : Text)
  /-- The node's `get_logs` raises. -/
  | failed (error : Text)
  | missing
  | log

/-- The text of a call of `get_logs`: the container's log, or something else. -/
inductive Fetched
  | log (text : Text)
  | other (text : Text)

def Fetched.text : Fetched → Text
  | log text | other text => text

def orElse (text default : Text) : Text := if text = [] then default else text

def notFound (container : Text) : Text :=
  "Container '".toList ++ container ++ "' not found".toList

/-- `get_logs`, from the answer of the container on. -/
def liveOr (kept container : Text) (live : Fetched) : Fetched :=
  if kept ≠ [] ∧ (live.text = [] ∨ notFound container <+: live.text) then .other kept
  else if live.text = [] then .other "(empty log)".toList
  else live

/-- `get_logs` -/
def getLogs (found : Option Found) (reply : Reply) (log : Bytes) (lines : ℕ) : Fetched :=
  match found with
  | none => .other "Deployment not found".toList
  | some f =>
    if f.status = "pulling".toList ∨ f.status = "pending".toList then
      .other ("No container yet: ".toList ++ orElse f.image "the image".toList ++
        " is still being pulled. Logs start when the container does.".toList)
    else
      match f.rank with
      | none => .other "Deployment has no rank 0".toList
      | some r =>
        match reply with
        | .unreachable error =>
          if f.kept ≠ [] then .other f.kept
          else .other ("Failed to reach ".toList ++ orElse r.node "this machine".toList ++
            ": ".toList ++ error)
        | .failed error =>
          liveOr f.kept r.container (.other ("Failed to read container logs: ".toList ++ error))
        | .missing => liveOr f.kept r.container (.other (notFound r.container))
        | .log => liveOr f.kept r.container (.log (Utf8.decode (tail lines log)))

/-! ## The generators -/

/-- An event of a stream. -/
inductive Frame
  | log (text : Text)
  | status (status : Option Text)
  | error (message : Text)
  /-- `END_EVENT` -/
  | last
  deriving DecidableEq

def Frame.line : Frame → Option Text
  | log text => some text
  | _ => none

/-- A deployment, as far as the generators read it. -/
structure Deployment where
  runtime : Text
  logPath : Text
  status : Option Text

/-- What a generator does next. -/
inductive Phase
  | lookup
  /-- The file is opened for the first time, if it exists. -/
  | opening
  /-- The lines of a file are read; the size is the one that was sampled before. -/
  | reading (size : Option ℕ)
  /-- The size of a file is sampled after it was read for the first time. -/
  | measuring
  | polling
  | checking
  /-- The native generator asks for the log. -/
  | fetching
  | asking
  | done
  deriving DecidableEq

/-- A log, and a stream of it. -/
structure Stream where
  log : Option Bytes
  origin : Origin := .file
  phase : Phase := .lookup
  pos : ℕ := 0
  /-- How much of the log was read. -/
  cursor : ℕ := 0
  /-- What was read of a line that has not ended. -/
  pending : Bytes := []
  seen : ℕ := 0
  lastStatus : Option Text := none
  frames : List Frame := []

/-- What happens next. -/
inductive Action
  | append (bytes : Bytes)
  /-- A deployment is looked up. -/
  | lookup (dep : Option Deployment)
  /-- A file is looked at. -/
  | stat
  /-- At most `n + 1` bytes are read. -/
  | read (n : ℕ)
  /-- `get_logs` is called. -/
  | fetch (found : Option Found) (reply : Reply)

namespace Stream

/-- The bytes of the log. -/
def bytes (s : Stream) : Bytes := s.log.getD []

/-- Send lines. -/
def send (s : Stream) (lines : List Text) : Stream :=
  { s with frames := s.frames ++ lines.map .log }

/-- The stream ends. -/
def finish (s : Stream) : Stream := { s with phase := .done, frames := s.frames ++ [.last] }

def fail (s : Stream) (message : String) : Stream :=
  finish { s with frames := s.frames ++ [.error message.toList] }

/-- `log_generator` begins. -/
def begin (s : Stream) : Option Deployment → Stream
  | none => s.fail "Deployment not found"
  | some dep =>
    if dep.runtime = "native".toList then { s with origin := .container, phase := .fetching }
    else if dep.logPath = [] then s.fail "No log file for this deployment"
    else { s with phase := .opening, lastStatus := dep.status }

/-- A change of status is sent, and the stream goes on or ends. -/
def check (s : Stream) (next : Phase) : Option Deployment → Stream
  | none => s.finish
  | some dep =>
    let told := if dep.status = s.lastStatus then s
      else { s with lastStatus := dep.status, frames := s.frames ++ [.status dep.status] }
    if dep.status = some "stopped".toList ∨ dep.status = some "error".toList then told.finish
    else { told with phase := next }

/-- Begin to read on from the offset. -/
def seek (s : Stream) (size : Option ℕ) : Stream :=
  { s with phase := .reading size, cursor := s.pos, pending := [] }

/-- The file is read to its end. -/
def close (s : Stream) : Option ℕ → Stream
  | none => { s with phase := .measuring }
  | some size => { s with phase := .checking, pos := size }

/-- What the next bytes of a file are. -/
def chunk (s : Stream) (n : ℕ) : Bytes := (s.bytes.drop s.cursor).take (n + 1)

/-- Some bytes are read, and the lines that end with them are sent. -/
def take (s : Stream) (bytes : Bytes) : Stream :=
  { s.send (Origin.file.breaks.lines (Lines.ended fileEnd (s.pending ++ bytes))) with
    cursor := s.cursor + bytes.length
    pending := Lines.rest fileEnd (s.pending ++ bytes) }

/-- The end of the file is reached, where a line may not have ended. -/
def flush (s : Stream) : Stream :=
  { s.send (Origin.file.breaks.lines s.pending) with pending := [] }

/-- A step of the native generator. -/
def fetched (s : Stream) (f : Fetched) : Stream :=
  let lines := Lines.lines lineBreak f.text
  { s.send (lines.drop s.seen) with
    phase := .asking
    seen := max s.seen lines.length
    cursor := match f with
      | .log _ => s.bytes.length
      | .other _ => s.cursor }

/-- A look at the file. -/
def look (s : Stream) : Option Stream :=
  match s.phase with
  | .opening =>
    match s.log with
    | none => some { s with phase := .polling }
    | some _ => some (s.seek none)
  | .measuring => some { s with phase := .polling, pos := s.bytes.length }
  | .polling =>
    if s.pos < s.bytes.length then some (s.seek (some s.bytes.length))
    else some { s with phase := .checking }
  | _ => none

/-- One step. -/
def next (s : Stream) : Action → Option Stream
  | .append bytes => some { s with log := some (s.bytes ++ bytes) }
  | .stat => s.look
  | .lookup dep =>
    match s.phase with
    | .lookup => some (s.begin dep)
    | .checking => some (s.check .polling dep)
    | .asking => some (s.check .fetching dep)
    | _ => none
  | .read n =>
    match s.phase with
    | .reading size =>
      if s.chunk n ≠ [] then some (s.take (s.chunk n))
      else if s.pending ≠ [] then some s.flush
      else some (s.close size)
    | _ => none
  | .fetch found reply =>
    match s.phase with
    | .fetching => some (s.fetched (getLogs found reply s.bytes 1000))
    | _ => none

end Stream

/-- All streams of a log that grows. -/
def system : Transition.System Stream Action where
  init s := ∃ log, s = { log := log }
  next := Stream.next

/-! ## What should be shown -/

/-- The lines that a stream has sent. -/
def Stream.shown (s : Stream) : List Text := s.frames.filterMap Frame.line

/-- A stream has sent the lines that have ended, of what was read. -/
def Stream.Faithful (s : Stream) : Prop :=
  s.shown = s.origin.breaks.lines
    (Lines.ended s.origin.breaks.byte (s.bytes.take s.cursor))

/-- A container's log is fetched from its beginning, and its last line has ended; or there are no
more lines in what is fetched instead than were sent. -/
def Stream.quietly (s : Stream) : Fetched → Bool
  | .log _ => countLines s.bytes ≤ 1000 ∧ Lines.Ended logEnd s.bytes
  | .other text => (Lines.lines lineBreak text).length ≤ s.seen

/-- The last line of a file has ended when it is read to its end, and nothing was appended between
that and the sample of its size. -/
def Stream.quiet (s : Stream) : Action → Phase → Bool
  | .stat, .measuring => s.bytes.length = s.cursor
  | .read n, .reading size =>
    s.chunk n ≠ [] ∨ s.pending = [] ∧ size.all fun k ↦ s.cursor = k
  | .fetch found reply, .fetching => s.quietly (getLogs found reply s.bytes 1000)
  | _, _ => true

/-- Nothing disturbs a step. -/
def undisturbed : Transition.Guard Stream Action := fun s a ↦ s.quiet a s.phase = true

end SparkPulse.Streams
