import SparkPulse.HubCache.Verify
import SparkPulse.Program.Threads

/-!
# Replication to a node

`_replicate_one` of `tools/models.py` and its remote commands, for any number of runs that copy one
model to one node. The node has three paths for it: the staging directory, the published entry and
the entry that publishing moves aside. What is at a path is a directory with an identity of its own,
so that a transfer that is under way goes on writing to a directory that has been renamed.

Each remote command is one call, but for the transfer, which writes any number of times, and for the
publish command, of which each shell step is one. `mv` puts a directory into another that is there
already. A command that was cut off runs no further step.
-/

namespace SparkPulse.Replication

open Program HubCache

/-! ## Data -/

abbrev RunId := Nat

/-- The identity of a directory, as of its inode. -/
abbrev DirId := Nat

inductive Tid
  | run (r : RunId)
  /-- What cuts remote commands off. -/
  | environment (n : Nat)
  deriving DecidableEq, Repr

/-- What one run was asked for, with the report on the local copy. -/
structure Run where
  source : Report
  deep : Bool := false
  force : Bool := false
  /-- How often the transfer writes. -/
  writes : Nat := 0

/-- `str(source["revision"])` -/
def Run.commit (run : Run) : String := run.source.revision.getD "None"

/-- The replica has to have the proof that there is of the source. -/
def Run.requireManifest (run : Run) : Bool :=
  run.source.evidence = .manifest ∨ run.source.evidence = .hashes

/-- `marker_payload` -/
def Run.marker (run : Run) (verifiedAt : String) : Marker where
  revision := some run.commit
  allowPatterns := run.source.allowPatterns.filter (· ≠ [])
  verifiedAt := some verifiedAt

/-- `_node_result` -/
structure NodeResult where
  ok : Bool := false
  state : State := .absent
  error : Option String := none
  reason : String := ""
  revision : Option String := none
  bytesVerified : Nat := 0
  missing : List String := []
  missingCount : Nat := 0
  verifiedAt : Option String := none
  published : Bool := false
  skipped : Bool := false
  deriving DecidableEq, Repr

/-- How a remote command fails. -/
inductive Failure
  /-- The command could not be run or waited for. -/
  | transport (exc : String)
  /-- It ended with an error, and this output. -/
  | exit (output : String)
  /-- A `ValueError` of `replicate_to_nodes`. -/
  | valueError (message : String)
  deriving DecidableEq, Repr

/-! ## Calls -/

inductive Call
  | mkdir
  | copyHelper
  | verifyPublished (commit : String) (requireManifest : Bool)
  /-- The start of a transfer: its staging directory, made when there is none. -/
  | openStaging
  | write (d : DirId)
  | verifyStaging (commit : String) (requireManifest deep : Bool) (marker : String → Marker)
  | removeReplaced
  | publishedExists
  | moveAside
  | moveInto
  | cut (r : RunId)

@[reducible] def Call.Ret : Call → Type
  | verifyPublished .. | verifyStaging .. => Except Failure (Option Report)
  | openStaging => Except Failure DirId
  | publishedExists => Except Failure Bool
  | cut _ => Unit
  | mkdir | copyHelper | write _ | removeReplaced | moveAside | moveInto => Except Failure Unit

/-- A program over the node. -/
abbrev Op := Prog Call Call.Ret Failure

/-- Make one call. -/
abbrev invoke (c : Call) : Op c.Ret := Prog.call c

/-- Make a call that may fail. -/
def attemptCall {α : Type} (p : Op (Except Failure α)) : Op α := p >>= Prog.ofExcept

/-! ## One run -/

/-- `_publish_command`, a shell with `set -e`. -/
def publishCommand : Op Unit := do
  attemptCall (invoke .removeReplaced)
  if ← attemptCall (invoke .publishedExists) then
    attemptCall (invoke .moveAside)
    attemptCall (invoke .moveInto)
    attemptCall (invoke .removeReplaced)
  else
    attemptCall (invoke .moveInto)
    attemptCall (invoke .removeReplaced)

def transfer (d : DirId) : Nat → Op Unit
  | 0 => pure ()
  | writes + 1 => do
    attemptCall (invoke (.write d))
    transfer d writes

/-- `copy_dir` into the staging directory. -/
def copyDir (writes : Nat) : Op Unit := do
  let d ← attemptCall (invoke .openStaging)
  transfer d writes

/-- `s[:500]` -/
def clip (s : String) : String := .ofList (s.toList.take 500)

/-- `(stderr or stdout or default).strip()[:500]` -/
def excerpt (output default : String) : String :=
  clip (strip (if output = "" then default else output))

/-- A failed command ends the run, with a reason of its own unless the transport failed. -/
def failed (result : NodeResult) (default reason : String) : Failure → NodeResult
  | .exit output => { result with error := some (excerpt output default), reason }
  | .transport exc | .valueError exc =>
    { result with error := some (clip exc), reason := "transport failure" }

/-- The end of a run that has verified its staging directory. -/
def publish (result : NodeResult) (report : Report) : Op NodeResult := do
  match ← publishCommand.attempt with
  | .error failure =>
    return failed result "publish failed" "verified, but the rename into place failed" failure
  | .ok () => return { result with ok := true, published := true, verifiedAt := report.verifiedAt }

/-- Transfer, verify and publish. -/
def transferAndPublish (node : String) (run : Run) (result : NodeResult) : Op NodeResult := do
  match ← (copyDir run.writes).attempt with
  | .error failure => return failed result "" "transport failure" failure
  | .ok () =>
    match ← invoke (.verifyStaging run.commit run.requireManifest run.deep run.marker) with
    | .error failure => return failed result "" "transport failure" failure
    | .ok none => return { result with
        error := some "the node did not return a verification report"
        reason := "verification could not be run on the node" }
    | .ok (some report) =>
      let result := { result with
        state := report.state
        reason := report.reason
        missing := report.missing
        missingCount := report.missingCount
        bytesVerified := report.bytesPresent }
      -- a staging directory that was refused stays, for the next run to resume from
      if report.state ≠ .verified then return { result with
        error := some s!"verification failed on {node}: {report.reason}" }
      else publish result report

/-- Skip a node that holds a verified copy of the commit already. -/
def replicateOrSkip (node : String) (run : Run) (result : NodeResult) : Op NodeResult := do
  if run.force then transferAndPublish node run result
  else
    match ← invoke (.verifyPublished run.commit run.requireManifest) with
    | .error failure => return failed result "" "transport failure" failure
    | .ok none => transferAndPublish node run result
    | .ok (some already) =>
      if already.state = .verified then return { result with
        ok := true
        skipped := true
        published := true
        state := already.state
        reason := "node already holds a verified copy of this revision"
        bytesVerified := already.bytesPresent
        verifiedAt := already.verifiedAt }
      else transferAndPublish node run result

/-- `_replicate_one` -/
def replicateOne (node : String) (run : Run) : Op NodeResult := do
  let result : NodeResult := { revision := some run.commit }
  match ← invoke .mkdir with
  | .error failure =>
    return failed result "mkdir failed" "could not create the staging directory" failure
  | .ok () =>
    match ← invoke .copyHelper with
    | .error failure => return failed result "" "transport failure" failure
    | .ok () => replicateOrSkip node run result

/-- `replicate_to_nodes`, for one of its nodes. -/
def replicateToNode (modelId node : String) (run : Run) : Op NodeResult :=
  if run.source.state ≠ .verified then
    Prog.raise (.valueError
      s!"Local copy of {modelId} is {run.source.state.value}: {run.source.reason}")
  else replicateOne node run

/-! ## The node -/

inductive Event
  | wrote (d : DirId)
  /-- The verification for a run's commit succeeded on the directory. -/
  | verified (r : RunId) (commit : String) (d : DirId)
  deriving DecidableEq, Repr

/-- The directories and where they are, and what is recorded beside them: whether the published path
held a complete entry at first, who published what it holds, the runs that are to publish a directory
they verified, the run that has moved the published entry aside and put nothing there yet, and the
history, latest first. -/
structure Node (β : Type) where
  staging : Option DirId := none
  published : Option (DirId × Option RunId) := none
  replaced : Option DirId := none
  entries : DirId → Repo β
  /-- What `mv` has put into a directory that was there already. -/
  inner : DirId → Option DirId := fun _ ↦ none
  next : DirId
  cut : List RunId := []
  held : Bool := false
  holding : List (RunId × DirId) := []
  gap : Option RunId := none
  log : List Event := []

/-- What the schedule decides about one call. -/
structure Answer (β : Type) where
  raises : Option Failure := none
  /-- The command took effect, but its report did not arrive. -/
  lost : Bool := false
  repo : Repo β
  text : String := ""

variable {β : Type}

namespace Node

/-- What is at the published path. -/
def publishedRepo (w : Node β) : Option (Repo β) := w.published.map fun p ↦ w.entries p.1

def stagingRepo (w : Node β) : Option (Repo β) := w.staging.map w.entries

/-- A run stops, whatever it had verified. -/
def stop (r : RunId) (w : Node β) : Node β :=
  { w with
    holding := w.holding.filter fun h ↦ h.1 ≠ r
    gap := if w.gap = some r then none else w.gap }

def openStaging (repo : Repo β) (w : Node β) : DirId × Node β :=
  match w.staging with
  | some d => (d, w)
  | none =>
    (w.next, { w with
      staging := some w.next
      entries := Function.update w.entries w.next repo
      next := w.next + 1 })

def write (d : DirId) (repo : Repo β) (w : Node β) : Node β :=
  { w with entries := Function.update w.entries d repo, log := .wrote d :: w.log }

/-- A verification that succeeded, and the marker it left. -/
def pass (r : RunId) (commit : String) (marker : Marker) (d : DirId) (w : Node β) : Node β :=
  { w with
    entries := Function.update w.entries d { w.entries d with marker := some marker }
    log := .verified r commit d :: w.log }

def hold (r : RunId) (d : DirId) (w : Node β) : Node β := { w with holding := (r, d) :: w.holding }

/-- `mv` of the published entry, to the path of the replaced one. -/
def moveAside (r : RunId) (w : Node β) : Option (Node β) :=
  match w.published with
  | none => none
  | some (d, _) =>
    match w.replaced with
    | none => some { w with published := none, replaced := some d, gap := some r }
    | some e =>
      if w.inner e = none then some { w with
        published := none
        inner := Function.update w.inner e (some d)
        gap := some r }
      else none

/-- `mv` of the staging directory, to the published path. -/
def moveInto (r : RunId) (w : Node β) : Option (Node β) :=
  match w.staging with
  | none => none
  | some d =>
    match w.published with
    | none => some { w.stop r with staging := none, published := some (d, some r), gap := none }
    | some (e, _) =>
      if w.inner e = none then
        some { w.stop r with staging := none, inner := Function.update w.inner e (some d) }
      else none

end Node

def Answer.failure (a : Answer β) : Failure := a.raises.getD (.exit a.text)

/-- A shell step of the publish command; with `set -e` the command ends with the first that fails,
and a command that fails by itself at a step is one that was cut off there. -/
def shell {α : Type} (r : RunId) (a : Answer β) (w : Node β) (step : Option (α × Node β)) :
    Except Failure α × Node β :=
  if r ∈ w.cut then (.error a.failure, w.stop r)
  else
    match step with
    | none => (.error a.failure, w.stop r)
    | some (x, w') => (.ok x, w')

/-- What a command that changes nothing of the entries answers. -/
def Answer.reply {α : Type} (a : Answer β) (x : α) : Except Failure α :=
  match a.raises with
  | some failure => .error failure
  | none => .ok x

variable (fnmatch : String → String → Bool) (H : Hashes β)

/-- The verification of the staging directory, which records its success there. -/
def runVerifier (r : RunId) (commit : String) (requireManifest deep : Bool)
    (marker : String → Marker) (a : Answer β) (w : Node β) :
    Except Failure (Option Report) × Node β :=
  match a.raises with
  | some failure => (.error failure, w)
  | none =>
    match verifySnapshot fnmatch H w.stagingRepo (some commit) deep requireManifest, w.staging with
    | .ok report, some d =>
      if report.state = .verified then
        let w := w.pass r commit (marker a.text) d
        let report := { report with
          marker := some (marker a.text), verifiedAt := (marker a.text).verifiedAt }
        if a.lost then (.ok none, w) else (.ok (some report), w.hold r d)
      else (.ok (if a.lost then none else some report), w)
    | .ok report, none => (.ok (if a.lost then none else some report), w)
    | .error _, _ => (.ok none, w)

/-- One call by a run. -/
def Call.execRun (r : RunId) (w : Node β) (c : Call) (a : Answer β) : Option (c.Ret × Node β) :=
  match c with
  | .mkdir | .copyHelper => some (a.reply (), w)
  | .verifyPublished commit requireManifest =>
    some (a.reply (if a.lost then none else (verifySnapshot fnmatch H w.publishedRepo (some commit)
      false requireManifest).toOption), w)
  | .openStaging =>
    match a.raises with
    | some failure => some (.error failure, w)
    | none => some (.ok (w.openStaging a.repo).1, (w.openStaging a.repo).2)
  | .write d =>
    match a.raises with
    | some failure => some (.error failure, w)
    | none => some (.ok (), w.write d a.repo)
  | .verifyStaging commit requireManifest deep marker =>
    some (runVerifier fnmatch H r commit requireManifest deep marker a w)
  | .removeReplaced => some (shell r a w (some ((), { w with replaced := none })))
  | .publishedExists => some (shell r a w (some (w.published.isSome, w)))
  | .moveAside => some (shell r a w ((w.moveAside r).map fun w' ↦ ((), w')))
  | .moveInto => some (shell r a w ((w.moveInto r).map fun w' ↦ ((), w')))
  | .cut _ => none

/-- One call by any thread; the environment only cuts commands off. -/
def Call.exec (i : Tid) (w : Node β) (c : Call) (a : Answer β) : Option (c.Ret × Node β) :=
  match i with
  | .run r => c.execRun fnmatch H r w a
  | .environment _ =>
    match c with
    | .cut r => some ((), { w with cut := r :: w.cut })
    | _ => none

/-! ## Threads -/

/-- What each thread runs: the runs there are, and the commands the environment cuts off. -/
def program (modelId node : String) (runs : RunId → Option Run) (cuts : Nat → RunId) :
    Tid → Op Unit
  | .run r =>
    match runs r with
    | none => pure ()
    | some run => do let _ ← replicateToNode modelId node run
  | .environment n => invoke (.cut (cuts n))

/-- An entry whose files pass the verification for some commit, under the filter that some marker
records. The marker that is in it does not matter: it only says what was verified. -/
def Complete (repo : Repo β) : Prop := ∃ marker commit deep requireManifest report,
  verifySnapshot fnmatch H (some { repo with marker }) (some commit) deep requireManifest =
    .ok report ∧ report.state = .verified

/-- A node before any run. -/
structure Initial (w : Node β) : Prop where
  held : w.held = true → ∃ repo ∈ w.publishedRepo, Complete fnmatch H repo
  fresh : (∀ d ∈ w.staging, d < w.next) ∧ ∀ p ∈ w.published, p.1 < w.next ∧ p.2 = none
  cut : w.cut = []
  holding : w.holding = []
  gap : w.gap = none
  log : w.log = []

/-- All interleavings of the runs on a node, each of whose commands may be cut off. -/
def system (modelId node : String) (runs : RunId → Option Run) (cuts : Nat → RunId) :
    Transition.System (Threads Tid Call.Ret Failure Unit (Node β)) (Tid × Answer β) :=
  Threads.system (Call.exec fnmatch H) fun s ↦
    s.pool = program modelId node runs cuts ∧ Initial fnmatch H s.world

end SparkPulse.Replication
