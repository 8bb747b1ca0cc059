import SparkPulse.Runtime.Calls
import SparkPulse.Runtime.Plan

/-!
# Reading and writing records

The calls as programs, and the functions of `native_runtime` and `deployment_records` that read
and write records through them.
-/

namespace SparkPulse.Runtime

open Program Prog

/-! ## Calls as programs -/

/-- An operation on a node, raising what the node raises. -/
def node (phase : Phase) (address : String) (op : NodeOp) : Op op.Reply := do
  ofExcept (← invoke (.node phase address op))

def updateRecord (id : String) (p : Patch) : Op (Option Record) := invoke (.updateRecord id p)

def updateRow (id : String) (p : Patch) : Op (Option Record) := invoke (.updateRow id p)

/-- `deployment_records.get` -/
def getRow (id : String) : Op (Option Record) := invoke (.row id)

def saveRecords (loaded records : List Record) : Op Unit := invoke (.save loaded records)

def deleteMany (ids : List String) : Op Nat := invoke (.deleteMany ids)

def now : Op String := invoke .now

def deadlinePassed : Op Bool := invoke .deadlinePassed

def publish (kind : EventType) (id text : String) : Op Unit := invoke (.publish kind id text)

def pullCancelRequested (id : String) : Op Bool := invoke (.pullCancelRequested id)

def cancelPull (id : String) : Op Bool := invoke (.cancelPull id)

/-- `with _lifecycle_lock(id)` -/
def withLock {α : Type} (id : String) (p : Op α) : Op α := do
  invoke (.acquire id)
  p.ensure (invoke (.release id))

/-! ## Reading -/

section
variable (env : Env)

/-- The repairs of `load`, one row at a time. -/
def repairLoaded : List Record → Op (List Record)
  | [] => pure []
  | r :: rs => do
    match env.redact r.launchCommand with
    | none => return r :: (← repairLoaded rs)
    | some command =>
      if r.id ≠ "" then
        let _ ← updateRow r.id { launchCommand := some command }
      return { r with launchCommand := command } :: (← repairLoaded rs)

/-- `deployment_records.load` -/
def loadRecords : Op (List Record) := do
  repairLoaded env (← invoke .rows)

def getDeployment (id : String) : Op (Option Record) := do
  return (← loadRecords env).find? fun r ↦ r.id = id

/-- `_next_generation`: one past whatever this deployment last ran at. -/
def nextGeneration (id : String) : Op Nat := do
  match ← getDeployment env id with
  | none => return 1
  | some record => return record.generation + 1

/-- Whether a stop or delete has already settled this record. -/
def isTornDown (id : String) : Op Bool := do
  match ← getDeployment env id with
  | none => return true
  | some record => return record.status = .stopped

/-- Whether the create path should abort rather than launch anything. -/
def teardownRequested (id : String) : Op Bool := do
  if ← pullCancelRequested id then
    return true
  isTornDown env id

end

/-! ## Writing -/

/-- Write the plan's record at a status, replacing any earlier one. -/
def persistPlannedRecord (plan : DeployPlan) (status : Status) : Op Record := do
  invoke (.persist (recordFromPlan plan status))
  return recordFromPlan plan status

def unexplainedError : String :=
  "this deploy failed and nothing recorded why — please report it, and read " ++
    "the run's logs for the engine's own last words"

/-- Python's `str.isspace`, of one character. -/
def isSpace (c : Char) : Bool :=
  (9 ≤ c.val && c.val ≤ 13) || (28 ≤ c.val && c.val ≤ 32) || c.val = 0x85 || c.val = 0xa0 ||
    c.val = 0x1680 || (0x2000 ≤ c.val && c.val ≤ 0x200a) || c.val = 0x2028 || c.val = 0x2029 ||
    c.val = 0x202f || c.val = 0x205f || c.val = 0x3000

/-- Letters and digits of ASCII are no blanks. -/
theorem isSpace_eq_false_of_isAlphanum {c : Char} (hc : c.isAlphanum = true) :
    isSpace c = false := by
  by_contra hspace
  rw [Bool.not_eq_false] at hspace
  simp only [isSpace, Bool.or_eq_true, Bool.and_eq_true, decide_eq_true_eq,
    UInt32.le_iff_toNat_le, ← UInt32.toNat_inj, UInt32.reduceToNat] at hspace
  delta Char.isAlphanum Char.isAlpha Char.isUpper Char.isLower Char.isDigit at hc
  simp only [Bool.or_eq_true, Bool.and_eq_true, decide_eq_true_eq, UInt32.le_iff_toNat_le, GE.ge,
    UInt32.reduceToNat, Char.reduceVal] at hc
  omega

/-- `str.strip` -/
def strip (s : String) : String :=
  .ofList ((s.toList.dropWhile isSpace).reverse.dropWhile isSpace).reverse

/-- `_error_text`: an error message that is never empty. -/
def errorText (message : String) : String :=
  if strip message = "" then unexplainedError else strip message

theorem errorText_ne_empty (message : String) : errorText message ≠ "" := by
  unfold errorText
  split_ifs with h
  · decide
  · exact h

/-- `_record_error`: move a record to `error`, the one state that has to say why. -/
def recordError (id message : String) (fields : Patch) : Op (Option Record) := do
  publish .deploymentError id (errorText message)
  updateRecord id { fields with
    status := some .error
    errorMessage := some (some (errorText message))
    stoppedAt := some (some (some (← now))) }

end SparkPulse.Runtime
