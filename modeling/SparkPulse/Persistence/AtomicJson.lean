import SparkPulse.Filesystem.Volume
import SparkPulse.Program.Threads

/-!
# Crash-safe state files

`tools/atomic_json.py`: how a state file is written, read, and moved aside when it cannot be parsed.
Writers and readers of the files of one directory are programs whose calls are the system calls; any
of them may fail, a write that fails may have written anything, and between two calls the power may
go, which ends every program that has begun. What a name leads to after that is chosen among all
that it led to since the directory was last synced.
-/

namespace SparkPulse.AtomicJson

open Filesystem Program

abbrev Tid := Nat

/-! ## Data -/

/-- `json.load`, and the name of the type of what it answers. -/
structure Format (δ : Type) where
  load : String → Except String δ
  typeName : δ → String

/-- What is raised. -/
inductive Failure
  | os (text : String)
  /-- `StateFileError` -/
  | state (path reason : String) (quarantinePath : Option String)
  deriving DecidableEq, Repr

inductive Outcome (δ : Type)
  | written
  | found (data : Option δ)
  | off
  deriving DecidableEq, Repr

/-- A temporary file is named for the file it will be. -/
def isTemp (name : String) : Bool := ['.'].isPrefixOf name.toList && ['.', 't', 'm', 'p'].isSuffixOf name.toList

/-- What the names of a file that is moved aside end in, in the order they are tried. -/
def asideName (name : String) (stamp : Nat) : Nat → String
  | 0 => s!"{name}.corrupt.{stamp}"
  | k + 1 => s!"{asideName name stamp k}.{k + 1}"

/-! ## Calls -/

inductive Call
  | mkdir
  /-- `mkstemp`, beside the file. -/
  | mkstemp (name : String)
  /-- `write` and `flush` of the whole text. -/
  | write (file : Nat) (text : String)
  | fsync (file : Nat)
  | chmod (name : String) (mode : Nat)
  /-- `os.replace` -/
  | replace (source target : String)
  | unlink (name : String)
  /-- `_fsync_dir` -/
  | fsyncDir
  | openFile (name : String)
  | read (file : Nat)
  /-- The first name of a file moved aside that is not taken. -/
  | asideOf (name : String)
  /-- The power goes. -/
  | lose
  deriving DecidableEq, Repr

@[reducible] def Call.Ret : Call → Type
  | mkstemp _ => Except String (String × Nat)
  | mkdir | write .. | fsync _ | chmod .. | replace .. | unlink _ => Except String Unit
  | openFile _ => Except String (Option Nat)
  | read _ => Except String String
  | asideOf _ => String
  | fsyncDir | lose => Unit

abbrev Op := Prog Call Call.Ret Failure

abbrev invoke (c : Call) : Op c.Ret := Prog.call c

/-- Return what a call answered, or raise what it raised. -/
def orRaise {α : Type} : Except String α → Op α
  | .ok a => .ret a
  | .error text => .raise (.os text)

/-! ## Writing -/

/-- The part of `write_text_atomic` after which the temporary file is removed, if it fails. -/
def fill (temp : String) (file : Nat) (path text : String) (mode : Nat) : Op Unit := do
  orRaise (← invoke (.write file text))
  orRaise (← invoke (.fsync file))
  orRaise (← invoke (.chmod temp mode))
  orRaise (← invoke (.replace temp path))

/-- `write_text_atomic` -/
def writeTextAtomic (path text : String) (mode : Nat) : Op Unit := do
  orRaise (← invoke .mkdir)
  let (temp, file) ← orRaise (← invoke (.mkstemp path))
  match ← (fill temp file path text mode).attempt with
  | .error x =>
    orRaise (← invoke (.unlink temp))
    .raise x
  | .ok () => invoke .fsyncDir

/-! ## Reading -/

/-- `quarantine_corrupt` -/
def quarantineCorrupt (path : String) : Op (Option String) := do
  let target ← invoke (.asideOf path)
  match ← invoke (.replace path target) with
  | .error _ => return none
  | .ok () =>
    invoke .fsyncDir
    return some target

/-- `read_state_file`; an empty `expect` expects nothing. -/
def readStateFile {δ : Type} (format : Format δ) (path : String) (expect : List String) :
    Op (Option δ) := do
  match ← invoke (.openFile path) with
  | .error text => .raise (.state path text none)
  | .ok none => return none
  | .ok (some file) =>
    match ← invoke (.read file) with
    | .error text => .raise (.state path text none)
    | .ok text =>
      match format.load text with
      | .error exc => do
        let aside ← quarantineCorrupt path
        .raise (.state path s!"invalid JSON ({exc})" aside)
      | .ok data =>
        if expect ≠ [] ∧ format.typeName data ∉ expect then do
          let names := "/".intercalate expect
          let found := format.typeName data
          let aside ← quarantineCorrupt path
          .raise (.state path s!"expected a JSON {names}, found {found}" aside)
        else return some data

/-! ## The world -/

inductive Job
  | write (path text : String) (mode : Nat)
  | read (path : String) (expect : List String)
  | powerOff
  deriving DecidableEq, Repr

def Job.program {δ : Type} (format : Format δ) : Job → Op (Outcome δ)
  | write path text mode => do
    writeTextAtomic path text mode
    return .written
  | read path expect => return .found (← readStateFile format path expect)
  | powerOff => do
    invoke .lose
    return .off

/-- What happened. -/
inductive Event
  | replaced (thread : Tid) (target : String) (text : Option String)
  | movedFrom (thread : Tid) (source : String)
  | synced
  /-- The power went, and this is what the files were then. -/
  | lost (left : String → Option String)
  | opened (thread : Tid) (name : String) (text : Option String)
  /-- A temporary file could not be removed. -/
  | stuck (thread : Tid)

structure World where
  volume : Volume String String
  /-- The temporary files that were ever made, by whom, and their numbers. -/
  temps : String → Option (Tid × Nat) := fun _ ↦ none
  /-- The modes of files. -/
  modes : Nat → Nat := fun _ ↦ 0o644
  /-- The programs that have made a call since the power came. -/
  begun : List Tid := []
  /-- The programs that the power ended. -/
  dead : List Tid := []
  log : List Event := []

/-- What the schedule decides about one call. -/
structure Answer where
  raises : Option String := none
  /-- The random part of a name, or the text a failing write has left. -/
  text : String := ""
  /-- A call that raises has had its effect; a signal may come at any time. -/
  effective : Bool := false
  stamp : Nat := 0
  tries : Nat := 0
  choice : String → Nat := fun _ ↦ 0
  garbage : Nat → String := fun _ ↦ ""

def Answer.reply {α : Type} (a : Answer) (value : α) : Except String α :=
  match a.raises with
  | some text => .error text
  | none => .ok value

/-- Whether the call has its effect. -/
def Answer.acts (a : Answer) : Bool := a.raises.isNone || a.effective

namespace World

def mkstemp (i : Tid) (temp : String) (w : World) : World :=
  { w with
    volume := w.volume.create temp ""
    temps := Function.update w.temps temp (some (i, w.volume.next))
    modes := Function.update w.modes w.volume.next 0o600 }

def replace (i : Tid) (source target : String) (w : World) : World :=
  { w with
    volume := w.volume.rename source target
    log := .movedFrom i source :: .replaced i target (w.volume.content source) :: w.log }

def lose (choice : String → Nat) (garbage : Nat → String) (w : World) : World :=
  { w with
    volume := w.volume.lose choice garbage
    dead := w.begun ++ w.dead
    begun := []
    log := .lost (w.volume.lose choice garbage).content :: w.log }

end World

/-- The effect of a call. -/
def Call.effect (i : Tid) (w : World) (c : Call) (a : Answer) : Option (c.Ret × World) :=
  match c with
  | .mkdir => some (a.reply (), w)
  | .mkstemp name =>
    match a.raises with
    | some text => some (.error text, w)
    | none =>
      let temp := s!".{name}.{a.text}.tmp"
      -- `O_EXCL`; a random name is not drawn twice
      if w.volume.entries temp = none ∧ w.temps temp = none then
        some (.ok (temp, w.volume.next), w.mkstemp i temp)
      else none
  | .write file text =>
    match a.raises with
    | some exc => some (.error exc, { w with volume := w.volume.write file a.text })
    | none => some (.ok (), { w with volume := w.volume.write file text })
  | .fsync file =>
    match a.raises with
    | some exc => some (.error exc, w)
    | none => some (.ok (), { w with volume := w.volume.sync file })
  | .chmod name mode =>
    match w.volume.entries name with
    | none => some (.error "FileNotFoundError", w)
    | some file =>
      some (a.reply (), if a.acts then { w with modes := Function.update w.modes file mode } else w)
  | .replace source target =>
    match w.volume.entries source with
    | none => some (.error "FileNotFoundError", w)
    | some _ => some (a.reply (), if a.acts then w.replace i source target else w)
  | .unlink name =>
    match a.raises with
    | some text => some (.error text, { w with log := .stuck i :: w.log })
    | none => some (.ok (), { w with volume := w.volume.unlink name })
  | .fsyncDir =>
    some ((), if a.acts then { w with volume := w.volume.syncDir, log := .synced :: w.log } else w)
  | .openFile name =>
    match a.raises with
    | some text => some (.error text, w)
    | none => some (.ok (w.volume.entries name),
        { w with log := .opened i name (w.volume.content name) :: w.log })
  | .read file => some (a.reply (w.volume.data file), w)
  | .asideOf name =>
    let target := asideName name a.stamp a.tries
    if w.volume.entries target = none then some (target, w) else none
  | .lose => some ((), w.lose a.choice a.garbage)

/-- One call of a program that is still there. -/
def Call.exec (i : Tid) (w : World) (c : Call) (a : Answer) : Option (c.Ret × World) :=
  if i ∈ w.dead then none
  else c.effect i { w with begun := i :: w.begun } a

/-- All interleavings of some programs over a directory. -/
def system {δ : Type} (format : Format δ) (jobs : Tid → Job) (init : Volume String String) :
    Transition.System (Threads Tid Call.Ret Failure (Outcome δ) World) (Tid × Answer) :=
  Threads.system Call.exec fun s ↦
    s.pool = (fun i ↦ (jobs i).program format) ∧ s.world = { volume := init }

end SparkPulse.AtomicJson
