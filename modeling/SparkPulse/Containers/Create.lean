import Mathlib.Data.Rat.Floor
import SparkPulse.Containers.Metadata
import SparkPulse.Data.Dict

/-!
# Two services that create a container

`DockerService.run_container` on the control node and `create_config` in an agent turn one call into
what the Docker daemon is asked for. Here is what each asks for, and when the two are the same.

The Python service goes through the Docker SDK, whose conventions are followed where they matter: a
command that is one string is split into words, a device is three parts between colons, and a limit
with the suffix `g` is a number of bytes. A dictionary is a list of its entries.
-/

namespace SparkPulse.Containers

open Recipes (Text)

/-! ## Calls and messages -/

/-- A shell string, or a list of arguments. -/
inductive Cmd
  | shell (line : Text)
  | argv (parts : List Text)
  deriving DecidableEq

/-- The arguments of `run_container`; one that is absent was not passed. -/
structure RunArgs (D : Doubles) where
  image : Text
  name : Text
  envVars : List (Text × Text)
  metadata : ContainerMetadata D
  privileged : Option Bool := none
  memoryLimitGb : Option D.Double := none
  shmSizeGb : Option D.Double := none
  pidsLimit : Option ℤ := none
  nofileLimit : Option ℤ := none
  cacheDirs : List Text := []
  portMappings : List Text := []
  entrypointClear : Option Bool := none
  detach : Option Bool := none
  command : Option Cmd := none
  mounts : List (Text × Text) := []
  networkHost : Option Bool := none
  ipcHost : Option Bool := none
  devices : List Text := []
  capAdd : List Text := []
  ulimits : List (Text × Text) := []
  autoRemove : Option Bool := none
  user : Option Text := none

/-- The message that carries them to an agent. Its maps keep the order of the dictionaries they come
from, on which no setting depends. -/
structure RunContainer (D : Doubles) where
  image : Text
  name : Text
  envVars : List (Text × Text)
  metadata : PbMetadata D
  privileged : Option Bool
  memoryLimitGb : Option D.Double
  shmSizeGb : Option D.Double
  pidsLimit : Option ℕ
  nofileLimit : Option ℕ
  cacheDirs : List Text
  portMappings : List Text
  entrypointClear : Option Bool
  detach : Option Bool
  command : Option Cmd
  mounts : List (Text × Text)
  networkHost : Option Bool
  ipcHost : Option Bool
  devices : List Text
  capAdd : List Text
  ulimits : List (Text × Text)
  autoRemove : Option Bool
  user : Option Text

/-- An unsigned field of so many bits; a number that does not fit raises. -/
def encodeUInt (bits : ℕ) (n : Option ℤ) : Option (Option ℕ) :=
  match n with
  | none => some none
  | some n => if 0 ≤ n ∧ n < 2 ^ bits then some (some n.toNat) else none

variable {D : Doubles}

/-- `encode_run_container` -/
def encodeRunContainer (a : RunArgs D) : Option (RunContainer D) := do
  let metadata ← encodeMetadata a.metadata
  let pidsLimit ← encodeUInt 32 a.pidsLimit
  let nofileLimit ← encodeUInt 64 a.nofileLimit
  return {
    image := a.image, name := a.name, envVars := a.envVars, metadata, privileged := a.privileged
    memoryLimitGb := a.memoryLimitGb, shmSizeGb := a.shmSizeGb, pidsLimit, nofileLimit
    cacheDirs := a.cacheDirs, portMappings := a.portMappings
    entrypointClear := a.entrypointClear, detach := a.detach, command := a.command
    mounts := a.mounts, networkHost := a.networkHost, ipcHost := a.ipcHost, devices := a.devices
    capAdd := a.capAdd, ulimits := a.ulimits, autoRemove := a.autoRemove, user := a.user }

/-! ## Settings -/

/-- What the daemon is asked for. -/
structure Settings where
  image : Text
  name : Text
  env : List Text
  labels : Labels
  entrypoint : Option (List Text)
  cmd : Option (List Text)
  user : Option Text
  /-- The host's path and the container's, all of them writable. -/
  binds : List (Text × Text)
  privileged : Bool
  pidsLimit : ℤ
  shmSize : ℤ
  /-- The soft and the hard limit of a name. -/
  ulimits : List (Text × ℤ × ℤ)
  autoRemove : Bool
  /-- The caller does not wait for the container to end. -/
  detached : Bool
  restartPolicy : Text
  /-- A count and the capabilities. -/
  deviceRequests : List (ℤ × List (List Text))
  memory : Option ℤ
  memorySwap : Option ℤ
  capAdd : List Text
  networkMode : Option Text
  ipcMode : Option Text
  /-- The host's path, the container's, and what may be done. -/
  devices : List (Text × Text × Text)
  /-- The container's port and the host's. -/
  ports : List (Text × ℤ)

/-- The same settings, up to the order of the mounts. -/
def Settings.Same (s s' : Settings) : Prop :=
  s.binds.Perm s'.binds ∧ { s with binds := s'.binds } = s'

/-! ## Numbers -/

/-- `int` of a float: towards zero. -/
def truncate (q : ℚ) : ℤ := if 0 ≤ q then ⌊q⌋ else ⌈q⌉

/-- Gigabytes in bytes, by Python's `int`, which raises where there is no integer. -/
def gbToBytes : Magnitude → Option ℤ
  -- a product past the largest float is infinite
  | .finite q => if |q * 2 ^ 30| < 2 ^ 1024 then some (truncate (q * 2 ^ 30)) else none
  | _ => none

def minI64 : ℤ := -2 ^ 63

def maxI64 : ℤ := 2 ^ 63 - 1

/-- Gigabytes in bytes, by Rust's `as i64`, which saturates. -/
def gbToI64 : Magnitude → ℤ
  | .finite q => max minI64 (min maxI64 (truncate (q * 2 ^ 30)))
  | .infinite negative => if negative then minI64 else maxI64
  | .nan => 0

def Magnitude.isPositive : Magnitude → Bool
  | .finite q => 0 < q
  | .infinite negative => !negative
  | .nan => false

/-- Rust's `u64 as i64`. -/
def castI64 (n : ℕ) : ℤ := if n < 2 ^ 63 then n else n - 2 ^ 64

/-! ## Texts -/

def colon : Char := ':'

/-- `str.partition(":")`: what stands before the colon, and after it if there is one. -/
def cutAtColon (t : Text) : Text × Option Text :=
  (t.takeWhile (· ≠ colon), (t.dropWhile (· ≠ colon)).tail?)

section Digits

variable (decimal : Char → Option ℕ)

/-- A decimal digit of Python's `int`, which reads others than those of ASCII. -/
def digit (c : Char) : Option ℕ := if c.isDigit then some (c.toNat - '0'.toNat) else decimal c

/-- The digits after one that was read; one underscore may stand between two. -/
def pyDigits (n : ℕ) : Text → Option ℕ
  | [] => some n
  | '_' :: c :: t => (digit decimal c).bind fun d ↦ pyDigits (10 * n + d) t
  | c :: t => (digit decimal c).bind fun d ↦ pyDigits (10 * n + d) t

def pyNat : Text → Option ℕ
  | [] => none
  | c :: t => (digit decimal c).bind fun d ↦ pyDigits decimal d t

/-- Python's `int`, of a text. -/
def pyInt (t : Text) : Option ℤ :=
  match Recipes.trim Runtime.isSpace t with
  | '-' :: t => (pyNat decimal t).map fun n ↦ -n
  | '+' :: t => (pyNat decimal t).map fun n ↦ n
  | t => (pyNat decimal t).map fun n ↦ n

end Digits

/-- Rust's `parse::<i64>`. -/
def rustInt (t : Text) : Option ℤ :=
  let n : Option ℤ := match t with
    | '-' :: t => (Network.decimal? t).map fun n ↦ -n
    | '+' :: t => (Network.decimal? t).map fun n ↦ n
    | t => (Network.decimal? t).map fun n ↦ n
  n.filter fun n ↦ minI64 ≤ n ∧ n ≤ maxI64

/-- A limit `soft[:hard]`, by the Python service. -/
def pyLimit (decimal : Char → Option ℕ) (raw : Text) : Option (ℤ × ℤ) := do
  let (soft, hard) := cutAtColon raw
  let hard := hard.getD []
  let softValue ← pyInt decimal soft
  let hardValue ← pyInt decimal (if hard = [] then soft else hard)
  return (softValue, hardValue)

/-- A limit `soft[:hard]`, by the agent, which leaves out one whose soft part it cannot read. -/
def rustLimit (raw : Text) : Option (ℤ × ℤ) := do
  let (soft, hard) := match cutAtColon raw with
    | (_, none) => (raw, raw)
    | (soft, some hard) => (soft, hard)
  let softValue ← rustInt (Recipes.trim isWhitespace soft)
  return (softValue, (rustInt (Recipes.trim isWhitespace hard)).getD softValue)

def nofile : Text := "nofile".toList

def ipcLock : Text := "IPC_LOCK".toList

def host : Text := "host".toList

def rwm : Text := "rwm".toList

/-- A device of the SDK: the host's path, the container's, and what may be done. -/
def parseDevice (t : Text) : Text × Text × Text :=
  match cutAtColon t with
  | (onHost, none) => (onHost, onHost, rwm)
  | (onHost, some rest) =>
    match cutAtColon rest with
    | (inContainer, none) => (onHost, inContainer, rwm)
    | (inContainer, some rest) => (onHost, inContainer, (cutAtColon rest).1)

/-- A `dict` with entries put in one after another. -/
def dictOf {β : Type} (entries : List (Text × β)) : List (Text × β) :=
  Dict.pairs (entries.foldl (fun d e ↦ d.insert e.1 e.2) ∅)

/-! ## Both services -/

/-- `prepare_labels`: the image and the time are filled in where they are missing. -/
def ContainerMetadata.prepare (stamp image : Text) (m : ContainerMetadata D) :
    ContainerMetadata D :=
  { m with
    image := if m.image = [] then image else m.image
    createdAt := if m.createdAt.getD [] = [] then some stamp else m.createdAt }

def PbMetadata.prepare (stamp image : Text) (p : PbMetadata D) : PbMetadata D :=
  { p with
    image := if p.image = [] then image else p.image
    createdAt := if p.createdAt.getD [] = [] then some stamp else p.createdAt }

/-- `resolve_user`, where the process has an identity `uid:gid`. -/
def resolveUser (identity spec : Text) : Text := if spec = "agent".toList then identity else spec

def envEntry (e : Text × Text) : Text := e.1 ++ '=' :: e.2

/-- Capabilities that are added: none to a privileged container, which has them all. -/
def addedCaps (privileged : Bool) (capAdd : List Text) : List Text :=
  if privileged then [] else if ipcLock ∈ capAdd then capAdd else capAdd ++ [ipcLock]

/-- Host networking, unless it was refused or ports are published. -/
def networkMode (networkHost : Option Bool) (portMappings : List Text) : Option Text :=
  match networkHost with
  | none => if portMappings = [] then some host else none
  | some networkHost => if networkHost then some host else none

/-- The Docker SDK, as far as it decides what a command is. -/
structure DockerSdk where
  /-- The words of a shell string; an open quote raises. -/
  splitCommand : Text → Option (List Text)
  /-- Words are made of the letters of the string. -/
  length_splitCommand : ∀ line words, splitCommand line = some words →
    (words.map List.length).sum ≤ line.length

def DockerSdk.cmd (sdk : DockerSdk) : Option Cmd → Option (Option (List Text))
  | none => some none
  | some (.shell line) => (sdk.splitCommand line).map some
  | some (.argv parts) => some (some parts)

/-- `{p.split(":")[1]: int(p.split(":")[0]) for p in port_mappings}` -/
def portBindings (decimal : Char → Option ℕ) (portMappings : List Text) :
    Option (List (Text × ℤ)) :=
  (portMappings.mapM fun p ↦
    match cutAtColon p with
    | (_, none) => none
    | (onHost, some rest) => (pyInt decimal onHost).map fun n ↦ ((cutAtColon rest).1, n)).map dictOf

/-- The ports that are published, which the SDK refuses to do on the host's own network. -/
def publishedPorts (decimal : Char → Option ℕ) (networkMode : Option Text)
    (portMappings : List Text) : Option (List (Text × ℤ)) :=
  if portMappings ≠ [] ∧ networkMode = some host then none else portBindings decimal portMappings

/-- The memory limit and the limit with swap, if there is a limit. -/
def pyMemory (gb : Option D.Double) : Option (Option (ℤ × ℤ)) :=
  match gb with
  | none => some none
  | some gb =>
    if D.truthy gb then do
      let memory ← gbToBytes (D.value gb)
      let swap ← gbToBytes (D.value (D.plus gb 10))
      return some (memory, swap)
    else some none

/-- The same two, of a limit above zero. -/
def rustMemory (gb : Option D.Double) : Option (ℤ × ℤ) :=
  (gb.filter fun gb ↦ (D.value gb).isPositive).map fun gb ↦
    (gbToI64 (D.value gb), gbToI64 (D.value (D.plus gb 10)))

/-- The size of the shared memory, which the SDK reads with its suffix. -/
def pyShmSize (gb : Option D.Double) : Option ℤ :=
  match gb with
  | none => some (64 * 2 ^ 30)
  | some gb => gbToBytes (D.value gb)

def rustShmSize (gb : Option D.Double) : ℤ :=
  match gb with
  | none => 64 * 2 ^ 30
  | some gb => gbToI64 (D.value gb)

/-- The limits besides that of open files, which has its own argument. -/
def otherLimits (ulimits : List (Text × Text)) : List (Text × Text) :=
  ulimits.filter fun e ↦ e.1 ≠ nofile

def pyLimits (decimal : Char → Option ℕ) (ulimits : List (Text × Text)) :
    Option (List (Text × ℤ × ℤ)) :=
  (otherLimits ulimits).mapM fun e ↦ (pyLimit decimal e.2).map fun limit ↦ (e.1, limit)

def rustLimits (ulimits : List (Text × Text)) : List (Text × ℤ × ℤ) :=
  (otherLimits ulimits).filterMap fun e ↦ (rustLimit e.2).map fun limit ↦ (e.1, limit)

/-- `decode_cmd` -/
def decodeCmd : Cmd → List Text
  | .argv parts => parts
  | .shell line => ["sh".toList, "-c".toList, line]

/-- `run_container`: what is asked for, or nothing where a value raises. -/
def runContainer (sdk : DockerSdk) (decimal : Char → Option ℕ) (identity stamp : Text)
    (a : RunArgs D) : Option Settings := do
  let privileged := a.privileged.getD true
  let nofileLimit := a.nofileLimit.getD 1048576
  let limits ← pyLimits decimal a.ulimits
  let shmSize ← pyShmSize a.shmSizeGb
  let memory ← pyMemory a.memoryLimitGb
  let networkMode := networkMode a.networkHost a.portMappings
  let ports ← publishedPorts decimal networkMode a.portMappings
  let cmd ← sdk.cmd a.command
  return {
    image := a.image, name := a.name
    env := a.envVars.map envEntry
    labels := (a.metadata.prepare stamp a.image).toLabels.insert .name a.name
    entrypoint := if a.entrypointClear.getD true then some [] else none
    cmd
    user := a.user.map (resolveUser identity)
    binds := dictOf (a.cacheDirs.map (fun dir ↦ (dir, dir)) ++ a.mounts)
    privileged
    pidsLimit := a.pidsLimit.getD 4096
    shmSize
    ulimits := (nofile, nofileLimit, nofileLimit) :: limits
    autoRemove := a.detach.getD true && a.autoRemove.getD true
    detached := a.detach.getD true
    restartPolicy := "no".toList
    deviceRequests := [(-1, [["gpu".toList]])]
    memory := memory.map Prod.fst
    memorySwap := memory.map Prod.snd
    capAdd := addedCaps privileged a.capAdd
    networkMode
    ipcMode := if a.ipcHost.getD false then some host else none
    devices := a.devices.map fun d ↦ parseDevice (d ++ colon :: (d ++ colon :: rwm))
    ports }

/-- `create_config`, after `labels::prepare`. -/
def createConfig (identity stamp : Text) (req : RunContainer D) : Settings :=
  let privileged := req.privileged.getD true
  let nofileLimit := castI64 (req.nofileLimit.getD 1048576)
  let memory := rustMemory req.memoryLimitGb
  { image := req.image, name := req.name
    env := req.envVars.map envEntry
    labels := (req.metadata.prepare stamp req.image).toLabels.insert .name req.name
    entrypoint := if req.entrypointClear.getD true then some [] else none
    cmd := req.command.map decodeCmd
    user := req.user.map (resolveUser identity)
    binds := req.cacheDirs.map (fun dir ↦ (dir, dir)) ++ req.mounts
    privileged
    pidsLimit := req.pidsLimit.getD 4096
    shmSize := rustShmSize req.shmSizeGb
    ulimits := (nofile, nofileLimit, nofileLimit) :: rustLimits req.ulimits
    autoRemove := req.autoRemove.getD true
    detached := true
    restartPolicy := "no".toList
    deviceRequests := [(-1, [["gpu".toList]])]
    memory := memory.map Prod.fst
    memorySwap := memory.map Prod.snd
    capAdd := addedCaps privileged req.capAdd
    networkMode := networkMode req.networkHost req.portMappings
    ipcMode := if req.ipcHost.getD false then some host else none
    devices := req.devices.map fun path ↦ (path, path, rwm)
    ports := [] }

/-! ## When they ask for the same -/

/-- A number of gigabytes whose bytes are an integer of 64 bits. -/
def Magnitude.FitsI64 (x : Magnitude) : Prop :=
  ∃ bytes, gbToBytes x = some bytes ∧ minI64 ≤ bytes ∧ bytes ≤ maxI64

/-- A call that both services understand alike. -/
structure RunArgs.Portable (decimal : Char → Option ℕ) (a : RunArgs D) : Prop where
  /-- The agent publishes no port. -/
  ports : a.portMappings = []
  /-- The agent hands a string to a shell, and the SDK splits it. -/
  command : ∀ line, a.command ≠ some (.shell line)
  /-- The agent never waits. -/
  detach : a.detach ≠ some false
  memory : ∀ gb ∈ a.memoryLimitGb, D.truthy gb = true → (D.value gb).isPositive = true ∧
    (D.value gb).FitsI64 ∧ (D.value (D.plus gb 10)).FitsI64
  shmSize : ∀ gb ∈ a.shmSizeGb, (D.value gb).FitsI64
  nofileLimit : ∀ n ∈ a.nofileLimit, n < 2 ^ 63
  ulimits : ∀ e ∈ a.ulimits, e.1 ≠ nofile →
    ∃ limit, pyLimit decimal e.2 = some limit ∧ rustLimit e.2 = some limit
  /-- No two mounts are of one path of the host. -/
  binds : (a.cacheDirs ++ a.mounts.map Prod.fst).Nodup
  devices : ∀ d ∈ a.devices, colon ∉ d
  memoryLabel : ∀ gb ∈ a.metadata.memoryLimitGb, D.truthy gb = true → D.str gb = D.pyFloat gb
  shmLabel : D.str a.metadata.shmSizeGb = D.pyFloat a.metadata.shmSizeGb

section Fields

variable {x : Magnitude} {decimal : Char → Option ℕ}

theorem gbToBytes_eq_gbToI64_iff : gbToBytes x = some (gbToI64 x) ↔ x.FitsI64 := by
  cases x with
  | finite q =>
    simp only [gbToBytes, gbToI64, Magnitude.FitsI64]
    split_ifs
    · simp only [Option.some.injEq, exists_eq_left']
      have : minI64 ≤ maxI64 := by decide
      omega
    · simp
  | infinite negative => simp [gbToBytes, Magnitude.FitsI64]
  | nan => simp [gbToBytes, Magnitude.FitsI64]

theorem pyShmSize_iff (gb : Option D.Double) :
    pyShmSize gb = some (rustShmSize gb) ↔ ∀ x ∈ gb, (D.value x).FitsI64 := by
  cases gb with
  | none => simp [pyShmSize, rustShmSize]
  | some gb =>
    rw [pyShmSize, rustShmSize, gbToBytes_eq_gbToI64_iff]
    simp

theorem isPositive_truthy {gb : D.Double} (h : (D.value gb).isPositive = true) :
    D.truthy gb = true := by
  unfold Doubles.truthy
  split
  · rename_i q hq
    rw [hq, Magnitude.isPositive, decide_eq_true_iff] at h
    exact decide_eq_true h.ne'
  · rfl

theorem pyMemory_iff (gb : Option D.Double) :
    pyMemory gb = some (rustMemory gb) ↔ ∀ x ∈ gb, D.truthy x = true →
      (D.value x).isPositive = true ∧ (D.value x).FitsI64 ∧ (D.value (D.plus x 10)).FitsI64 := by
  cases gb with
  | none => simp [pyMemory, rustMemory]
  | some gb =>
    simp only [Option.mem_some_iff, forall_eq', ← gbToBytes_eq_gbToI64_iff]
    by_cases htruthy : D.truthy gb = true
    · by_cases hpos : (D.value gb).isPositive = true
      · rw [pyMemory, if_pos htruthy, rustMemory, Option.filter_some, if_pos hpos]
        simp only [Option.bind_eq_bind, Option.bind_eq_some_iff, Option.pure_def,
          Option.some.injEq, Option.map_some, Prod.mk.injEq, htruthy, hpos, forall_const, true_and]
        grind
      · rw [pyMemory, if_pos htruthy, rustMemory, Option.filter_some, if_neg hpos]
        refine iff_of_false ?_ fun h ↦ hpos (h htruthy).1
        simp [Option.bind_eq_some_iff]
    · have hpos : ¬(D.value gb).isPositive = true := fun h ↦ htruthy (isPositive_truthy h)
      rw [pyMemory, if_neg htruthy, rustMemory, Option.filter_some, if_neg hpos]
      exact iff_of_true rfl fun h ↦ absurd h htruthy

theorem dictOf_ne_nil {β : Type} {e : Text × β} {entries : List (Text × β)} (h : e ∈ entries) :
    dictOf entries ≠ [] := by
  intro hnil
  have hentries := List.map_eq_nil_iff.mp hnil
  rcases Dict.lookup_foldl_insert Prod.fst Prod.snd entries ∅ e.1 with
    ⟨e', -, -, hlookup⟩ | ⟨hnone, -⟩
  · have hmem := AList.mem_lookup_iff.mp (Option.mem_def.mpr hlookup)
    rw [hentries] at hmem
    cases hmem
  · exact hnone e h rfl

/-- Without a mapping no port is published, and with one some port is, or the call raises. -/
theorem publishedPorts_iff (mode : Option Text) (portMappings : List Text) :
    publishedPorts decimal mode portMappings = some [] ↔ portMappings = [] := by
  constructor
  · intro h
    unfold publishedPorts at h
    split_ifs at h
    obtain ⟨ports, hports, hdict⟩ := Option.map_eq_some_iff.mp h
    rcases portMappings with _ | ⟨p, portMappings⟩
    · rfl
    · rw [List.mapM_cons] at hports
      obtain ⟨port, -, hports⟩ := Option.bind_eq_some_iff.mp hports
      obtain ⟨rest, -, hports⟩ := Option.bind_eq_some_iff.mp hports
      cases hports
      exact absurd hdict (dictOf_ne_nil List.mem_cons_self)
  · rintro rfl
    rw [publishedPorts, if_neg fun h ↦ h.1 rfl]
    rfl

theorem cmd_iff (sdk : DockerSdk) (command : Option Cmd) :
    sdk.cmd command = some (command.map decodeCmd) ↔ ∀ line, command ≠ some (.shell line) := by
  rcases command with _ | line | parts
  · simp [DockerSdk.cmd]
  · refine iff_of_false (fun h ↦ ?_) fun h ↦ h line rfl
    obtain ⟨words, hwords, heq⟩ := Option.map_eq_some_iff.mp h
    have hlength := sdk.length_splitCommand line words hwords
    rw [Option.some.inj heq, decodeCmd] at hlength
    simp at hlength
    omega
  · simp [DockerSdk.cmd, decodeCmd]

/-- Reading every entry gives what is read of those that can be exactly when each can be and is read
alike. -/
theorem mapM_eq_filterMap_iff {α β : Type} {f g : α → Option β} (l : List α) :
    l.mapM f = some (l.filterMap g) ↔ ∀ a ∈ l, ∃ b, f a = some b ∧ g a = some b := by
  have hlength : ∀ {l : List α} {bs : List β}, l.mapM f = some bs → bs.length = l.length := by
    intro l
    induction l with
    | nil => simp
    | cons a l ih =>
      intro bs h
      rw [List.mapM_cons] at h
      obtain ⟨b, -, h⟩ := Option.bind_eq_some_iff.mp h
      obtain ⟨bs', hbs', h⟩ := Option.bind_eq_some_iff.mp h
      cases h
      rw [List.length_cons, List.length_cons, ih hbs']
  induction l with
  | nil => simp
  | cons a l ih =>
    rw [List.forall_mem_cons]
    constructor
    · intro h
      have hle := List.length_filterMap_le g l
      have hlen := hlength h
      rw [List.mapM_cons] at h
      obtain ⟨b, hb, h⟩ := Option.bind_eq_some_iff.mp h
      obtain ⟨bs, hbs, h⟩ := Option.bind_eq_some_iff.mp h
      rw [List.filterMap_cons] at h hlen
      rcases hg : g a with _ | b'
      · rw [hg] at hlen
        simp only [List.length_cons] at hlen
        omega
      · rw [hg] at h
        cases h
        exact ⟨⟨b, hb, rfl⟩, ih.mp hbs⟩
    · rintro ⟨⟨b, hb, hg⟩, hrest⟩
      rw [List.mapM_cons, hb, ih.mpr hrest, List.filterMap_cons, hg]
      rfl

theorem pyLimits_iff (ulimits : List (Text × Text)) :
    pyLimits decimal ulimits = some (rustLimits ulimits) ↔ ∀ e ∈ ulimits, e.1 ≠ nofile →
      ∃ limit, pyLimit decimal e.2 = some limit ∧ rustLimit e.2 = some limit := by
  rw [pyLimits, rustLimits, mapM_eq_filterMap_iff, otherLimits]
  simp only [List.mem_filter, decide_eq_true_eq, and_imp, Option.map_eq_some_iff]
  refine forall₃_congr fun e _ _ ↦ ⟨?_, ?_⟩
  · rintro ⟨b, ⟨limit, hlimit, rfl⟩, limit', hlimit', heq⟩
    obtain rfl : limit' = limit := congrArg Prod.snd heq
    exact ⟨limit', hlimit, hlimit'⟩
  · rintro ⟨limit, hlimit, hlimit'⟩
    exact ⟨(e.1, limit), ⟨limit, hlimit, rfl⟩, limit, hlimit', rfl⟩

theorem dictOf_perm_iff (cacheDirs : List Text) (mounts : List (Text × Text)) :
    (dictOf (cacheDirs.map (fun dir ↦ (dir, dir)) ++ mounts)).Perm
        (cacheDirs.map (fun dir ↦ (dir, dir)) ++ mounts) ↔
      (cacheDirs ++ mounts.map Prod.fst).Nodup := by
  rw [dictOf, Dict.perm_foldl_insert_iff, List.map_append, List.map_map]
  simp [Function.comp_def]

/-- Without a colon in it, what stands before one is cut off. -/
theorem cutAtColon_append {d : Text} (h : colon ∉ d) (rest : Text) :
    cutAtColon (d ++ colon :: rest) = (d, some rest) := by
  have hall : ∀ c ∈ d, decide (c ≠ colon) = true := fun c hc ↦
    decide_eq_true fun heq ↦ h (heq ▸ hc)
  rw [cutAtColon, List.takeWhile_append_of_pos hall, List.dropWhile_append_of_pos hall]
  simp

/-- The host's path ends at the first colon. -/
theorem parseDevice_fst (t : Text) : (parseDevice t).1 = t.takeWhile (· ≠ colon) := by
  rw [parseDevice]
  rcases h : cutAtColon t with ⟨onHost, _ | rest⟩
  · exact (congrArg Prod.fst h).symm
  · rcases h' : cutAtColon rest with ⟨inContainer, _ | rest'⟩
    all_goals
      simp only [h']
      exact (congrArg Prod.fst h).symm

theorem parseDevice_iff (d : Text) :
    parseDevice (d ++ colon :: (d ++ colon :: rwm)) = (d, d, rwm) ↔ colon ∉ d := by
  constructor
  · intro h hmem
    have hfirst : (parseDevice (d ++ colon :: (d ++ colon :: rwm))).1 =
        (d ++ colon :: (d ++ colon :: rwm)).takeWhile (· ≠ colon) := parseDevice_fst _
    rw [h] at hfirst
    have hcut : colon ∈ (d ++ colon :: (d ++ colon :: rwm)).takeWhile (· ≠ colon) := by
      rw [← hfirst]
      exact hmem
    simpa using List.mem_takeWhile_imp hcut
  · intro h
    rw [parseDevice, cutAtColon_append h]
    simp only [cutAtColon_append h]
    rfl

theorem encodeUInt_eq_some_iff {bits : ℕ} {n : Option ℤ} {n' : Option ℕ} :
    encodeUInt bits n = some n' ↔ n = n'.map Nat.cast ∧ ∀ k ∈ n', k < 2 ^ bits := by
  rcases n with _ | n <;> rcases n' with _ | n'
  · simp [encodeUInt]
  · simp [encodeUInt]
  · simp [encodeUInt]
  · rw [encodeUInt]
    constructor
    · intro h
      split_ifs at h with hn
      obtain rfl : n.toNat = n' := Option.some.inj (Option.some.inj h)
      refine ⟨congrArg some (Int.toNat_of_nonneg hn.1).symm, fun k hk ↦ ?_⟩
      obtain rfl := Option.some.inj hk
      have := hn.2
      zify
      rwa [Int.toNat_of_nonneg hn.1]
    · rintro ⟨hn, hbits⟩
      obtain rfl : n = n' := Option.some.inj hn
      have : (n' : ℤ) < 2 ^ bits := by exact_mod_cast hbits n' rfl
      rw [if_pos ⟨by omega, this⟩]
      rfl

theorem castI64_eq_iff {n : ℕ} : castI64 n = n ↔ n < 2 ^ 63 := by
  unfold castI64
  split_ifs with h
  · exact iff_of_true rfl h
  · exact iff_of_false (by omega) h

/-- The limit of open files, where no bit of it is a sign. -/
theorem nofileLimit_iff {n : Option ℤ} {n' : Option ℕ} (h : encodeUInt 64 n = some n') :
    n.getD 1048576 = castI64 (n'.getD 1048576) ↔ ∀ k ∈ n, k < 2 ^ 63 := by
  obtain ⟨rfl, -⟩ := encodeUInt_eq_some_iff.mp h
  rcases n' with _ | n'
  · simp [castI64]
  · simp only [Option.map_some, Option.getD_some, Option.mem_some_iff, forall_eq']
    rw [eq_comm, castI64_eq_iff]
    omega

theorem detach_iff (detach autoRemove : Option Bool) :
    ((detach.getD true && autoRemove.getD true) = autoRemove.getD true ∧
      detach.getD true = true) ↔ detach ≠ some false := by
  rcases detach with _ | _ | _ <;> simp

theorem limitLabel_iff (gb : Option D.Double) :
    D.limitLabel D.str gb = D.limitLabel D.pyFloat gb ↔
      ∀ x ∈ gb, D.truthy x = true → D.str x = D.pyFloat x := by
  rcases gb with _ | gb
  · simp [Doubles.limitLabel]
  · by_cases h : D.truthy gb = true
    · simp [Doubles.limitLabel, h]
    · simp [Doubles.limitLabel, h]

/-- The labels are the same exactly when the limits are printed alike. -/
theorem labels_iff {m : ContainerMetadata D} {p : PbMetadata D} (h : encodeMetadata m = some p)
    (stamp image name : Text) :
    (m.prepare stamp image).toLabels.insert .name name =
        (p.prepare stamp image).toLabels.insert .name name ↔
      (∀ x ∈ m.memoryLimitGb, D.truthy x = true → D.str x = D.pyFloat x) ∧
        D.str m.shmSizeGb = D.pyFloat m.shmSizeGb := by
  rw [← limitLabel_iff]
  unfold encodeMetadata at h
  split_ifs at h
  obtain rfl := Option.some.inj h
  constructor
  · intro heq
    have hlookup (key : LabelKey) (hkey : key ≠ .name) :
        (m.prepare stamp image).toLabels.lookup key = _ :=
      (AList.lookup_insert_ne hkey).symm.trans
        ((congrArg (AList.lookup key) heq).trans (AList.lookup_insert_ne hkey))
    have hmemory := hlookup .memoryLimit (by decide)
    have hshm := hlookup .shmSize (by decide)
    rw [ContainerMetadata.toLabels, lookup_metadataLabels, PbMetadata.toLabels,
      lookup_metadataLabels] at hmemory hshm
    exact ⟨Option.some.inj hmemory, Option.some.inj hshm⟩
  · rintro ⟨hmemory, hshm⟩
    refine congrArg (AList.insert _ _) ?_
    unfold ContainerMetadata.toLabels PbMetadata.toLabels
    have hmemory' : (m.prepare stamp image).memoryLabel = _ := hmemory
    rw [hmemory']
    have hshm' : D.str (m.prepare stamp image).shmSizeGb = _ := hshm
    rw [hshm']
    rfl

theorem devices_iff (devices : List Text) :
    devices.map (fun d ↦ parseDevice (d ++ colon :: (d ++ colon :: rwm))) =
      devices.map (fun d ↦ (d, d, rwm)) ↔ ∀ d ∈ devices, colon ∉ d := by
  rw [List.map_inj_left]
  exact forall₂_congr fun d _ ↦ parseDevice_iff d

/-- An optional pair is given by its two parts. -/
theorem eq_of_map_fst_snd {α β : Type} {o o' : Option (α × β)}
    (hfst : o.map Prod.fst = o'.map Prod.fst) (hsnd : o.map Prod.snd = o'.map Prod.snd) :
    o = o' := by
  rcases o with _ | ⟨a, b⟩ <;> rcases o' with _ | ⟨a', b'⟩ <;> simp_all

end Fields

/-- The words of a string that has no quotes in it, after the letters of one that was begun. -/
def wordsFrom (word : Text) : Text → List Text
  | [] => if word = [] then [] else [word]
  | c :: t =>
    if Runtime.isSpace c then
      if word = [] then wordsFrom [] t else word :: wordsFrom [] t
    else wordsFrom (word ++ [c]) t

theorem length_wordsFrom (word t : Text) :
    ((wordsFrom word t).map List.length).sum ≤ word.length + t.length := by
  induction t generalizing word with
  | nil =>
    rw [wordsFrom]
    split_ifs <;> simp
  | cons c t ih =>
    rw [wordsFrom, List.length_cons]
    split_ifs
    · have := ih []
      simp only [List.length_nil] at this
      omega
    · have := ih []
      simp only [List.map_cons, List.sum_cons, List.length_nil] at this ⊢
      omega
    · have := ih (word ++ [c])
      simp only [List.length_append, List.length_singleton] at this
      omega

/-- The SDK, on strings without quotes. -/
def atSpaces : DockerSdk where
  splitCommand line := some (wordsFrom [] line)
  length_splitCommand line words h := by
    obtain rfl := Option.some.inj h
    simpa using length_wordsFrom [] line

/-- An idle rank that the engine is started in afterwards. -/
private def idleRank : RunArgs wholes where
  image := "vllm".toList
  name := "d1-g1-r0".toList
  envVars := [("HF_HOME".toList, "/cache".toList)]
  metadata := { memoryLimitGb := some (96 : ℕ), shmSizeGb := (64 : ℕ) }
  memoryLimitGb := some (96 : ℕ)
  shmSizeGb := some (64 : ℕ)
  cacheDirs := ["/cache".toList]
  command := some (.argv ["sleep".toList, "infinity".toList])
  networkHost := some true
  ipcHost := some true
  devices := ["/dev/infiniband".toList]
  ulimits := [("memlock".toList, "-1".toList), ("stack".toList, "67108864".toList)]
  autoRemove := some false
  user := some "agent".toList

/-- The same rank, with the port it serves published. -/
private def servingRank : RunArgs wholes :=
  { idleRank with portMappings := ["8000:8000".toList], networkHost := none }

end SparkPulse.Containers
