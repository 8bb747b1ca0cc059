import Mathlib.Data.List.AList
import Mathlib.Data.Rat.Lemmas
import SparkPulse.Network.Address
import SparkPulse.Recipes.Names

/-!
# Container metadata

The labels of a container are what survives a restart of the control plane, and two services write
and read them: `ContainerMetadata` of `tools/docker.py` on the control node, and `labels.rs` in the
agent on every other one. Between the two the metadata crosses the wire as a protocol message. What
they make of one record, in each combination, is the record again, for records of which every field
is one that both sides can tell from an absent one.

How floats are printed and read is a parameter, with the documented round trip as its law.
-/

namespace SparkPulse.Containers

open Recipes (Text)

/-! ## Floats -/

inductive Magnitude
  | finite (q : ℚ)
  | infinite (negative : Bool)
  | nan

/-- The floats of both languages, which are the same, and their texts, which are not. -/
structure Doubles where
  Double : Type
  value : Double → Magnitude
  /-- The float nearest to an integer. -/
  ofInt : ℤ → Double
  /-- The sum with an integer, rounded. -/
  plus : Double → ℤ → Double
  /-- Python's `str`. -/
  str : Double → Text
  /-- Rust's `{}`. -/
  display : Double → Text
  /-- Rust's `{:.1}`. -/
  fixed : Double → Text
  /-- Python's `float`, of a text. -/
  float : Text → Option Double
  /-- Rust's `parse::<f64>`. -/
  parse : Text → Option Double
  float_nil : float [] = none
  parse_nil : parse [] = none
  float_str : ∀ x, value x ≠ .nan → float (str x) = some x
  parse_str : ∀ x, value x ≠ .nan → parse (str x) = some x
  float_display : ∀ x, value x ≠ .nan → float (display x) = some x
  parse_display : ∀ x, value x ≠ .nan → parse (display x) = some x
  float_fixed : ∀ x (n : ℤ), value x = .finite n → float (fixed x) = some x
  parse_fixed : ∀ x (n : ℤ), value x = .finite n → parse (fixed x) = some x

variable (D : Doubles)

/-- Whether a float counts as true. -/
def Doubles.truthy (x : D.Double) : Bool :=
  match D.value x with
  | .finite q => q ≠ 0
  | _ => true

/-- `py_float`: meant to render a float as Python's `str` does. -/
def Doubles.pyFloat (x : D.Double) : Text :=
  match D.value x with
  | .finite q => if q.den = 1 ∧ |q| < 10 ^ 16 then D.fixed x else D.display x
  | _ => D.display x

/-- The label of a limit: empty where there is none, and where it is zero. -/
def Doubles.limitLabel (print : D.Double → Text) : Option D.Double → Text
  | some x => if D.truthy x then print x else []
  | none => []

/-- Rust's `char::is_whitespace`. -/
def isWhitespace (c : Char) : Bool := Runtime.isSpace c && !(28 ≤ c.val && c.val ≤ 31)

/-! ## Labels -/

inductive LabelKey
  | managed
  | name
  | version
  | createdAt
  | image
  | deployment
  | recipe
  | mode
  | memoryLimit
  | shmSize
  | privileged
  | generation
  | rank
  | worldSize
  deriving DecidableEq, Repr

/-- The full key of a label. -/
def LabelKey.label : LabelKey → String
  | managed => "spark-pulse.managed"
  | name => "spark-pulse.name"
  | version => "spark-pulse.version"
  | createdAt => "spark-pulse.created_at"
  | image => "spark-pulse.image"
  | deployment => "spark-pulse.deployment"
  | recipe => "spark-pulse.recipe"
  | mode => "spark-pulse.mode"
  | memoryLimit => "spark-pulse.memory_limit_gb"
  | shmSize => "spark-pulse.shm_size_gb"
  | privileged => "spark-pulse.privileged"
  | generation => "spark-pulse.generation"
  | rank => "spark-pulse.rank"
  | worldSize => "spark-pulse.world_size"

abbrev Labels := AList fun _ : LabelKey ↦ Text

def boolLabel (b : Bool) : Text := if b then "true".toList else "false".toList

/-- The decimal text of a natural number. -/
def natLabel (n : ℕ) : Text := Nat.toDigits 10 n

/-- `dict.update` -/
def Labels.update (labels : Labels) (entries : List (LabelKey × Text)) : Labels :=
  entries.foldl (fun labels e ↦ labels.insert e.1 e.2) labels

/-- The labels that say which rank of which attempt a container is. -/
def identityLabels (deployment : Text) (generation rank worldSize : ℕ) : List (LabelKey × Text) :=
  [(.deployment, deployment), (.generation, natLabel generation), (.rank, natLabel rank),
    (.worldSize, natLabel worldSize)]

/-- The labels of both services, given the texts of the limits. -/
def metadataLabels (deployment recipe image mode createdAt memoryLimit shmSize : Text)
    (privileged : Bool) (generation rank worldSize : ℕ) : Labels :=
  let labels : Labels := Labels.update ∅
    [(.managed, "true".toList), (.deployment, deployment), (.recipe, recipe), (.image, image),
      (.mode, mode), (.createdAt, createdAt), (.version, "1".toList), (.memoryLimit, memoryLimit),
      (.shmSize, shmSize), (.privileged, boolLabel privileged)]
  if generation = 0 then labels
  else labels.update (identityLabels deployment generation rank worldSize)

/-! ## The Python service -/

def solo : Text := "solo".toList

/-- The metadata shape of every container service of the control plane. -/
structure ContainerMetadata where
  deployment : Text := []
  recipe : Text := []
  image : Text := []
  mode : Text := solo
  createdAt : Option Text := none
  memoryLimitGb : Option D.Double := none
  shmSizeGb : D.Double := D.ofInt 64
  privileged : Bool := true
  generation : ℕ := 0
  rank : ℕ := 0
  worldSize : ℕ := 1

namespace ContainerMetadata

variable {D} (m : ContainerMetadata D)

def memoryLabel : Text := D.limitLabel D.str m.memoryLimitGb

def toLabels : Labels :=
  metadataLabels m.deployment m.recipe m.image m.mode (m.createdAt.getD []) m.memoryLabel
    (D.str m.shmSizeGb) m.privileged m.generation m.rank m.worldSize

/-- `_int`: the number, or a default where there is none. -/
def readInt (raw : Text) (default : ℕ) : ℕ :=
  (Network.decimal? (Recipes.trim Runtime.isSpace raw)).getD default

/-- A limit that may be absent; one that is no number raises. -/
def readLimit (raw : Text) : Option (Option D.Double) :=
  if raw = [] then some none else (D.float raw).map some

/-- Read metadata back. -/
def fromLabels (labels : Labels) : Option (ContainerMetadata D) := do
  let get (key : LabelKey) (default : Text) : Text := (labels.lookup key).getD default
  let memoryLimitGb ← readLimit (get .memoryLimit [])
  let shmSizeGb ← D.float (get .shmSize "64".toList)
  let created := get .createdAt []
  return {
    deployment := get .deployment []
    recipe := get .recipe []
    image := get .image []
    mode := get .mode solo
    createdAt := if created = [] then none else some created
    memoryLimitGb, shmSizeGb
    privileged := get .privileged "true".toList = "true".toList
    generation := readInt (get .generation []) 0
    rank := readInt (get .rank []) 0
    worldSize := readInt (get .worldSize []) 1 }

end ContainerMetadata

/-! ## The wire -/

/-- The protocol message; an absent field is one that was not set. -/
structure PbMetadata where
  deployment : Text := []
  recipe : Text := []
  image : Text := []
  mode : Option Text := none
  createdAt : Option Text := none
  memoryLimitGb : Option D.Double := none
  shmSizeGb : Option D.Double := none
  privileged : Option Bool := none
  generation : ℕ := 0
  rank : ℕ := 0
  worldSize : Option ℕ := none

variable {D}

/-- `encode_metadata`; a number that does not fit its field raises. -/
def encodeMetadata (m : ContainerMetadata D) : Option (PbMetadata D) :=
  if m.generation < 2 ^ 32 ∧ m.rank < 2 ^ 32 ∧ m.worldSize < 2 ^ 32 then
    some { deployment := m.deployment, recipe := m.recipe, image := m.image, mode := some m.mode
           createdAt := m.createdAt, memoryLimitGb := m.memoryLimitGb
           shmSizeGb := some m.shmSizeGb, privileged := some m.privileged
           generation := m.generation, rank := m.rank, worldSize := some m.worldSize }
  else none

/-- `decode_metadata`: present fields only, and the record's own defaults for the others. -/
def decodeMetadata (p : PbMetadata D) : ContainerMetadata D :=
  { deployment := p.deployment, recipe := p.recipe, image := p.image
    mode := p.mode.getD solo, createdAt := p.createdAt, memoryLimitGb := p.memoryLimitGb
    shmSizeGb := p.shmSizeGb.getD (D.ofInt 64), privileged := p.privileged.getD true
    generation := p.generation, rank := p.rank, worldSize := p.worldSize.getD 1 }

/-! ## The Rust agent -/

namespace PbMetadata

variable (p : PbMetadata D)

def memoryLabel : Text := D.limitLabel D.pyFloat p.memoryLimitGb

def toLabels : Labels :=
  metadataLabels p.deployment p.recipe p.image (p.mode.getD solo) (p.createdAt.getD [])
    p.memoryLabel (D.pyFloat (p.shmSizeGb.getD (D.ofInt 64))) (p.privileged.getD true)
    p.generation p.rank (p.worldSize.getD 1)

/-- `int_or`: the number, or a default where there is none or it is out of range. -/
def readInt (raw : Text) (default : ℕ) : ℕ :=
  match Network.decimal? (Recipes.trim isWhitespace raw) with
  | some n => if n < 2 ^ 32 then n else default
  | none => default

def fromLabels (labels : Labels) : PbMetadata D :=
  let get (key : LabelKey) : Text := (labels.lookup key).getD []
  let memory := get .memoryLimit
  let mode := get .mode
  let created := get .createdAt
  { deployment := get .deployment, recipe := get .recipe, image := get .image
    mode := some (if mode = [] then solo else mode)
    createdAt := if created = [] then none else some created
    memoryLimitGb := if memory = [] then none else D.parse memory
    shmSizeGb := some ((D.parse (get .shmSize)).getD (D.ofInt 64))
    privileged := some (get .privileged = [] || get .privileged = "true".toList)
    generation := readInt (get .generation) 0
    rank := readInt (get .rank) 0
    worldSize := some (readInt (get .worldSize) 1) }

end PbMetadata

/-! ## What is read of the labels -/

section Lookup

variable (deployment recipe image mode createdAt memoryLimit shmSize : Text) (privileged : Bool)
  (generation rank worldSize : ℕ)

/-- The last of the entries under a key is what is found there. -/
theorem lookup_update (labels : Labels) (entries : List (LabelKey × Text)) (key : LabelKey) :
    (labels.update entries).lookup key =
      ((entries.reverse.find? (·.1 = key)).map Prod.snd).or (labels.lookup key) := by
  induction entries generalizing labels with
  | nil => rfl
  | cons e entries ih =>
    rw [Labels.update, List.foldl_cons, ← Labels.update, ih, List.reverse_cons, List.find?_append,
      Option.map_or, Option.or_assoc]
    congr 1
    by_cases hkey : e.1 = key
    · subst hkey
      simp
    · rw [AList.lookup_insert_ne (Ne.symm hkey)]
      simp [hkey]

/-- What the labels of a record say, key by key. -/
theorem lookup_metadataLabels (key : LabelKey) :
    (metadataLabels deployment recipe image mode createdAt memoryLimit shmSize privileged generation
        rank worldSize).lookup key =
      match key with
      | .managed => some "true".toList
      | .name => none
      | .version => some "1".toList
      | .createdAt => some createdAt
      | .image => some image
      | .deployment => some deployment
      | .recipe => some recipe
      | .mode => some mode
      | .memoryLimit => some memoryLimit
      | .shmSize => some shmSize
      | .privileged => some (boolLabel privileged)
      | .generation => if generation = 0 then none else some (natLabel generation)
      | .rank => if generation = 0 then none else some (natLabel rank)
      | .worldSize => if generation = 0 then none else some (natLabel worldSize) := by
  unfold metadataLabels
  simp only
  split_ifs with h
  · rw [lookup_update]
    cases key <;> rfl
  · rw [lookup_update, lookup_update]
    cases key <;> rfl

end Lookup

/-! ## Texts of numbers -/

theorem trim_natLabel (p : Char → Bool) (hp : ∀ c : Char, c.isDigit → p c = false) (n : ℕ) :
    Recipes.trim p (natLabel n) = natLabel n := by
  have hdigit : ∀ c ∈ natLabel n, p c = false := fun c hc ↦
    hp c (Nat.isDigit_of_mem_toDigits (by decide) (by decide) hc)
  have hdrop : (natLabel n).dropWhile p = natLabel n := by
    cases h : natLabel n with
    | nil => rfl
    | cons c cs => rw [List.dropWhile_cons_of_neg (by simp [hdigit c (h ▸ List.mem_cons_self)])]
  rw [Recipes.trim, hdrop, List.rdropWhile_eq_self_iff]
  intro hne
  simp [hdigit _ (List.getLast_mem hne)]

theorem isSpace_of_isDigit {c : Char} (h : c.isDigit) : Runtime.isSpace c = false :=
  Runtime.isSpace_eq_false_of_isAlphanum (by simp [Char.isAlphanum, h])

/-- A number that a label holds is read back. -/
theorem ContainerMetadata.readInt_natLabel (n default : ℕ) :
    ContainerMetadata.readInt (natLabel n) default = n := by
  rw [ContainerMetadata.readInt, trim_natLabel _ fun _ ↦ isSpace_of_isDigit, natLabel,
    Network.decimal?_toDigits, Option.getD_some]

theorem PbMetadata.readInt_natLabel {n : ℕ} (hn : n < 2 ^ 32) (default : ℕ) :
    PbMetadata.readInt (natLabel n) default = n := by
  have hspace : ∀ c : Char, c.isDigit → isWhitespace c = false := fun c hc ↦ by
    simp [isWhitespace, isSpace_of_isDigit hc]
  rw [PbMetadata.readInt, trim_natLabel _ hspace, natLabel, Network.decimal?_toDigits]
  exact if_pos hn

variable {x : D.Double}

/-- What reads the texts of Rust's formats reads that of `py_float`. -/
theorem Doubles.read_pyFloat (read : Text → Option D.Double)
    (hdisplay : read (D.display x) = some x)
    (hfixed : ∀ n : ℤ, D.value x = .finite n → read (D.fixed x) = some x) :
    read (D.pyFloat x) = some x := by
  unfold Doubles.pyFloat
  split
  · rename_i q hq
    split_ifs with hwhole
    · rw [← Rat.coe_int_num_of_den_eq_one hwhole.1] at hq
      exact hfixed _ hq
    · exact hdisplay
  · exact hdisplay

theorem Doubles.float_pyFloat (hx : D.value x ≠ .nan) : D.float (D.pyFloat x) = some x :=
  D.read_pyFloat _ (D.float_display x hx) (D.float_fixed x)

theorem Doubles.parse_pyFloat (hx : D.value x ≠ .nan) : D.parse (D.pyFloat x) = some x :=
  D.read_pyFloat _ (D.parse_display x hx) (D.parse_fixed x)

theorem boolLabel_eq_true (b : Bool) : (boolLabel b = "true".toList) = (b = true) := by
  cases b <;> decide

theorem boolLabel_ne_nil (b : Bool) : (boolLabel b = []) = False := by
  cases b <;> decide

theorem ContainerMetadata.readInt_nil (default : ℕ) :
    ContainerMetadata.readInt [] default = default := rfl

theorem PbMetadata.readInt_nil (default : ℕ) : PbMetadata.readInt [] default = default := rfl

/-! ## Round trips -/

/-- Metadata of which every field is one that labels and messages tell from an absent one: a
container that has a rank has a generation, and limits are not zero. -/
structure ContainerMetadata.Kept (m : ContainerMetadata D) : Prop where
  identity : m.generation ≠ 0 ∨ m.rank = 0 ∧ m.worldSize = 1
  memoryLimitGb : ∀ x ∈ m.memoryLimitGb, D.truthy x = true ∧ D.value x ≠ .nan
  shmSizeGb : D.value m.shmSizeGb ≠ .nan
  mode : m.mode ≠ []
  createdAt : m.createdAt ≠ some []
  generation : m.generation < 2 ^ 32
  rank : m.rank < 2 ^ 32
  worldSize : m.worldSize < 2 ^ 32

section RoundTrip

variable {m : ContainerMetadata D} {memory shm : Text}

/-- Labels that hold a record, with limits in texts that are read as its own. -/
def ContainerMetadata.labelsWith (m : ContainerMetadata D) (memory shm : Text) : Labels :=
  metadataLabels m.deployment m.recipe m.image m.mode (m.createdAt.getD []) memory shm m.privileged
    m.generation m.rank m.worldSize

theorem ContainerMetadata.Kept.createdAt_getD (h : m.Kept) :
    (if m.createdAt.getD [] = [] then none else some (m.createdAt.getD [])) = m.createdAt := by
  cases hcreated : m.createdAt with
  | none => rfl
  | some created =>
    have hne : created ≠ [] := fun hnil ↦ h.createdAt (by rw [hcreated, hnil])
    simp [hne]

/-- What the Python service reads of a kept record. -/
theorem ContainerMetadata.Kept.fromLabels (h : m.Kept)
    (hmemory : ContainerMetadata.readLimit memory = some m.memoryLimitGb)
    (hshm : D.float shm = some m.shmSizeGb) :
    ContainerMetadata.fromLabels (m.labelsWith memory shm) = some m := by
  have hcreated := h.createdAt_getD
  unfold ContainerMetadata.fromLabels labelsWith
  simp only [lookup_metadataLabels, Option.getD_some, hmemory, hshm, hcreated, boolLabel_eq_true,
    Option.bind_eq_bind, Option.bind_some, Bool.decide_eq_true, Option.pure_def, Option.some.injEq]
  by_cases hgeneration : m.generation = 0
  · obtain ⟨hrank, hworld⟩ := h.identity.resolve_left (not_not.mpr hgeneration)
    simp only [if_pos hgeneration, Option.getD_none, readInt_nil]
    cases m
    simp only at hgeneration hrank hworld
    rw [hgeneration, hrank, hworld]
  · simp only [if_neg hgeneration, Option.getD_some, readInt_natLabel]

/-- What the Rust agent reads of a kept record is the message that would be sent for it. -/
theorem ContainerMetadata.Kept.pbFromLabels (h : m.Kept)
    (hmemory : (if memory = [] then none else D.parse memory) = m.memoryLimitGb)
    (hshm : D.parse shm = some m.shmSizeGb) :
    encodeMetadata m = some (PbMetadata.fromLabels (m.labelsWith memory shm)) := by
  have hcreated := h.createdAt_getD
  rw [encodeMetadata, if_pos ⟨h.generation, h.rank, h.worldSize⟩]
  unfold PbMetadata.fromLabels labelsWith
  simp only [lookup_metadataLabels, Option.getD_some, hmemory, hshm, hcreated, if_neg h.mode,
    boolLabel_eq_true, boolLabel_ne_nil, decide_false, Bool.false_or, Bool.decide_eq_true]
  by_cases hgeneration : m.generation = 0
  · obtain ⟨hrank, hworld⟩ := h.identity.resolve_left (not_not.mpr hgeneration)
    simp only [hgeneration, hrank, hworld, if_true, Option.getD_none, PbMetadata.readInt_nil]
  · simp only [if_neg hgeneration, Option.getD_some, PbMetadata.readInt_natLabel h.generation,
      PbMetadata.readInt_natLabel h.rank, PbMetadata.readInt_natLabel h.worldSize]

/-- A message is decoded as what was encoded. -/
theorem decodeMetadata_encodeMetadata {p : PbMetadata D} (h : encodeMetadata m = some p) :
    decodeMetadata p = m := by
  unfold encodeMetadata at h
  split_ifs at h
  cases h
  rfl

/-! ### Who writes and who reads -/

/-- Who writes the labels of a record: the Python service on the control node, or the one of an
agent that was sent a message. -/
inductive Writer
  | python
  | pythonAgent
  | rustAgent

def Writer.write (m : ContainerMetadata D) : Writer → Option Labels
  | python => some m.toLabels
  | pythonAgent => (encodeMetadata m).map fun p ↦ (decodeMetadata p).toLabels
  | rustAgent => (encodeMetadata m).map PbMetadata.toLabels

/-- Who reads them: the Python service on the control node, or one that answers with a message. -/
inductive Reader
  | python
  | pythonAgent
  | rustAgent

def Reader.read (labels : Labels) : Reader → Option (ContainerMetadata D)
  | python => ContainerMetadata.fromLabels labels
  | pythonAgent => do
    let m ← ContainerMetadata.fromLabels labels
    return decodeMetadata (← encodeMetadata m)
  | rustAgent => some (decodeMetadata (PbMetadata.fromLabels labels))

/-- A text that both languages read as a float is read as a limit, since it is not empty. -/
theorem readLimit_of_float {raw : Text} (hfloat : D.float raw = some x)
    (hparse : D.parse raw = some x) : ContainerMetadata.readLimit raw = some (some x) ∧
      (if raw = [] then none else D.parse raw) = some x := by
  have hne : raw ≠ [] := by
    rintro rfl
    rw [D.float_nil] at hfloat
    cases hfloat
  rw [ContainerMetadata.readLimit, if_neg hne, if_neg hne, hfloat]
  exact ⟨rfl, hparse⟩

/-- The label of a limit that is not zero is read as the limit. -/
theorem readLimit_limitLabel {print : D.Double → Text} {limit : Option D.Double}
    (hlimit : ∀ x ∈ limit, D.truthy x = true)
    (hprint : ∀ x ∈ limit, D.float (print x) = some x ∧ D.parse (print x) = some x) :
    ContainerMetadata.readLimit (D.limitLabel print limit) = some limit ∧
      (if D.limitLabel print limit = [] then none else D.parse (D.limitLabel print limit)) =
        limit := by
  cases limit with
  | none => exact ⟨rfl, rfl⟩
  | some x =>
    obtain ⟨hfloat, hparse⟩ := hprint x rfl
    rw [Doubles.limitLabel, if_pos (hlimit x rfl)]
    exact readLimit_of_float hfloat hparse

/-- Whoever writes a kept record writes limits that both languages read as its own. -/
theorem ContainerMetadata.Kept.write (h : m.Kept) (w : Writer) : ∃ memory shm,
    w.write m = some (m.labelsWith memory shm) ∧
      (ContainerMetadata.readLimit memory = some m.memoryLimitGb ∧
        (if memory = [] then none else D.parse memory) = m.memoryLimitGb) ∧
      D.float shm = some m.shmSizeGb ∧ D.parse shm = some m.shmSizeGb := by
  have htruthy : ∀ x ∈ m.memoryLimitGb, D.truthy x = true := fun x hx ↦ (h.memoryLimitGb x hx).1
  have hnan : ∀ x ∈ m.memoryLimitGb, D.value x ≠ .nan := fun x hx ↦ (h.memoryLimitGb x hx).2
  have hpython := readLimit_limitLabel htruthy fun x hx ↦
    ⟨D.float_str x (hnan x hx), D.parse_str x (hnan x hx)⟩
  have hrust := readLimit_limitLabel htruthy fun x hx ↦
    ⟨D.float_pyFloat (hnan x hx), D.parse_pyFloat (hnan x hx)⟩
  obtain ⟨p, hp⟩ : ∃ p, encodeMetadata m = some p := by
    rw [encodeMetadata, if_pos ⟨h.generation, h.rank, h.worldSize⟩]
    exact ⟨_, rfl⟩
  cases w with
  | python =>
    exact ⟨m.memoryLabel, D.str m.shmSizeGb, rfl, hpython, D.float_str _ h.shmSizeGb,
      D.parse_str _ h.shmSizeGb⟩
  | pythonAgent =>
    refine ⟨m.memoryLabel, D.str m.shmSizeGb, ?_, hpython, D.float_str _ h.shmSizeGb,
      D.parse_str _ h.shmSizeGb⟩
    rw [Writer.write, hp, Option.map_some, decodeMetadata_encodeMetadata hp]
    rfl
  | rustAgent =>
    refine ⟨D.limitLabel D.pyFloat m.memoryLimitGb, D.pyFloat m.shmSizeGb, ?_, hrust,
      D.float_pyFloat h.shmSizeGb, D.parse_pyFloat h.shmSizeGb⟩
    rw [Writer.write, hp, Option.map_some]
    unfold encodeMetadata at hp
    split_ifs at hp
    cases hp
    rfl

/-- **Metadata survives its labels**, whoever writes them and whoever reads them. -/
theorem ContainerMetadata.Kept.read_write (h : m.Kept) (w : Writer) (r : Reader) :
    ((w.write m).bind fun labels ↦ r.read labels) = some m := by
  obtain ⟨memory, shm, hwrite, ⟨hmemory, hmemory'⟩, hshm, hshm'⟩ := h.write w
  have hpython := h.fromLabels hmemory hshm
  have hrust := h.pbFromLabels hmemory' hshm'
  rw [hwrite, Option.bind_some]
  cases r with
  | python => exact hpython
  | pythonAgent =>
    rw [Reader.read, hpython, Option.bind_eq_bind, Option.bind_some, hrust]
    exact congrArg some (decodeMetadata_encodeMetadata hrust)
  | rustAgent => exact congrArg some (decodeMetadata_encodeMetadata hrust)

end RoundTrip

/-! ### Whole numbers

The floats without their fractions, signs and infinities, as both languages print and read them. -/

/-- A whole number, with or without one zero after the point. -/
def readWhole (t : Text) : Option ℕ :=
  if ".0".toList <:+ t then Network.decimal? (t.take (t.length - 2)) else Network.decimal? t

theorem readWhole_fixed (n : ℕ) : readWhole (natLabel n ++ ".0".toList) = some n := by
  rw [readWhole, if_pos (List.suffix_append ..), List.length_append]
  exact (congrArg Network.decimal? (List.take_left' rfl)).trans (Network.decimal?_toDigits n)

theorem readWhole_display (n : ℕ) : readWhole (natLabel n) = some n := by
  rw [readWhole, if_neg, natLabel, Network.decimal?_toDigits]
  intro hsuffix
  have hdigit : Char.isDigit '.' = true :=
    Nat.isDigit_of_mem_toDigits (by decide) (by decide) (hsuffix.subset (by decide))
  cases hdigit

def wholes : Doubles where
  Double := ℕ
  value n := .finite n
  ofInt n := n.toNat
  plus n k := (n + k).toNat
  str n := natLabel n ++ ".0".toList
  display n := natLabel n
  fixed n := natLabel n ++ ".0".toList
  float := readWhole
  parse := readWhole
  float_nil := rfl
  parse_nil := rfl
  float_str n _ := readWhole_fixed n
  parse_str n _ := readWhole_fixed n
  float_display n _ := readWhole_display n
  parse_display n _ := readWhole_display n
  float_fixed n _ _ := readWhole_fixed n
  parse_fixed n _ _ := readWhole_fixed n

theorem wholes_value_ne_nan (n : ℕ) : wholes.value n ≠ .nan := by
  intro h
  cases h

/-- The third of four ranks, as a plan describes it. -/
private def thirdRank : ContainerMetadata wholes where
  deployment := "d1".toList
  recipe := "qwen3".toList
  image := "vllm".toList
  mode := "cluster".toList
  createdAt := some "2026-09-05".toList
  memoryLimitGb := some (96 : ℕ)
  shmSizeGb := (64 : ℕ)
  generation := 3
  rank := 2
  worldSize := 4

/-- What an agent wrote for it is read by the control node. -/
theorem thirdRank_kept :
    ((Writer.rustAgent.write thirdRank).bind fun labels ↦ Reader.python.read labels) =
      some thirdRank :=
  ContainerMetadata.Kept.read_write
    { identity := .inl (by decide)
      memoryLimitGb := fun x hx ↦ by
        obtain rfl : (96 : ℕ) = x := Option.some.inj hx
        exact ⟨by decide +kernel, wholes_value_ne_nan 96⟩
      shmSizeGb := wholes_value_ne_nan 64
      mode := by decide
      createdAt := by decide
      generation := by decide
      rank := by decide
      worldSize := by decide } .rustAgent .python

/-- A rank of no generation, which is not what a plan describes. -/
private def strayRank : ContainerMetadata wholes where
  shmSizeGb := (64 : ℕ)
  generation := 0
  rank := 1

/-- Its rank is not written. -/
theorem strayRank_lost :
    ((Writer.python.write strayRank).bind fun labels ↦ Reader.python.read labels) ≠
      some strayRank := by
  intro h
  have hrank := congrArg (Option.map ContainerMetadata.rank) h
  revert hrank
  decide +kernel

end SparkPulse.Containers
